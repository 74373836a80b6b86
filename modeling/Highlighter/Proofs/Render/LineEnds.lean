import Highlighter.Proofs.Render.Json
import Highlighter.Proofs.Render.Theme
import Highlighter.Proofs.Span.LineEnds

/-!
Outputs for texts with plain line ends. A terminal and a web page get the text itself, and a listing
quotes it, so that these outputs tell how many carriage returns the text has; a JSON document has
the positions only. So the output shows that a text has been given plain line ends if there were
carriage returns in it, and in JSON if there were some with a line feed behind them.
-/

set_option autoImplicit false

namespace Highlighter

section Counts

variable {t : Text} {c : Char}

theorem count_plainLineEnds (hc : isLineEnd c = false) (t : Text) :
    t.plainLineEnds.count c = t.count c := by
  have hne : '\n' ≠ c ∧ '\r' ≠ c := by
    constructor
    all_goals
      rintro rfl
      cases hc
  induction t using Text.pair_induction with
  | nil => rfl
  | pair t ih => simp [hne, ih]
  | lone t ht ih => simp [Text.plainLineEnds_return ht, hne, ih]
  | cons d t hd ih => simp [Text.plainLineEnds_cons hd, List.count_cons, ih]

theorem Span.Fill.flatMap_slice {spans : List Span} {start : Int}
    (h : Fill t.length start spans) (hstart : 0 ≤ start) :
    (spans.flatMap fun s => t.slice s.start s.stop) = t.drop start.toNat := by
  generalize hlength : (t.length : Int) = stop at h
  induction h with
  | nil =>
    subst hlength
    simp
  | @cons s rest hlt hrest ih =>
    have hle := hrest.bounds.1
    have hstop : s.stop.toNat = s.start.toNat + (s.stop.toNat - s.start.toNat) := by omega
    rw [List.flatMap_cons, ih (by omega), Text.slice, List.drop_take, hstop,
      Nat.add_sub_cancel_left, ← List.drop_drop, List.take_append_drop]

end Counts

namespace Ansi

variable {theme : Theme} {t t' : Text} {s s' : Span} {spans spans' : List Span} {output : Text}

theorem count_select (code : Nat) : (select code).count '\r' = 0 := by
  have hdigits : '\r' ∉ (toString code).toList := by
    intro h
    cases isDigit_of_mem_toString h
  refine List.count_eq_zero.mpr ?_
  simp only [select, List.cons_append, List.mem_cons, List.mem_append, hdigits, List.not_mem_nil]
  decide

theorem count_renderSpan (h : renderSpan theme t s = .ok output) :
    output.count '\r' = (t.slice s.start s.stop).count '\r' := by
  unfold renderSpan at h
  split at h
  · cases h
    rfl
  · split at h
    · cases h
    · cases h
      simp [List.count_append, count_select]

theorem count_render (h : render theme t spans = .ok output) :
    output.count '\r' = (spans.flatMap fun s => t.slice s.start s.stop).count '\r' := by
  induction spans generalizing output with
  | nil =>
    cases h
    rfl
  | cons s spans ih =>
    rw [render_cons] at h
    cases hfirst : renderSpan theme t s with
    | error e =>
      rw [hfirst] at h
      cases h
    | ok first =>
      cases hrest : render theme t spans with
      | error e =>
        rw [hfirst, hrest] at h
        cases h
      | ok rest =>
        rw [hfirst, hrest] at h
        cases h
        rw [List.flatMap_cons, List.count_append, List.count_append, count_renderSpan hfirst,
          ih hrest]

theorem renderSpan_error_congr (htag : s.tag = s'.tag) {e : UnknownColor}
    (h : renderSpan theme t s = .error e) : renderSpan theme t' s' = .error e := by
  unfold renderSpan at h ⊢
  rw [← htag]
  split at h
  · cases h
  · split at h
    · exact h
    · cases h

/-- Whether there is a colour for every span depends on the tags alone. -/
theorem render_error_congr (htags : spans.map Span.tag = spans'.map Span.tag) {e : UnknownColor}
    (h : render theme t spans = .error e) : render theme t' spans' = .error e := by
  induction spans generalizing spans' with
  | nil => cases h
  | cons s spans ih =>
    cases spans' with
    | nil => cases htags
    | cons s' spans' =>
      rw [List.map_cons, List.map_cons, List.cons.injEq] at htags
      rw [render_cons] at h ⊢
      cases hfirst : renderSpan theme t s with
      | error e' =>
        rw [hfirst] at h
        rw [renderSpan_error_congr htags.1 hfirst]
        exact h
      | ok first =>
        have hrest : render theme t spans = .error e := by
          rw [hfirst] at h
          cases hrest : render theme t spans with
          | error e' =>
            rw [hrest] at h
            exact h
          | ok rest =>
            rw [hrest] at h
            cases h
        rw [ih htags.2 hrest]
        cases hfirst' : renderSpan theme t' s' with
        | error e' =>
          rw [renderSpan_error_congr htags.1.symm hfirst'] at hfirst
          cases hfirst
        | ok first' => rfl

end Ansi

namespace Html

variable {before blank : Text} {t : Text} {spans : List Span}

theorem count_escape (t : Text) : (escape t).count '\r' = t.count '\r' := by
  have hchar : ∀ c, (escapeChar c).count '\r' = [c].count '\r' := by
    intro c
    unfold escapeChar
    split <;> rfl
  induction t with
  | nil => rfl
  | cons c t ih =>
    rw [escape, List.flatMap_cons, List.count_append, hchar, ← escape, ih, ← List.count_append,
      List.singleton_append]

theorem count_openSpan (classes : Text) : (openSpan classes).count '\r' = classes.count '\r' := by
  have hopen : "<span class=\"".toList.count '\r' = 0 := by decide
  have hquote : "\">".toList.count '\r' = 0 := by decide
  unfold openSpan
  rw [List.count_append, List.count_append, hopen, hquote, Nat.zero_add, Nat.add_zero]

/-- The class of a span, if it has one. -/
def className (before blank tag : Text) : Text := if tag = blank then [] else before ++ tag

theorem count_renderSpan (before blank t : Text) (s : Span) :
    (renderSpan before blank t s).count '\r' =
      (className before blank s.tag).count '\r' + (t.slice s.start s.stop).count '\r' := by
  have hclose : closeSpan.count '\r' = 0 := by decide
  unfold renderSpan className
  dsimp only
  split
  · rw [count_escape, List.count_nil, Nat.zero_add]
  · rw [List.count_append, List.count_append, count_openSpan, count_escape, hclose, Nat.add_zero]

theorem count_render (before blank t : Text) (spans : List Span) :
    (render before blank t spans).count '\r' =
      (spans.flatMap fun s => className before blank s.tag).count '\r' +
        (spans.flatMap fun s => t.slice s.start s.stop).count '\r' := by
  have hopen : openPre.count '\r' = 0 := by decide
  have hclose : closePre.count '\r' = 0 := by decide
  rw [render, List.count_append, List.count_append, hopen, hclose, Nat.zero_add, Nat.add_zero]
  induction spans with
  | nil => rfl
  | cons s spans ih =>
    rw [List.flatMap_cons, List.flatMap_cons, List.flatMap_cons, List.count_append,
      List.count_append, List.count_append, ih, count_renderSpan]
    omega

end Html

section Listing

theorem not_mem_hexDigits (width n : Nat) : 'r' ∉ hexDigits width n := by
  have hdigit : ∀ m < 16, hexDigit m ≠ 'r' := by decide
  induction width generalizing n with
  | zero => simp [hexDigits]
  | succ width ih =>
    rw [hexDigits, List.mem_append, List.mem_singleton, not_or]
    exact ⟨ih _, (hdigit _ (Nat.mod_lt _ (by decide))).symm⟩

theorem quoteMark_cases (t : Text) : t.quoteMark = '"' ∨ t.quoteMark = '\'' := by
  unfold Text.quoteMark
  split
  · exact .inl rfl
  · exact .inr rfl

theorem count_escapeQuoted {mark : Char} (hmark : mark = '"' ∨ mark = '\'') (c : Char) :
    (Text.escapeQuoted mark c).count 'r' = [c].count 'r' + [c].count '\r' := by
  have hhex : ∀ width n, (hexDigits width n).count 'r' = 0 :=
    fun width n => List.count_eq_zero.mpr (not_mem_hexDigits width n)
  unfold Text.escapeQuoted
  split
  · rename_i hself
    rw [Bool.or_eq_true, decide_eq_true_eq, decide_eq_true_eq] at hself
    rcases hself with rfl | rfl
    · rfl
    · rcases hmark with rfl | rfl <;> rfl
  split
  · simp [*]
  split
  · simp [*]
  rename_i hreturn
  split
  · simp [*]
  split
  · simp [hreturn]
  rename_i hprint
  have hr : c ≠ 'r' := by
    rintro rfl
    exact hprint (by decide)
  split
  · simp [hhex, hr, hreturn]
  split
  · simp [hhex, hr, hreturn]
  · simp [hhex, hr, hreturn]

/-- A quoted text has an `r` for every `r` and for every carriage return. -/
theorem count_quoted (t : Text) : t.quoted.count 'r' = t.count 'r' + t.count '\r' := by
  have hmark := quoteMark_cases t
  rw [Text.quoted]
  generalize t.quoteMark = mark at hmark
  have hescape : (t.flatMap (Text.escapeQuoted mark)).count 'r' = t.count 'r' + t.count '\r' := by
    induction t with
    | nil => rfl
    | cons c t ih =>
      have hcons : c :: t = [c] ++ t := rfl
      rw [List.flatMap_cons, List.count_append, ih, count_escapeQuoted hmark, hcons,
        List.count_append, List.count_append]
      omega
  have hone : [mark].count 'r' = 0 := by
    rcases hmark with rfl | rfl <;> rfl
  rw [← List.singleton_append, List.count_append, List.count_append, hone, hescape, Nat.zero_add,
    Nat.add_zero]

theorem count_line (u : Token) :
    u.line.count 'r' =
      u.kind.name.toList.count 'r' + (u.lexeme.count 'r' + u.lexeme.count '\r') := by
  have hnumber : ∀ n : Int, n.repr.toList.count 'r' = 0 :=
    fun n => List.count_eq_zero.mpr (not_mem_toString_int (by decide) rfl n)
  unfold Token.line
  dsimp only
  rw [← count_quoted]
  simp [List.count_replicate, hnumber]

theorem count_listing (tokens : List Token) :
    (listing tokens).count 'r' =
      (tokens.flatMap fun u => u.kind.name.toList).count 'r' +
        ((tokens.flatMap (·.lexeme)).count 'r' + (tokens.flatMap (·.lexeme)).count '\r') := by
  induction tokens with
  | nil => rfl
  | cons u tokens ih =>
    rw [listing] at ih ⊢
    rw [List.flatMap_cons, List.flatMap_cons, List.flatMap_cons, List.count_append,
      List.count_append, List.count_append, List.count_append, ih, count_line]
    omega

end Listing

section Output

variable {format : Format} {c : Config} {theme : Theme} {t output : Text}

/-- The output for a text in this format shows how its lines end. -/
def Format.ShowsLineEnds (format : Format) (t : Text) : Prop :=
  if format = .json then ['\r', '\n'] <:+: t else '\r' ∈ t

instance (format : Format) (t : Text) : Decidable (format.ShowsLineEnds t) :=
  inferInstanceAs (Decidable (if format = .json then ['\r', '\n'] <:+: t else '\r' ∈ t))

theorem map_tag_highlight_plainLineEnds (c : Config) (t : Text) :
    (highlight c t.plainLineEnds).map Span.tag = (highlight c t).map Span.tag := by
  rw [highlight_plainLineEnds, List.map_map]
  rfl

theorem flatMap_slice_highlight (c : Config) (t : Text) :
    ((highlight c t).flatMap fun s => t.slice s.start s.stop) = t :=
  (highlight_fill c t).flatMap_slice (Int.le_refl 0)

theorem count_html (c : Config) (t : Text) :
    (Html.render Html.standardClass (c.tag .whitespace) t (highlight c t)).count '\r' =
      (((highlight c t).map Span.tag).flatMap
        (Html.className Html.standardClass (c.tag .whitespace))).count '\r' + t.count '\r' := by
  rw [Html.count_render, flatMap_slice_highlight, List.flatMap_map]

theorem count_tokens (k : Keywords) (t : Text) :
    (listing (tokenize k t)).count 'r' =
      ((tokenize k t).flatMap fun u => u.kind.name.toList).count 'r' +
        (t.count 'r' + t.count '\r') := by
  rw [count_listing, (tokenize_tiles k t).flatMap_lexeme, List.drop_zero]

/-- A text with the same output as with plain line ends has no carriage return, unless the output
has positions only. -/
theorem not_mem_of_render_plainLineEnds (hformat : format ≠ .json)
    (h : render format c theme t (tokenize c.keywords t) = .ok output)
    (hplain : render format c theme t.plainLineEnds (tokenize c.keywords t.plainLineEnds) =
      .ok output) : '\r' ∉ t := by
  have hnone : t.plainLineEnds.count '\r' = 0 :=
    List.count_eq_zero.mpr (Text.not_mem_plainLineEnds t)
  refine List.count_eq_zero.mp ?_
  cases format with
  | ansi =>
    have hcount := Ansi.count_render h
    have hcount' := Ansi.count_render hplain
    rw [← highlight, flatMap_slice_highlight] at hcount hcount'
    rw [← hcount, hcount', hnone]
  | html =>
    have hcount := count_html c t
    have hcount' := count_html c t.plainLineEnds
    have hout : Html.render Html.standardClass (c.tag .whitespace) t (highlight c t) = output :=
      Except.ok.inj h
    have hout' : Html.render Html.standardClass (c.tag .whitespace) t.plainLineEnds
        (highlight c t.plainLineEnds) = output := Except.ok.inj hplain
    rw [hout] at hcount
    rw [hout', map_tag_highlight_plainLineEnds, hnone] at hcount'
    omega
  | json => exact absurd rfl hformat
  | tokens =>
    have hcount := count_tokens c.keywords t
    have hcount' := count_tokens c.keywords t.plainLineEnds
    rw [Except.ok.inj h] at hcount
    rw [Except.ok.inj hplain, tokenize_plainLineEnds, List.flatMap_map, hnone,
      count_plainLineEnds (by decide)] at hcount'
    dsimp only [Token.withPlainLineEnds] at hcount'
    omega

theorem render_plainLineEnds_eq (h : ¬ format.ShowsLineEnds t) :
    render format c theme t.plainLineEnds (tokenize c.keywords t.plainLineEnds) =
      render format c theme t (tokenize c.keywords t) := by
  unfold Format.ShowsLineEnds at h
  split at h
  · rename_i hjson
    subst hjson
    exact congrArg (fun spans => Except.ok (Json.render spans))
      ((highlight_plainLineEnds_eq_iff c t).mpr h)
  · rw [Text.plainLineEnds_eq_self h]

/-- There is an output for a text with plain line ends if and only if there is one for the text, and
it is the same one if and only if it does not show how lines end. -/
theorem render_plainLineEnds_eq_iff (format : Format) (c : Config) (theme : Theme) (t : Text) :
    render format c theme t.plainLineEnds (tokenize c.keywords t.plainLineEnds) =
        render format c theme t (tokenize c.keywords t) ↔
      ((∃ output, render format c theme t (tokenize c.keywords t) = .ok output) →
        ¬ format.ShowsLineEnds t) := by
  refine ⟨?_, fun h => ?_⟩
  · rintro heq ⟨output, houtput⟩ hshows
    unfold Format.ShowsLineEnds at hshows
    split at hshows
    · rename_i hjson
      subst hjson
      have hspans := Json.render_inj (map_tag_highlight_plainLineEnds c t) (Except.ok.inj heq)
      exact (highlight_plainLineEnds_eq_iff c t).mp hspans hshows
    · rename_i hformat
      exact not_mem_of_render_plainLineEnds hformat houtput (heq.trans houtput) hshows
  · cases houtput : render format c theme t (tokenize c.keywords t) with
    | ok output =>
      rw [← houtput]
      exact render_plainLineEnds_eq (h ⟨output, houtput⟩)
    | error e =>
      cases format with
      | ansi => exact Ansi.render_error_congr (map_tag_highlight_plainLineEnds c t).symm houtput
      | html | json | tokens => cases houtput

end Output

end Highlighter
