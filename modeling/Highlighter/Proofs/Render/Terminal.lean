import Highlighter.Proofs.Render.LineEnds
import Highlighter.Proofs.Span.Unique

/-!
Text on a terminal. A terminal shows characters in its current colour, and escape sequences change
the colour. What it shows of the output for a text is the text, every character in the colour that
the theme gives to the tag of its token, and no colour is left on at the end.
-/

set_option autoImplicit false

namespace Highlighter

/-- The code of the colour that a tag is shown in, if the theme colours it. -/
def Theme.code? (theme : Theme) (tag : Text) : Option Nat := (theme.get? tag).bind colorCodes.get?

namespace Terminal

/-- What a terminal has shown, each character with its colour, and the colour that is on. -/
structure Screen where
  shown : List (Char × Option Nat)
  color : Option Nat
  deriving DecidableEq, Repr

/-- The number of the escape sequence at the front, and what comes behind it. -/
def readSelect : Text → Option (Nat × Text)
  | '\x1b' :: '[' :: s =>
    let digits := s.takeWhile Char.isDigit
    match s.dropWhile Char.isDigit with
    | 'm' :: rest => if digits = [] then none else some (Nat.ofDigitChars 10 digits 0, rest)
    | _ => none
  | _ => none

theorem readSelect_length {s rest : Text} {code : Nat} (h : readSelect s = some (code, rest)) :
    rest.length < s.length := by
  unfold readSelect at h
  split at h
  · rename_i s
    have hle := (List.dropWhile_sublist Char.isDigit (l := s)).length_le
    dsimp only at h
    split at h
    · rename_i hrest
      split at h
      · cases h
      · cases h
        rw [hrest] at hle
        simp only [List.length_cons] at hle ⊢
        omega
    · cases h
  · cases h

/-- Shows a text, in a colour until a sequence selects another one. The number zero selects none. -/
def run (color : Option Nat) (s : Text) : Screen :=
  match _h : readSelect s with
  | some (code, rest) => run (if code = 0 then none else some code) rest
  | none =>
    match s with
    | [] => ⟨[], color⟩
    | c :: s => ⟨(c, color) :: (run color s).shown, (run color s).color⟩
termination_by s.length
decreasing_by
  · exact readSelect_length _h
  · exact Nat.lt_succ_self _

variable {c : Char} {color : Option Nat} {s t : Text}

theorem readSelect_of_ne (h : c ≠ '\x1b') (s : Text) : readSelect (c :: s) = none := by
  unfold readSelect
  split
  · rename_i heq
    exact absurd (List.cons.inj heq).1 h
  · rfl

theorem readSelect_select (code : Nat) (s : Text) :
    readSelect (Ansi.select code ++ s) = some (code, s) := by
  have hdigits : ∀ c ∈ (toString code).toList, Char.isDigit c = true :=
    fun c hc => isDigit_of_mem_toString hc
  have hsplit : Ansi.select code ++ s =
      '\x1b' :: '[' :: ((toString code).toList ++ 'm' :: s) := by
    simp [Ansi.select]
  have htake : ((toString code).toList ++ 'm' :: s).takeWhile Char.isDigit =
      (toString code).toList := by
    rw [List.takeWhile_append_of_pos hdigits, List.takeWhile_cons_of_neg (by decide),
      List.append_nil]
  have hdrop : ((toString code).toList ++ 'm' :: s).dropWhile Char.isDigit = 'm' :: s := by
    rw [List.dropWhile_append_of_pos hdigits, List.dropWhile_cons_of_neg (by decide)]
  rw [hsplit, readSelect, hdrop, htake]
  simp

theorem run_select (color : Option Nat) (code : Nat) (s : Text) :
    run color (Ansi.select code ++ s) = run (if code = 0 then none else some code) s := by
  rw [run]
  split
  · rename_i heq
    rw [readSelect_select] at heq
    cases heq
    rfl
  · rename_i heq
    rw [readSelect_select] at heq
    cases heq

theorem run_nil (color : Option Nat) : run color [] = ⟨[], color⟩ := by
  rw [run]
  rfl

theorem run_cons (h : c ≠ '\x1b') (color : Option Nat) (s : Text) :
    run color (c :: s) = ⟨(c, color) :: (run color s).shown, (run color s).color⟩ := by
  rw [run]
  split
  · rename_i heq
    rw [readSelect_of_ne h] at heq
    cases heq
  · rfl

theorem run_append (h : '\x1b' ∉ t) (color : Option Nat) (s : Text) :
    run color (t ++ s) =
      ⟨t.map (·, color) ++ (run color s).shown, (run color s).color⟩ := by
  induction t with
  | nil => rfl
  | cons c t ih =>
    rw [List.mem_cons, not_or] at h
    rw [List.cons_append, run_cons (Ne.symm h.1), ih h.2]
    rfl

end Terminal

section Colors

variable {theme : Theme} {color : Text} {code : Nat}

/-- No colour has the number that goes back to no colour. -/
theorem code_ne_zero (h : colorCodes.get? color = some code) : code ≠ 0 := by
  have hall : ∀ e ∈ colorCodes, e.2 ≠ 0 := by decide
  exact hall _ (Entries.mem_of_get? h)

theorem Theme.Known.code?_eq_none_iff (h : theme.Known) (tag : Text) :
    theme.code? tag = none ↔ theme.get? tag = none := by
  unfold Theme.code?
  cases hcolor : theme.get? tag with
  | none => simp
  | some color =>
    have hcode := h tag color hcolor
    cases hget : colorCodes.get? color with
    | none => simp [hget] at hcode
    | some code => simp [hget]

end Colors

section Render

variable {theme : Theme} {t : Text} {s : Span} {spans : List Span} {start : Int}

theorem not_mem_slice {c : Char} (h : c ∉ t) (i j : Int) : c ∉ t.slice i j := by
  intro hmem
  exact h (List.mem_of_mem_take (List.mem_of_mem_drop hmem))

/-- What a span is shown as: what it covers, in the colour of its tag. -/
def Span.shown (theme : Theme) (t : Text) (s : Span) : List (Char × Option Nat) :=
  (t.slice s.start s.stop).map (·, theme.code? s.tag)

/-- A span is shown in its colour, and no colour is left on behind it. -/
theorem Terminal.exists_run_renderSpan (h : theme.Known) (ht : '\x1b' ∉ t) (s : Span) :
    ∃ first, Ansi.renderSpan theme t s = .ok first ∧ ∀ rest, run none (first ++ rest) =
      ⟨s.shown theme t ++ (run none rest).shown, (run none rest).color⟩ := by
  have hplain := not_mem_slice ht s.start s.stop
  unfold Ansi.renderSpan Span.shown Theme.code?
  cases hcolor : theme.get? s.tag with
  | none => exact ⟨_, rfl, run_append hplain none⟩
  | some color =>
    obtain ⟨code, hcode⟩ := Option.isSome_iff_exists.mp (h _ _ hcolor)
    simp only [Option.bind_some, hcode]
    refine ⟨_, rfl, fun rest => ?_⟩
    rw [List.append_assoc, List.append_assoc, run_select, if_neg (code_ne_zero hcode),
      run_append hplain, run_select, if_pos rfl]

theorem Terminal.exists_run_render (h : theme.Known) (ht : '\x1b' ∉ t) (spans : List Span) :
    ∃ output, Ansi.render theme t spans = .ok output ∧
      run none output = ⟨spans.flatMap (Span.shown theme t), none⟩ := by
  induction spans with
  | nil => exact ⟨[], rfl, run_nil none⟩
  | cons s spans ih =>
    obtain ⟨first, hfirst, hrun⟩ := exists_run_renderSpan h ht s
    obtain ⟨rest, hrest, hscreen⟩ := ih
    refine ⟨first ++ rest, ?_, ?_⟩
    · rw [Ansi.render_cons, hfirst, hrest]
      rfl
    · rw [hrun, hscreen, List.flatMap_cons]

theorem map_fst_shown (theme : Theme) (t : Text) (spans : List Span) :
    (spans.flatMap (Span.shown theme t)).map Prod.fst =
      spans.flatMap fun s => t.slice s.start s.stop := by
  rw [List.map_flatMap]
  simp [Span.shown, Function.comp_def]

/-- Spans that fill a text show each of its characters in the colour of the span around it. -/
theorem Span.Fill.getElem?_shown (h : Fill t.length start spans) (hstart : 0 ≤ start)
    (theme : Theme) (hs : s ∈ spans) {i : Nat} (hsi : s.start ≤ i) (his : i < s.stop) :
    (spans.flatMap (Span.shown theme t))[i - start.toNat]? =
      t[i]?.map (·, theme.code? s.tag) := by
  generalize hlength : (t.length : Int) = stop at h
  induction h with
  | nil => cases hs
  | @cons r rest hlt hrest ih =>
    have hle := hrest.bounds.1
    have hshown : (r.shown theme t).length = r.stop.toNat - r.start.toNat := by
      simp only [Span.shown, List.length_map, Text.slice, List.length_drop, List.length_take]
      omega
    rw [List.flatMap_cons]
    -- The place is in the first span, or it is in one behind and counted from its stop.
    rcases List.mem_cons.mp hs with rfl | hs
    · rw [List.getElem?_append_left (by omega), Span.shown, List.getElem?_map, Text.slice,
        List.getElem?_drop, List.getElem?_take, if_pos (by omega)]
      congr 2
      omega
    · have hbehind := hrest.le_start s hs
      rw [List.getElem?_append_right (by omega), hshown, ← ih (by omega) hs]
      congr 1
      omega

end Render

/-- With every theme that comes from a configuration there is an output for a terminal. A terminal
that starts without a colour shows the text, each character in the colour that the theme gives to
the tag of its token, or in none where the theme has no entry for the tag, and it ends without a
colour. -/
theorem run_render_highlight {setting : Option Setting} {theme : Theme} {t : Text}
    (htheme : Theme.ofSetting setting = .ok theme) (ht : '\x1b' ∉ t) (c : Config) :
    ∃ output shown, Ansi.render theme t (highlight c t) = .ok output ∧
      Terminal.run none output = ⟨shown, none⟩ ∧ shown.map Prod.fst = t ∧
      (∀ u ∈ tokenize c.keywords t, ∀ i : Nat, u.start ≤ i → i < u.stop →
        shown[i]? = t[i]?.map (·, theme.code? (c.tag u.kind))) ∧
      ∀ tag, theme.code? tag = none ↔ theme.get? tag = none := by
  have hknown := Theme.known_of_ofSetting htheme
  have hfill := highlight_fill c t
  obtain ⟨output, houtput, hrun⟩ := Terminal.exists_run_render hknown ht (highlight c t)
  refine ⟨output, _, houtput, hrun, ?_, ?_, hknown.code?_eq_none_iff⟩
  · rw [map_fst_shown, flatMap_slice_highlight]
  · intro u hu i hui hiu
    obtain ⟨s, hs, hsi, his, htag⟩ :=
      (Span.exists_mem_ofTokens_iff c (tokenize_tiles c.keywords t)).mpr ⟨u, hu, hui, hiu, rfl⟩
    have hshown := hfill.getElem?_shown (Int.le_refl 0) theme hs hsi his
    rwa [htag] at hshown

/-- A colour for a tag that the standard theme leaves alone, and a blank that has none. -/
theorem run_render_highlight_colors :
    let setting : Setting := .table [("identifier".toList, .str "bright_red".toList)]
    let theme : Theme := Theme.standard ++ [("identifier".toList, "bright_red".toList)]
    let t := "if x//é".toList
    Theme.ofSetting (some setting) = .ok theme ∧ '\x1b' ∉ t ∧
      ∃ output shown, Ansi.render theme t (highlight .standard t) = .ok output ∧
        Terminal.run none output = ⟨shown, none⟩ ∧ shown.map Prod.fst = t ∧
        (∀ u ∈ tokenize Keywords.standard t, ∀ i : Nat, u.start ≤ i → i < u.stop →
          shown[i]? = t[i]?.map (·, theme.code? u.kind.tag)) ∧
        ∀ tag, theme.code? tag = none ↔ theme.get? tag = none := by
  intro setting theme t
  have htheme : Theme.ofSetting (some setting) = .ok theme := by rfl
  have ht : '\x1b' ∉ t := by decide
  exact ⟨htheme, ht, run_render_highlight htheme ht .standard⟩

end Highlighter
