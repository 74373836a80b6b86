import Highlighter.Proofs.Scan.Places
import Highlighter.Proofs.Scan.Tiling

/-!
The lexical rules, told by the places in a text where tokens start and stop. Which rule a token
obeys is settled by its first two characters, since the classes of characters exclude each other,
and where it stops by what comes first behind them. So there is one way only to cut a text into
tokens that obey the rules, and scans find it.
-/

set_option autoImplicit false

namespace Highlighter

/-- The character at a place opens nothing and belongs to no class. -/
structure Stray (t : Text) (start : Nat) (c : Char) : Prop where
  no_comment : ¬ (c = '/' ∧ (t[start + 1]? = some '/' ∨ t[start + 1]? = some '*'))
  no_quote : c ≠ '"'
  no_digit : isDigit c = false
  no_word : isWordStart c = false
  no_pair : (t.drop start).take 2 ∉ operatorPairs
  no_operator : c ∉ operatorChars
  no_blank : isBlank c = false

/-- What lies from `start` up to `stop` is a token of a kind. -/
inductive Lexical (t : Text) (start stop : Nat) : Kind → Prop where
  | lineComment : t[start]? = some '/' → t[start + 1]? = some '/' →
      FirstFrom isLineEnd t (start + 2) stop → Lexical t start stop .lineComment
  | blockComment : t[start]? = some '/' → t[start + 1]? = some '*' →
      BlockStop t (start + 2) stop → Lexical t start stop .blockComment
  | string {place : Nat} : t[start]? = some '"' → FirstFrom endsString t (start + 1) place →
      t[place]? = some '"' → stop = place + 1 → Lexical t start stop .stringLiteral
  | unclosed : t[start]? = some '"' → FirstFrom endsString t (start + 1) stop →
      t[stop]? ≠ some '"' → Lexical t start stop .unknown
  | number : Digits t start stop → ¬ PointAt t stop → Lexical t start stop .numberLiteral
  | version {place : Nat} : Digits t start place → Groups t place stop → ¬ PointAt t stop →
      Lexical t start stop .pragmaValue
  | word {c : Char} : t[start]? = some c → isWordStart c = true →
      FirstFrom (!isWordChar ·) t (start + 1) stop → Lexical t start stop .identifier
  | pair : (t.drop start).take 2 ∈ operatorPairs → stop = start + 2 →
      Lexical t start stop .operator
  | operator {c : Char} : t[start]? = some c → (t.drop start).take 2 ∉ operatorPairs →
      c ∈ operatorChars → stop = start + 1 → Lexical t start stop .operator
  | blank {c : Char} : t[start]? = some c → isBlank c = true →
      FirstFrom (!isBlank ·) t (start + 1) stop → Lexical t start stop .whitespace
  | stray {c : Char} : t[start]? = some c → Stray t start c → stop = start + 1 →
      Lexical t start stop .unknown

section Classes

variable {c : Char} {s : Text} {rs : Ranges}

theorem isDigit_bounds (h : isDigit c = true) : 0x30 ≤ c.toNat ∧ c.toNat ≤ 0x39 := by
  simpa [isDigit, Char.le_def, UInt32.le_iff_toNat_le] using h

theorem isDigit_eq_false_of_has (hapart : ∀ r ∈ rs, r.2 < 0x30 ∨ 0x39 < r.1)
    (h : rs.has c = true) : isDigit c = false := by
  rw [Bool.eq_false_iff]
  intro hdigit
  have hbounds := isDigit_bounds hdigit
  obtain ⟨r, hr, hle⟩ := Ranges.has_eq_true h
  have := hapart r hr
  omega

theorem head_of_mem_operatorPairs (h : c :: s ∈ operatorPairs) : c ∈ ['=', '&', '|'] := by
  simp only [operatorPairs, List.mem_cons, List.not_mem_nil, or_false] at h
  rcases h with h | h | h
  all_goals
    obtain ⟨rfl, -⟩ := List.cons.inj h
    decide

/-- A word starts with nothing that starts a token of another kind. -/
theorem isWordStart_excludes (h : isWordStart c = true) :
    c ≠ '/' ∧ c ≠ '"' ∧ isDigit c = false := by
  rw [isWordStart, Bool.or_eq_true] at h
  rcases h with hletter | hscore
  · refine ⟨?_, ?_, isDigit_eq_false_of_has (by decide +kernel) hletter⟩
    · rintro rfl
      exact absurd hletter (by decide)
    · rintro rfl
      exact absurd hletter (by decide)
  · obtain rfl := eq_of_beq hscore
    decide

theorem mem_operatorChars_excludes (h : c ∈ operatorChars) :
    c ≠ '/' ∧ c ≠ '"' ∧ isDigit c = false ∧ isWordStart c = false := by
  have hall : operatorChars.all (fun d => d ≠ '/' ∧ d ≠ '"' ∧ isDigit d = false ∧
      isWordStart d = false) = true := by
    decide
  exact of_decide_eq_true (List.all_eq_true.mp hall c h)

theorem mem_operatorPairs_excludes (h : c :: s ∈ operatorPairs) :
    c ≠ '/' ∧ c ≠ '"' ∧ isDigit c = false ∧ isWordStart c = false := by
  have hall : ['=', '&', '|'].all (fun d => d ≠ '/' ∧ d ≠ '"' ∧ isDigit d = false ∧
      isWordStart d = false) = true := by
    decide
  exact of_decide_eq_true (List.all_eq_true.mp hall c (head_of_mem_operatorPairs h))

theorem isBlank_excludes (h : isBlank c = true) :
    c ≠ '/' ∧ c ≠ '"' ∧ isDigit c = false ∧ isWordStart c = false ∧ c ∉ operatorChars ∧
      ∀ s, c :: s ∉ operatorPairs := by
  have hne : ∀ d, isBlank d = false → c ≠ d := by
    rintro d hd rfl
    rw [h] at hd
    cases hd
  have hletter : isLetter c = false := by
    rw [Bool.eq_false_iff]
    intro hletter
    obtain ⟨r, hr, hle⟩ := Ranges.has_eq_true hletter
    obtain ⟨r', hr', hle'⟩ := Ranges.has_eq_true h
    have hapart : ∀ r ∈ letterRanges, ∀ r' ∈ blankRanges, r.2 < r'.1 ∨ r'.2 < r.1 := by
      decide +kernel
    have := hapart r hr r' hr'
    omega
  refine ⟨hne _ (by decide), hne _ (by decide), isDigit_eq_false_of_has (by decide) h, ?_, ?_, ?_⟩
  · rw [isWordStart, hletter, Bool.false_or, beq_eq_false_iff_ne]
    exact hne _ (by decide)
  · intro hmem
    have hall : operatorChars.all (fun d => isBlank d = false) = true := by decide
    exact hne c (of_decide_eq_true (List.all_eq_true.mp hall c hmem)) rfl
  · intro s hpair
    have hall : ['=', '&', '|'].all (fun d => isBlank d = false) = true := by decide
    have hmem := head_of_mem_operatorPairs hpair
    exact hne c (of_decide_eq_true (List.all_eq_true.mp hall c hmem)) rfl

end Classes

section Rules

variable {t u : Text} {c : Char} {start stop : Nat} {kind : Kind}

theorem stringRest_of_firstFrom {place : Nat} (h : FirstFrom endsString t start place) :
    stringRest (t.drop start) =
      if t[place]? = some '"' then (.stringLiteral, place - start + 1)
      else (.unknown, place - start) := by
  have hclass : (fun c => c != '"' && !isLineEnd c) = (!endsString ·) := by
    funext c
    simp [endsString, bne]
  have hn : runLength (!endsString ·) (t.drop start) = place - start := by
    rw [firstFrom_iff.mp h, Nat.add_sub_cancel_left]
  unfold stringRest
  dsimp only
  rw [hclass, hn, List.head?_drop, List.getElem?_drop, Nat.add_sub_cancel' h.1]

/-- What obeys a lexical rule is read by a rule of the scan. -/
theorem Lexical.rule (h : Lexical t start stop kind) (hs : t.drop start = c :: u) :
    ∃ n, stop = start + n ∧ Reading.Rule c u ⟨kind, n, .default⟩ := by
  have htail := drop_succ_of_drop hs
  have htail' := drop_two_of_drop hs
  have hchar := getElem?_of_drop hs
  have hnext := getElem?_succ_of_drop hs
  have htake : (t.drop start).take 2 = c :: u.take 1 := by rw [hs]; rfl
  have heq : ∀ {d}, t[start]? = some d → d = c := fun hd => Option.some.inj (hd.symm.trans hchar)
  cases h with
  | lineComment h₁ h₂ hstop =>
    rw [firstFrom_iff, htail'] at hstop
    refine ⟨_, ?_, .lineComment (heq h₁).symm (hnext ▸ h₂)⟩
    rw [hstop, Nat.add_assoc]
    rfl
  | blockComment h₁ h₂ hstop =>
    have hlt := (List.getElem?_eq_some_iff.mp h₂).1
    rw [blockStop_iff htail' hlt] at hstop
    exact ⟨_, by rw [hstop, Nat.add_assoc], .blockComment (heq h₁).symm (hnext ▸ h₂)⟩
  | @string place h₁ hplace hquote hstop =>
    have hrule : Reading.Rule c u _ := .string (heq h₁).symm
    rw [← htail, stringRest_of_firstFrom hplace, if_pos hquote, htail] at hrule
    have := hplace.1
    exact ⟨_, by omega, hrule⟩
  | unclosed h₁ hplace hquote =>
    have hrule : Reading.Rule c u _ := .string (heq h₁).symm
    rw [← htail, stringRest_of_firstFrom hplace, if_neg hquote, htail] at hrule
    have := hplace.1
    exact ⟨_, by omega, hrule⟩
  | number hdigits hend => exact hdigits.rule hend hs
  | version hdigits hgroups hend => exact hgroups.rule hdigits hend hs
  | word h₁ hword hstop =>
    obtain rfl := heq h₁
    obtain ⟨hslash, hquote, hdigit⟩ := isWordStart_excludes hword
    rw [firstFrom_not_iff, htail] at hstop
    exact ⟨_, by omega, .word (.of_ne hslash hquote u) hdigit hword⟩
  | pair hpair hstop =>
    rw [htake] at hpair
    obtain ⟨hslash, hquote, hdigit, hword⟩ := mem_operatorPairs_excludes hpair
    exact ⟨_, hstop, .pair (.of_ne hslash hquote u) hdigit hword hpair⟩
  | operator h₁ hpair hop hstop =>
    obtain rfl := heq h₁
    rw [htake] at hpair
    obtain ⟨hslash, hquote, hdigit, hword⟩ := mem_operatorChars_excludes hop
    exact ⟨_, hstop, .operator (.of_ne hslash hquote u) hdigit hword hpair hop⟩
  | blank h₁ hblank hstop =>
    obtain rfl := heq h₁
    obtain ⟨hslash, hquote, hdigit, hword, hop, hpair⟩ := isBlank_excludes hblank
    rw [firstFrom_not_iff, htail] at hstop
    exact ⟨_, by omega, .blank (.of_ne hslash hquote u) hdigit hword (hpair _) hop hblank⟩
  | stray h₁ hstray hstop =>
    obtain rfl := heq h₁
    obtain ⟨hcomment, hquote, hdigit, hword, hpair, hop, hblank⟩ := hstray
    rw [htake] at hpair
    rw [hnext] at hcomment
    refine ⟨_, hstop, .unknown ⟨?_, ?_, hquote⟩ hdigit hword hpair hop hblank⟩
    · exact fun h => hcomment ⟨h.1, .inl h.2⟩
    · exact fun h => hcomment ⟨h.1, .inr h.2⟩

/-- What is read by a rule of the scan obeys a lexical rule. -/
theorem lexical_of_rule {r : Reading} (h : Reading.Rule c u r) (hs : t.drop start = c :: u) :
    Lexical t start (start + r.length) r.kind := by
  have htail := drop_succ_of_drop hs
  have htail' := drop_two_of_drop hs
  have hchar := getElem?_of_drop hs
  have hnext := getElem?_succ_of_drop hs
  have htake : (t.drop start).take 2 = c :: u.take 1 := by rw [hs]; rfl
  cases h with
  | lineComment hc hslash =>
    subst hc
    refine .lineComment hchar (hnext.trans hslash) (firstFrom_iff.mpr ?_)
    rw [htail', Nat.add_assoc]
    rfl
  | blockComment hc hstar =>
    subst hc
    have hopen := hnext.trans hstar
    refine .blockComment hchar hopen ((blockStop_iff htail' ?_).mpr ?_)
    · exact (List.getElem?_eq_some_iff.mp hopen).1
    · rw [Nat.add_assoc]
  | string hc =>
    subst hc
    obtain ⟨place, hplace⟩ : ∃ place, FirstFrom endsString t (start + 1) place :=
      ⟨_, firstFrom_iff.mpr rfl⟩
    have hle := hplace.1
    rw [← htail, stringRest_of_firstFrom hplace]
    split
    · exact .string hchar hplace ‹_› (by dsimp only; omega)
    · have hstop : start + (1 + (place - (start + 1))) = place := by omega
      dsimp only
      rw [hstop]
      exact .unclosed hchar hplace ‹_›
  | number hb hd =>
    obtain ⟨place, hdigits⟩ := exists_digits hchar hd
    -- There is a number of some length at the place, and there is one reading only.
    obtain ⟨kind, stop, hlexical⟩ : ∃ kind stop, Lexical t start stop kind := by
      by_cases hgo : PointAt t place
      · obtain ⟨stop, hgroups, hend⟩ := exists_groups hgo
        exact ⟨_, stop, .version hdigits hgroups hend⟩
      · exact ⟨_, place, .number hdigits hgo⟩
    obtain ⟨n, rfl, hrule⟩ := hlexical.rule hs
    have hread := hrule.fresh_eq.symm.trans (Reading.Rule.number hb hd).fresh_eq
    obtain ⟨rfl, rfl, -⟩ := Reading.mk.inj hread
    exact hlexical
  | word hb hd hw =>
    refine .word hchar hw (firstFrom_not_iff.mpr ?_)
    rw [htail, Nat.add_assoc]
  | pair hb hd hw hp => exact .pair (htake ▸ hp) rfl
  | operator hb hd hw hp ho => exact .operator hchar (htake ▸ hp) ho rfl
  | blank hb hd hw hp ho hk =>
    refine .blank hchar hk (firstFrom_not_iff.mpr ?_)
    rw [htail, Nat.add_assoc]
  | unknown hb hd hw hp ho hk =>
    refine .stray hchar ⟨?_, hb.2.2, hd, hw, htake ▸ hp, ho, hk⟩ rfl
    rw [hnext]
    rintro ⟨hc, hslash | hstar⟩
    · exact hb.1 ⟨hc, hslash⟩
    · exact hb.2.1 ⟨hc, hstar⟩

end Rules

theorem lexical_of_mem_scanFrom {t s : Text} {pos : Nat} (hs : t.drop pos = s) :
    ∀ v ∈ scanFrom .default pos s, Lexical t v.start.toNat v.stop.toNat v.kind := by
  induction s using Text.drop_induction generalizing pos with
  | nil => simp
  | cons c s ih =>
    intro v hv
    have hpos := Reading.fresh_length_pos c s
    have hlexical := lexical_of_rule (Reading.rule_fresh c s) hs
    rw [scanFrom_cons, Reading.front, ← Int.natCast_add] at hv
    rcases List.mem_cons.mp hv with rfl | hv
    · exact hlexical
    · exact ih _ hpos (by rw [← List.drop_drop, hs]) v hv

theorem lexical_of_mem_scan {t : Text} {v : Token} (h : v ∈ scan t) :
    Lexical t v.start.toNat v.stop.toNat v.kind := by
  rw [scan_eq] at h
  exact lexical_of_mem_scanFrom (show t.drop 0 = t from rfl) v h

theorem exists_lexical_of_mem_scan {t : Text} {v : Token} (h : v ∈ scan t) :
    ∃ start stop : Nat, start < stop ∧ stop ≤ t.length ∧
      v = ⟨v.kind, start, stop, t.slice start stop⟩ ∧ Lexical t start stop v.kind := by
  obtain ⟨start, stop, hlt, hle, hv⟩ := (scanAt_tiles t 0 .default).exists_eq_slice h
  have hlexical := lexical_of_mem_scan h
  rw [hv] at hlexical
  exact ⟨start, stop, hlt, hle, hv, hlexical⟩

theorem Tiles.eq_scanFrom {t : Text} {pos : Nat} {tokens : List Token} (h : Tiles t pos tokens)
    (hlexical : ∀ v ∈ tokens, Lexical t v.start.toNat v.stop.toNat v.kind) :
    tokens = scanFrom .default pos (t.drop pos) := by
  induction h with
  | stop hend => rw [List.drop_eq_nil_of_le hend, scanFrom_nil]
  | @token pos stop kind rest hlt hle _ ih =>
    have hs := List.drop_eq_getElem_cons (show pos < t.length by omega)
    have hhead : Lexical t pos stop kind := hlexical _ List.mem_cons_self
    obtain ⟨n, rfl, hrule⟩ := hhead.rule hs
    have hrest := ih fun v hv => hlexical v (List.mem_cons_of_mem _ hv)
    rw [hs, scanFrom_cons, Reading.front, hrule.fresh_eq, Reading.token_eq_slice _ hs.symm, ← hs,
      List.drop_drop, ← Int.natCast_add, ← hrest]

/-- The tokens of a scan are the one way to cut the text, from its beginning to its end, into pieces
that are not empty and obey the lexical rules of their kinds. -/
theorem eq_scan_iff (t : Text) (tokens : List Token) :
    tokens = scan t ↔
      Tiles t 0 tokens ∧ ∀ v ∈ tokens, Lexical t v.start.toNat v.stop.toNat v.kind := by
  constructor
  · rintro rfl
    exact ⟨scanAt_tiles t 0 .default, fun v => lexical_of_mem_scan⟩
  · rintro ⟨htiles, hlexical⟩
    rw [scan_eq]
    exact htiles.eq_scanFrom hlexical

end Highlighter
