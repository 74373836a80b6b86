import Highlighter.Proofs.Scan.Front

/-!
The rules by which the token at the front of a text is read. Every reading is by exactly one of
them, so that what holds of all readings is shown rule by rule.
-/

set_option autoImplicit false

namespace Highlighter

theorem runLength_le (p : Char → Bool) (s : Text) : runLength p s ≤ s.length :=
  (List.takeWhile_sublist p).length_le

theorem blockRest_le (s : Text) : blockRest s ≤ s.length := by
  fun_induction blockRest s with
  | case1 => exact Nat.le_refl 0
  | case2 s => simp
  | case3 c s _ ih => exact Nat.succ_le_succ ih

theorem blockRest_cons (c : Char) (s : Text) :
    blockRest (c :: s) = if c = '*' ∧ s.head? = some '/' then 2 else blockRest s + 1 := by
  by_cases h : c = '*' ∧ s.head? = some '/'
  · obtain ⟨rfl, hs⟩ := h
    cases s with
    | nil => cases hs
    | cons d s =>
      cases hs
      simp [blockRest]
  · rw [if_neg h, blockRest]
    rintro s' rfl rfl
    exact h ⟨rfl, rfl⟩

theorem numberRest_le (s : Text) : numberRest s ≤ s.length := by
  fun_induction numberRest s with
  | case1 => exact Nat.le_refl 0
  | case2 c s _ ih => exact Nat.succ_le_succ ih
  | case3 c s _ => exact Nat.zero_le _

theorem stringRest_le (s : Text) : (stringRest s).2 ≤ s.length := by
  have hrun := runLength_le (fun c => c != '"' && !isLineEnd c) s
  unfold stringRest
  dsimp only
  split
  · rename_i h
    rw [List.head?_drop] at h
    exact (List.getElem?_eq_some_iff.mp h).1
  · exact hrun

namespace Reading

/-- Neither a comment nor a string opens in front of `c :: s`. -/
def Bare (c : Char) (s : Text) : Prop :=
  ¬ (c = '/' ∧ s.head? = some '/') ∧ ¬ (c = '/' ∧ s.head? = some '*') ∧ c ≠ '"'

/-- The rules in the order in which they are tried. -/
inductive Rule (c : Char) (s : Text) : Reading → Prop where
  | lineComment : c = '/' → s.head? = some '/' →
      Rule c s ⟨.lineComment, 2 + lineRest s.tail, .default⟩
  | blockComment : c = '/' → s.head? = some '*' →
      Rule c s ⟨.blockComment, 2 + blockRest s.tail, .default⟩
  | string : c = '"' → Rule c s ⟨(stringRest s).1, 1 + (stringRest s).2, .default⟩
  | number : Bare c s → isDigit c = true →
      Rule c s ⟨if '.' ∈ s.take (numberRest s) then .pragmaValue else .numberLiteral,
        1 + numberRest s, .default⟩
  | word : Bare c s → isDigit c = false → isWordStart c = true →
      Rule c s ⟨.identifier, 1 + runLength isWordChar s, .default⟩
  | pair : Bare c s → isDigit c = false → isWordStart c = false → c :: s.take 1 ∈ operatorPairs →
      Rule c s ⟨.operator, 2, .default⟩
  | operator : Bare c s → isDigit c = false → isWordStart c = false →
      c :: s.take 1 ∉ operatorPairs → c ∈ operatorChars → Rule c s ⟨.operator, 1, .default⟩
  | blank : Bare c s → isDigit c = false → isWordStart c = false →
      c :: s.take 1 ∉ operatorPairs → c ∉ operatorChars → isBlank c = true →
      Rule c s ⟨.whitespace, 1 + runLength isBlank s, .default⟩
  | unknown : Bare c s → isDigit c = false → isWordStart c = false →
      c :: s.take 1 ∉ operatorPairs → c ∉ operatorChars → isBlank c = false →
      Rule c s ⟨.unknown, 1, .default⟩

variable {c : Char} {s s' : Text} {r : Reading}

theorem rule_fresh (c : Char) (s : Text) : Rule c s (fresh c s) := by
  unfold fresh
  split
  · rename_i h
    exact .lineComment h.1 h.2
  split
  · rename_i h
    exact .blockComment h.1 h.2
  split
  · exact .string ‹_›
  have hbare : Bare c s := ⟨‹_›, ‹_›, ‹_›⟩
  split
  · exact .number hbare ‹_›
  have hdigit : isDigit c = false := by simpa using ‹¬ isDigit c = true›
  split
  · exact .word hbare hdigit ‹_›
  have hstart : isWordStart c = false := by simpa using ‹¬ isWordStart c = true›
  split
  · exact .pair hbare hdigit hstart ‹_›
  split
  · exact .operator hbare hdigit hstart ‹_› ‹_›
  split
  · exact .blank hbare hdigit hstart ‹_› ‹_› ‹_›
  · exact .unknown hbare hdigit hstart ‹_› ‹_› (by simpa using ‹¬ isBlank c = true›)

theorem Rule.fresh_eq (h : Rule c s r) : fresh c s = r := by
  unfold fresh
  cases h with
  | lineComment hc hs => rw [if_pos ⟨hc, hs⟩]
  | blockComment hc hs => rw [if_neg (by simp [hs]), if_pos ⟨hc, hs⟩]
  | string hc => simp [hc]
  | number hb hd => rw [if_neg hb.1, if_neg hb.2.1, if_neg hb.2.2, if_pos hd]
  | word hb hd hw => rw [if_neg hb.1, if_neg hb.2.1, if_neg hb.2.2]; simp [hd, hw]
  | pair hb hd hw hp => rw [if_neg hb.1, if_neg hb.2.1, if_neg hb.2.2]; simp [hd, hw, hp]
  | operator hb hd hw hp ho => rw [if_neg hb.1, if_neg hb.2.1, if_neg hb.2.2]; simp [hd, hw, hp, ho]
  | blank hb hd hw hp ho hk =>
    rw [if_neg hb.1, if_neg hb.2.1, if_neg hb.2.2]
    simp [hd, hw, hp, ho, hk]
  | unknown hb hd hw hp ho hk =>
    rw [if_neg hb.1, if_neg hb.2.1, if_neg hb.2.2]
    simp [hd, hw, hp, ho, hk]

theorem Rule.after_eq (h : Rule c s r) : r.after = .default := by
  cases h <;> rfl

theorem Rule.length_le (h : Rule c s r) : r.length ≤ s.length + 1 := by
  have htail : s.head? ≠ none → s.length = s.tail.length + 1 := by
    cases s <;> simp
  cases h with
  | lineComment _ hs =>
    have := htail (by simp [hs])
    have := runLength_le (!isLineEnd ·) s.tail
    simp only [lineRest]
    omega
  | blockComment _ hs =>
    have := htail (by simp [hs])
    have := blockRest_le s.tail
    simp only
    omega
  | string _ =>
    have := stringRest_le s
    simp only
    omega
  | number =>
    have := numberRest_le s
    simp only
    omega
  | word =>
    have := runLength_le isWordChar s
    simp only
    omega
  | pair _ _ _ hp =>
    cases s with
    | nil => simp [operatorPairs] at hp
    | cons d s => simp
  | operator => simp
  | blank =>
    have := runLength_le isBlank s
    simp only
    omega
  | unknown => simp

theorem front_after (mode : Mode) (c : Char) (s : Text) : (front mode c s).after = .default := by
  have hfresh := (rule_fresh c s).after_eq
  cases mode with
  | default => exact hfresh
  | blockComment => rfl
  | lineComment =>
    unfold front
    dsimp only
    split
    · exact hfresh
    · rfl
  | string =>
    unfold front
    dsimp only
    split
    · exact hfresh
    · rfl

end Reading

@[simp] theorem scanFrom_nil (mode : Mode) (pos : Int) : scanFrom mode pos [] = [] := by
  rw [scanFrom]

theorem scanFrom_cons (mode : Mode) (pos : Int) (c : Char) (s : Text) :
    scanFrom mode pos (c :: s) =
      (Reading.front mode c s).token pos (c :: s) ::
        scanFrom .default (pos + (Reading.front mode c s).length)
          ((c :: s).drop (Reading.front mode c s).length) := by
  rw [scanFrom, Reading.front_after]

end Highlighter
