import Highlighter.Text.Line

/-!
Texts with plain line ends. A text may be cut into two and each of them given plain line ends, as
long as the cut is not between a carriage return and its line feed; and only such pairs make the
text shorter.
-/

set_option autoImplicit false

namespace Highlighter.Text

/-- A pair of carriage return and line feed, of which the first text has one and the second the
other. -/
def SplitPair (s u : Text) : Prop := s.getLast? = some '\r' ∧ u.head? = some '\n'

variable {s u : Text} {c : Char}

@[simp] theorem plainLineEnds_pair (s : Text) :
    plainLineEnds ('\r' :: '\n' :: s) = '\n' :: plainLineEnds s := by
  rw [plainLineEnds]

theorem plainLineEnds_return (h : s.head? ≠ some '\n') :
    plainLineEnds ('\r' :: s) = '\n' :: plainLineEnds s := by
  rw [plainLineEnds]
  rintro u rfl
  exact h rfl

theorem plainLineEnds_cons (hc : c ≠ '\r') (s : Text) :
    plainLineEnds (c :: s) = c :: plainLineEnds s := by
  rw [plainLineEnds]
  · rintro u rfl
    exact absurd rfl hc
  · exact hc

/-- Induction along a text, with a pair of carriage return and line feed as one step. -/
@[elab_as_elim]
theorem pair_induction {motive : Text → Prop} (nil : motive [])
    (pair : ∀ s, motive s → motive ('\r' :: '\n' :: s))
    (lone : ∀ s, s.head? ≠ some '\n' → motive s → motive ('\r' :: s))
    (cons : ∀ c s, c ≠ '\r' → motive s → motive (c :: s)) (s : Text) : motive s := by
  fun_induction plainLineEnds s with
  | case1 => exact nil
  | case2 s ih => exact pair s ih
  | case3 s hno ih =>
    refine lone s ?_ ih
    intro hfeed
    obtain ⟨u, rfl⟩ := List.head?_eq_some_iff.mp hfeed
    exact hno u rfl
  | case4 c s _ hc ih => exact cons c s hc ih

theorem head?_plainLineEnds (s : Text) :
    (plainLineEnds s).head? = s.head?.map fun c => if c = '\r' then '\n' else c := by
  induction s using pair_induction with
  | nil => rfl
  | pair s => simp
  | lone s hs => simp [plainLineEnds_return hs]
  | cons c s hc => simp [plainLineEnds_cons hc, hc]

theorem head?_plainLineEnds_iff (hc : isLineEnd c = false) :
    (plainLineEnds s).head? = some c ↔ s.head? = some c := by
  have hne : c ≠ '\n' ∧ c ≠ '\r' := by simpa [isLineEnd] using hc
  rw [head?_plainLineEnds]
  cases s.head? with
  | none => simp
  | some d =>
    simp only [Option.map_some, Option.some.injEq]
    split
    · rename_i hd
      simp [hd, hne.1.symm, hne.2.symm]
    · rfl

theorem not_mem_plainLineEnds (s : Text) : '\r' ∉ plainLineEnds s := by
  induction s using pair_induction with
  | nil => simp [plainLineEnds]
  | pair s ih => simp [ih]
  | lone s hs ih => simp [plainLineEnds_return hs, ih]
  | cons c s hc ih => simp [plainLineEnds_cons hc, ih, hc.symm]

theorem SplitPair.cons (h : SplitPair s u) (c : Char) : SplitPair (c :: s) u := by
  refine ⟨?_, h.2⟩
  rw [List.getLast?_cons, h.1]
  rfl

theorem SplitPair.of_cons (h : SplitPair (c :: s) u) :
    SplitPair s u ∨ s = [] ∧ c = '\r' ∧ u.head? = some '\n' := by
  obtain ⟨hlast, hhead⟩ := h
  cases s with
  | nil => exact .inr ⟨rfl, Option.some.inj hlast, hhead⟩
  | cons d s =>
    rw [List.getLast?_cons_cons] at hlast
    exact .inl ⟨hlast, hhead⟩

theorem plainLineEnds_append (h : ¬ SplitPair s u) :
    plainLineEnds (s ++ u) = plainLineEnds s ++ plainLineEnds u := by
  induction s using pair_induction with
  | nil => rfl
  | pair s ih =>
    rw [List.cons_append, List.cons_append, plainLineEnds_pair, plainLineEnds_pair,
      ih fun hpair => h ((hpair.cons _).cons _), List.cons_append]
  | lone s hs ih =>
    have hhead : (s ++ u).head? ≠ some '\n' := by
      cases s with
      | nil => exact fun hfeed => h ⟨rfl, hfeed⟩
      | cons d s => exact hs
    rw [List.cons_append, plainLineEnds_return hhead, plainLineEnds_return hs,
      ih fun hpair => h (hpair.cons _), List.cons_append]
  | cons c s hc ih =>
    rw [List.cons_append, plainLineEnds_cons hc, plainLineEnds_cons hc,
      ih fun hpair => h (hpair.cons _), List.cons_append]

theorem not_splitPair_of_not_mem (h : '\r' ∉ s) (u : Text) : ¬ SplitPair s u :=
  fun hpair => h (List.mem_of_getLast? hpair.1)

theorem plainLineEnds_eq_self (h : '\r' ∉ s) : plainLineEnds s = s := by
  induction s with
  | nil => rfl
  | cons c s ih =>
    rw [List.mem_cons, not_or] at h
    obtain ⟨hc, hs⟩ := h
    rw [plainLineEnds_cons (Ne.symm hc), ih hs]

theorem length_plainLineEnds_le (s : Text) : (plainLineEnds s).length ≤ s.length := by
  induction s using pair_induction with
  | nil => exact Nat.le_refl _
  | pair s ih => simp only [plainLineEnds_pair, List.length_cons]; omega
  | lone s hs ih => simpa [plainLineEnds_return hs] using ih
  | cons c s hc ih => simpa [plainLineEnds_cons hc] using ih

/-- Only a pair of carriage return and line feed is one character less. -/
theorem length_plainLineEnds_eq_iff :
    (plainLineEnds s).length = s.length ↔ ¬ ['\r', '\n'] <:+: s := by
  induction s using pair_induction with
  | nil => simp [plainLineEnds]
  | pair s _ =>
    have hle := length_plainLineEnds_le s
    have hpair : ['\r', '\n'] <:+: '\r' :: '\n' :: s := (List.prefix_append ['\r', '\n'] s).isInfix
    simp only [plainLineEnds_pair, List.length_cons, hpair, not_true_eq_false, iff_false]
    omega
  | lone s hs ih =>
    have hpair : ¬ ['\r', '\n'] <+: '\r' :: s := by
      rintro ⟨u, hu⟩
      exact hs (by rw [← (List.cons.inj hu).2]; rfl)
    rw [plainLineEnds_return hs, List.infix_cons_iff, List.length_cons, List.length_cons,
      Nat.succ_inj, ih]
    simp [hpair]
  | cons c s hc ih =>
    have hpair : ¬ ['\r', '\n'] <+: c :: s := by
      rintro ⟨u, hu⟩
      exact hc (List.cons.inj hu).1.symm
    rw [plainLineEnds_cons hc, List.infix_cons_iff, List.length_cons, List.length_cons,
      Nat.succ_inj, ih]
    simp [hpair]

end Highlighter.Text
