import Highlighter.Span
import Highlighter.Proofs.Scan.Tiling

/-!
Spans cover what the tokens cover. They lie one behind the other without a gap, and a place lies in
a span with some tag if and only if it lies in a token of a kind with this tag.
-/

set_option autoImplicit false

namespace Highlighter.Span

/-- The spans lie one behind the other from a place up to another. -/
inductive Fill (stop : Int) : Int → List Span → Prop where
  | nil : Fill stop stop []
  | cons {s : Span} {rest : List Span} : s.start < s.stop → Fill stop s.stop rest →
      Fill stop s.start (s :: rest)

variable {t : Text} {s : Span} {spans : List Span} {pos : Nat} {start stop i : Int} {g : Text}

namespace Fill

theorem le_start (h : Fill stop start spans) : ∀ r ∈ spans, start ≤ r.start := by
  induction h with
  | nil =>
    intro r hr
    cases hr
  | cons hlt _ ih =>
    intro r hr
    rcases List.mem_cons.mp hr with rfl | hr
    · exact Int.le_refl _
    · exact Int.le_trans (Int.le_of_lt hlt) (ih r hr)

theorem pairwise (h : Fill stop start spans) : spans.Pairwise (·.stop ≤ ·.start) := by
  induction h with
  | nil => exact .nil
  | cons _ hrest ih => exact .cons hrest.le_start ih

theorem join (hlt : s.start < s.stop) (h : Fill stop s.stop spans) :
    Fill stop s.start (join s spans) := by
  cases spans with
  | nil => exact .cons hlt h
  | cons r rest =>
    rw [Span.join]
    split
    · generalize s.stop = a at h hlt
      cases h with
      | cons hr hrest =>
        exact .cons (s := ⟨s.start, r.stop, s.tag⟩) (Int.lt_trans hlt hr) hrest
    · exact .cons hlt h

end Fill

/-- Joining two spans keeps what they cover, since the one starts where the other stops. -/
theorem exists_mem_join_iff (hlt : s.start < s.stop) (h : Fill stop s.stop spans) :
    (∃ r ∈ join s spans, r.start ≤ i ∧ i < r.stop ∧ r.tag = g) ↔
      s.start ≤ i ∧ i < s.stop ∧ s.tag = g ∨
        ∃ r ∈ spans, r.start ≤ i ∧ i < r.stop ∧ r.tag = g := by
  cases spans with
  | nil => simp only [join, List.mem_singleton, exists_eq_left, List.not_mem_nil, false_and,
      exists_false, or_false]
  | cons r rest =>
    rw [join]
    split
    · rename_i hjoin
      obtain ⟨htag, htouch⟩ := hjoin
      have hr : r.start < r.stop := by
        generalize s.stop = a at h
        cases h with
        | cons hr _ => exact hr
      simp only [List.mem_cons, exists_eq_or_imp, ← or_assoc, htag]
      refine or_congr ?_ Iff.rfl
      constructor
      · rintro ⟨hstart, hstop, hg⟩
        by_cases hi : i < s.stop
        · exact .inl ⟨hstart, hi, hg⟩
        · exact .inr ⟨by omega, hstop, hg⟩
      · rintro (⟨hstart, hstop, hg⟩ | ⟨hstart, hstop, hg⟩)
        · exact ⟨hstart, by omega, hg⟩
        · exact ⟨by omega, hstop, hg⟩
    · simp only [List.mem_cons, exists_eq_or_imp]

theorem fill_ofTokens (c : Config) {tokens : List Token} (h : Tiles t pos tokens)
    (hpos : pos ≤ t.length) : Fill t.length pos (ofTokens c tokens) := by
  induction h with
  | stop hend =>
    obtain rfl := Nat.le_antisymm hpos hend
    exact .nil
  | @token pos stop kind rest hlt hle _ ih =>
    exact Fill.join (s := ⟨pos, stop, c.tag kind⟩) (by dsimp only; omega) (ih hle)

theorem exists_mem_ofTokens_iff (c : Config) {tokens : List Token} (h : Tiles t pos tokens) :
    (∃ s ∈ ofTokens c tokens, s.start ≤ i ∧ i < s.stop ∧ s.tag = g) ↔
      ∃ u ∈ tokens, u.start ≤ i ∧ i < u.stop ∧ c.tag u.kind = g := by
  induction h with
  | stop => simp only [ofTokens, List.not_mem_nil, false_and, exists_false]
  | @token pos stop kind rest hlt hle hrest ih =>
    rw [ofTokens, exists_mem_join_iff (by dsimp only; omega) (fill_ofTokens c hrest hle), ih]
    simp only [List.mem_cons, exists_eq_or_imp]

end Highlighter.Span
