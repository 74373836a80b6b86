/-!
Sets of characters, given as ranges of code points in ascending order.
-/

set_option autoImplicit false

namespace Highlighter

/-- Inclusive ranges of code points, ascending and disjoint. -/
abbrev Ranges := List (Nat × Nat)

/-- Membership; the search stops at the first range that lies above the character. -/
def Ranges.has : Ranges → Char → Bool
  | [], _ => false
  | (lo, hi) :: rs, c => if c.toNat < lo then false else c.toNat ≤ hi || has rs c

theorem Ranges.has_eq_true {rs : Ranges} {c : Char} (h : rs.has c = true) :
    ∃ r ∈ rs, r.1 ≤ c.toNat ∧ c.toNat ≤ r.2 := by
  induction rs with
  | nil => simp [has] at h
  | cons r rs ih =>
    obtain ⟨lo, hi⟩ := r
    rw [has] at h
    split at h
    · simp at h
    · rename_i hlo
      rcases (Bool.or_eq_true _ _).mp h with hhi | htl
      · exact ⟨(lo, hi), by simp, Nat.le_of_not_lt hlo, by simpa using hhi⟩
      · obtain ⟨r, hr, hb⟩ := ih htl
        exact ⟨r, by simp [hr], hb⟩

end Highlighter
