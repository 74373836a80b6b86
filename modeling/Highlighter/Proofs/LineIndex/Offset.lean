import Highlighter.LineIndex

/-!
Offsets of positions. Whatever line and character an editor gives, the offset lies in the text.
-/

set_option autoImplicit false

namespace Highlighter

theorem Text.length_slice (t : Text) (start stop : Int) :
    (t.slice start stop).length = min stop.toNat t.length - start.toNat := by
  rw [slice, List.length_drop, List.length_take]

/-- A line starts behind what ends the line before it. -/
theorem bounds_of_mem_lineStarts {pos : Nat} {t : Text} {i : Nat} (h : i ∈ lineStarts pos t) :
    pos < i ∧ i ≤ pos + t.length := by
  induction t generalizing pos with
  | nil => cases h
  | cons c t ih =>
    rw [lineStarts] at h
    rw [List.length_cons]
    split at h
    · rcases List.mem_cons.mp h with rfl | h
      · omega
      · have := ih h
        omega
    · have := ih h
      omega

namespace LineIndex

theorem le_length_of_mem_starts {t : Text} {i : Nat} (h : i ∈ (ofText t).starts) :
    i ≤ t.length := by
  rcases List.mem_cons.mp h with rfl | h
  · exact Nat.zero_le _
  · have := bounds_of_mem_lineStarts h
    omega

theorem bounds?_start {x : LineIndex} {line start stop : Nat}
    (h : x.bounds? line = some (start, stop)) : x.starts[line]? = some start := by
  rw [bounds?] at h
  split at h
  · cases h
  · obtain ⟨rfl, -⟩ := Prod.mk.inj (Option.some.inj h)
    assumption
  · dsimp only at h
    split at h
    all_goals
      obtain ⟨rfl, -⟩ := Prod.mk.inj (Option.some.inj h)
      assumption

theorem charsFor_le (units : Int) (t : Text) : charsFor units t ≤ t.length := by
  induction t generalizing units with
  | nil => exact Nat.le_refl 0
  | cons c t ih =>
    rw [charsFor]
    split
    · exact Nat.succ_le_succ (ih _)
    · exact Nat.zero_le _

/-- The characters of a line are counted within the text, and so no position is outside it. -/
theorem offsetAt_le (t : Text) (line character : Int) :
    (ofText t).offsetAt line character ≤ t.length := by
  rw [offsetAt]
  split
  · exact Nat.zero_le _
  · split
    · exact Nat.le_refl _
    · rename_i start stop hbounds
      have hstart := le_length_of_mem_starts (List.mem_of_getElem? (bounds?_start hbounds))
      have hchars := charsFor_le character (t.slice start stop)
      rw [Text.length_slice] at hchars
      change start + charsFor character (t.slice start stop) ≤ t.length
      omega

end LineIndex

end Highlighter
