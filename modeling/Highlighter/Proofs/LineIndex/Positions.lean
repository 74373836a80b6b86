import Highlighter.Proofs.LineIndex.Rounding
import Mathlib.Order.Bounds.Basic

/-!
Offsets and positions lead to each other. Later offsets have later positions, and the position of an
offset leads back to it unless the offset lies between a carriage return and its line feed. The
other way round, a position in a line leads to the first offset far enough from the start of the
line, and is the position of that offset exactly if a beginning of the line has as many code units.
-/

set_option autoImplicit false

namespace Highlighter

theorem Text.utf16Length_slice_le (t : Text) {a b c : Nat} (hab : a ≤ b) (hbc : b ≤ c) :
    (t.slice a b).utf16Length ≤ (t.slice a c).utf16Length := by
  rw [utf16Length_slice t hab hbc]
  exact Nat.le_add_right _ _

namespace LineIndex

variable {t : Text} {line start stop i j : Nat}

theorem positionAt_lt (hlt : i < j) (hj : j ≤ t.length) :
    toLex ((ofText t).positionAt i) < toLex ((ofText t).positionAt j) := by
  obtain ⟨line, start, stop, hbounds, hi, hnext⟩ := exists_line t i
  obtain ⟨line', start', stop', hbounds', hj', hnext'⟩ := exists_line t j
  have hstart := bounds?_start hbounds
  have hstart' := bounds?_start hbounds'
  rw [positionAt_eq hstart hi hnext, positionAt_eq hstart' hj' hnext', Prod.Lex.toLex_lt_toLex]
  have hle := lineOf_le_of_le (ofText t) (Int.ofNat_le.mpr (Nat.le_of_lt hlt))
  rw [lineOf_eq hstart hi hnext, lineOf_eq hstart' hj' hnext'] at hle
  rcases Nat.eq_or_lt_of_le (Int.ofNat_le.mp hle) with rfl | hbefore
  · obtain rfl := Option.some.inj (hstart.symm.trans hstart')
    have hpos := Text.utf16Length_slice_pos hlt hj
    refine .inr ⟨rfl, ?_⟩
    dsimp only
    rw [Text.utf16Length_slice t hi (Nat.le_of_lt hlt)]
    omega
  · exact .inl hbefore

theorem offsetAt_positionAt (hi : i ≤ t.length) (hno : ¬ InsidePair t i) :
    (ofText t).offsetAt ((ofText t).positionAt i).1 ((ofText t).positionAt i).2 = i := by
  obtain ⟨line, start, stop, hbounds, hle, hnext⟩ := exists_line t i
  rw [positionAt_eq (bounds?_start hbounds) hle hnext]
  have hstop := ((isLine_of_bounds? hbounds).le_stop_iff hle hi hnext).mpr hno
  exact offsetAt_utf16Length hbounds hle hstop

/-- Inside a pair the position is behind the end of its line, and is moved back to it. -/
theorem offsetAt_positionAt_of_insidePair (hpair : InsidePair t (i + 1)) :
    (ofText t).offsetAt ((ofText t).positionAt (i + 1)).1 ((ofText t).positionAt (i + 1)).2 =
      i := by
  obtain ⟨line, start, stop, hbounds, hle, hnext⟩ := exists_line t (i + 1)
  have hline := isLine_of_bounds? hbounds
  obtain rfl := hline.stop_eq hle hnext hpair
  rw [positionAt_eq (bounds?_start hbounds) hle hnext]
  dsimp only
  generalize hcharacter : ((t.slice start (stop + 1 : Nat)).utf16Length : Int) = character
  obtain ⟨hstart, hstop⟩ := offsetAt_bounds hbounds character
  rcases (offsetAt_le_iff hbounds hstart hstop).mp (Nat.le_refl _) with hfar | hend
  · have hwhole := Text.utf16Length_slice t hline.start_le (Nat.le_add_right stop 1)
    have hlast := Text.utf16Length_slice_pos (Nat.lt_add_one stop) (Nat.le_of_lt hpair.lt_length)
    have hshort := Text.utf16Length_slice_le t hstart hstop
    omega
  · exact hend

/-- The offsets of a line that lie at least so many code units from its start. -/
def farEnough (t : Text) (start stop : Nat) (character : Int) : Set Nat :=
  {i | start ≤ i ∧ i ≤ stop ∧ character ≤ ((t.slice start i).utf16Length : Int)}

theorem offsetAt_isLeast {character : Int} (h : (ofText t).bounds? line = some (start, stop))
    (hfar : (farEnough t start stop character).Nonempty) :
    IsLeast (farEnough t start stop character) ((ofText t).offsetAt line character) := by
  obtain ⟨hstart, hstop⟩ := offsetAt_bounds h character
  constructor
  · refine ⟨hstart, hstop, ?_⟩
    rcases (offsetAt_le_iff h hstart hstop).mp (Nat.le_refl _) with hle | hend
    · exact hle
    · obtain ⟨i, hi, histop, hcharacter⟩ := hfar
      have := Text.utf16Length_slice_le t hi histop
      rw [hend]
      omega
  · rintro i ⟨hi, histop, hcharacter⟩
    exact (offsetAt_le_iff h hi histop).mpr (.inl hcharacter)

theorem offsetAt_eq_stop {character : Int} (h : (ofText t).bounds? line = some (start, stop))
    (hfar : farEnough t start stop character = ∅) :
    (ofText t).offsetAt line character = stop := by
  obtain ⟨hstart, hstop⟩ := offsetAt_bounds h character
  rcases (offsetAt_le_iff h hstart hstop).mp (Nat.le_refl _) with hle | hend
  · exact absurd ⟨hstart, hstop, hle⟩ (Set.eq_empty_iff_forall_notMem.mp hfar _)
  · exact hend

theorem exists_prefix_iff {n : Nat} (h : IsLine t line start stop) :
    (∃ p : Text, p <+: t.slice start stop ∧ p.utf16Length = n) ↔
      ∃ i, start ≤ i ∧ i ≤ stop ∧ (t.slice start i).utf16Length = n := by
  have hstart := h.start_le
  have hlength := h.stop_le_length
  constructor
  · rintro ⟨p, hp, rfl⟩
    have hle := hp.length_le
    rw [Text.length_slice, Int.toNat_natCast, Int.toNat_natCast] at hle
    refine ⟨start + p.length, by omega, by omega, ?_⟩
    rw [← Text.take_slice t (b := stop) (by omega), ← List.prefix_iff_eq_take.mp hp]
  · rintro ⟨i, hi, hstop, rfl⟩
    exact ⟨_, ⟨_, Text.slice_append t hi hstop⟩, rfl⟩

theorem positionAt_offsetAt_iff {character : Int}
    (h : (ofText t).bounds? line = some (start, stop)) :
    (((ofText t).positionAt ((ofText t).offsetAt line character)).1 = line ∧
        (((ofText t).positionAt ((ofText t).offsetAt line character)).2 : Int) = character) ↔
      ∃ p : Text, p <+: t.slice start stop ∧ (p.utf16Length : Int) = character := by
  have hline := isLine_of_bounds? h
  obtain ⟨hstart, hstop⟩ := offsetAt_bounds h character
  rw [hline.positionAt_eq hstart hstop]
  constructor
  · rintro ⟨-, hcharacter⟩
    obtain ⟨p, hp, hlength⟩ := (exists_prefix_iff hline).mpr ⟨_, hstart, hstop, rfl⟩
    exact ⟨p, hp, hlength ▸ hcharacter⟩
  · rintro ⟨p, hp, rfl⟩
    obtain ⟨i, hi, hle, hlength⟩ := (exists_prefix_iff hline).mp ⟨p, hp, rfl⟩
    rw [← hlength, offsetAt_utf16Length h hi hle]
    exact ⟨rfl, rfl⟩

/-- Later offsets have later positions. The position of an offset leads back to it, or, from inside
a pair, to the carriage return. A position in a line leads to the least offset that is far enough,
or to the end of the line if none is; that offset has just this position if and only if a beginning
of the line is as long. -/
theorem positions_of_offsets (t : Text) :
    let x := ofText t
    (StrictMonoOn (fun i => toLex (x.positionAt i)) (Set.Iic t.length)) ∧
      (∀ i ≤ t.length, ¬ InsidePair t i →
        x.offsetAt (x.positionAt i).1 (x.positionAt i).2 = i) ∧
      (∀ i, InsidePair t (i + 1) →
        x.offsetAt (x.positionAt (i + 1)).1 (x.positionAt (i + 1)).2 = i) ∧
      ∀ line < x.lineCount, ∃ start stop, x.bounds? line = some (start, stop) ∧
        ∀ character : Int,
          ((farEnough t start stop character).Nonempty →
            IsLeast (farEnough t start stop character) (x.offsetAt line character)) ∧
          (farEnough t start stop character = ∅ → x.offsetAt line character = stop) ∧
          ((x.positionAt (x.offsetAt line character)).1 = line ∧
              ((x.positionAt (x.offsetAt line character)).2 : Int) = character ↔
            ∃ p : Text, p <+: t.slice start stop ∧ (p.utf16Length : Int) = character) := by
  intro x
  refine ⟨?_, fun i hi hno => offsetAt_positionAt hi hno,
    fun i hpair => offsetAt_positionAt_of_insidePair hpair, ?_⟩
  · intro i _ j hj hlt
    exact positionAt_lt hlt hj
  · intro line hline
    obtain ⟨start, stop, hbounds⟩ := exists_bounds?_of_lt hline
    refine ⟨start, stop, hbounds, fun character => ⟨?_, ?_, ?_⟩⟩
    · exact offsetAt_isLeast hbounds
    · exact offsetAt_eq_stop hbounds
    · exact positionAt_offsetAt_iff hbounds

/-- The third offset lies inside a pair; the first character has two code units. -/
example : [0, 1, 2, 3, 4].map (ofText "😀\r\nb".toList).positionAt =
    [(0, 0), (0, 2), (0, 3), (1, 0), (1, 1)] := by decide

end LineIndex

end Highlighter
