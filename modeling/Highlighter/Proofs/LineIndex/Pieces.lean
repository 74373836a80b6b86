import Highlighter.Proofs.LineIndex.Units
import Mathlib.Logic.ExistsUnique

/-!
Pieces of a range. They lie one behind the other, each in a line of its own, and together they have
exactly the characters of the range that do not end a line.
-/

set_option autoImplicit false

namespace Highlighter.LineIndex

variable {t : Text} {start stop a b i : Nat}

/-- The range lies between the bounds of the line. -/
def Within (x : LineIndex) (line : Nat) (p : Nat × Nat) : Prop :=
  ∃ first last, x.bounds? line = some (first, last) ∧ first ≤ p.1 ∧ p.2 ≤ last

namespace Within

variable {m n : Nat} {p q : Nat × Nat}

theorem lineOf_eq (h : (ofText t).Within n p) (hp : p.1 ≤ p.2) : (ofText t).lineOf p.1 = n := by
  obtain ⟨first, last, hbounds, hfirst, hlast⟩ := h
  exact (isLine_of_bounds? hbounds).lineOf_eq hfirst (Nat.le_trans hp hlast)

theorem line_eq (h : (ofText t).Within m p) (h' : (ofText t).Within n p) (hp : p.1 ≤ p.2) :
    m = n :=
  Int.ofNat_inj.mp ((h.lineOf_eq hp).symm.trans (h'.lineOf_eq hp))

theorem stop_lt_start (h : (ofText t).Within m p) (h' : (ofText t).Within n q) (hlt : m < n) :
    p.2 < q.1 := by
  obtain ⟨first, last, hbounds, hfirst, hlast⟩ := h
  obtain ⟨first', last', hbounds', hfirst', hlast'⟩ := h'
  have hlines := (isLine_of_bounds? hbounds).stop_lt_start (isLine_of_bounds? hbounds') hlt
  omega

theorem plain (h : (ofText t).Within n p) (hi : p.1 ≤ i) (hlt : i < p.2) :
    ∃ c, t[i]? = some c ∧ isLineEnd c = false := by
  obtain ⟨first, last, hbounds, hfirst, hlast⟩ := h
  exact (isLine_of_bounds? hbounds).plain i (Nat.le_trans hfirst hi) (Nat.lt_of_lt_of_le hlt hlast)

end Within

theorem existsUnique_within {c : Char} (hc : t[i]? = some c) (hplain : isLineEnd c = false) :
    ∃! line, (ofText t).Within line (i, i + 1) := by
  obtain ⟨line, first, last, hbounds, hfirst, hlast⟩ := exists_bounds?_of_plain hc hplain
  have hline : (ofText t).Within line (i, i + 1) := ⟨first, last, hbounds, hfirst, hlast⟩
  refine ⟨line, hline, ?_⟩
  intro n hn
  exact hn.line_eq hline (Nat.le_succ i)

theorem not_within_of_isLineEnd {c : Char} (hc : t[i]? = some c) (hend : isLineEnd c = true)
    (line : Nat) : ¬ (ofText t).Within line (i, i + 1) := by
  intro h
  obtain ⟨d, hd, hplain⟩ := h.plain (Nat.le_refl i) (Nat.lt_succ_self i)
  obtain rfl := Option.some.inj (hc.symm.trans hd)
  rw [hend] at hplain
  cases hplain

theorem piece?_eq_some_iff {x : LineIndex} {line : Nat} :
    x.piece? start stop line = some (a, b) ↔ ∃ first last, x.bounds? line = some (first, last) ∧
      a = max start first ∧ b = min stop last ∧ a < b := by
  rw [piece?]
  constructor
  · intro h
    split at h
    · cases h
    · rename_i first last hbounds
      dsimp only at h
      split at h
      · rename_i hlt
        obtain ⟨rfl, rfl⟩ := Prod.mk.inj (Option.some.inj h)
        exact ⟨first, last, hbounds, rfl, rfl, hlt⟩
      · cases h
  · rintro ⟨first, last, hbounds, rfl, rfl, hlt⟩
    rw [hbounds]
    exact if_pos hlt

theorem within_of_piece? {x : LineIndex} {line : Nat} {p : Nat × Nat}
    (h : x.piece? start stop line = some p) : x.Within line p := by
  obtain ⟨first, last, hbounds, hstart, hstop, -⟩ := piece?_eq_some_iff.mp h
  refine ⟨first, last, hbounds, ?_, ?_⟩
  · rw [hstart]
    exact Nat.le_max_right start first
  · rw [hstop]
    exact Nat.min_le_right stop last

theorem mem_pieces_iff : (a, b) ∈ (ofText t).pieces start stop ↔
    ∃ line first last, (ofText t).bounds? line = some (first, last) ∧
      a = max start first ∧ b = min stop last ∧ a < b := by
  constructor
  · intro h
    rw [pieces] at h
    split at h
    · obtain ⟨line, -, hpiece⟩ := List.mem_filterMap.mp h
      exact ⟨line, piece?_eq_some_iff.mp hpiece⟩
    · cases h
  · rintro ⟨line, first, last, hbounds, rfl, rfl, hlt⟩
    -- The line lies between those of the two ends, since a place in the piece lies in it.
    have hline := (isLine_of_bounds? hbounds).lineOf_eq (i := max start first)
      (Nat.le_max_right _ _) (by omega)
    have hfirst := lineOf_le_of_le (ofText t) (m := start) (n := (max start first : Nat)) (by omega)
    have hlast := lineOf_le_of_le (ofText t) (m := (max start first : Nat)) (n := (stop - 1 : Nat))
      (by omega)
    rw [pieces, if_pos (by omega), List.mem_filterMap]
    refine ⟨line, ?_, piece?_eq_some_iff.mpr ⟨first, last, hbounds, rfl, rfl, hlt⟩⟩
    rw [List.mem_range'_1]
    omega

theorem pieces_pairwise_lines (t : Text) (start stop : Nat) :
    ((ofText t).pieces start stop).Pairwise fun p q =>
      ∃ m n, m < n ∧ (ofText t).Within m p ∧ (ofText t).Within n q := by
  rw [pieces]
  split
  · rw [List.pairwise_filterMap]
    refine List.Pairwise.imp ?_ List.pairwise_lt_range'
    intro m n hlt p hp q hq
    exact ⟨m, n, hlt, within_of_piece? hp, within_of_piece? hq⟩
  · exact .nil

theorem pieces_pairwise (t : Text) (start stop : Nat) :
    ((ofText t).pieces start stop).Pairwise (·.2 < ·.1) := by
  apply (pieces_pairwise_lines t start stop).imp
  intro p q ⟨m, n, hlt, hp, hq⟩
  exact hp.stop_lt_start hq hlt

theorem bounds_of_mem_pieces (h : (a, b) ∈ (ofText t).pieces start stop) :
    start ≤ a ∧ a < b ∧ b ≤ stop := by
  obtain ⟨_, first, last, -, rfl, rfl, hlt⟩ := mem_pieces_iff.mp h
  omega

theorem exists_within_of_mem_pieces (h : (a, b) ∈ (ofText t).pieces start stop) :
    ∃ line, (ofText t).Within line (a, b) := by
  obtain ⟨line, hpiece⟩ := mem_pieces_iff.mp h
  exact ⟨line, within_of_piece? (piece?_eq_some_iff.mpr hpiece)⟩

theorem exists_mem_pieces_iff :
    (∃ a b, (a, b) ∈ (ofText t).pieces start stop ∧ a ≤ i ∧ i < b) ↔
      start ≤ i ∧ i < stop ∧ ∃ c, t[i]? = some c ∧ isLineEnd c = false := by
  constructor
  · rintro ⟨a, b, hmem, ha, hb⟩
    obtain ⟨line, hline⟩ := exists_within_of_mem_pieces hmem
    obtain ⟨hstart, -, hstop⟩ := bounds_of_mem_pieces hmem
    exact ⟨Nat.le_trans hstart ha, Nat.lt_of_lt_of_le hb hstop, hline.plain ha hb⟩
  · rintro ⟨hstart, hstop, c, hc, hplain⟩
    obtain ⟨line, first, last, hbounds, hfirst, hlast⟩ := exists_bounds?_of_plain hc hplain
    refine ⟨max start first, min stop last, mem_pieces_iff.mpr ?_, by omega, by omega⟩
    exact ⟨line, first, last, hbounds, rfl, rfl, by omega⟩

/-- Parts into which the line ends of a text split a range. -/
structure SplitsRange (t : Text) (start stop : Nat) (parts : List (Nat × Nat)) : Prop where
  inside : ∀ p ∈ parts, start ≤ p.1 ∧ p.1 < p.2 ∧ p.2 ≤ stop
  apart : parts.Pairwise (·.2 < ·.1)
  in_line : ∀ p ∈ parts, ∃ line, (ofText t).Within line p
  own_line : parts.Pairwise fun p q =>
    ∀ m n, (ofText t).Within m p → (ofText t).Within n q → m < n
  covers : ∀ i : Nat, (∃ p ∈ parts, p.1 ≤ i ∧ i < p.2) ↔
    start ≤ i ∧ i < stop ∧ ∃ c, t[i]? = some c ∧ isLineEnd c = false

theorem splitsRange_pieces (t : Text) (start stop : Nat) :
    SplitsRange t start stop ((ofText t).pieces start stop) := by
  constructor
  case inside =>
    intro p hp
    exact bounds_of_mem_pieces hp
  case apart => exact pieces_pairwise t start stop
  case in_line =>
    intro p hp
    exact exists_within_of_mem_pieces hp
  case own_line =>
    apply (pieces_pairwise_lines t start stop).imp_of_mem
    intro p q hp hq ⟨m, n, hlt, hm, hn⟩ m' n' hm' hn'
    -- A piece is not empty, so no other line has it too.
    obtain rfl := hm.line_eq hm' (Nat.le_of_lt (bounds_of_mem_pieces hp).2.1)
    obtain rfl := hn.line_eq hn' (Nat.le_of_lt (bounds_of_mem_pieces hq).2.1)
    exact hlt
  case covers =>
    intro i
    rw [← exists_mem_pieces_iff, Prod.exists]

/-- Every offset is on a line of the index, and every line of the index has bounds. The line ends of
the text split a range into its pieces. What ends a line lies outside the bounds of all lines, and
every other character within those of exactly one. -/
theorem pieces_split_at_line_ends (t : Text) (start stop : Nat) :
    let x := ofText t
    (∀ i : Nat, 0 ≤ x.lineOf i ∧ x.lineOf i < x.lineCount) ∧
      (∀ line < x.lineCount, ∃ first last, x.bounds? line = some (first, last)) ∧
      SplitsRange t start stop (x.pieces start stop) ∧
      ∀ i c, t[i]? = some c →
        (isLineEnd c = true → ∀ line, ¬ x.Within line (i, i + 1)) ∧
        (isLineEnd c = false → ∃! line, x.Within line (i, i + 1)) := by
  intro x
  refine ⟨lineOf_bounds t, fun line hline => exists_bounds?_of_lt hline,
    splitsRange_pieces t start stop, ?_⟩
  intro i c hc
  exact ⟨not_within_of_isLineEnd hc, existsUnique_within hc⟩

/-- The range starts inside a pair, and its second line is empty. -/
example : (ofText "a\r\n\r😀b\n".toList).pieces 2 7 = [(4, 6)] := by decide

end Highlighter.LineIndex
