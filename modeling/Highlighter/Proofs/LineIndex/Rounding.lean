import Highlighter.Proofs.LineIndex.Units
import Mathlib.Data.Prod.Lex

/-!
Positions that are no places in the text. Such a position is moved to an offset near it: before the
first line to the start, behind the last one to the end, and in a line to the first offset that lies
as far from its start, or to its end. However this comes out, no offset lies between a carriage
return and its line feed, and a later position never has an earlier offset.
-/

set_option autoImplicit false

namespace Highlighter

/-- The offset lies between a carriage return and its line feed. -/
def InsidePair (t : Text) (i : Nat) : Prop :=
  ∃ j, i = j + 1 ∧ t[j]? = some '\r' ∧ t[j + 1]? = some '\n'

theorem not_insidePair_zero (t : Text) : ¬ InsidePair t 0 := by
  rintro ⟨j, hj, -⟩
  omega

theorem InsidePair.lt_length {t : Text} {i : Nat} (h : InsidePair t i) : i < t.length := by
  obtain ⟨j, rfl, -, hfeed⟩ := h
  exact (List.getElem?_eq_some_iff.mp hfeed).1

theorem insidePair_of_not_endsLine {t : Text} {i : Nat} {c : Char} (hc : t[i]? = some c)
    (hend : isLineEnd c = true) (hno : ¬ EndsLine t i) : InsidePair t (i + 1) := by
  rw [isLineEnd, Bool.or_eq_true, beq_iff_eq, beq_iff_eq] at hend
  rcases hend with rfl | rfl
  · exact absurd (.inl hc) hno
  · exact ⟨i, rfl, hc, Classical.not_not.mp fun hfeed => hno (.inr ⟨hc, hfeed⟩)⟩

theorem Text.take_slice (t : Text) {a b k : Nat} (h : a + k ≤ b) :
    (t.slice a b).take k = t.slice a (a + k : Nat) := by
  rw [slice, slice, List.take_drop, List.take_take, Int.toNat_natCast, Int.toNat_natCast,
    Int.toNat_natCast, Nat.min_eq_left h]

namespace LineIndex

variable {t : Text} {line start stop i : Nat} {character : Int}

/-- No line starts inside a pair. -/
theorem not_insidePair_start (h : (ofText t).starts[line]? = some start) :
    ¬ InsidePair t start := by
  rintro ⟨j, rfl, hreturn, hfeed⟩
  rcases mem_starts_iff.mp (List.mem_of_getElem? h) with hzero | ⟨i, hends, hi⟩
  · omega
  · obtain rfl : j = i := by omega
    rcases hends with hfeed' | ⟨-, hno⟩
    · cases hreturn.symm.trans hfeed'
    · exact hno hfeed

/-- Of the offsets that belong to a line, those behind its last character lie inside a pair. -/
theorem IsLine.le_stop_iff (h : IsLine t line start stop) (hi : start ≤ i) (hlength : i ≤ t.length)
    (hnext : ∀ next, (ofText t).starts[line + 1]? = some next → i < next) :
    i ≤ stop ↔ ¬ InsidePair t i := by
  constructor
  · rintro hstop ⟨j, rfl, hreturn, hfeed⟩
    rcases Nat.eq_or_lt_of_le hi with rfl | hlt
    · exact not_insidePair_start h.starts_eq ⟨j, rfl, hreturn, hfeed⟩
    · obtain ⟨c, hc, hplain⟩ := h.plain j (Nat.le_of_lt_succ hlt) hstop
      obtain rfl := Option.some.inj (hc.symm.trans hreturn)
      cases hplain
  · intro hno
    refine Nat.le_of_not_lt fun hlt => ?_
    cases hnext' : (ofText t).starts[line + 1]? with
    | none =>
      have := h.last hnext'
      omega
    | some next =>
      have hbefore := hnext next hnext'
      obtain ⟨j, rfl⟩ := Nat.exists_eq_succ_of_ne_zero (Nat.ne_of_gt (Nat.zero_lt_of_lt hlt))
      obtain ⟨c, hc, hend⟩ := h.ends next hnext' j (Nat.le_of_lt_succ hlt) (by omega)
      have hinside : ¬ EndsLine t j := by
        refine not_endsLine h.starts_eq (Nat.le_trans h.start_le (Nat.le_of_lt_succ hlt)) ?_
        exact fun next hnext' => hnext next hnext'
      exact hno (insidePair_of_not_endsLine hc hend hinside)

/-- A line stops in front of the pair that ends it. -/
theorem IsLine.stop_eq (h : IsLine t line start stop) (hi : start ≤ i + 1)
    (hnext : ∀ next, (ofText t).starts[line + 1]? = some next → i + 1 < next)
    (hpair : InsidePair t (i + 1)) : stop = i := by
  have hlength := hpair.lt_length
  have hlt : ¬ i + 1 ≤ stop := fun hle =>
    (h.le_stop_iff hi (Nat.le_of_lt hlength) hnext).mp hle hpair
  refine Nat.le_antisymm (by omega) (Classical.not_not.mp fun hafter => ?_)
  have hi' : start ≤ i := Nat.le_trans h.start_le (by omega)
  have hno := mt (h.le_stop_iff hi' (by omega) fun next hnext' => by
    have := hnext next hnext'
    omega).mpr hafter
  obtain ⟨j, rfl, -, hfeed⟩ := Classical.not_not.mp hno
  obtain ⟨k, hk, hreturn, -⟩ := hpair
  obtain rfl : j + 1 = k := by omega
  cases hfeed.symm.trans hreturn

/-- Counting characters stops at the first place that is far enough, or at the end. -/
theorem charsFor_le_iff {units : Int} {s : Text} {k : Nat} (hk : k ≤ s.length) :
    charsFor units s ≤ k ↔ units ≤ (Text.utf16Length (s.take k) : Int) ∨ k = s.length := by
  induction s generalizing units k with
  | nil =>
    obtain rfl := Nat.le_zero.mp hk
    exact iff_of_true (Nat.le_refl 0) (.inr rfl)
  | cons c s ih =>
    rw [charsFor]
    cases k with
    | zero =>
      rw [List.take_zero, Text.utf16Length_nil, List.length_cons]
      split
      all_goals omega
    | succ k =>
      have hrest := @ih (units - utf16Width c) k (Nat.le_of_succ_le_succ hk)
      rw [List.take_succ_cons, Text.utf16Length_cons, List.length_cons]
      split
      all_goals omega

theorem charsFor_mono {m n : Int} (h : m ≤ n) (s : Text) : charsFor m s ≤ charsFor n s := by
  rw [charsFor_le_iff (charsFor_le n s)]
  exact ((charsFor_le_iff (charsFor_le n s)).mp (Nat.le_refl _)).imp_left (Int.le_trans h)

theorem offsetAt_bounds (h : (ofText t).bounds? line = some (start, stop)) (character : Int) :
    start ≤ (ofText t).offsetAt line character ∧ (ofText t).offsetAt line character ≤ stop := by
  have hline := isLine_of_bounds? h
  have hlength := hline.stop_le_length
  have hstart := hline.start_le
  have hchars := charsFor_le character (t.slice start stop)
  rw [Text.length_slice, Int.toNat_natCast, Int.toNat_natCast] at hchars
  rw [offsetAt_of_bounds? h]
  omega

/-- An offset of the line is far enough, or it is the end, exactly if it is not before the one that
the position is moved to. -/
theorem offsetAt_le_iff (h : (ofText t).bounds? line = some (start, stop)) (hi : start ≤ i)
    (hstop : i ≤ stop) :
    (ofText t).offsetAt line character ≤ i ↔
      character ≤ ((t.slice start i).utf16Length : Int) ∨ i = stop := by
  have hlength := (isLine_of_bounds? h).stop_le_length
  obtain ⟨k, rfl⟩ := Nat.exists_eq_add_of_le hi
  have hslice : (t.slice start stop).length = stop - start := by
    rw [Text.length_slice, Int.toNat_natCast, Int.toNat_natCast, Nat.min_eq_left hlength]
  rw [offsetAt_of_bounds? h, Nat.add_le_add_iff_left, charsFor_le_iff (by omega), hslice,
    Text.take_slice t hstop]
  have : k = stop - start ↔ start + k = stop := by omega
  rw [this]

theorem offsetAt_of_lineCount_le {line : Int} (h : ((ofText t).lineCount : Int) ≤ line)
    (character : Int) : (ofText t).offsetAt line character = t.length := by
  rw [offsetAt, if_neg (by omega)]
  cases hbounds : (ofText t).bounds? line.toNat with
  | none => rfl
  | some p =>
    have := lt_lineCount hbounds
    omega

/-- A line is before the text, behind it, or one of its lines. -/
theorem line_cases (t : Text) (line : Int) :
    line < 0 ∨ ((ofText t).lineCount : Int) ≤ line ∨
      ∃ n start stop : Nat, line = n ∧ (ofText t).bounds? n = some (start, stop) := by
  rcases Int.lt_or_le line 0 with hneg | hnonneg
  · exact .inl hneg
  · rcases Int.lt_or_le line (ofText t).lineCount with hlt | hle
    · obtain ⟨n, rfl⟩ := Int.eq_ofNat_of_zero_le hnonneg
      obtain ⟨start, stop, hbounds⟩ := exists_bounds?_of_lt (Int.ofNat_lt.mp hlt)
      exact .inr (.inr ⟨n, start, stop, rfl, hbounds⟩)
    · exact .inr (.inl hle)

theorem not_insidePair_offsetAt (t : Text) (line character : Int) :
    ¬ InsidePair t ((ofText t).offsetAt line character) := by
  rcases line_cases t line with hneg | hcount | ⟨n, start, stop, rfl, hbounds⟩
  · rw [offsetAt, if_pos hneg]
    exact not_insidePair_zero t
  · rw [offsetAt_of_lineCount_le hcount]
    exact fun h => Nat.lt_irrefl _ h.lt_length
  · have hline := isLine_of_bounds? hbounds
    obtain ⟨hstart, hstop⟩ := offsetAt_bounds hbounds character
    refine (hline.le_stop_iff hstart (offsetAt_le t n character) fun next hnext => ?_).mp hstop
    have := hline.stop_lt next hnext
    omega

/-- Positions are in order by their lines and then by their characters, and so are their offsets. -/
theorem offsetAt_mono (t : Text) {line character line' character' : Int}
    (hle : toLex (line, character) ≤ toLex (line', character')) :
    (ofText t).offsetAt line character ≤ (ofText t).offsetAt line' character' := by
  have hlex : line < line' ∨ line = line' ∧ character ≤ character' := Prod.Lex.toLex_le_toLex.mp hle
  rcases line_cases t line with hneg | hcount | ⟨n, start, stop, rfl, hbounds⟩
  · rw [offsetAt, if_pos hneg]
    exact Nat.zero_le _
  · have hcount' : ((ofText t).lineCount : Int) ≤ line' := by omega
    rw [offsetAt_of_lineCount_le hcount']
    exact offsetAt_le t line character
  · rcases line_cases t line' with hneg' | hcount' | ⟨n', start', stop', rfl, hbounds'⟩
    · omega
    · rw [offsetAt_of_lineCount_le hcount']
      exact offsetAt_le t n character
    · rcases hlex with hlt | ⟨heq, hcharacter⟩
      · have hstop := (isLine_of_bounds? hbounds).stop_lt_start (isLine_of_bounds? hbounds')
          (Int.ofNat_lt.mp hlt)
        have := (offsetAt_bounds hbounds character).2
        have := (offsetAt_bounds hbounds' character').1
        omega
      · obtain rfl := Int.ofNat_inj.mp heq
        rw [offsetAt_of_bounds? hbounds, offsetAt_of_bounds? hbounds]
        exact Nat.add_le_add_left (charsFor_mono hcharacter _) _

end LineIndex

end Highlighter
