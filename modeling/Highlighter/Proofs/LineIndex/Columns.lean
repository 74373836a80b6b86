import Highlighter.Proofs.LineIndex.Rounding
import Highlighter.Proofs.Scan.LineEnds
import Highlighter.Text.Line

/-!
Lines as they are split and counted. Splitting a text at its line ends gives the lines of the index,
and counting the line ends before an offset gives the line of the index and the distance from its
start. Only an offset between a carriage return and its line feed is counted otherwise: the carriage
return alone ends a line, and the offset is at the start of the next one.
-/

set_option autoImplicit false

namespace Highlighter

theorem lineStarts_add (pos n : Nat) (t : Text) :
    lineStarts (pos + n) t = (lineStarts pos t).map (· + n) := by
  induction t generalizing pos with
  | nil => rfl
  | cons c t ih =>
    have hrest : lineStarts (pos + n + 1) t = (lineStarts (pos + 1) t).map (· + n) := by
      rw [Nat.add_right_comm]
      exact ih (pos + 1)
    rw [lineStarts, lineStarts, hrest]
    split
    · rw [List.map_cons, Nat.add_right_comm]
    · rfl

/-- The line that goes on at a place. -/
def Text.lineAt (t : Text) (start : Nat) : Text := (t.drop start).takeWhile (!isLineEnd ·)

namespace LineIndex

theorem starts_pair (t : Text) :
    (ofText ('\r' :: '\n' :: t)).starts = 0 :: (ofText t).starts.map (· + 2) := by
  have hstarts : lineStarts 0 ('\r' :: '\n' :: t) = 2 :: lineStarts 2 t := by
    simp [lineStarts]
  rw [ofText, ofText, hstarts, ← Nat.zero_add 2, lineStarts_add, List.map_cons]

theorem starts_cons_of_ends {c : Char} {t : Text} (h : EndsLine (c :: t) 0) :
    (ofText (c :: t)).starts = 0 :: (ofText t).starts.map (· + 1) := by
  rw [ofText, ofText, lineStarts, if_pos (endsLine_zero_iff.mp h), lineStarts_add, List.map_cons]

theorem starts_cons_of_not_ends {c : Char} {t : Text} (h : ¬ EndsLine (c :: t) 0) :
    (ofText (c :: t)).starts = 0 :: (lineStarts 0 t).map (· + 1) := by
  rw [ofText, lineStarts, if_neg (mt endsLine_zero_iff.mpr h), lineStarts_add]

/-- The lines before an offset start where those of the whole text do, unless the offset is between
a carriage return and its line feed. -/
theorem lineStarts_take {t : Text} {i : Nat} (pos : Nat) (hno : ¬ InsidePair t i) :
    lineStarts pos (t.take i) =
      (lineStarts pos t).takeWhile fun start : Nat => (start : Int) ≤ (pos + i : Nat) := by
  induction t generalizing pos i with
  | nil => simp [lineStarts]
  | cons c t ih =>
    cases i with
    | zero =>
      cases hstarts : lineStarts pos (c :: t) with
      | nil => rfl
      | cons start starts =>
        have hfirst : start ∈ lineStarts pos (c :: t) := by simp [hstarts]
        have hlt := (bounds_of_mem_lineStarts hfirst).1
        rw [List.takeWhile_cons_of_neg (by simp only [decide_eq_true_eq]; omega)]
        rfl
    | succ i =>
      have hrest : ¬ InsidePair t i := by
        intro hpair
        obtain ⟨j, rfl, hreturn, hfeed⟩ := hpair
        exact hno ⟨j + 1, rfl, hreturn, hfeed⟩
      have hends : (c = '\n' ∨ c = '\r' ∧ (t.take i).head? ≠ some '\n') ↔
          (c = '\n' ∨ c = '\r' ∧ t.head? ≠ some '\n') := by
        cases i with
        | zero =>
          -- With nothing behind it the character ends a line whenever it can.
          have hfirst : c = '\r' → t.head? ≠ some '\n' := by
            intro hreturn hfeed
            exact hno ⟨0, rfl, by simp [hreturn], by simpa [List.head?_eq_getElem?] using hfeed⟩
          simp only [List.take_zero, List.head?_nil]
          grind
        | succ i => simp [List.head?_take]
      have hih := ih (pos + 1) hrest
      rw [Nat.add_right_comm, Nat.add_assoc] at hih
      rw [List.take_succ_cons, lineStarts, lineStarts, hih]
      by_cases h : c = '\n' ∨ c = '\r' ∧ t.head? ≠ some '\n'
      · rw [if_pos (hends.mpr h), if_pos h, List.takeWhile_cons_of_pos]
        simp only [decide_eq_true_eq]
        omega
      · rw [if_neg (mt hends.mp h), if_neg h]

end LineIndex

namespace Text

theorem lines_eq_map (t : Text) : t.lines = (LineIndex.ofText t).starts.map t.lineAt := by
  fun_induction lines t with
  | case1 => rfl
  | case2 t ih =>
    rw [ih, LineIndex.starts_pair, List.map_cons, List.map_map]
    rfl
  | case3 c t hpair hend ih =>
    have hends : EndsLine (c :: t) 0 := by
      simp only [isLineEnd, Bool.or_eq_true, beq_iff_eq] at hend
      rcases hend with rfl | rfl
      · exact endsLine_zero_iff.mpr (.inl rfl)
      · refine endsLine_zero_iff.mpr (.inr ⟨rfl, ?_⟩)
        intro hfeed
        obtain ⟨rest, rfl⟩ := List.head?_eq_some_iff.mp hfeed
        exact hpair rest rfl rfl
    rw [ih, LineIndex.starts_cons_of_ends hends, List.map_cons, List.map_map, lineAt]
    rw [List.drop_zero, List.takeWhile_cons_of_neg (by simp [hend])]
    rfl
  | case4 c t hpair hplain ih =>
    have hends : ¬ EndsLine (c :: t) 0 := by
      intro hends
      obtain ⟨d, hd, hend⟩ := hends.isLineEnd
      obtain rfl := Option.some.inj hd
      exact hplain hend
    rw [ih, LineIndex.starts_cons_of_not_ends hends, List.map_cons, List.map_map]
    rw [lineAt, List.drop_zero, List.takeWhile_cons_of_pos (by simpa using hplain)]
    rfl

theorem lineAt_eq_slice {t : Text} {start stop : Nat} (h : FirstFrom isLineEnd t start stop) :
    t.lineAt start = t.slice start stop := by
  obtain rfl := firstFrom_iff.mp h
  rw [slice_eq_take_drop, take_runLength, lineAt]

theorem lines_cons {c : Char} {t : Text} (h : c = '\r' → t.head? ≠ some '\n') :
    lines (c :: t) = if isLineEnd c then [] :: lines t else consLine c (lines t) := by
  rw [lines]
  intro rest hreturn ht
  exact h hreturn (by rw [ht]; rfl)

/-- A carriage return at the end of a text ends a line, with a line feed behind it or without. -/
theorem lines_append_return (s : Text) : lines (s ++ ['\r']) = lines (s ++ ['\r', '\n']) := by
  induction s using pair_induction with
  | nil => rfl
  | pair s ih => simp [lines, ih]
  | lone s hs ih =>
    have hhead : ∀ u, (s ++ '\r' :: u).head? ≠ some '\n' := by
      intro u
      cases s with
      | nil => simp
      | cons d s => simpa using hs
    rw [List.cons_append, List.cons_append, lines_cons fun _ => hhead _,
      lines_cons fun _ => hhead _, ih]
  | cons c s hc ih =>
    rw [List.cons_append, List.cons_append, lines_cons fun hreturn => absurd hreturn hc,
      lines_cons fun hreturn => absurd hreturn hc, ih]

end Text

namespace LineIndex

variable {t : Text} {line start stop i : Nat}

theorem IsLine.firstFrom (h : IsLine t line start stop) : FirstFrom isLineEnd t start stop := by
  refine ⟨h.start_le, h.plain, ?_⟩
  intro c hc
  cases hnext : (ofText t).starts[line + 1]? with
  | none =>
    have hlt := (List.getElem?_eq_some_iff.mp hc).1
    have := h.last hnext
    omega
  | some next =>
    obtain ⟨d, hd, hend⟩ := h.ends next hnext stop (Nat.le_refl stop) (h.stop_lt next hnext)
    obtain rfl := Option.some.inj (hc.symm.trans hd)
    exact hend

theorem starts_take (hstart : (ofText t).starts[line]? = some start) (hi : start ≤ i)
    (hnext : ∀ next, (ofText t).starts[line + 1]? = some next → i < next)
    (hno : ¬ InsidePair t i) :
    (ofText (t.take i)).starts = (ofText t).starts.take (line + 1) := by
  have htake : (ofText (t.take i)).starts =
      (ofText t).starts.takeWhile fun start : Nat => (start : Int) ≤ i := by
    rw [ofText, ofText, lineStarts_take 0 hno, Nat.zero_add, List.takeWhile_cons_of_pos]
    simp
  have hlength := length_takeWhile_le (n := i) (starts_pairwise t) hstart (by omega)
    fun next h => by have := hnext next h; omega
  rw [htake, List.prefix_iff_eq_take.mp (List.takeWhile_prefix _), hlength]

theorem lineColumn_eq (hstart : (ofText t).starts[line]? = some start) (hi : start ≤ i)
    (hlength : i ≤ t.length) (hnext : ∀ next, (ofText t).starts[line + 1]? = some next → i < next)
    (hno : ¬ InsidePair t i) : t.lineColumn i = (line + 1, i - start + 1) := by
  obtain ⟨stop, hbounds⟩ := exists_bounds? hstart
  have hline := isLine_of_bounds? hbounds
  have hstop := (hline.le_stop_iff hi hlength hnext).mpr hno
  have hlast : FirstFrom isLineEnd (t.take i) start i := by
    refine ⟨hi, ?_, ?_⟩
    · intro j hj hlt
      rw [List.getElem?_take, if_pos hlt]
      exact hline.plain j hj (by omega)
    · intro c hc
      rw [List.getElem?_take, if_neg (Nat.lt_irrefl i)] at hc
      cases hc
  have hlines : Text.lines (t.take i) =
      ((ofText t).starts.take (line + 1)).map (Text.lineAt (t.take i)) := by
    rw [Text.lines_eq_map, starts_take hstart hi hnext hno]
  have hcount : (Text.lines (t.take i)).length = line + 1 := by
    have hlt := (List.getElem?_eq_some_iff.mp hstart).1
    rw [hlines, List.length_map, List.length_take, Nat.min_eq_left hlt]
  have hend : (Text.lines (t.take i)).getLast? = some (Text.slice (t.take i) start i) := by
    rw [List.getLast?_eq_getElem?, hcount, hlines, Nat.add_sub_cancel, List.getElem?_map,
      List.getElem?_take, if_pos (Nat.lt_add_one line), hstart, Option.map_some,
      Text.lineAt_eq_slice hlast]
  rw [Text.lineColumn, Int.toNat_natCast, hcount, hend, Option.getD_some, Text.length_slice,
    Int.toNat_natCast, Int.toNat_natCast, List.length_take, Nat.min_eq_left hlength, Nat.min_self]

/-- Between a carriage return and its line feed the next line has begun already. -/
theorem lineColumn_of_insidePair (hpair : InsidePair t i) :
    t.lineColumn i = t.lineColumn (i + 1 : Nat) := by
  obtain ⟨j, rfl, hreturn, hfeed⟩ := hpair
  have htake : t.take (j + 1) = t.take j ++ ['\r'] := by
    rw [List.take_add_one, hreturn]
    rfl
  have htake' : t.take (j + 1 + 1) = t.take j ++ ['\r', '\n'] := by
    rw [List.take_add_one, htake, hfeed, List.append_assoc]
    rfl
  rw [Text.lineColumn, Text.lineColumn, Int.toNat_natCast, Int.toNat_natCast, htake, htake',
    Text.lines_append_return]

/-- Behind a pair the next line starts. -/
theorem starts_of_insidePair (hstart : (ofText t).starts[line]? = some start) (hi : start ≤ i)
    (hnext : ∀ next, (ofText t).starts[line + 1]? = some next → i < next)
    (hpair : InsidePair t i) : (ofText t).starts[line + 1]? = some (i + 1) := by
  have hends : EndsLine t i := by
    obtain ⟨j, rfl, -, hfeed⟩ := hpair
    exact .inl hfeed
  cases hsome : (ofText t).starts[line + 1]? with
  | none =>
    refine absurd hends (not_endsLine hstart hi ?_)
    intro next hnext'
    rw [hsome] at hnext'
    cases hnext'
  | some next =>
    have hlt := hnext next hsome
    by_cases hbehind : i + 1 < next
    · refine absurd hends (not_endsLine hstart hi ?_)
      intro next' hnext'
      obtain rfl := Option.some.inj (hsome.symm.trans hnext')
      exact hbehind
    · rw [Option.some.injEq]
      omega

theorem length_lines (t : Text) : t.lines.length = (ofText t).lineCount := by
  rw [Text.lines_eq_map, List.length_map, lineCount]

theorem getElem?_lines (hbounds : (ofText t).bounds? line = some (start, stop)) :
    t.lines[line]? = some (t.slice start stop) := by
  have hline := isLine_of_bounds? hbounds
  rw [Text.lines_eq_map, List.getElem?_map, hline.starts_eq, Option.map_some,
    Text.lineAt_eq_slice hline.firstFrom]

/-- Lines and columns are those of the index, counted from one; only between a carriage return and
its line feed the next line has begun already. Splitting gives the lines of the index, each as it
lies between its bounds. -/
theorem lineColumn_eq_index (t : Text) :
    let x := ofText t
    (∀ i ≤ t.length, ¬ InsidePair t i →
        ∃ line start stop : Nat, x.lineOf i = line ∧ x.bounds? line = some (start, stop) ∧
          start ≤ i ∧ t.lineColumn i = (line + 1, i - start + 1)) ∧
      (∀ i, InsidePair t i →
        ∃ line : Nat, x.lineOf i = line ∧ t.lineColumn i = (line + 2, 1) ∧
          t.lineColumn (i + 1 : Nat) = (line + 2, 1)) ∧
      t.lines.length = x.lineCount ∧
      ∀ line < x.lineCount, ∃ start stop, x.bounds? line = some (start, stop) ∧
        t.lines[line]? = some (t.slice start stop) := by
  intro x
  refine ⟨?_, ?_, length_lines t, ?_⟩
  · intro i hlength hno
    obtain ⟨line, start, stop, hbounds, hi, hnext⟩ := exists_line t i
    have hstart := bounds?_start hbounds
    exact ⟨line, start, stop, lineOf_eq hstart hi hnext, hbounds, hi,
      lineColumn_eq hstart hi hlength hnext hno⟩
  · intro i hpair
    obtain ⟨line, start, stop, hbounds, hi, hnext⟩ := exists_line t i
    have hstart := bounds?_start hbounds
    -- The offset behind the pair is the start of the next line, and no pair has its end there.
    have hbehind := starts_of_insidePair hstart hi hnext hpair
    have hcolumn : t.lineColumn (i + 1 : Nat) = (line + 2, 1) := by
      have hno := not_insidePair_start hbehind
      have hlater : ∀ next, (ofText t).starts[line + 1 + 1]? = some next → i + 1 < next := by
        intro next hnext'
        exact start_lt_of_lt hbehind hnext' (Nat.lt_succ_self (line + 1))
      rw [lineColumn_eq hbehind (Nat.le_refl _) hpair.lt_length hlater hno, Nat.sub_self]
    exact ⟨line, lineOf_eq hstart hi hnext, (lineColumn_of_insidePair hpair).trans hcolumn, hcolumn⟩
  · intro line hline
    obtain ⟨start, stop, hbounds⟩ := exists_bounds?_of_lt hline
    exact ⟨start, stop, hbounds, getElem?_lines hbounds⟩

example : Text.lineColumn "a\r\nb".toList 2 = (2, 1) := rfl

end LineIndex

end Highlighter
