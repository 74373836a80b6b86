import Highlighter.Proofs.LineIndex.Offset

/-!
Lines of a text. The starts that an index keeps are the places behind what ends a line. Between the
bounds of a line no character ends a line, and from the upper bound to the next line all of them do;
every offset lies on one line.
-/

set_option autoImplicit false

namespace Highlighter

/-- A line ends with a line feed, or with a carriage return that no line feed follows. -/
def EndsLine (t : Text) (i : Nat) : Prop :=
  t[i]? = some '\n' ∨ t[i]? = some '\r' ∧ t[i + 1]? ≠ some '\n'

theorem EndsLine.isLineEnd {t : Text} {i : Nat} (h : EndsLine t i) :
    ∃ c, t[i]? = some c ∧ isLineEnd c = true := by
  rcases h with h | ⟨h, -⟩
  · exact ⟨_, h, rfl⟩
  · exact ⟨_, h, rfl⟩

theorem plain_of_not_endsLine {t : Text} {i : Nat} (hi : i < t.length) (hno : ¬ EndsLine t i)
    (hpair : t[i]? = some '\r' → t[i + 1]? ≠ some '\n') :
    ∃ c, t[i]? = some c ∧ isLineEnd c = false := by
  have hc := List.getElem?_eq_getElem hi
  refine ⟨t[i], hc, ?_⟩
  rw [Bool.eq_false_iff]
  intro hend
  rw [Highlighter.isLineEnd, Bool.or_eq_true, beq_iff_eq, beq_iff_eq] at hend
  rcases hend with hfeed | hreturn
  · exact hno (.inl (hfeed ▸ hc))
  · exact hno (.inr ⟨hreturn ▸ hc, hpair (hreturn ▸ hc)⟩)

theorem endsLine_zero_iff {c : Char} {t : Text} :
    EndsLine (c :: t) 0 ↔ c = '\n' ∨ c = '\r' ∧ t.head? ≠ some '\n' := by
  rw [EndsLine, List.getElem?_cons_succ, ← List.head?_eq_getElem?, ← List.head?_eq_getElem?,
    List.head?_cons, Option.some.injEq, Option.some.injEq]

theorem mem_lineStarts_iff {pos i : Nat} {t : Text} :
    i ∈ lineStarts pos t ↔ ∃ j, EndsLine t j ∧ i = pos + j + 1 := by
  induction t generalizing pos with
  | nil => simp [lineStarts, EndsLine]
  | cons c t ih =>
    have hlater : i ∈ lineStarts (pos + 1) t ↔
        ∃ j, EndsLine (c :: t) (j + 1) ∧ i = pos + (j + 1) + 1 := by
      rw [ih]
      refine exists_congr fun j => and_congr (by simp [EndsLine]) ?_
      rw [Nat.add_right_comm pos 1 j, Nat.add_assoc pos j 1]
    rw [lineStarts]
    split
    · rename_i h
      rw [List.mem_cons, hlater]
      constructor
      · rintro (rfl | ⟨j, hj, rfl⟩)
        · exact ⟨0, endsLine_zero_iff.mpr h, rfl⟩
        · exact ⟨j + 1, hj, rfl⟩
      · rintro ⟨j, hj, rfl⟩
        cases j with
        | zero => exact .inl rfl
        | succ j => exact .inr ⟨j, hj, rfl⟩
    · rename_i h
      rw [hlater]
      constructor
      · rintro ⟨j, hj, rfl⟩
        exact ⟨j + 1, hj, rfl⟩
      · rintro ⟨j, hj, rfl⟩
        cases j with
        | zero => exact absurd (endsLine_zero_iff.mp hj) h
        | succ j => exact ⟨j, hj, rfl⟩

theorem lineStarts_pairwise (pos : Nat) (t : Text) : (lineStarts pos t).Pairwise (· < ·) := by
  induction t generalizing pos with
  | nil => exact .nil
  | cons c t ih =>
    rw [lineStarts]
    split
    · exact .cons (fun i hi => (bounds_of_mem_lineStarts hi).1) (ih _)
    · exact ih _

theorem length_takeWhile_le {l : List Nat} (hl : l.Pairwise (· < ·)) {k a : Nat} {n : Int}
    (ha : l[k]? = some a) (hle : (a : Int) ≤ n)
    (hnext : ∀ b : Nat, l[k + 1]? = some b → n < b) :
    (l.takeWhile fun b : Nat => (b : Int) ≤ n).length = k + 1 := by
  induction l generalizing k with
  | nil => simp at ha
  | cons b l ih =>
    obtain ⟨hb, hl⟩ := List.pairwise_cons.mp hl
    cases k with
    | zero =>
      obtain rfl := Option.some.inj ha
      rw [List.takeWhile_cons_of_pos (by simpa using hle), List.length_cons]
      cases l with
      | nil => rfl
      | cons d l =>
        have := hnext d rfl
        rw [List.takeWhile_cons_of_neg (by simpa using this)]
        rfl
    | succ k =>
      rw [List.getElem?_cons_succ] at ha
      have hlt := hb a (List.mem_of_getElem? ha)
      rw [List.takeWhile_cons_of_pos (by simp only [decide_eq_true_eq]; omega), List.length_cons,
        ih hl ha hnext]

theorem length_takeWhile_le_of_imp {p q : Nat → Bool} (h : ∀ a, p a = true → q a = true)
    (l : List Nat) : (l.takeWhile p).length ≤ (l.takeWhile q).length := by
  induction l with
  | nil => exact Nat.le_refl 0
  | cons a l ih =>
    by_cases ha : p a = true
    · rw [List.takeWhile_cons_of_pos ha, List.takeWhile_cons_of_pos (h a ha)]
      exact Nat.succ_le_succ ih
    · rw [List.takeWhile_cons_of_neg ha]
      exact Nat.zero_le _

/-- A list that starts below a bound has a last place from which it is still below it. -/
theorem exists_getElem?_le {l : List Nat} {a n : Nat} (h : l[0]? = some a) (ha : a ≤ n) :
    ∃ k b, l[k]? = some b ∧ b ≤ n ∧ ∀ d, l[k + 1]? = some d → n < d := by
  induction l generalizing a with
  | nil => simp at h
  | cons b l ih =>
    obtain rfl := Option.some.inj h
    cases l with
    | nil => exact ⟨0, b, rfl, ha, by simp⟩
    | cons d l =>
      by_cases hd : d ≤ n
      · obtain ⟨k, e, he, hle, hnext⟩ := ih rfl hd
        exact ⟨k + 1, e, he, hle, hnext⟩
      · refine ⟨0, b, rfl, ha, ?_⟩
        intro e he
        obtain rfl := Option.some.inj he
        omega

namespace LineIndex

variable {t : Text} {line start stop i : Nat}

theorem mem_starts_iff : i ∈ (ofText t).starts ↔ i = 0 ∨ ∃ j, EndsLine t j ∧ i = j + 1 := by
  rw [ofText, List.mem_cons, mem_lineStarts_iff]
  simp only [Nat.zero_add]

theorem starts_pairwise (t : Text) : (ofText t).starts.Pairwise (· < ·) :=
  .cons (fun _ hi => (bounds_of_mem_lineStarts hi).1) (lineStarts_pairwise 0 t)

theorem start_lt_of_lt {line' start' : Nat} (h : (ofText t).starts[line]? = some start)
    (h' : (ofText t).starts[line']? = some start') (hlt : line < line') : start < start' := by
  obtain ⟨hline, rfl⟩ := List.getElem?_eq_some_iff.mp h
  obtain ⟨hline', rfl⟩ := List.getElem?_eq_some_iff.mp h'
  exact List.pairwise_iff_getElem.mp (starts_pairwise t) line line' hline hline' hlt

/-- No line ends inside a line. -/
theorem not_endsLine (h : (ofText t).starts[line]? = some start) (hi : start ≤ i)
    (hnext : ∀ next, (ofText t).starts[line + 1]? = some next → i + 1 < next) :
    ¬ EndsLine t i := by
  intro hends
  obtain ⟨k, hk⟩ := List.mem_iff_getElem?.mp (mem_starts_iff.mpr (.inr ⟨i, hends, rfl⟩))
  have hlt : line < k := by
    rcases Nat.lt_trichotomy line k with hlt | rfl | hgt
    · exact hlt
    · have := Option.some.inj (h.symm.trans hk)
      omega
    · have := start_lt_of_lt hk h hgt
      omega
  have hlength := (List.getElem?_eq_some_iff.mp hk).1
  have hsome := List.getElem?_eq_getElem (show line + 1 < (ofText t).starts.length by omega)
  have hfar := hnext _ hsome
  rcases Nat.eq_or_lt_of_le (show line + 1 ≤ k by omega) with rfl | hbefore
  · have := Option.some.inj (hsome.symm.trans hk)
    omega
  · have := start_lt_of_lt hsome hk hbefore
    omega

theorem exists_endsLine {next : Nat} (h : (ofText t).starts[line]? = some start)
    (hnext : (ofText t).starts[line + 1]? = some next) :
    ∃ j, EndsLine t j ∧ next = j + 1 ∧ start ≤ j := by
  have hlt := start_lt_of_lt h hnext (Nat.lt_succ_self line)
  rcases mem_starts_iff.mp (List.mem_of_getElem? hnext) with rfl | ⟨j, hj, rfl⟩
  · omega
  · exact ⟨j, hj, rfl, by omega⟩

/-- A line runs from `start` to `stop`. -/
structure IsLine (t : Text) (line start stop : Nat) : Prop where
  starts_eq : (ofText t).starts[line]? = some start
  start_le : start ≤ stop
  plain : ∀ i, start ≤ i → i < stop → ∃ c, t[i]? = some c ∧ isLineEnd c = false
  stop_lt : ∀ next, (ofText t).starts[line + 1]? = some next → stop < next
  ends : ∀ next, (ofText t).starts[line + 1]? = some next →
    ∀ i, stop ≤ i → i < next → ∃ c, t[i]? = some c ∧ isLineEnd c = true
  last : (ofText t).starts[line + 1]? = none → stop = t.length

theorem isLine_of_last (hstart : (ofText t).starts[line]? = some start)
    (hnext : (ofText t).starts[line + 1]? = none) : IsLine t line start t.length := by
  have hno : ∀ i, start ≤ i → ¬ EndsLine t i := by
    intro i hi
    refine not_endsLine hstart hi fun next h => ?_
    rw [hnext] at h
    cases h
  constructor
  case starts_eq => exact hstart
  case start_le => exact le_length_of_mem_starts (List.mem_of_getElem? hstart)
  case plain =>
    intro i hi hlt
    exact plain_of_not_endsLine hlt (hno i hi) fun _ hfeed => hno (i + 1) (by omega) (.inl hfeed)
  case stop_lt =>
    intro next h
    rw [hnext] at h
    cases h
  case ends =>
    intro next h
    rw [hnext] at h
    cases h
  case last => exact fun _ => rfl

/-- A line that is not the last one stops where nothing but a line end is left of it. -/
theorem isLine_of_next {j : Nat} (hstart : (ofText t).starts[line]? = some start)
    (hnext : (ofText t).starts[line + 1]? = some (j + 1)) (hle : start ≤ stop) (hstop : stop ≤ j)
    (hj : j < t.length)
    (hpair : ∀ i, start ≤ i → i + 1 = stop → t[i]? = some '\r' → t[i + 1]? ≠ some '\n')
    (hend : ∀ i, stop ≤ i → i < j + 1 → ∃ c, t[i]? = some c ∧ isLineEnd c = true) :
    IsLine t line start stop := by
  have heq : ∀ next, (ofText t).starts[line + 1]? = some next → next = j + 1 := by
    intro next h
    exact Option.some.inj (h.symm.trans hnext)
  have hno : ∀ i, start ≤ i → i < j → ¬ EndsLine t i := by
    intro i hi hlt
    refine not_endsLine hstart hi fun next h => ?_
    rw [heq next h]
    omega
  constructor
  case starts_eq => exact hstart
  case start_le => exact hle
  case plain =>
    intro i hi hlt
    refine plain_of_not_endsLine (by omega) (hno i hi (by omega)) fun hreturn hfeed => ?_
    rcases Nat.eq_or_lt_of_le (Nat.succ_le_of_lt hlt) with hlast | hbefore
    · exact hpair i hi hlast hreturn hfeed
    · exact hno (i + 1) (by omega) (by omega) (.inl hfeed)
  case stop_lt =>
    intro next h
    rw [heq next h]
    omega
  case ends =>
    intro next h i hi hlt
    exact hend i hi (heq next h ▸ hlt)
  case last =>
    intro h
    rw [hnext] at h
    cases h

theorem isLine_of_bounds? (h : (ofText t).bounds? line = some (start, stop)) :
    IsLine t line start stop := by
  have hstart := bounds?_start h
  rw [bounds?, hstart] at h
  cases hnext : (ofText t).starts[line + 1]? with
  | none =>
    rw [hnext] at h
    obtain ⟨-, rfl⟩ := Prod.mk.inj (Option.some.inj h)
    exact isLine_of_last hstart hnext
  | some next =>
    obtain ⟨j, hends, rfl, hle⟩ := exists_endsLine hstart hnext
    obtain ⟨c, hc, hend⟩ := hends.isLineEnd
    have hj := (List.getElem?_eq_some_iff.mp hc).1
    rw [hnext] at h
    dsimp only at h
    rw [Nat.add_sub_cancel] at h
    split at h
    · rename_i hpair
      obtain ⟨hlt, hfeed, hreturn⟩ := hpair
      obtain ⟨-, rfl⟩ := Prod.mk.inj (Option.some.inj h)
      refine isLine_of_next hstart hnext (by omega) (by omega) hj ?_ ?_
      · intro i _ hi _ hfeed'
        have hboth := hfeed'.symm.trans (hi ▸ hreturn)
        cases hboth
      · intro i hi hlt'
        rcases Nat.eq_or_lt_of_le hi with rfl | hi
        · exact ⟨_, hreturn, rfl⟩
        · obtain rfl : i = j := by omega
          exact ⟨_, hfeed, rfl⟩
    · rename_i hpair
      obtain ⟨-, rfl⟩ := Prod.mk.inj (Option.some.inj h)
      refine isLine_of_next hstart hnext hle (Nat.le_refl _) hj ?_ ?_
      · rintro i hi rfl hreturn hfeed
        exact hpair ⟨by omega, hfeed, hreturn⟩
      · intro i hi hlt
        obtain rfl : i = j := by omega
        exact ⟨c, hc, hend⟩

theorem exists_bounds? (h : (ofText t).starts[line]? = some start) :
    ∃ stop, (ofText t).bounds? line = some (start, stop) := by
  rw [bounds?, h]
  cases (ofText t).starts[line + 1]? with
  | none => exact ⟨_, rfl⟩
  | some next =>
    dsimp only
    split
    · exact ⟨_, rfl⟩
    · exact ⟨_, rfl⟩

theorem exists_bounds?_of_lt (h : line < (ofText t).lineCount) :
    ∃ start stop, (ofText t).bounds? line = some (start, stop) :=
  ⟨_, exists_bounds? (List.getElem?_eq_getElem h)⟩

theorem lt_lineCount (h : (ofText t).bounds? line = some (start, stop)) :
    line < (ofText t).lineCount :=
  (List.getElem?_eq_some_iff.mp (bounds?_start h)).1

theorem IsLine.stop_le_length (h : IsLine t line start stop) : stop ≤ t.length := by
  cases hnext : (ofText t).starts[line + 1]? with
  | none => exact Nat.le_of_eq (h.last hnext)
  | some next =>
    have hlt := h.stop_lt next hnext
    have hle := le_length_of_mem_starts (List.mem_of_getElem? hnext)
    omega

theorem IsLine.stop_lt_start {line' start' stop' : Nat} (h : IsLine t line start stop)
    (h' : IsLine t line' start' stop') (hlt : line < line') : stop < start' := by
  have hlength := (List.getElem?_eq_some_iff.mp h'.starts_eq).1
  have hnext := List.getElem?_eq_getElem (show line + 1 < (ofText t).starts.length by omega)
  have hstop := h.stop_lt _ hnext
  rcases Nat.eq_or_lt_of_le (Nat.succ_le_of_lt hlt) with rfl | hlater
  · obtain hstart := Option.some.inj (hnext.symm.trans h'.starts_eq)
    omega
  · have := start_lt_of_lt hnext h'.starts_eq hlater
    omega

theorem lineOf_eq (h : (ofText t).starts[line]? = some start) (hi : start ≤ i)
    (hnext : ∀ next, (ofText t).starts[line + 1]? = some next → i < next) :
    (ofText t).lineOf i = line := by
  rw [lineOf, length_takeWhile_le (starts_pairwise t) h (by omega)
    (fun next h => by have := hnext next h; omega)]
  omega

theorem IsLine.lineOf_eq (h : IsLine t line start stop) (hi : start ≤ i) (hstop : i ≤ stop) :
    (ofText t).lineOf i = line :=
  LineIndex.lineOf_eq h.starts_eq hi fun next hnext => by
    have := h.stop_lt next hnext
    omega

theorem lineOf_le_of_le (x : LineIndex) {m n : Int} (h : m ≤ n) : x.lineOf m ≤ x.lineOf n := by
  have hle := length_takeWhile_le_of_imp (p := fun a : Nat => (a : Int) ≤ m)
    (q := fun a : Nat => (a : Int) ≤ n) (by simp only [decide_eq_true_eq]; omega) x.starts
  rw [lineOf, lineOf]
  omega

theorem exists_line (t : Text) (i : Nat) :
    ∃ line start stop, (ofText t).bounds? line = some (start, stop) ∧ start ≤ i ∧
      ∀ next, (ofText t).starts[line + 1]? = some next → i < next := by
  obtain ⟨line, start, hstart, hle, hnext⟩ :=
    exists_getElem?_le (l := (ofText t).starts) (n := i) rfl (Nat.zero_le i)
  obtain ⟨stop, hbounds⟩ := exists_bounds? hstart
  exact ⟨line, start, stop, hbounds, hle, hnext⟩

theorem lineOf_bounds (t : Text) (i : Nat) :
    0 ≤ (ofText t).lineOf i ∧ (ofText t).lineOf i < (ofText t).lineCount := by
  obtain ⟨line, start, stop, hbounds, hle, hnext⟩ := exists_line t i
  have hlt := lt_lineCount hbounds
  rw [lineOf_eq (bounds?_start hbounds) hle hnext]
  exact ⟨Int.natCast_nonneg line, Int.ofNat_lt.mpr hlt⟩

/-- A character that ends no line lies within the bounds of one. -/
theorem exists_bounds?_of_plain {c : Char} (hc : t[i]? = some c) (hplain : isLineEnd c = false) :
    ∃ line start stop, (ofText t).bounds? line = some (start, stop) ∧ start ≤ i ∧ i < stop := by
  obtain ⟨line, start, stop, hbounds, hle, hbefore⟩ := exists_line t i
  have hline := isLine_of_bounds? hbounds
  refine ⟨line, start, stop, hbounds, hle, Nat.lt_of_not_le fun hstop => ?_⟩
  cases hnext : (ofText t).starts[line + 1]? with
  | none =>
    have hlt := (List.getElem?_eq_some_iff.mp hc).1
    have := hline.last hnext
    omega
  | some next =>
    obtain ⟨d, hd, hend⟩ := hline.ends next hnext i hstop (hbefore next hnext)
    obtain rfl := Option.some.inj (hc.symm.trans hd)
    rw [hplain] at hend
    cases hend

end LineIndex

end Highlighter
