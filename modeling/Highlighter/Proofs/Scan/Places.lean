import Highlighter.Proofs.Scan.Rule

/-!
Places in a text where a run, a block comment or a number stops, told by what stands at the places.
There is one such place in each case, and it is as far away as the rest that a scan finds is long.
-/

set_option autoImplicit false

namespace Highlighter

/-- The first place from `start` on with a character of a class, or else the end of the text. -/
def FirstFrom (p : Char → Bool) (t : Text) (start stop : Nat) : Prop :=
  start ≤ stop ∧ (∀ i, start ≤ i → i < stop → ∃ c, t[i]? = some c ∧ p c = false) ∧
    ∀ c, t[stop]? = some c → p c = true

/-- A block comment is closed at a place. -/
def Closes (t : Text) (i : Nat) : Prop := t[i]? = some '*' ∧ t[i + 1]? = some '/'

/-- Where a block comment stops of which nothing but the opening lies before `start`. -/
inductive BlockStop (t : Text) (start stop : Nat) : Prop where
  | closed {i : Nat} : start ≤ i → Closes t i → (∀ j, start ≤ j → j < i → ¬ Closes t j) →
      stop = i + 2 → BlockStop t start stop
  | unclosed : (∀ j, start ≤ j → ¬ Closes t j) → stop = t.length → BlockStop t start stop

/-- What ends a string, or the line it is on. -/
def endsString (c : Char) : Bool := c == '"' || isLineEnd c

/-- A point and a digit, with which a number goes on. -/
def PointAt (t : Text) (i : Nat) : Prop :=
  t[i]? = some '.' ∧ ∃ c, t[i + 1]? = some c ∧ isDigit c = true

/-- As many digits as there are. -/
def Digits (t : Text) (start stop : Nat) : Prop :=
  start < stop ∧ FirstFrom (!isDigit ·) t start stop

/-- Points, each with as many digits as there are behind it. -/
inductive Groups (t : Text) : Nat → Nat → Prop where
  | last {start stop : Nat} : t[start]? = some '.' → Digits t (start + 1) stop →
      Groups t start stop
  | more {start place stop : Nat} : t[start]? = some '.' → Digits t (start + 1) place →
      Groups t place stop → Groups t start stop

section Places

variable {p : Char → Bool} {t : Text} {c : Char} {start stop : Nat}

theorem runLength_spec (p : Char → Bool) (s : Text) :
    (∀ i < runLength p s, ∃ c, s[i]? = some c ∧ p c = true) ∧
      ∀ c, s[runLength p s]? = some c → p c = false := by
  induction s with
  | nil => simp [runLength]
  | cons c s ih =>
    by_cases hc : p c = true
    · rw [runLength, List.takeWhile_cons_of_pos hc, List.length_cons, ← runLength]
      refine ⟨?_, fun d hd => ih.2 d (by rwa [List.getElem?_cons_succ] at hd)⟩
      intro i hi
      cases i with
      | zero => exact ⟨c, rfl, hc⟩
      | succ i => exact ih.1 i (by omega)
    · rw [runLength, List.takeWhile_cons_of_neg hc]
      refine ⟨fun i hi => absurd hi (Nat.not_lt_zero i), ?_⟩
      intro d hd
      obtain rfl := Option.some.inj hd
      simpa using hc

theorem FirstFrom.unique {stop' : Nat} (h : FirstFrom p t start stop)
    (h' : FirstFrom p t start stop') : stop = stop' := by
  have hle : ∀ {m n}, FirstFrom p t start m → FirstFrom p t start n → n ≤ m := by
    intro m n hm hn
    refine Nat.le_of_not_lt fun hlt => ?_
    obtain ⟨c, hc, hno⟩ := hn.2.1 m hm.1 hlt
    rw [hm.2.2 c hc] at hno
    cases hno
  exact Nat.le_antisymm (hle h' h) (hle h h')

theorem FirstFrom.of_le {place : Nat} (h : FirstFrom p t start stop) (hle : start ≤ place)
    (hstop : place ≤ stop) : FirstFrom p t place stop :=
  ⟨hstop, fun i hi => h.2.1 i (Nat.le_trans hle hi), h.2.2⟩

theorem FirstFrom.eq_false (h : FirstFrom p t start stop) {i : Nat} {c : Char} (hle : start ≤ i)
    (hlt : i < stop) (hc : t[i]? = some c) : p c = false := by
  obtain ⟨d, hd, hno⟩ := h.2.1 i hle hlt
  obtain rfl := Option.some.inj (hd.symm.trans hc)
  exact hno

theorem firstFrom_iff : FirstFrom p t start stop ↔
    stop = start + runLength (!p ·) (t.drop start) := by
  have hfirst : FirstFrom p t start (start + runLength (!p ·) (t.drop start)) := by
    obtain ⟨hin, hstop⟩ := runLength_spec (!p ·) (t.drop start)
    refine ⟨Nat.le_add_right _ _, ?_, ?_⟩
    · intro i hi hlt
      obtain ⟨c, hc, hno⟩ := hin (i - start) (by omega)
      rw [List.getElem?_drop, Nat.add_sub_cancel' hi] at hc
      exact ⟨c, hc, by simpa using hno⟩
    · intro c hc
      rw [← List.getElem?_drop] at hc
      simpa using hstop c hc
  exact ⟨fun h => h.unique hfirst, fun h => h ▸ hfirst⟩

theorem firstFrom_not_iff : FirstFrom (!p ·) t start stop ↔
    stop = start + runLength p (t.drop start) := by
  rw [firstFrom_iff]
  simp only [Bool.not_not]

theorem drop_succ_of_drop {c : Char} {s : Text} (hs : t.drop start = c :: s) :
    t.drop (start + 1) = s := by
  rw [← List.drop_drop, hs, List.drop_one, List.tail_cons]

theorem getElem?_of_drop {c : Char} {s : Text} (hs : t.drop start = c :: s) :
    t[start]? = some c := by
  rw [← List.head?_drop, hs, List.head?_cons]

theorem getElem?_succ_of_drop {c : Char} {s : Text} (hs : t.drop start = c :: s) :
    t[start + 1]? = s.head? := by
  rw [← List.head?_drop, drop_succ_of_drop hs]

theorem drop_two_of_drop {c : Char} {s : Text} (hs : t.drop start = c :: s) :
    t.drop (start + 2) = s.tail := by
  rw [← List.drop_one, ← drop_succ_of_drop hs, List.drop_drop]

theorem mem_take_drop_iff {n : Nat} :
    c ∈ (t.drop start).take n ↔ ∃ i, start ≤ i ∧ i < start + n ∧ t[i]? = some c := by
  rw [List.mem_iff_getElem?]
  constructor
  · rintro ⟨i, hi⟩
    rw [List.getElem?_take] at hi
    split at hi
    · exact ⟨start + i, by omega, by omega, by rwa [List.getElem?_drop] at hi⟩
    · cases hi
  · rintro ⟨i, hle, hlt, hi⟩
    refine ⟨i - start, ?_⟩
    rw [List.getElem?_take, if_pos (by omega), List.getElem?_drop, Nat.add_sub_cancel' hle, hi]

theorem blockStop_of_closes (h : Closes t start) : BlockStop t start stop ↔ stop = start + 2 := by
  constructor
  · intro hstop
    cases hstop with
    | @closed i hi _ hfirst hstop =>
      have hnot : ¬ start < i := fun hlt => hfirst start (Nat.le_refl _) hlt h
      omega
    | unclosed hno => exact absurd h (hno start (Nat.le_refl _))
  · intro hstop
    exact .closed (Nat.le_refl _) h (fun j _ _ => by omega) hstop

theorem blockStop_succ_iff (h : ¬ Closes t start) :
    BlockStop t start stop ↔ BlockStop t (start + 1) stop := by
  have hle : ∀ {j}, start ≤ j → Closes t j → start + 1 ≤ j := by
    intro j hj hclose
    rcases Nat.eq_or_lt_of_le hj with rfl | hlt
    · exact absurd hclose h
    · exact hlt
  constructor
  · intro hstop
    cases hstop with
    | closed hi hclose hfirst hstop =>
      exact .closed (hle hi hclose) hclose (fun j hj => hfirst j (by omega)) hstop
    | unclosed hno hstop => exact .unclosed (fun j hj => hno j (by omega)) hstop
  · intro hstop
    cases hstop with
    | closed hi hclose hfirst hstop =>
      exact .closed (by omega) hclose (fun j hj hlt hj' => hfirst j (hle hj hj') hlt hj') hstop
    | unclosed hno hstop => exact .unclosed (fun j hj hj' => hno j (hle hj hj') hj') hstop

/-- Inside a block comment the stop is the same, up to where it is closed. -/
theorem BlockStop.of_le {place : Nat} (h : BlockStop t start stop) (hle : start ≤ place)
    (hclose : ∀ i, start ≤ i → Closes t i → stop = i + 2 → place ≤ i) : BlockStop t place stop := by
  cases h with
  | closed hi hcloses hfirst hstop =>
    exact .closed (hclose _ hi hcloses hstop) hcloses
      (fun j hj => hfirst j (Nat.le_trans hle hj)) hstop
  | unclosed hno hstop => exact .unclosed (fun j hj => hno j (Nat.le_trans hle hj)) hstop

theorem blockStop_iff {s : Text} (hs : t.drop start = s) (hle : start ≤ t.length) :
    BlockStop t start stop ↔ stop = start + blockRest s := by
  induction s generalizing start with
  | nil =>
    have hend := List.drop_eq_nil_iff.mp hs
    have hno : ∀ j, start ≤ j → ¬ Closes t j := by
      intro j hj hclose
      have := (List.getElem?_eq_some_iff.mp hclose.1).1
      omega
    rw [blockRest]
    constructor
    · intro hstop
      cases hstop with
      | closed hi hclose => exact absurd hclose (hno _ hi)
      | unclosed _ hstop => omega
    · intro hstop
      exact .unclosed hno (by omega)
  | cons c s ih =>
    have htail := drop_succ_of_drop hs
    have hchar := getElem?_of_drop hs
    have hlt := (List.getElem?_eq_some_iff.mp hchar).1
    have hcloses : Closes t start ↔ c = '*' ∧ s.head? = some '/' := by
      rw [Closes, hchar, getElem?_succ_of_drop hs, Option.some.injEq]
    rw [blockRest_cons]
    by_cases h : Closes t start
    · rw [blockStop_of_closes h, if_pos (hcloses.mp h)]
    · rw [blockStop_succ_iff h, ih htail hlt, if_neg (mt hcloses.mpr h)]
      omega

end Places

section Numbers

variable {t : Text} {start stop : Nat}

theorem drop_eq_cons {i : Nat} {c : Char} (h : t[i]? = some c) :
    t.drop i = c :: t.drop (i + 1) := by
  obtain ⟨hlt, rfl⟩ := List.getElem?_eq_some_iff.mp h
  exact List.drop_eq_getElem_cons hlt

theorem numberRest_of_digit {c : Char} (h : t[start]? = some c) (hc : isDigit c = true) :
    numberRest (t.drop start) = numberRest (t.drop (start + 1)) + 1 := by
  rw [drop_eq_cons h, numberRest, if_pos (by simp [hc])]

theorem numberRest_of_pointAt (h : PointAt t start) :
    numberRest (t.drop start) = numberRest (t.drop (start + 1)) + 1 := by
  obtain ⟨hpoint, c, hnext, hc⟩ := h
  rw [drop_eq_cons hpoint, numberRest, if_pos]
  simp [hnext, hc]

theorem numberRest_of_stop (hdigit : ∀ c, t[start]? = some c → isDigit c = false)
    (hpoint : ¬ PointAt t start) : numberRest (t.drop start) = 0 := by
  cases hs : t[start]? with
  | none => rw [List.drop_eq_nil_of_le (List.getElem?_eq_none_iff.mp hs), numberRest]
  | some c =>
    rw [drop_eq_cons hs, numberRest, if_neg]
    intro hgo
    rw [hdigit c hs, Bool.false_or, Bool.and_eq_true, beq_iff_eq, List.head?_drop] at hgo
    obtain ⟨rfl, hgo⟩ := hgo
    cases hnext : t[start + 1]? with
    | none => simp [hnext] at hgo
    | some d => exact hpoint ⟨hs, d, hnext, by simpa [hnext] using hgo⟩

theorem FirstFrom.succ {p : Char → Bool} (h : FirstFrom p t start stop) (hlt : start < stop) :
    FirstFrom p t (start + 1) stop :=
  h.of_le (Nat.le_succ start) hlt

/-- Behind digits a number goes on as it does behind the last of them. -/
theorem numberRest_of_digits (h : FirstFrom (!isDigit ·) t start stop) :
    numberRest (t.drop start) = stop - start + numberRest (t.drop stop) := by
  induction hn : stop - start generalizing start with
  | zero =>
    have := h.1
    rw [show start = stop by omega, Nat.zero_add]
  | succ n ih =>
    obtain ⟨c, hc, hdigit⟩ := h.2.1 start (Nat.le_refl _) (by omega)
    rw [numberRest_of_digit hc (by simpa using hdigit), ih (h.succ (by omega)) (by omega)]
    omega

theorem Digits.firstFrom (h : Digits t start stop) : FirstFrom (!isDigit ·) t (start + 1) stop :=
  h.2.succ h.1

theorem Digits.exists_digit (h : Digits t start stop) :
    ∃ c, t[start]? = some c ∧ isDigit c = true := by
  obtain ⟨c, hc, hdigit⟩ := h.2.2.1 start (Nat.le_refl _) h.1
  exact ⟨c, hc, by simpa using hdigit⟩

theorem Digits.numberRest_eq_zero (h : Digits t start stop) (hend : ¬ PointAt t stop) :
    numberRest (t.drop stop) = 0 :=
  numberRest_of_stop (fun c hc => by simpa using h.2.2.2 c hc) hend

theorem exists_digits {c : Char} (h : t[start]? = some c) (hc : isDigit c = true) :
    ∃ stop, Digits t start stop := by
  have hfirst : FirstFrom (!isDigit ·) t start _ := firstFrom_not_iff.mpr rfl
  refine ⟨_, Nat.lt_of_le_of_ne hfirst.1 fun heq => ?_, hfirst⟩
  have hno := hfirst.2.2 c (heq ▸ h)
  simp [hc] at hno

theorem Groups.start_lt_stop (h : Groups t start stop) : start < stop := by
  induction h with
  | last _ hdigits => exact Nat.lt_trans (Nat.lt_succ_self _) hdigits.1
  | more _ hdigits _ ih => exact Nat.lt_trans (Nat.lt_trans (Nat.lt_succ_self _) hdigits.1) ih

theorem Groups.pointAt (h : Groups t start stop) : PointAt t start := by
  cases h with
  | last hpoint hdigits => exact ⟨hpoint, hdigits.exists_digit⟩
  | more hpoint hdigits => exact ⟨hpoint, hdigits.exists_digit⟩

theorem numberRest_of_groups (h : Groups t start stop) (hend : ¬ PointAt t stop) :
    numberRest (t.drop start) = stop - start := by
  induction h with
  | last hpoint hdigits =>
    rw [numberRest_of_pointAt ⟨hpoint, hdigits.exists_digit⟩, numberRest_of_digits hdigits.2,
      hdigits.numberRest_eq_zero hend]
    have := hdigits.1
    omega
  | more hpoint hdigits hgroups ih =>
    rw [numberRest_of_pointAt ⟨hpoint, hdigits.exists_digit⟩, numberRest_of_digits hdigits.2,
      ih hend]
    have := hdigits.1
    have := hgroups.start_lt_stop
    omega

theorem exists_groups (h : PointAt t start) : ∃ stop, Groups t start stop ∧ ¬ PointAt t stop := by
  induction hn : t.length - start using Nat.strongRecOn generalizing start with
  | ind n ih =>
    obtain ⟨hpoint, c, hnext, hc⟩ := h
    obtain ⟨place, hdigits⟩ := exists_digits hnext hc
    by_cases hplace : PointAt t place
    · have hstart := (List.getElem?_eq_some_iff.mp hpoint).1
      have hlt := hdigits.1
      obtain ⟨stop, hgroups, hend⟩ := ih (t.length - place) (by omega) hplace rfl
      exact ⟨stop, .more hpoint hdigits hgroups, hend⟩
    · exact ⟨place, .last hpoint hdigits, hplace⟩

variable {u : Text} {c : Char}

theorem isDigit_excludes (h : isDigit c = true) : c ≠ '/' ∧ c ≠ '"' := by
  constructor
  all_goals
    rintro rfl
    cases h

theorem Reading.Bare.of_ne (hslash : c ≠ '/') (hquote : c ≠ '"') (s : Text) : Bare c s :=
  ⟨fun h => hslash h.1, fun h => hslash h.1, hquote⟩

theorem Digits.rule (h : Digits t start stop) (hend : ¬ PointAt t stop)
    (hs : t.drop start = c :: u) :
    ∃ n, stop = start + n ∧ Reading.Rule c u ⟨.numberLiteral, n, .default⟩ := by
  obtain ⟨d, hd, hdigit⟩ := h.exists_digit
  obtain rfl := Option.some.inj (hd.symm.trans (getElem?_of_drop hs))
  obtain ⟨hslash, hquote⟩ := isDigit_excludes hdigit
  have htail := drop_succ_of_drop hs
  have hrest : numberRest u = stop - (start + 1) := by
    rw [← htail, numberRest_of_digits h.firstFrom, h.numberRest_eq_zero hend, Nat.add_zero]
  have hno : '.' ∉ u.take (numberRest u) := by
    rw [hrest, ← htail, mem_take_drop_iff]
    rintro ⟨i, hle, hlt, hi⟩
    obtain ⟨e, he, hdigit⟩ := h.2.2.1 i (by omega) (by omega)
    obtain rfl := Option.some.inj (hi.symm.trans he)
    cases hdigit
  have hrule : Reading.Rule d u _ := .number (.of_ne hslash hquote u) hdigit
  rw [if_neg hno, hrest] at hrule
  have := h.1
  exact ⟨_, by omega, hrule⟩

theorem Groups.rule {place : Nat} (hdigits : Digits t start place) (h : Groups t place stop)
    (hend : ¬ PointAt t stop) (hs : t.drop start = c :: u) :
    ∃ n, stop = start + n ∧ Reading.Rule c u ⟨.pragmaValue, n, .default⟩ := by
  obtain ⟨d, hd, hdigit⟩ := hdigits.exists_digit
  obtain rfl := Option.some.inj (hd.symm.trans (getElem?_of_drop hs))
  obtain ⟨hslash, hquote⟩ := isDigit_excludes hdigit
  have htail := drop_succ_of_drop hs
  have hplace := hdigits.1
  have hstop := h.start_lt_stop
  have hrest : numberRest u = stop - (start + 1) := by
    rw [← htail, numberRest_of_digits hdigits.firstFrom, numberRest_of_groups h hend]
    omega
  have hyes : '.' ∈ u.take (numberRest u) := by
    rw [hrest, ← htail, mem_take_drop_iff]
    exact ⟨place, by omega, by omega, h.pointAt.1⟩
  have hrule : Reading.Rule d u _ := .number (.of_ne hslash hquote u) hdigit
  rw [if_pos hyes, hrest] at hrule
  exact ⟨_, by omega, hrule⟩

end Numbers

end Highlighter
