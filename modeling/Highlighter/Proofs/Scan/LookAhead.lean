import Highlighter.Proofs.Scan.Rule

/-!
How far a reading looks. A rule looks at the characters of its token and at one character more; only
a number has to look at two, for a point that stands before a digit. Texts that agree on these
characters are read alike.
-/

set_option autoImplicit false

namespace Highlighter

variable {s s' : Text}

theorem take_eq_of_le {m n : Nat} (h : s.take n = s'.take n) (hm : m ≤ n) :
    s.take m = s'.take m := by
  have := congrArg (List.take m) h
  rwa [List.take_take, List.take_take, Nat.min_eq_left hm] at this

theorem drop_take_eq {n : Nat} (h : s.take n = s'.take n) (m : Nat) :
    (s.drop m).take (n - m) = (s'.drop m).take (n - m) := by
  rw [← List.drop_take, ← List.drop_take, h]

theorem head?_eq_of_take {n : Nat} (h : s.take n = s'.take n) (hn : 0 < n) :
    s.head? = s'.head? := by
  have := congrArg List.head? h
  rwa [List.head?_take, List.head?_take, if_neg (by omega), if_neg (by omega)] at this

theorem runLength_congr {p : Char → Bool}
    (h : s.take (runLength p s + 1) = s'.take (runLength p s + 1)) :
    runLength p s' = runLength p s := by
  induction s generalizing s' with
  | nil =>
    have hs' : s' = [] := by simpa [runLength] using h
    rw [hs']
  | cons c s ih =>
    cases s' with
    | nil => simp at h
    | cons d s' =>
      rw [List.take_succ_cons, List.take_succ_cons, List.cons.injEq] at h
      obtain ⟨rfl, htail⟩ := h
      by_cases hc : p c
      · simp only [runLength, List.takeWhile_cons_of_pos hc, List.length_cons] at htail ⊢
        rw [Nat.succ_inj]
        exact ih htail
      · simp [runLength, hc]

theorem blockRest_congr (h : s.take (blockRest s + 1) = s'.take (blockRest s + 1)) :
    blockRest s' = blockRest s := by
  induction s generalizing s' with
  | nil =>
    have hs' : s' = [] := by simpa [blockRest] using h
    rw [hs']
  | cons c s ih =>
    cases s' with
    | nil => simp at h
    | cons d s' =>
      rw [List.take_succ_cons, List.take_succ_cons, List.cons.injEq] at h
      obtain ⟨rfl, htail⟩ := h
      have hhead := head?_eq_of_take htail (blockRest_cons_pos c s)
      rw [blockRest_cons] at htail ⊢
      rw [blockRest_cons, ← hhead]
      split
      · rfl
      · rw [if_neg ‹_›] at htail
        rw [ih htail]

/-- Whether a number goes on with a character is known from that character and the next. -/
theorem numberRest_congr (h : s.take (numberRest s + 2) = s'.take (numberRest s + 2)) :
    numberRest s' = numberRest s := by
  induction s generalizing s' with
  | nil =>
    have hs' : s' = [] := by simpa [numberRest] using h
    rw [hs']
  | cons c s ih =>
    cases s' with
    | nil => simp at h
    | cons d s' =>
      rw [List.take_succ_cons, List.take_succ_cons, List.cons.injEq] at h
      obtain ⟨rfl, htail⟩ := h
      have hhead := head?_eq_of_take htail (by omega)
      rw [numberRest] at htail ⊢
      rw [numberRest, ← hhead]
      split
      · rw [if_pos ‹_›] at htail
        rw [ih htail]
      · rfl

theorem stringRest_congr (h : s.take ((stringRest s).2 + 1) = s'.take ((stringRest s).2 + 1)) :
    stringRest s' = stringRest s := by
  have hle : runLength (fun c => c != '"' && !isLineEnd c) s ≤ (stringRest s).2 := by
    unfold stringRest
    dsimp only
    split <;> simp
  have htake := take_eq_of_le h (Nat.succ_le_succ hle)
  have hrun := runLength_congr htake
  have hnext := head?_eq_of_take (drop_take_eq htake
    (runLength (fun c => c != '"' && !isLineEnd c) s)) (by omega)
  unfold stringRest
  dsimp only
  rw [hrun, hnext]

namespace Reading

/-- How many characters after the first one a reading depends on: those of its token and one more,
or two more for a number. -/
def seen (r : Reading) : Nat :=
  match r.kind with
  | .numberLiteral | .pragmaValue => r.length + 1
  | _ => r.length

theorem length_le_seen (r : Reading) : r.length ≤ r.seen := by
  unfold seen
  split <;> omega

theorem seen_le (r : Reading) : r.seen ≤ r.length + 1 := by
  unfold seen
  split <;> omega

theorem seen_of_number {r : Reading} (h : r.kind = .numberLiteral ∨ r.kind = .pragmaValue) :
    r.seen = r.length + 1 := by
  unfold seen
  rcases h with h | h
  all_goals rw [h]

theorem seen_of_not_number {r : Reading} (h : r.kind ≠ .numberLiteral)
    (h' : r.kind ≠ .pragmaValue) : r.seen = r.length := by
  unfold seen
  split <;> simp_all

theorem Bare.congr {c : Char} (h : Bare c s) (hs : s.head? = s'.head?) : Bare c s' := by
  unfold Bare at h ⊢
  rwa [← hs]

theorem take_one_eq (s : Text) : s.take 1 = s.head?.toList := by
  cases s <;> rfl

/-- Texts that agree as far as a rule looks are read alike. -/
theorem Rule.congr {c : Char} {r : Reading} (h : Rule c s r) (hs : s.take r.seen = s'.take r.seen) :
    Rule c s' r := by
  have hpos : 0 < r.seen := by
    have := fresh_length_pos c s
    have := r.length_le_seen
    rw [h.fresh_eq] at *
    omega
  have hhead := head?_eq_of_take hs hpos
  have hone : s.take 1 = s'.take 1 := by rw [take_one_eq, take_one_eq, hhead]
  have htail := drop_take_eq hs 1
  rw [List.drop_one, List.drop_one] at htail
  cases h with
  | lineComment hc hslash =>
    have hrest : lineRest s'.tail = lineRest s.tail :=
      runLength_congr (take_eq_of_le htail (by simp only [seen, lineRest]; omega))
    rw [← hrest]
    exact .lineComment hc (hhead ▸ hslash)
  | blockComment hc hstar =>
    have hrest : blockRest s'.tail = blockRest s.tail :=
      blockRest_congr (take_eq_of_le htail (by simp only [seen]; omega))
    rw [← hrest]
    exact .blockComment hc (hhead ▸ hstar)
  | string hc =>
    have hrest : stringRest s' = stringRest s := stringRest_congr (take_eq_of_le hs (by
      have := length_le_seen ⟨(stringRest s).1, 1 + (stringRest s).2, .default⟩
      simp only at this
      omega))
    rw [← hrest]
    exact .string hc
  | number hb hd =>
    have hseen : numberRest s + 2 ≤
        (Reading.mk (if '.' ∈ s.take (numberRest s) then .pragmaValue else .numberLiteral)
          (1 + numberRest s) .default).seen := by
      rw [seen_of_number]
      · dsimp only
        omega
      · dsimp only
        split
        · exact .inr rfl
        · exact .inl rfl
    have hrest := numberRest_congr (take_eq_of_le hs hseen)
    have hbody := take_eq_of_le hs (m := numberRest s) (by omega)
    rw [hbody, ← hrest]
    exact .number (hb.congr hhead) hd
  | word hb hd hw =>
    have hrest : runLength isWordChar s' = runLength isWordChar s :=
      runLength_congr (take_eq_of_le hs (by simp only [seen]; omega))
    rw [← hrest]
    exact .word (hb.congr hhead) hd hw
  | pair hb hd hw hp => exact .pair (hb.congr hhead) hd hw (hone ▸ hp)
  | operator hb hd hw hp ho => exact .operator (hb.congr hhead) hd hw (hone ▸ hp) ho
  | blank hb hd hw hp ho hk =>
    have hrest : runLength isBlank s' = runLength isBlank s :=
      runLength_congr (take_eq_of_le hs (by simp only [seen]; omega))
    rw [← hrest]
    exact .blank (hb.congr hhead) hd hw (hone ▸ hp) ho hk
  | unknown hb hd hw hp ho hk => exact .unknown (hb.congr hhead) hd hw (hone ▸ hp) ho hk

end Reading

end Highlighter
