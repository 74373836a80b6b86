import Highlighter.Proofs.Scan.Stream

/-!
Line breaks cut scans. Every rule stops at a line end as it does at the end of the text, but for the
two that read on over line ends: a blank run, and a block comment that has not been closed yet.
Where neither of them reaches the end of a text, the text is scanned in front of a line break as it
is by itself, and so is what follows the break.
-/

set_option autoImplicit false

namespace Highlighter

/-- The texts that break a line. -/
def lineBreaks : List Text := [['\n'], ['\r'], ['\r', '\n']]

/-- A block comment in which nothing closes what its first two characters open. -/
def Token.IsOpen (u : Token) : Prop :=
  u.kind = .blockComment ∧ ¬ "*/".toList <:+: u.lexeme.drop 2

section Rests

variable {n : Char} {s : Text}

theorem eq_of_isLineEnd (hn : isLineEnd n = true) : n = '\n' ∨ n = '\r' := by
  simpa [isLineEnd] using hn

theorem runLength_append {p : Char → Bool} (hn : p n = false) (u : Text) :
    runLength p (s ++ n :: u) = runLength p s := by
  induction s with
  | nil => simp [runLength, hn]
  | cons c s ih =>
    rw [runLength, runLength] at ih ⊢
    rw [List.cons_append, List.takeWhile_cons, List.takeWhile_cons]
    split
    · rw [List.length_cons, List.length_cons, ih]
    · rfl

theorem runLength_append_of_lt {p : Char → Bool} (h : runLength p s < s.length) (u : Text) :
    runLength p (s ++ u) = runLength p s := by
  refine runLength_congr ?_
  rw [List.take_append_of_le_length h]

theorem blockRest_append (h : "*/".toList <:+: s) (u : Text) :
    blockRest (s ++ u) = blockRest s := by
  induction s with
  | nil => simp at h
  | cons c s ih =>
    rw [List.cons_append, blockRest_cons, blockRest_cons]
    rcases List.infix_cons_iff.mp h with hclose | hlater
    · obtain ⟨v, hv⟩ := hclose
      obtain ⟨rfl, rfl⟩ := List.cons.inj hv
      rfl
    · have hhead : (s ++ u).head? = s.head? := by
        cases s with
        | nil => simp at hlater
        | cons => rfl
      rw [hhead, ih hlater]

theorem infix_of_blockRest_lt (h : blockRest s < s.length) : "*/".toList <:+: s := by
  induction s with
  | nil => simp at h
  | cons c s ih =>
    rw [blockRest_cons] at h
    by_cases hclose : c = '*' ∧ s.head? = some '/'
    · obtain ⟨rfl, hslash⟩ := hclose
      obtain ⟨v, rfl⟩ := List.head?_eq_some_iff.mp hslash
      exact (List.prefix_append "*/".toList v).isInfix
    · rw [if_neg hclose, List.length_cons] at h
      exact (ih (by omega)).trans (List.suffix_cons c s).isInfix

theorem numberRest_append (hn : isLineEnd n = true) (u : Text) :
    numberRest (s ++ n :: u) = numberRest s := by
  have hstop : isDigit n = false ∧ n ≠ '.' := by
    rcases eq_of_isLineEnd hn with rfl | rfl <;> decide
  induction s with
  | nil => simp [numberRest, hstop]
  | cons c s ih =>
    rw [List.cons_append, numberRest, numberRest, ih]
    cases s with
    | nil => simp [hstop]
    | cons d s => rfl

theorem stringRest_append (hn : isLineEnd n = true) (u : Text) :
    stringRest (s ++ n :: u) = stringRest s := by
  have hquote : n ≠ '"' := by
    rcases eq_of_isLineEnd hn with rfl | rfl <;> decide
  have hle := runLength_le (fun c => c != '"' && !isLineEnd c) s
  unfold stringRest
  dsimp only
  rw [runLength_append (by simp [hn]) u, List.drop_append_of_le_length hle]
  generalize s.drop _ = v
  cases v with
  | nil => simp [hquote]
  | cons d v => rfl

end Rests

namespace Reading

variable {c n : Char} {s : Text} {r : Reading}

theorem Bare.append (h : Bare c s) (hn : isLineEnd n = true) (u : Text) : Bare c (s ++ n :: u) := by
  cases s with
  | nil =>
    obtain ⟨-, -, hquote⟩ := h
    rcases eq_of_isLineEnd hn with rfl | rfl
    · exact ⟨by simp, by simp, hquote⟩
    · exact ⟨by simp, by simp, hquote⟩
  | cons d s => exact h

theorem not_pair_append (h : c :: s.take 1 ∉ operatorPairs) (hn : isLineEnd n = true) (u : Text) :
    c :: (s ++ n :: u).take 1 ∉ operatorPairs := by
  cases s with
  | nil => rcases eq_of_isLineEnd hn with rfl | rfl <;> simp [operatorPairs]
  | cons d s => exact h

/-- In front of a line end a token is read as in front of the end of the text. -/
theorem Rule.append (h : Rule c s r) (hn : isLineEnd n = true)
    (hblank : r.kind = .whitespace → r.length ≤ s.length)
    (hblock : r.kind = .blockComment → "*/".toList <:+: s.tail) (u : Text) :
    Rule c (s ++ n :: u) r := by
  have hword : isWordChar n = false := by
    rcases eq_of_isLineEnd hn with rfl | rfl <;> decide
  cases h with
  | lineComment hc hslash =>
    obtain ⟨v, rfl⟩ := List.head?_eq_some_iff.mp hslash
    have hrest : lineRest (v ++ n :: u) = lineRest v := runLength_append (by simp [hn]) u
    rw [List.tail_cons, ← hrest]
    exact .lineComment hc rfl
  | blockComment hc hstar =>
    obtain ⟨v, rfl⟩ := List.head?_eq_some_iff.mp hstar
    have hrest := blockRest_append (hblock rfl) (n :: u)
    rw [← hrest]
    exact .blockComment hc rfl
  | string hc =>
    rw [← stringRest_append hn u]
    exact .string hc
  | number hb hd =>
    have htake : (s ++ n :: u).take (numberRest s) = s.take (numberRest s) :=
      List.take_append_of_le_length (numberRest_le s)
    rw [← htake, ← numberRest_append hn u]
    exact .number (hb.append hn u) hd
  | word hb hd hw =>
    rw [← runLength_append hword u]
    exact .word (hb.append hn u) hd hw
  | pair hb hd hw hp =>
    refine .pair (hb.append hn u) hd hw ?_
    cases s with
    | nil => simp [operatorPairs] at hp
    | cons d s => exact hp
  | operator hb hd hw hp ho =>
    exact .operator (hb.append hn u) hd hw (not_pair_append hp hn u) ho
  | blank hb hd hw hp ho hk =>
    have hlt := hblank rfl
    dsimp only at hlt
    rw [← runLength_append_of_lt (by omega) (n :: u)]
    exact .blank (hb.append hn u) hd hw (not_pair_append hp hn u) ho hk
  | unknown hb hd hw hp ho hk =>
    exact .unknown (hb.append hn u) hd hw (not_pair_append hp hn u) ho hk

theorem Rule.of_blockComment (h : Rule c s r) (hkind : r.kind = .blockComment) :
    ∃ v, s = '*' :: v ∧ r.length = 2 + blockRest v := by
  cases h with
  | blockComment hc hstar =>
    obtain ⟨v, rfl⟩ := List.head?_eq_some_iff.mp hstar
    exact ⟨v, rfl, rfl⟩
  | string =>
    unfold stringRest at hkind
    dsimp only at hkind
    split at hkind <;> cases hkind
  | number =>
    dsimp only at hkind
    split at hkind <;> cases hkind
  | lineComment => cases hkind
  | word => cases hkind
  | pair => cases hkind
  | operator => cases hkind
  | blank => cases hkind
  | unknown => cases hkind

/-- A block comment is closed if it is not open, or if there is text behind it. -/
theorem Rule.closed (h : Rule c s r) (hkind : r.kind = .blockComment) (pos : Int)
    (hend : r.length ≤ s.length ∨ ¬ (r.token pos (c :: s)).IsOpen) : "*/".toList <:+: s.tail := by
  obtain ⟨v, rfl, hlength⟩ := h.of_blockComment hkind
  rcases hend with hlt | hopen
  · rw [List.length_cons] at hlt
    exact infix_of_blockRest_lt (by rw [List.tail_cons]; omega)
  · have hclose := Classical.not_not.mp fun hno => hopen ⟨hkind, hno⟩
    rw [token, hlength, Nat.add_comm, List.take_succ_cons, List.take_succ_cons] at hclose
    exact hclose.trans (List.take_prefix _ v).isInfix

theorem fresh_of_isLineEnd (hc : isLineEnd c = true) (s : Text) :
    fresh c s = ⟨.whitespace, 1 + runLength isBlank s, .default⟩ := by
  refine Rule.fresh_eq ?_
  rcases eq_of_isLineEnd hc with rfl | rfl
  · exact .blank ⟨by simp, by simp, by simp⟩ rfl (by decide) (by simp [operatorPairs]) (by decide)
      (by decide)
  · exact .blank ⟨by simp, by simp, by simp⟩ rfl (by decide) (by simp [operatorPairs]) (by decide)
      (by decide)

end Reading

theorem scanFrom_append {n : Char} (hn : isLineEnd n = true) {pos : Int} {s : Text} (u : Text)
    (hlast : ∀ v, (scanFrom .default pos s).getLast? = some v → v.kind ≠ .whitespace ∧ ¬ v.IsOpen) :
    scanFrom .default pos (s ++ n :: u) =
      scanFrom .default pos s ++ scanFrom .default (pos + s.length) (n :: u) := by
  induction s using Text.drop_induction generalizing pos with
  | nil => simp
  | cons c s ih =>
    have hpos := Reading.fresh_length_pos c s
    have hrule := Reading.rule_fresh c s
    rw [scanFrom_cons, Reading.front] at hlast ⊢
    generalize Reading.fresh c s = r at hpos hrule hlast ⊢
    have hle : r.length ≤ (c :: s).length := hrule.length_le
    -- The token either has text behind it or is the last one.
    have hend : r.length ≤ s.length ∨ (r.kind ≠ .whitespace ∧ ¬ (r.token pos (c :: s)).IsOpen) := by
      rcases Nat.lt_or_ge s.length r.length with hall | hmore
      · refine .inr (hlast (r.token pos (c :: s)) ?_)
        rw [List.drop_eq_nil_of_le (by rw [List.length_cons]; omega), scanFrom_nil]
        rfl
      · exact .inl hmore
    have happend : Reading.fresh c (s ++ n :: u) = r := by
      refine (hrule.append hn ?_ ?_ u).fresh_eq
      · intro hblank
        rcases hend with hlt | hno
        · exact hlt
        · exact absurd hblank hno.1
      · intro hblock
        exact hrule.closed hblock pos (hend.imp_right (·.2))
    have hrest := @ih _ hpos (pos + r.length) (by
      intro v hv
      refine hlast v ?_
      rw [List.getLast?_cons, hv]
      rfl)
    rw [List.cons_append, scanFrom_cons, Reading.front, happend, Reading.token, Reading.token,
      ← List.cons_append, List.take_append_of_le_length hle, List.drop_append_of_le_length hle,
      hrest, List.cons_append, List.length_drop]
    congr 3
    omega

theorem exists_cons_of_mem_lineBreaks {b : Text} (hb : b ∈ lineBreaks) :
    ∃ n rest, b = n :: rest ∧ isLineEnd n = true ∧ ∀ c ∈ rest, isBlank c = true := by
  simp only [lineBreaks, List.mem_cons, List.not_mem_nil, or_false] at hb
  rcases hb with rfl | rfl | rfl
  · exact ⟨_, _, rfl, rfl, List.forall_mem_nil _⟩
  · exact ⟨_, _, rfl, rfl, List.forall_mem_nil _⟩
  · exact ⟨_, _, rfl, rfl, List.forall_mem_singleton.mpr rfl⟩

/-- A line break in front of something that is not blank is a token of its own. -/
theorem scanFrom_lineBreak {b : Text} (hb : b ∈ lineBreaks) (pos : Int) {u : Text}
    (hu : ∀ c, u.head? = some c → isBlank c = false) :
    scanFrom .default pos (b ++ u) =
      ⟨.whitespace, pos, pos + b.length, b⟩ :: scanFrom .default (pos + b.length) u := by
  obtain ⟨n, rest, rfl, hn, hblank⟩ := exists_cons_of_mem_lineBreaks hb
  have hnone : runLength isBlank u = 0 := by
    cases u with
    | nil => rfl
    | cons c u => simp [runLength, hu c rfl]
  have hrun : 1 + runLength isBlank (rest ++ u) = (n :: rest).length := by
    rw [runLength, List.takeWhile_append_of_pos hblank, List.length_append, ← runLength, hnone,
      List.length_cons, Nat.add_comm, Nat.add_zero]
  rw [List.cons_append, scanFrom_cons, Reading.front, Reading.fresh_of_isLineEnd hn, hrun,
    Reading.token, ← List.cons_append, List.take_left, List.drop_left]

/-- A text in front of a line break is scanned as by itself, whatever is malformed in it, and so is
the text behind the break. -/
theorem scan_append_lineBreak {a b u : Text} (hb : b ∈ lineBreaks)
    (ha : ∀ v, (scan a).getLast? = some v → v.kind ≠ .whitespace ∧ ¬ v.IsOpen)
    (hu : ∀ c, u.head? = some c → isBlank c = false) :
    scan (a ++ b ++ u) =
      scan a ++ ⟨.whitespace, a.length, a.length + b.length, b⟩ ::
        (scan u).map (Token.shift (a.length + b.length)) := by
  have hbreak := scanFrom_lineBreak hb a.length hu
  rw [scan_eq] at ha
  obtain ⟨n, rest, rfl, hn, -⟩ := exists_cons_of_mem_lineBreaks hb
  have hcut := scanFrom_append hn (rest ++ u) ha
  rw [Int.zero_add, ← List.cons_append, hbreak] at hcut
  rw [List.append_assoc, scan_eq, scan_eq, scan_eq, hcut, ← scanFrom_shift, Int.zero_add]

/-- A number with a point behind it and a string that is not closed, in front of a comment that is
not closed. -/
theorem scan_append_lineBreak_malformed :
    let a := "1. \"ab".toList
    let b := "\r\n".toList
    let u := "/* x".toList
    b ∈ lineBreaks ∧
      (∀ v, (scan a).getLast? = some v → v.kind ≠ .whitespace ∧ ¬ v.IsOpen) ∧
      (∀ c, u.head? = some c → isBlank c = false) ∧
      scan (a ++ b ++ u) =
        scan a ++ ⟨.whitespace, a.length, a.length + b.length, b⟩ ::
          (scan u).map (Token.shift (a.length + b.length)) := by
  intro a b u
  have hb : b ∈ lineBreaks := by decide
  have ha : ∀ v, (scan a).getLast? = some v → v.kind ≠ .whitespace ∧ ¬ v.IsOpen := by
    have hlast : (scan a).getLast? = some ⟨.unknown, 3, 6, "\"ab".toList⟩ := by decide +kernel
    intro v hv
    obtain rfl := Option.some.inj (hlast.symm.trans hv)
    exact ⟨by decide, fun hopen => absurd hopen.1 (by decide)⟩
  have hu : ∀ c, u.head? = some c → isBlank c = false := by
    intro c hc
    obtain rfl := Option.some.inj hc
    decide
  exact ⟨hb, ha, hu, scan_append_lineBreak hb ha hu⟩

end Highlighter
