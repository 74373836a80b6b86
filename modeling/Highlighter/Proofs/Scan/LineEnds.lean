import Highlighter.Proofs.Scan.Lexical
import Highlighter.Proofs.Text.LineEnds

/-!
Scans do not depend on how lines end. With plain line ends a text has the same tokens, one for one
and of the same kinds; each has plain line ends itself, and has moved towards the front by the
carriage returns in front of it that are gone. For a token that is neither blank nor a block comment
holds no line end, and the other two do not stop inside a line end.
-/

set_option autoImplicit false

namespace Highlighter

section Rests

variable {s : Text} {p : Char → Bool}

theorem take_runLength (p : Char → Bool) (s : Text) : s.take (runLength p s) = s.takeWhile p :=
  (List.prefix_iff_eq_take.mp (List.takeWhile_prefix p)).symm

theorem not_mem_take_runLength (hreturn : p '\r' = false) (s : Text) :
    '\r' ∉ s.take (runLength p s) := by
  rw [take_runLength]
  intro hmem
  rw [List.all_eq_true.mp List.all_takeWhile _ hmem] at hreturn
  cases hreturn

theorem runLength_plainLineEnds (hreturn : p '\r' = false) (hfeed : p '\n' = false) (s : Text) :
    runLength p s.plainLineEnds = runLength p s := by
  induction s using Text.pair_induction with
  | nil => rfl
  | pair s => simp [runLength, hreturn, hfeed]
  | lone s hs => simp [Text.plainLineEnds_return hs, runLength, hreturn, hfeed]
  | cons c s hc ih =>
    rw [Text.plainLineEnds_cons hc, runLength, runLength, List.takeWhile_cons, List.takeWhile_cons]
    split
    · exact congrArg Nat.succ ih
    · rfl

theorem takeWhile_isBlank_plainLineEnds (s : Text) :
    s.plainLineEnds.takeWhile isBlank = Text.plainLineEnds (s.takeWhile isBlank) := by
  have hreturn : isBlank '\r' = true := rfl
  have hfeed : isBlank '\n' = true := rfl
  induction s using Text.pair_induction with
  | nil => rfl
  | pair s ih => simp [hreturn, hfeed, ih]
  | lone s hs ih =>
    have hrun : (s.takeWhile isBlank).head? ≠ some '\n' := by
      cases s with
      | nil => simp
      | cons d s =>
        rw [List.takeWhile_cons]
        split
        · exact hs
        · simp
    rw [Text.plainLineEnds_return hs, List.takeWhile_cons_of_pos hfeed,
      List.takeWhile_cons_of_pos hreturn, Text.plainLineEnds_return hrun, ih]
  | cons c s hc ih =>
    rw [Text.plainLineEnds_cons hc, List.takeWhile_cons, List.takeWhile_cons]
    split
    · rw [Text.plainLineEnds_cons hc, ih]
    · rfl

theorem getD_isDigit_plainLineEnds (s : Text) :
    (s.plainLineEnds.head?.map isDigit).getD false = (s.head?.map isDigit).getD false := by
  rw [Text.head?_plainLineEnds]
  cases s.head? with
  | none => rfl
  | some c =>
    by_cases hc : c = '\r'
    · rw [hc]
      rfl
    · simp [hc]

theorem numberRest_plainLineEnds (s : Text) : numberRest s.plainLineEnds = numberRest s := by
  induction s using Text.pair_induction with
  | nil => rfl
  | pair s => simp [numberRest, isDigit]
  | lone s hs => simp [Text.plainLineEnds_return hs, numberRest, isDigit]
  | cons c s hc ih =>
    rw [Text.plainLineEnds_cons hc, numberRest, numberRest, getD_isDigit_plainLineEnds, ih]

theorem not_mem_take_numberRest (s : Text) : '\r' ∉ s.take (numberRest s) := by
  fun_induction numberRest s with
  | case1 => simp
  | case2 c s hc ih =>
    rw [List.take_succ_cons, List.mem_cons, not_or]
    refine ⟨?_, ih⟩
    rintro rfl
    simp [isDigit] at hc
  | case3 => simp

theorem take_plainLineEnds {n : Nat} (h : '\r' ∉ s.take n) (hn : n ≤ s.length) :
    s.plainLineEnds.take n = s.take n ∧
      s.plainLineEnds.drop n = Text.plainLineEnds (s.drop n) := by
  have hcut := Text.plainLineEnds_append (Text.not_splitPair_of_not_mem h (s.drop n))
  rw [List.take_append_drop, Text.plainLineEnds_eq_self h] at hcut
  have hlength : (s.take n).length = n := List.length_take_of_le hn
  rw [hcut]
  exact ⟨List.take_left' hlength, List.drop_left' hlength⟩

theorem stringRest_plainLineEnds (s : Text) : stringRest s.plainLineEnds = stringRest s := by
  have hrun := runLength_plainLineEnds (p := fun c => c != '"' && !isLineEnd c) rfl rfl s
  have hcut := take_plainLineEnds (not_mem_take_runLength
    (p := fun c => c != '"' && !isLineEnd c) rfl s) (runLength_le _ s)
  unfold stringRest
  dsimp only
  rw [hrun, hcut.2]
  simp only [Text.head?_plainLineEnds_iff (show isLineEnd '"' = false from rfl)]

theorem not_mem_take_stringRest (s : Text) : '\r' ∉ s.take (stringRest s).2 := by
  have hrun := not_mem_take_runLength (p := fun c => c != '"' && !isLineEnd c) rfl s
  unfold stringRest
  dsimp only
  split
  · rename_i hquote
    rw [List.take_add_one, ← List.head?_drop, hquote]
    simpa using hrun
  · exact hrun

/-- A block comment stops behind a slash or at the end of the text, and so not inside a line end. -/
theorem blockRest_plainLineEnds (s : Text) :
    ¬ Text.SplitPair (s.take (blockRest s)) (s.drop (blockRest s)) ∧
      blockRest s.plainLineEnds = (Text.plainLineEnds (s.take (blockRest s))).length := by
  induction s using Text.pair_induction with
  | nil => exact ⟨by simp [Text.SplitPair], rfl⟩
  | pair s ih =>
    have hrest : blockRest ('\r' :: '\n' :: s) = blockRest s + 2 := by simp [blockRest_cons]
    rw [hrest, List.take_succ_cons, List.take_succ_cons, List.drop_succ_cons, List.drop_succ_cons,
      Text.plainLineEnds_pair, Text.plainLineEnds_pair, blockRest_cons]
    refine ⟨?_, by simp [ih.2]⟩
    intro hpair
    rcases hpair.of_cons with hpair | ⟨hnil, -⟩
    · rcases hpair.of_cons with hpair | ⟨-, hc, -⟩
      · exact ih.1 hpair
      · cases hc
    · cases hnil
  | lone s hs ih =>
    have hrest : blockRest ('\r' :: s) = blockRest s + 1 := by simp [blockRest_cons]
    have htake : (s.take (blockRest s)).head? ≠ some '\n' := by
      rw [List.head?_take]
      split
      · simp
      · exact hs
    rw [hrest, List.take_succ_cons, List.drop_succ_cons, Text.plainLineEnds_return hs,
      Text.plainLineEnds_return htake, blockRest_cons]
    refine ⟨?_, by simp [ih.2]⟩
    intro hpair
    rcases hpair.of_cons with hpair | ⟨hnil, -, hfeed⟩
    · exact ih.1 hpair
    · -- Nothing of the comment is left, so the line feed is the one that hs excludes.
      have hall := List.take_append_drop (blockRest s) s
      rw [hnil, List.nil_append] at hall
      exact hs (hall ▸ hfeed)
  | cons c s hc ih =>
    have hclose : (c = '*' ∧ s.plainLineEnds.head? = some '/') ↔ c = '*' ∧ s.head? = some '/' :=
      and_congr_right fun _ => Text.head?_plainLineEnds_iff rfl
    rw [Text.plainLineEnds_cons hc, blockRest_cons, blockRest_cons]
    simp only [hclose]
    split
    · rename_i hstar
      obtain ⟨rfl, hslash⟩ := hstar
      obtain ⟨v, rfl⟩ := List.head?_eq_some_iff.mp hslash
      exact ⟨by simp [Text.SplitPair], rfl⟩
    · rw [List.take_succ_cons, List.drop_succ_cons, Text.plainLineEnds_cons hc, List.length_cons,
        ih.2]
      refine ⟨?_, rfl⟩
      intro hpair
      rcases hpair.of_cons with hpair | ⟨-, hreturn, -⟩
      · exact ih.1 hpair
      · exact hc hreturn

end Rests

namespace Reading

variable {c : Char} {s : Text} {r : Reading}

/-- A token that is neither blank nor a block comment lies in one line. -/
theorem Rule.not_mem_lexeme (h : Rule c s r) (hblank : r.kind ≠ .whitespace)
    (hblock : r.kind ≠ .blockComment) : '\r' ∉ (c :: s).take r.length := by
  have hne : ∀ {p : Char → Bool}, p '\r' = false → p c = true → '\r' ≠ c := by
    rintro p hreturn hc rfl
    rw [hreturn] at hc
    cases hc
  cases h with
  | lineComment hc hslash =>
    obtain ⟨v, rfl⟩ := List.head?_eq_some_iff.mp hslash
    subst hc
    have hrest := not_mem_take_runLength (p := (!isLineEnd ·)) rfl v
    rw [Nat.add_comm]
    simpa [List.take_succ_cons, lineRest] using hrest
  | blockComment => exact absurd rfl hblock
  | string hc =>
    subst hc
    have hrest := not_mem_take_stringRest s
    rw [Nat.add_comm, List.take_succ_cons]
    simpa using hrest
  | number hb hd =>
    rw [Nat.add_comm, List.take_succ_cons, List.mem_cons, not_or]
    exact ⟨hne rfl hd, not_mem_take_numberRest s⟩
  | word hb hd hw =>
    rw [Nat.add_comm, List.take_succ_cons, List.mem_cons, not_or]
    exact ⟨hne (by decide) hw, not_mem_take_runLength (by decide) s⟩
  | pair hb hd hw hp =>
    intro hmem
    have hall : operatorPairs.all (fun v => '\r' ∉ v) = true := by decide
    exact of_decide_eq_true (List.all_eq_true.mp hall _ hp) hmem
  | operator hb hd hw hp ho =>
    rw [List.take_succ_cons, List.take_zero, List.mem_singleton]
    rintro rfl
    exact absurd ho (by decide)
  | blank => exact absurd rfl hblank
  | unknown hb hd hw hp ho hk =>
    rw [List.take_succ_cons, List.take_zero, List.mem_singleton]
    rintro rfl
    cases hk

theorem Bare.plainLineEnds (h : Bare c s) : Bare c s.plainLineEnds := by
  obtain ⟨hline, hblock, hquote⟩ := h
  refine ⟨?_, ?_, hquote⟩
  · rwa [Text.head?_plainLineEnds_iff rfl]
  · rwa [Text.head?_plainLineEnds_iff rfl]

theorem pair_plainLineEnds_iff (c : Char) (s : Text) :
    c :: s.plainLineEnds.take 1 ∈ operatorPairs ↔ c :: s.take 1 ∈ operatorPairs := by
  rw [take_one_eq, take_one_eq, Text.head?_plainLineEnds]
  cases s.head? with
  | none => rfl
  | some d =>
    by_cases hd : d = '\r'
    · simp [hd, operatorPairs]
    · simp [hd]

/-- A token that lies in one line is read as before. -/
theorem Rule.plainLineEnds (h : Rule c s r) (hblank : r.kind ≠ .whitespace)
    (hblock : r.kind ≠ .blockComment) : Rule c s.plainLineEnds r := by
  cases h with
  | lineComment hc hslash =>
    obtain ⟨v, rfl⟩ := List.head?_eq_some_iff.mp hslash
    have hrest : lineRest (Text.plainLineEnds v) = lineRest v := runLength_plainLineEnds rfl rfl v
    rw [Text.plainLineEnds_cons (by decide), List.tail_cons, ← hrest]
    exact .lineComment hc rfl
  | blockComment => exact absurd rfl hblock
  | string hc =>
    rw [← stringRest_plainLineEnds s]
    exact .string hc
  | number hb hd =>
    rw [← (take_plainLineEnds (not_mem_take_numberRest s) (numberRest_le s)).1,
      ← numberRest_plainLineEnds s]
    exact .number hb.plainLineEnds hd
  | word hb hd hw =>
    rw [← runLength_plainLineEnds (p := isWordChar) (by decide) (by decide) s]
    exact .word hb.plainLineEnds hd hw
  | pair hb hd hw hp =>
    exact .pair hb.plainLineEnds hd hw ((pair_plainLineEnds_iff c s).mpr hp)
  | operator hb hd hw hp ho =>
    exact .operator hb.plainLineEnds hd hw (mt (pair_plainLineEnds_iff c s).mp hp) ho
  | blank => exact absurd rfl hblank
  | unknown hb hd hw hp ho hk =>
    exact .unknown hb.plainLineEnds hd hw (mt (pair_plainLineEnds_iff c s).mp hp) ho hk

/-- The reading of a token whose text has been given plain line ends. -/
def withPlainLineEnds (r : Reading) (s : Text) : Reading :=
  { r with length := (Text.plainLineEnds (s.take r.length)).length }

/-- Only a blank run and a block comment may go on over line ends. -/
theorem Rule.line_cases (h : Rule c s r) :
    isBlank c = true ∨ (c = '/' ∧ s.head? = some '*') ∨
      r.kind ≠ .whitespace ∧ r.kind ≠ .blockComment := by
  cases h with
  | blockComment hc hstar => exact .inr (.inl ⟨hc, hstar⟩)
  | blank hb hd hw hp ho hk => exact .inl hk
  | string =>
    refine .inr (.inr ?_)
    unfold stringRest
    dsimp only
    split <;> simp
  | number =>
    refine .inr (.inr ?_)
    dsimp only
    split <;> simp
  | lineComment | word | pair | operator | unknown => exact .inr (.inr ⟨by simp, by simp⟩)

theorem Rule.of_isBlank (hc : isBlank c = true) (s : Text) :
    Rule c s ⟨.whitespace, 1 + runLength isBlank s, .default⟩ := by
  obtain ⟨hslash, hquote, hdigit, hword, hop, hpair⟩ := isBlank_excludes hc
  exact .blank (.of_ne hslash hquote s) hdigit hword (hpair _) hop hc

theorem Rule.length_pos (h : Rule c s r) : 0 < r.length :=
  h.fresh_eq ▸ fresh_length_pos c s

/-- In a text with plain line ends the token at the front is read as before, and it does not stop
inside a line end. -/
def ReadAlike (t : Text) (r : Reading) : Prop :=
  ¬ Text.SplitPair (t.take r.length) (t.drop r.length) ∧
    ∃ d u, t.plainLineEnds = d :: u ∧ Rule d u (r.withPlainLineEnds t)

theorem Rule.readAlike_of_line (h : Rule c s r) (hblank : r.kind ≠ .whitespace)
    (hblock : r.kind ≠ .blockComment) : ReadAlike (c :: s) r := by
  have hno := h.not_mem_lexeme hblank hblock
  have hlength : ((c :: s).take r.length).length = r.length := List.length_take_of_le h.length_le
  have hc : c ≠ '\r' := by
    rintro rfl
    obtain ⟨n, hn⟩ := Nat.exists_eq_succ_of_ne_zero (Nat.ne_of_gt h.length_pos)
    rw [hn, List.take_succ_cons] at hno
    exact hno List.mem_cons_self
  refine ⟨Text.not_splitPair_of_not_mem hno _, c, Text.plainLineEnds s,
    Text.plainLineEnds_cons hc s, ?_⟩
  rw [withPlainLineEnds, Text.plainLineEnds_eq_self hno, hlength]
  exact h.plainLineEnds hblank hblock

theorem length_blank_run {d : Char} (hd : isBlank d = true) (u : Text) :
    1 + runLength isBlank u = runLength isBlank (d :: u) := by
  rw [runLength, runLength, List.takeWhile_cons_of_pos hd, List.length_cons, Nat.add_comm]

theorem exists_blank_plainLineEnds (hc : isBlank c = true) (s : Text) :
    ∃ d u, Text.plainLineEnds (c :: s) = d :: u ∧ isBlank d = true := by
  have hhead := Text.head?_plainLineEnds (c :: s)
  obtain ⟨u, hu⟩ := List.head?_eq_some_iff.mp hhead
  refine ⟨_, u, hu, ?_⟩
  dsimp only
  split
  · rfl
  · exact hc

theorem readAlike_of_isBlank (hc : isBlank c = true) (s : Text) :
    ReadAlike (c :: s) ⟨.whitespace, 1 + runLength isBlank s, .default⟩ := by
  obtain ⟨d, u, hplain, hd⟩ := exists_blank_plainLineEnds hc s
  refine ⟨?_, d, u, hplain, ?_⟩
  · rintro ⟨-, hfeed⟩
    rw [length_blank_run hc, List.head?_drop] at hfeed
    cases (runLength_spec isBlank (c :: s)).2 _ hfeed
  · have hlength : (Text.plainLineEnds ((c :: s).take (1 + runLength isBlank s))).length =
        1 + runLength isBlank u := by
      rw [length_blank_run hc, take_runLength, ← takeWhile_isBlank_plainLineEnds, hplain,
        ← runLength, length_blank_run hd]
    rw [withPlainLineEnds, hlength]
    exact .of_isBlank hd u

theorem plainLineEnds_openComment (s : Text) :
    Text.plainLineEnds ('/' :: '*' :: s) = '/' :: '*' :: Text.plainLineEnds s := by
  rw [Text.plainLineEnds_cons (by decide), Text.plainLineEnds_cons (by decide)]

theorem readAlike_of_openComment (s : Text) :
    ReadAlike ('/' :: '*' :: s) ⟨.blockComment, 2 + blockRest s, .default⟩ := by
  obtain ⟨hcut, hrest⟩ := blockRest_plainLineEnds s
  have htake : ('/' :: '*' :: s).take (2 + blockRest s) = '/' :: '*' :: s.take (blockRest s) := by
    rw [Nat.add_comm, List.take_succ_cons, List.take_succ_cons]
  have hdrop : ('/' :: '*' :: s).drop (2 + blockRest s) = s.drop (blockRest s) := by
    rw [Nat.add_comm, List.drop_succ_cons, List.drop_succ_cons]
  refine ⟨?_, '/', '*' :: Text.plainLineEnds s, plainLineEnds_openComment s, ?_⟩
  · rw [htake, hdrop]
    intro hpair
    rcases hpair.of_cons with hpair | ⟨hnil, -⟩
    · rcases hpair.of_cons with hpair | ⟨-, hreturn, -⟩
      · exact hcut hpair
      · cases hreturn
    · cases hnil
  · have hlength : (Text.plainLineEnds ('/' :: '*' :: s.take (blockRest s))).length =
        2 + blockRest (Text.plainLineEnds s) := by
      rw [plainLineEnds_openComment, List.length_cons, List.length_cons, ← hrest]
      omega
    rw [withPlainLineEnds, htake, hlength]
    exact .blockComment rfl rfl

theorem Rule.readAlike (h : Rule c s r) : ReadAlike (c :: s) r := by
  rcases h.line_cases with hc | ⟨hc, hstar⟩ | ⟨hblank, hblock⟩
  · obtain rfl := h.fresh_eq.symm.trans (Rule.of_isBlank hc s).fresh_eq
    exact readAlike_of_isBlank hc s
  · obtain rfl := h.fresh_eq.symm.trans (Rule.blockComment hc hstar).fresh_eq
    obtain ⟨u, rfl⟩ := List.head?_eq_some_iff.mp hstar
    subst hc
    exact readAlike_of_openComment u
  · exact h.readAlike_of_line hblank hblock

end Reading

namespace Text

/-- Where a place comes to lie when the text in front of it is given plain line ends. -/
def plainPlace (t : Text) (i : Int) : Int := (plainLineEnds (t.take i.toNat)).length

theorem plainPlace_add {t s : Text} {p n : Nat} (hs : s = t.drop p)
    (hcut : ¬ SplitPair (t.take p) s) :
    t.plainPlace (p + n : Nat) = t.plainPlace p + (plainLineEnds (s.take n)).length := by
  have hhead : ¬ SplitPair (t.take p) (s.take n) := by
    rintro ⟨hlast, hfeed⟩
    rw [List.head?_take] at hfeed
    split at hfeed
    · cases hfeed
    · exact hcut ⟨hlast, hfeed⟩
  rw [plainPlace, plainPlace, Int.toNat_natCast, Int.toNat_natCast, List.take_add, ← hs,
    plainLineEnds_append hhead, List.length_append, Int.natCast_add]

/-- Behind a token that does not stop inside a line end, the text is not cut inside one. -/
theorem not_splitPair_add {t s : Text} {p n : Nat} (hs : s = t.drop p) (hne : s.take n ≠ [])
    (hcut : ¬ SplitPair (s.take n) (s.drop n)) :
    ¬ SplitPair (t.take (p + n)) (t.drop (p + n)) := by
  rintro ⟨hlast, hfeed⟩
  rw [List.take_add, ← hs, List.getLast?_append, List.getLast?_eq_some_getLast hne] at hlast
  rw [← List.drop_drop, ← hs] at hfeed
  exact hcut ⟨(List.getLast?_eq_some_getLast hne).trans hlast, hfeed⟩

end Text

/-- A token of a text, where it lies and as it reads when the text has plain line ends. -/
def Token.withPlainLineEnds (t : Text) (u : Token) : Token :=
  ⟨u.kind, t.plainPlace u.start, t.plainPlace u.stop, u.lexeme.plainLineEnds⟩

theorem scanFrom_plainLineEnds {t s : Text} {p : Nat} (hs : s = t.drop p)
    (hcut : ¬ Text.SplitPair (t.take p) s) :
    scanFrom .default (t.plainPlace p) s.plainLineEnds =
      (scanFrom .default p s).map (Token.withPlainLineEnds t) := by
  induction s using Text.drop_induction generalizing p with
  | nil => simp [Text.plainLineEnds]
  | cons c s ih =>
    have hpos := Reading.fresh_length_pos c s
    obtain ⟨hstop, d, u, hplain, hread⟩ := (Reading.rule_fresh c s).readAlike
    rw [scanFrom_cons, Reading.front]
    generalize Reading.fresh c s = r at hpos hstop hread ⊢
    have hne : (c :: s).take r.length ≠ [] := by
      rw [Ne, List.take_eq_nil_iff, not_or]
      exact ⟨Nat.ne_of_gt hpos, List.cons_ne_nil c s⟩
    have hsplit := Text.plainLineEnds_append hstop
    rw [List.take_append_drop, hplain] at hsplit
    -- The token stops outside line ends, and so what lies behind it is cut off as this text was.
    have hrest := ih r.length hpos (p := p + r.length) (by rw [hs, List.drop_drop]) (by
      have hnext := Text.not_splitPair_add hs hne hstop
      rwa [← List.drop_drop, ← hs] at hnext)
    have hplace := Text.plainPlace_add (n := r.length) hs hcut
    rw [hplain, scanFrom_cons, Reading.front, hread.fresh_eq, Reading.token, hsplit, List.map_cons,
      Token.withPlainLineEnds, Reading.token_start, Reading.token_stop, ← Int.natCast_add, hplace,
      ← hrest, hplace]
    dsimp only [Reading.withPlainLineEnds]
    rw [List.take_left, List.drop_left]
    rfl

theorem not_mem_lexeme_of_mem_scanFrom {pos : Int} {s : Text} {u : Token}
    (hu : u ∈ scanFrom .default pos s) (hblank : u.kind ≠ .whitespace)
    (hblock : u.kind ≠ .blockComment) : '\r' ∉ u.lexeme := by
  induction s using Text.drop_induction generalizing pos with
  | nil => simp at hu
  | cons c s ih =>
    rw [scanFrom_cons, Reading.front] at hu
    rcases List.mem_cons.mp hu with rfl | hu
    · exact (Reading.rule_fresh c s).not_mem_lexeme hblank hblock
    · exact ih _ (Reading.fresh_length_pos c s) hu

theorem scan_plainLineEnds (t : Text) :
    scan t.plainLineEnds = (scan t).map (Token.withPlainLineEnds t) := by
  rw [scan_eq, scan_eq]
  exact scanFrom_plainLineEnds (p := 0) rfl (by simp [Text.SplitPair])

theorem Keywords.classify_withPlainLineEnds (k : Keywords) (t : Text) {u : Token}
    (h : u.kind = .identifier → '\r' ∉ u.lexeme) :
    k.classify (u.withPlainLineEnds t) = (k.classify u).withPlainLineEnds t := by
  by_cases hkind : u.kind = .identifier
  · have hlexeme := Text.plainLineEnds_eq_self (h hkind)
    simp [classify, Token.withPlainLineEnds, hkind, hlexeme]
  · simp [classify, Token.withPlainLineEnds, hkind]

/-- With plain line ends a text has the same tokens, each moved to where it lies then. -/
theorem tokenize_plainLineEnds (k : Keywords) (t : Text) :
    tokenize k t.plainLineEnds = (tokenize k t).map (Token.withPlainLineEnds t) := by
  rw [tokenize, tokenize, scan_plainLineEnds, List.map_map, List.map_map]
  refine List.map_congr_left fun u hu => k.classify_withPlainLineEnds t fun hkind => ?_
  rw [scan_eq] at hu
  exact not_mem_lexeme_of_mem_scanFrom hu (by simp [hkind]) (by simp [hkind])

end Highlighter
