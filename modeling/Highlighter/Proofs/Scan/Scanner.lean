import Highlighter.Proofs.Scan.Places
import Highlighter.Token.Scan

/-!
What the scanner does, told from the text that is left at its place. Each of its loops stops where a
run of that text ends, and so the turns of a token come to the token that stands in front of what is
left. A scan by places is then the scan off the front of what is left.
-/

set_option autoImplicit false

namespace Highlighter

theorem stringRest_cons (c : Char) (s : Text) :
    stringRest (c :: s) =
      if c = '"' then (.stringLiteral, 1)
      else if isLineEnd c then (.unknown, 0)
      else ((stringRest s).1, (stringRest s).2 + 1) := by
  by_cases hquote : c = '"'
  · subst hquote
    rfl
  rw [if_neg hquote, stringRest, runLength]
  cases hend : isLineEnd c with
  | true =>
    rw [List.takeWhile_cons_of_neg (by simp [hend])]
    simp [hquote]
  | false =>
    rw [List.takeWhile_cons_of_pos (by simp [hend, hquote]), List.length_cons, List.drop_succ_cons,
      if_neg Bool.false_ne_true, stringRest, runLength]
    split
    all_goals rfl

namespace Text

variable {t : Text} {place : Nat}

theorem slice_eq_take_drop (t : Text) (i n : Nat) :
    t.slice i (i + n : Nat) = (t.drop i).take n := by
  rw [slice, Int.toNat_natCast, Int.toNat_natCast, List.drop_take, Nat.add_sub_cancel_left]

theorem skip_eq (p : Char → Bool) (t : Text) (place : Nat) :
    t.skip p place = place + runLength p (t.drop place) := by
  fun_induction skip p t place with
  | case1 place hlt hp ih =>
    rw [ih, List.drop_eq_getElem_cons hlt, runLength, runLength, List.takeWhile_cons_of_pos hp,
      List.length_cons]
    omega
  | case2 place hlt hp =>
    rw [List.drop_eq_getElem_cons hlt, runLength, List.takeWhile_cons_of_neg hp]
    rfl
  | case3 place hle =>
    rw [List.drop_eq_nil_of_le (Nat.le_of_not_lt hle)]
    rfl

theorem findClose_eq (h : place ≤ t.length) :
    (t.findClose place).elim t.length (· + 2) = place + blockRest (t.drop place) := by
  fun_induction findClose t place with
  | case1 place hlt hclose =>
    rw [drop_eq_cons hclose.1, blockRest_cons, if_pos ⟨rfl, by rw [List.head?_drop, hclose.2]⟩]
    rfl
  | case2 place hlt hno ih =>
    have hplace := List.getElem?_eq_getElem hlt
    rw [ih hlt, drop_eq_cons hplace, blockRest_cons, if_neg, Nat.add_right_comm, Nat.add_assoc]
    rintro ⟨hstar, hslash⟩
    exact hno ⟨by rw [hplace, hstar], by rwa [List.head?_drop] at hslash⟩
  | case3 place hge =>
    rw [List.drop_eq_nil_of_le (Nat.le_of_not_lt hge)]
    exact Nat.le_antisymm (Nat.le_of_not_lt hge) h

theorem skipString_eq (t : Text) (place : Nat) :
    t.skipString place =
      (place + (stringRest (t.drop place)).2, (stringRest (t.drop place)).1 == .stringLiteral) := by
  fun_induction skipString t place with
  | case1 place hlt hquote =>
    rw [List.drop_eq_getElem_cons hlt, stringRest_cons, if_pos hquote]
    rfl
  | case2 place hlt hquote hend =>
    rw [List.drop_eq_getElem_cons hlt, stringRest_cons, if_neg hquote, if_pos hend]
    rfl
  | case3 place hlt hquote hend ih =>
    rw [ih, List.drop_eq_getElem_cons hlt, stringRest_cons, if_neg hquote, if_neg hend,
      Nat.add_right_comm, Nat.add_assoc]
  | case4 place hge =>
    rw [List.drop_eq_nil_of_le (Nat.le_of_not_lt hge)]
    rfl

/-- Where there is a point to go on with, all of them are skipped, each with the digits behind
it. -/
theorem skipPoints_cases (t : Text) (dotted : Bool) (place : Nat) :
    ¬ PointAt t place ∧ t.skipPoints dotted place = (place, dotted) ∨
      ∃ stop, Groups t place stop ∧ ¬ PointAt t stop ∧
        t.skipPoints dotted place = (stop, true) := by
  have hpoint : ∀ place, PointAt t place ↔
      t[place]? = some '.' ∧ (t[place + 1]?).any isDigit = true := by
    intro place
    rw [PointAt, Option.any_eq_true]
  fun_induction skipPoints t dotted place with
  | case1 dotted place h ih =>
    obtain ⟨c, hc, hdigit⟩ := ((hpoint place).mpr h).2
    obtain ⟨next, hdigits⟩ := exists_digits hc hdigit
    have hnext : t.skip isDigit (place + 1) = next := by
      rw [skip_eq]
      exact (firstFrom_not_iff.mp hdigits.2).symm
    rw [hnext] at ih ⊢
    rcases ih with ⟨hend, heq⟩ | ⟨stop, hgroups, hend, heq⟩
    · exact .inr ⟨next, .last h.1 hdigits, hend, heq⟩
    · exact .inr ⟨stop, .more h.1 hdigits hgroups, hend, heq⟩
  | case2 dotted place h => exact .inl ⟨mt (hpoint place).mp h, rfl⟩

end Text

namespace Reading

theorem token_eq_slice (r : Reading) {t s : Text} {pos : Nat} (hs : s = t.drop pos) :
    r.token pos s = ⟨r.kind, pos, (pos + r.length : Nat), t.slice pos (pos + r.length : Nat)⟩ := by
  rw [token, Text.slice_eq_take_drop, hs, Int.natCast_add]

end Reading

/-- Turn by turn, reading from a place in a mode comes to a token and the mode behind it. -/
inductive Turns (t : Text) (start : Nat) : Nat → Mode → Token × Mode → Prop where
  | stop {place stop : Nat} {mode after : Mode} {u : Token} :
      Scanner.turn ⟨t, start, place, mode⟩ = (some u, ⟨t, start, stop, after⟩) →
      Turns t start place mode (u, after)
  | go {place next : Nat} {mode after : Mode} {r : Token × Mode} :
      Scanner.turn ⟨t, start, place, mode⟩ = (none, ⟨t, start, next, after⟩) →
      Turns t start next after r → Turns t start place mode r

section Turns

variable {t s : Text} {c : Char} {start place : Nat}

theorem Scanner.next_of_stop {x y : Scanner} {u : Token} (h : x.turn = (some u, y)) :
    x.next = (u, y.mode) := by
  rw [next]
  split
  all_goals
    rename_i hturn
    rw [h] at hturn
    cases hturn
  rfl

theorem Scanner.next_of_go {x y : Scanner} (h : x.turn = (none, y)) : x.next = y.next := by
  rw [next]
  split
  all_goals
    rename_i hturn
    rw [h] at hturn
    cases hturn
  rfl

/-- The scanner comes to what the turns come to. -/
theorem Turns.next_eq {mode : Mode} {r : Token × Mode}
    (h : Turns t start place mode r) : Scanner.next ⟨t, start, place, mode⟩ = r := by
  induction h with
  | stop hturn => exact Scanner.next_of_stop hturn
  | go hturn _ ih => rw [Scanner.next_of_go hturn, ih]

theorem Turns.of_emit {mode : Mode} {r : Reading} (hs : t.drop start = s)
    (h : Scanner.turn ⟨t, start, place, mode⟩ =
      Scanner.emit ⟨t, start, start + r.length, .default⟩ r.kind) :
    Turns t start place mode (r.token start s, .default) := by
  rw [Reading.token_eq_slice r hs.symm]
  exact .stop h

theorem Scanner.lexDefault_of_bare {x : Scanner} (hc : x.peek? 0 = some c)
    (hnext : x.peek? 1 = s.head?) (hb : Reading.Bare c s) :
    x.lexDefault =
      if isDigit c then x.lexNumber
      else if isWordStart c then (x.skip isWordChar).emit .identifier
      else if c :: s.take 1 ∈ operatorPairs then (x.advance 2).emit .operator
      else if c ∈ operatorChars then (x.advance 1).emit .operator
      else if isBlank c then (x.skip isBlank).emit .whitespace
      else (x.advance 1).emit .unknown := by
  rw [lexDefault, hc, hnext, List.take_one]
  dsimp only
  rw [if_neg hb.1, if_neg hb.2.1, if_neg hb.2.2]

/-- A number without points, or with some, as the rules read it. -/
theorem Scanner.lexNumber_eq (hs : t.drop start = c :: s) (hc : isDigit c = true)
    {mode : Mode} :
    lexNumber ⟨t, start, start, mode⟩ =
      emit ⟨t, start, start + (Reading.fresh c s).length, mode⟩ (Reading.fresh c s).kind := by
  obtain ⟨place, hdigits⟩ := exists_digits (getElem?_of_drop hs) hc
  have hplace : t.skip isDigit start = place := by
    rw [Text.skip_eq]
    exact (firstFrom_not_iff.mp hdigits.2).symm
  rw [lexNumber]
  dsimp only [skip, moveTo]
  rw [hplace]
  rcases t.skipPoints_cases false place with ⟨hend, heq⟩ | ⟨stop, hgroups, hend, heq⟩
  · obtain ⟨n, rfl, hrule⟩ := hdigits.rule hend hs
    rw [heq, hrule.fresh_eq]
    rfl
  · obtain ⟨n, rfl, hrule⟩ := hgroups.rule hdigits hend hs
    rw [heq, hrule.fresh_eq]
    rfl

theorem Scanner.lexLineComment_eq (hs : t.drop place = s) {mode : Mode} :
    lexLineComment ⟨t, start, place, mode⟩ =
      if place + lineRest s = start then (none, ⟨t, start, place + lineRest s, .default⟩)
      else emit ⟨t, start, place + lineRest s, .default⟩ .lineComment := by
  simp only [lexLineComment, leave, Text.skip_eq, hs, lineRest]
  rfl

theorem Scanner.lexBlockComment_eq (hs : t.drop place = s) (hle : place ≤ t.length) {mode : Mode} :
    lexBlockComment ⟨t, start, place, mode⟩ =
      emit ⟨t, start, place + blockRest s, .default⟩ .blockComment := by
  simp only [lexBlockComment, leave, Text.findClose_eq hle, hs]

theorem stringRest_cases (s : Text) :
    (stringRest s).1 = .stringLiteral ∧ 0 < (stringRest s).2 ∨ (stringRest s).1 = .unknown := by
  unfold stringRest
  dsimp only
  split
  · exact .inl ⟨rfl, Nat.succ_pos _⟩
  · exact .inr rfl

theorem Scanner.lexString_eq (hs : t.drop place = s) (hle : start ≤ place) {mode : Mode} :
    lexString ⟨t, start, place, mode⟩ =
      if place + (stringRest s).2 = start then
        (none, ⟨t, start, place + (stringRest s).2, .default⟩)
      else emit ⟨t, start, place + (stringRest s).2, .default⟩ (stringRest s).1 := by
  simp only [lexString, leave, Text.skipString_eq, hs]
  rcases stringRest_cases s with ⟨hkind, hpos⟩ | hkind
  · rw [hkind, if_pos (by decide), if_neg (by omega)]
  · rw [hkind, if_neg (by decide)]

theorem Scanner.skip_of_drop (hs : t.drop start = c :: s) {p : Char → Bool} (hc : p c = true)
    {mode : Mode} :
    skip ⟨t, start, start, mode⟩ p = ⟨t, start, start + (1 + runLength p s), mode⟩ := by
  simp only [skip, moveTo, Text.skip_eq, hs]
  rw [runLength, List.takeWhile_cons_of_pos hc, List.length_cons, Nat.add_comm 1, runLength]

theorem turns_default (hs : t.drop start = c :: s) :
    Turns t start start .default ((Reading.fresh c s).token start (c :: s), .default) := by
  have hpeek : Scanner.peek? ⟨t, start, start, .default⟩ 0 = some c := getElem?_of_drop hs
  have hnext : Scanner.peek? ⟨t, start, start, .default⟩ 1 = s.head? := getElem?_succ_of_drop hs
  have hbare : ∀ hb : Reading.Bare c s, Scanner.turn ⟨t, start, start, .default⟩ = _ :=
    fun hb => Scanner.lexDefault_of_bare hpeek hnext hb
  have hrule := Reading.rule_fresh c s
  generalize hr : Reading.fresh c s = r at hrule ⊢
  cases hrule with
  | lineComment hc hslash =>
    subst hc
    have hopen : Scanner.lexDefault ⟨t, start, start, .default⟩ =
        (none, ⟨t, start, start + 2, .lineComment⟩) := by
      rw [Scanner.lexDefault, hpeek, hnext]
      exact if_pos ⟨rfl, hslash⟩
    refine .go hopen (.of_emit hs ((Scanner.lexLineComment_eq (drop_two_of_drop hs)).trans ?_))
    rw [if_neg (by omega), Nat.add_assoc]
  | blockComment hc hstar =>
    subst hc
    have hlt : start + 1 < t.length := (List.getElem?_eq_some_iff.mp (hnext.trans hstar)).1
    have hopen : Scanner.lexDefault ⟨t, start, start, .default⟩ =
        (none, ⟨t, start, start + 2, .blockComment⟩) := by
      rw [Scanner.lexDefault, hpeek, hnext]
      dsimp only
      rw [if_neg (by simp [hstar]), if_pos ⟨rfl, hstar⟩]
      rfl
    refine .go hopen (.of_emit hs ((Scanner.lexBlockComment_eq (drop_two_of_drop hs) hlt).trans ?_))
    rw [Nat.add_assoc]
  | string hc =>
    subst hc
    have hopen : Scanner.lexDefault ⟨t, start, start, .default⟩ =
        (none, ⟨t, start, start + 1, .string⟩) := by
      rw [Scanner.lexDefault, hpeek]
      rfl
    refine .go hopen (.of_emit hs
      ((Scanner.lexString_eq (drop_succ_of_drop hs) (Nat.le_succ start)).trans ?_))
    rw [if_neg (by omega), Nat.add_assoc]
  | number hb hc =>
    refine .of_emit hs ?_
    rw [hbare hb, if_pos hc, Scanner.lexNumber_eq hs hc, hr]
  | word hb hd hw =>
    refine .of_emit hs ?_
    rw [hbare hb, if_neg (by simp [hd]), if_pos hw,
      Scanner.skip_of_drop hs (isWordChar_of_isWordStart hw)]
  | pair hb hd hw hp =>
    refine .of_emit hs ?_
    rw [hbare hb, if_neg (by simp [hd]), if_neg (by simp [hw]), if_pos hp]
    rfl
  | operator hb hd hw hp ho =>
    refine .of_emit hs ?_
    rw [hbare hb, if_neg (by simp [hd]), if_neg (by simp [hw]), if_neg hp, if_pos ho]
    rfl
  | blank hb hd hw hp ho hk =>
    refine .of_emit hs ?_
    rw [hbare hb, if_neg (by simp [hd]), if_neg (by simp [hw]), if_neg hp, if_neg ho, if_pos hk,
      Scanner.skip_of_drop hs hk]
  | unknown hb hd hw hp ho hk =>
    refine .of_emit hs ?_
    rw [hbare hb, if_neg (by simp [hd]), if_neg (by simp [hw]), if_neg hp, if_neg ho,
      if_neg (by simp [hk])]
    rfl

/-- A line comment or a string of which nothing is left gives way to the default mode, which moves
on by a token. -/
theorem turns_front (mode : Mode) (hs : t.drop start = c :: s) :
    Turns t start start mode ((Reading.front mode c s).token start (c :: s), .default) := by
  have hfresh := turns_default hs
  have hlt := (List.getElem?_eq_some_iff.mp (getElem?_of_drop hs)).1
  cases mode with
  | default => exact hfresh
  | lineComment =>
    by_cases hn : lineRest (c :: s) = 0
    · rw [Reading.front, if_pos hn]
      refine .go ((Scanner.lexLineComment_eq hs).trans ?_) hfresh
      rw [hn]
      exact if_pos rfl
    · rw [Reading.front, if_neg hn]
      refine .of_emit hs ((Scanner.lexLineComment_eq hs).trans ?_)
      exact if_neg (by omega)
  | blockComment => exact .of_emit hs (Scanner.lexBlockComment_eq hs (Nat.le_of_lt hlt))
  | string =>
    rw [Reading.front]
    dsimp only
    by_cases hn : (stringRest (c :: s)).2 = 0
    · rw [if_pos hn]
      refine .go ((Scanner.lexString_eq hs (Nat.le_refl start)).trans ?_) hfresh
      rw [hn]
      exact if_pos rfl
    · rw [if_neg hn]
      refine .of_emit hs ((Scanner.lexString_eq hs (Nat.le_refl start)).trans ?_)
      exact if_neg (by omega)

theorem nextToken?_of_drop (mode : Mode) (hs : t.drop start = c :: s) :
    nextToken? t start mode =
      some ((Reading.front mode c s).token start (c :: s), .default) := by
  have hlt := (List.getElem?_eq_some_iff.mp (getElem?_of_drop hs)).1
  rw [nextToken?, if_neg (Nat.not_le_of_lt hlt), (turns_front mode hs).next_eq]

theorem nextToken?_eq_none_iff {mode : Mode} :
    nextToken? t start mode = none ↔ t.length ≤ start := by
  rw [nextToken?]
  split
  all_goals simp [*]

theorem scanAt_of_nextToken? {mode after : Mode} {u : Token}
    (h : nextToken? t start mode = some (u, after)) :
    scanAt t start mode = u :: scanAt t u.stop.toNat after := by
  rw [scanAt]
  split
  · rename_i hnone
    rw [h] at hnone
    cases hnone
  · rename_i hsome
    rw [h] at hsome
    cases hsome
    rfl

theorem scanAt_of_length_le (h : t.length ≤ start) (mode : Mode) : scanAt t start mode = [] := by
  rw [scanAt]
  split
  · rfl
  · rename_i hsome
    rw [nextToken?_eq_none_iff.mpr h] at hsome
    cases hsome

/-- A scan is the one off the front of what is left of the text. -/
theorem scanAt_eq (t : Text) (offset : Nat) (mode : Mode) :
    scanAt t offset mode = scanFrom mode offset (t.drop offset) := by
  generalize hs : t.drop offset = s
  induction s using Text.drop_induction generalizing offset mode with
  | nil => rw [scanFrom_nil, scanAt_of_length_le (List.drop_eq_nil_iff.mp hs)]
  | cons c s ih =>
    have hrest := ih _ (Reading.front_length_pos mode c s)
      (offset + (Reading.front mode c s).length) .default (by rw [← List.drop_drop, hs])
    rw [Int.natCast_add] at hrest
    rw [scanAt_of_nextToken? (nextToken?_of_drop mode hs), scanFrom_cons, ← hrest,
      Reading.token_stop, ← Int.natCast_add, Int.toNat_natCast]

theorem scan_eq (t : Text) : scan t = scanFrom .default 0 t := scanAt_eq t 0 .default

end Turns

end Highlighter
