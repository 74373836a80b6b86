import Highlighter.Text.Blank
import Highlighter.Token.Basic
import Highlighter.Token.Word

/-!
The scanner. It holds a whole text and moves on in it from where a token starts, in turns: the
opening of a comment or a string only changes the mode, and so does a turn in the rest of a line
comment or a string of which nothing is left. Every other turn ends the token. What is malformed
becomes an `unknown` token that does not reach past its line. Words come out as identifiers.
-/

set_option autoImplicit false

namespace Highlighter

/-- What a scan is in the middle of. -/
inductive Mode where
  | default
  | lineComment
  | blockComment
  | string
  deriving DecidableEq, Repr, Inhabited

def operatorPairs : List Text := ["==".toList, "&&".toList, "||".toList]

instance (s : Text) : Decidable (s ∈ operatorPairs) := List.instDecidableMemOfLawfulBEq s _

def operatorChars : List Char := ['(', ')', '{', '}', '[', ']', ',', ';', ':']

namespace Text

/-- The place behind the characters of a class that stand from `place` on. -/
def skip (p : Char → Bool) (t : Text) (place : Nat) : Nat :=
  if h : place < t.length then
    if p t[place] then skip p t (place + 1) else place
  else place
termination_by t.length - place

theorem le_skip (p : Char → Bool) (t : Text) (place : Nat) : place ≤ t.skip p place := by
  fun_induction skip p t place with
  | case1 place _ _ ih => exact Nat.le_of_succ_le ih
  | case2 => exact Nat.le_refl _
  | case3 => exact Nat.le_refl _

theorem lt_skip {p : Char → Bool} {t : Text} {place : Nat} {c : Char} (h : t[place]? = some c)
    (hc : p c = true) : place < t.skip p place := by
  obtain ⟨hlt, rfl⟩ := List.getElem?_eq_some_iff.mp h
  rw [skip, dif_pos hlt, if_pos hc]
  exact le_skip p t (place + 1)

/-- The first place from `place` on where a block comment is closed. -/
def findClose (t : Text) (place : Nat) : Option Nat :=
  if place < t.length then
    if t[place]? = some '*' ∧ t[place + 1]? = some '/' then some place
    else findClose t (place + 1)
  else none
termination_by t.length - place

theorem le_of_findClose {t : Text} {place i : Nat} (h : t.findClose place = some i) :
    place ≤ i := by
  fun_induction findClose t place with
  | case1 => exact Nat.le_of_eq (Option.some.inj h)
  | case2 place _ _ ih => exact Nat.le_of_succ_le (ih h)
  | case3 => cases h

/-- Skips points that stand before a digit, each with all the digits behind it. The answer has
whether there are points, or were some before. -/
def skipPoints (t : Text) (dotted : Bool) (place : Nat) : Nat × Bool :=
  if t[place]? = some '.' ∧ (t[place + 1]?).any isDigit then
    skipPoints t true (t.skip isDigit (place + 1))
  else (place, dotted)
termination_by t.length - place
decreasing_by
  have hle := le_skip isDigit t (place + 1)
  have hlt := (List.getElem?_eq_some_iff.mp (show t[place]? = some '.' by simp_all)).1
  omega

theorem le_skipPoints (t : Text) (dotted : Bool) (place : Nat) :
    place ≤ (t.skipPoints dotted place).1 := by
  fun_induction skipPoints t dotted place with
  | case1 dotted place _ ih =>
    have hle := le_skip isDigit t (place + 1)
    omega
  | case2 => exact Nat.le_refl _

/-- The place where a string stops of which `place` is inside, and whether it is closed there. -/
def skipString (t : Text) (place : Nat) : Nat × Bool :=
  if h : place < t.length then
    if t[place] = '"' then (place + 1, true)
    else if isLineEnd t[place] then (place, false)
    else skipString t (place + 1)
  else (place, false)
termination_by t.length - place

theorem le_skipString (t : Text) (place : Nat) : place ≤ (t.skipString place).1 := by
  fun_induction skipString t place with
  | case1 => exact Nat.le_succ _
  | case2 => exact Nat.le_refl _
  | case3 place _ _ _ ih => exact Nat.le_of_succ_le ih
  | case4 => exact Nat.le_refl _

theorem lt_skipString (t : Text) (place : Nat) (h : (t.skipString place).2 = true) :
    place < (t.skipString place).1 := by
  fun_induction skipString t place with
  | case1 => exact Nat.lt_succ_self _
  | case2 => cases h
  | case3 place _ _ _ ih => exact Nat.lt_of_succ_lt (ih h)
  | case4 => cases h

end Text

/-- A text that is read, where the token starts, how far it has been read and in which mode. -/
structure Scanner where
  source : Text
  start : Nat
  place : Nat
  mode : Mode
  deriving DecidableEq, Repr

namespace Scanner

/-- The character that stands so far ahead. -/
def peek? (x : Scanner) (ahead : Nat) : Option Char := x.source[x.place + ahead]?

def moveTo (x : Scanner) (place : Nat) : Scanner := { x with place }

def advance (x : Scanner) (n : Nat) : Scanner := x.moveTo (x.place + n)

def skip (x : Scanner) (p : Char → Bool) : Scanner := x.moveTo (x.source.skip p x.place)

/-- Ends the token. -/
def emit (x : Scanner) (kind : Kind) : Option Token × Scanner :=
  (some ⟨kind, x.start, x.place, x.source.slice x.start x.place⟩, x)

/-- Goes on in another mode. -/
def enter (x : Scanner) (mode : Mode) : Option Token × Scanner := (none, { x with mode })

def lexNumber (x : Scanner) : Option Token × Scanner :=
  let x := x.skip isDigit
  let (place, dotted) := x.source.skipPoints false x.place
  (x.moveTo place).emit (if dotted then .pragmaValue else .numberLiteral)

def lexDefault (x : Scanner) : Option Token × Scanner :=
  match x.peek? 0 with
  | none => (x.advance 1).emit .unknown
  | some c =>
    if c = '/' ∧ x.peek? 1 = some '/' then (x.advance 2).enter .lineComment
    else if c = '/' ∧ x.peek? 1 = some '*' then (x.advance 2).enter .blockComment
    else if c = '"' then (x.advance 1).enter .string
    else if isDigit c then x.lexNumber
    else if isWordStart c then (x.skip isWordChar).emit .identifier
    else if c :: (x.peek? 1).toList ∈ operatorPairs then (x.advance 2).emit .operator
    else if c ∈ operatorChars then (x.advance 1).emit .operator
    else if isBlank c then (x.skip isBlank).emit .whitespace
    else (x.advance 1).emit .unknown

/-- Leaves a comment or a string at a place. -/
def leave (x : Scanner) (place : Nat) : Scanner := { x with place, mode := .default }

/-- Line comments go on to the end of the line. -/
def lexLineComment (x : Scanner) : Option Token × Scanner :=
  let place := x.source.skip (!isLineEnd ·) x.place
  if place = x.start then (none, x.leave place) else (x.leave place).emit .lineComment

/-- Block comments go on just past the first `*/`, or to the end of the text. -/
def lexBlockComment (x : Scanner) : Option Token × Scanner :=
  let place := (x.source.findClose x.place).elim x.source.length (· + 2)
  (x.leave place).emit .blockComment

/-- Strings go on just past the first quote. If the line ends before, they are malformed and end
there. -/
def lexString (x : Scanner) : Option Token × Scanner :=
  let (place, closed) := x.source.skipString x.place
  if closed then (x.leave place).emit .stringLiteral
  else if place = x.start then (none, x.leave place)
  else (x.leave place).emit .unknown

/-- A turn: the token, if it ends, and the scanner after the turn. -/
def turn (x : Scanner) : Option Token × Scanner :=
  match x.mode with
  | .default => x.lexDefault
  | .lineComment => x.lexLineComment
  | .blockComment => x.lexBlockComment
  | .string => x.lexString

/-- What is still to be read, counted so that less is left after a turn that only changes the
mode. -/
def left (x : Scanner) : Nat :=
  2 * (x.source.length - x.place) + if x.mode = .default then 0 else 1

/-- What turns do: they end the token behind where it starts, or there is less left to be read. -/
inductive Moves (x : Scanner) : Option Token × Scanner → Prop where
  | emit {kind : Kind} {place : Nat} {mode : Mode} :
      (x.start ≤ x.place → x.start < x.source.length → x.start < place) →
      Moves x (({ x with place, mode } : Scanner).emit kind)
  | enter {place : Nat} {mode : Mode} :
      x.place ≤ place → ({ x with place, mode } : Scanner).left < x.left →
      Moves x (none, { x with place, mode })

variable {x y : Scanner}

theorem Moves.emit_of_lt {kind : Kind} {place : Nat} {mode : Mode} (h : x.place < place) :
    Moves x (({ x with place, mode } : Scanner).emit kind) :=
  .emit fun hle _ => Nat.lt_of_le_of_lt hle h

/-- A construct that is left without anything of it gives way to the default mode. -/
theorem Moves.leave {place : Nat} (hmode : x.mode ≠ .default) (h : x.place ≤ place) :
    Moves x (none, { x with place, mode := .default }) := by
  refine .enter h ?_
  simp only [left, if_neg hmode, if_pos]
  omega

theorem Moves.opening {n : Nat} {mode : Mode} (hmode : x.mode = .default)
    (hn : 0 < n) (h : x.place + n ≤ x.source.length) :
    Moves x ((x.advance n).enter mode) := by
  have hplace : (x.advance n).place = x.place + n := rfl
  refine .enter (Nat.le_add_right _ _) ?_
  simp only [left, if_pos hmode, hplace]
  split
  all_goals omega

theorem place_add_lt_of_peek? {n : Nat} {c : Char} (h : x.peek? n = some c) :
    x.place + n < x.source.length :=
  (List.getElem?_eq_some_iff.mp h).1

theorem moves_lexNumber {c : Char} (hc : x.peek? 0 = some c) (hdigit : isDigit c = true) :
    Moves x x.lexNumber := by
  have hskip := Text.lt_skip (t := x.source) hc hdigit
  have hpoints := Text.le_skipPoints x.source false (x.source.skip isDigit x.place)
  exact .emit_of_lt (Nat.lt_of_lt_of_le hskip hpoints)

theorem moves_lexDefault (hmode : x.mode = .default) : Moves x x.lexDefault := by
  have hadvance : ∀ n kind, 0 < n → Moves x ((x.advance n).emit kind) :=
    fun n kind hn => .emit_of_lt (Nat.lt_add_of_pos_right hn)
  unfold lexDefault
  split
  · exact hadvance 1 _ Nat.one_pos
  rename_i c hc
  have hskip : ∀ p kind, p c = true → Moves x ((x.skip p).emit kind) :=
    fun p kind hp => .emit_of_lt (Text.lt_skip (t := x.source) hc hp)
  split
  · exact .opening hmode Nat.two_pos (place_add_lt_of_peek? ‹_ ∧ _›.2)
  split
  · exact .opening hmode Nat.two_pos (place_add_lt_of_peek? ‹_ ∧ _›.2)
  split
  · exact .opening hmode Nat.one_pos (place_add_lt_of_peek? hc)
  split
  · exact moves_lexNumber hc ‹_›
  split
  · exact hskip _ _ (isWordChar_of_isWordStart ‹_›)
  split
  · exact hadvance 2 _ Nat.two_pos
  split
  · exact hadvance 1 _ Nat.one_pos
  split
  · exact hskip _ _ ‹_›
  · exact hadvance 1 _ Nat.one_pos

theorem moves_lexLineComment (hmode : x.mode ≠ .default) : Moves x x.lexLineComment := by
  have hle := Text.le_skip (!isLineEnd ·) x.source x.place
  unfold lexLineComment
  dsimp only
  split
  · exact .leave hmode hle
  · rename_i hne
    refine .emit fun hstart _ => ?_
    exact Nat.lt_of_le_of_ne (Nat.le_trans hstart hle) (Ne.symm hne)

theorem moves_lexBlockComment : Moves x x.lexBlockComment := by
  unfold lexBlockComment
  cases hclose : x.source.findClose x.place with
  | some i =>
    have hle := Text.le_of_findClose hclose
    exact .emit_of_lt (show x.place < i + 2 by omega)
  | none => exact .emit fun _ hlt => hlt

theorem moves_lexString (hmode : x.mode ≠ .default) : Moves x x.lexString := by
  have hle := Text.le_skipString x.source x.place
  have hclosed := Text.lt_skipString x.source x.place
  unfold lexString
  split
  rename_i place closed hskip
  rw [hskip] at hle hclosed
  split
  · exact .emit_of_lt (hclosed ‹_›)
  split
  · exact .leave hmode hle
  · rename_i hne
    refine .emit fun hstart _ => ?_
    exact Nat.lt_of_le_of_ne (Nat.le_trans hstart hle) (Ne.symm hne)

theorem moves_turn (x : Scanner) : Moves x x.turn := by
  unfold turn
  split
  · exact moves_lexDefault ‹_›
  · exact moves_lexLineComment (by simp [*])
  · exact moves_lexBlockComment
  · exact moves_lexString (by simp [*])

theorem left_lt_of_turn (h : x.turn = (none, y)) : y.left < x.left := by
  have hmoves := x.moves_turn
  rw [h] at hmoves
  cases hmoves with
  | enter _ hleft => exact hleft

/-- Reads on, turn by turn, up to the end of the token. The answer has the token and the mode behind
it. -/
def next (x : Scanner) : Token × Mode :=
  match h : x.turn with
  | (some u, y) => (u, y.mode)
  | (none, y) =>
    have : y.left < x.left := left_lt_of_turn h
    next y
termination_by x.left

theorem start_lt_stop_next (hle : x.start ≤ x.place) (hlt : x.start < x.source.length) :
    x.start < x.next.1.stop.toNat := by
  fun_induction next x with
  | case1 x u y h =>
    have hmoves := x.moves_turn
    rw [h] at hmoves
    cases hmoves with
    | emit hstop => exact hstop hle hlt
  | case2 x y h _ ih =>
    have hmoves := x.moves_turn
    rw [h] at hmoves
    cases hmoves with
    | enter hplace _ => exact ih (Nat.le_trans hle hplace) hlt

end Scanner

end Highlighter
