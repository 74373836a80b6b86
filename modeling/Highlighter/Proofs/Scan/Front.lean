import Highlighter.Token.Scanner

/-!
Scans off the front of a text. What a scanner finds from a place on can be told from the text that
is left there: how much of it belongs to the token, and what is left behind that.
-/

set_option autoImplicit false

namespace Highlighter

/-- The token at the front of a text: its kind, its length and the mode of the scan behind it. -/
structure Reading where
  kind : Kind
  length : Nat
  after : Mode
  deriving DecidableEq, Repr

/-- The length of a run at the front of a text. -/
def runLength (p : Char → Bool) (s : Text) : Nat := (s.takeWhile p).length

/-- A line comment goes on to the end of its line. -/
def lineRest (s : Text) : Nat := runLength (!isLineEnd ·) s

/-- A block comment goes on just past the first `*/`, or to the end of the text. -/
def blockRest : Text → Nat
  | [] => 0
  | '*' :: '/' :: _ => 2
  | _ :: s => blockRest s + 1

theorem blockRest_cons_pos (c : Char) (s : Text) : 0 < blockRest (c :: s) := by
  unfold blockRest
  split <;> simp_all

/-- A string goes on just past the first quote. If its line ends before, it is malformed and ends
there. -/
def stringRest (s : Text) : Kind × Nat :=
  let n := runLength (fun c => c != '"' && !isLineEnd c) s
  if (s.drop n).head? = some '"' then (.stringLiteral, n + 1) else (.unknown, n)

/-- A number goes on with digits and with points that stand before a digit. -/
def numberRest : Text → Nat
  | [] => 0
  | c :: s =>
    if isDigit c || (c == '.' && (s.head?.map isDigit).getD false) then numberRest s + 1 else 0

namespace Reading

/-- The token in front of `c :: s`, where `c` is the first character and no construct is open. -/
def fresh (c : Char) (s : Text) : Reading :=
  if c = '/' ∧ s.head? = some '/' then
    ⟨.lineComment, 2 + lineRest s.tail, .default⟩
  else if c = '/' ∧ s.head? = some '*' then
    ⟨.blockComment, 2 + blockRest s.tail, .default⟩
  else if c = '"' then
    ⟨(stringRest s).1, 1 + (stringRest s).2, .default⟩
  else if isDigit c then
    let n := numberRest s
    ⟨if '.' ∈ s.take n then .pragmaValue else .numberLiteral, 1 + n, .default⟩
  else if isWordStart c then
    ⟨.identifier, 1 + runLength isWordChar s, .default⟩
  else if c :: s.take 1 ∈ operatorPairs then
    ⟨.operator, 2, .default⟩
  else if c ∈ operatorChars then
    ⟨.operator, 1, .default⟩
  else if isBlank c then
    ⟨.whitespace, 1 + runLength isBlank s, .default⟩
  else
    ⟨.unknown, 1, .default⟩

/-- The token in front of `c :: s` in a given mode. A line comment or a string of which nothing
is left does not give a token. -/
def front (mode : Mode) (c : Char) (s : Text) : Reading :=
  match mode with
  | .default => fresh c s
  | .lineComment =>
    let n := lineRest (c :: s)
    if n = 0 then fresh c s else ⟨.lineComment, n, .default⟩
  | .blockComment => ⟨.blockComment, blockRest (c :: s), .default⟩
  | .string =>
    let (kind, n) := stringRest (c :: s)
    if n = 0 then fresh c s else ⟨kind, n, .default⟩

theorem fresh_length_pos (c : Char) (s : Text) : 0 < (fresh c s).length := by
  unfold fresh
  repeat' split
  all_goals simp only; omega

theorem front_length_pos (mode : Mode) (c : Char) (s : Text) : 0 < (front mode c s).length := by
  unfold front
  split
  · exact fresh_length_pos c s
  · dsimp only
    split
    · exact fresh_length_pos c s
    · simp only; omega
  · exact blockRest_cons_pos c s
  · dsimp only
    split
    · exact fresh_length_pos c s
    · simp only; omega

/-- The token for a reading at the front of `s`, where `s` starts at `pos`. -/
def token (r : Reading) (pos : Int) (s : Text) : Token :=
  ⟨r.kind, pos, pos + r.length, s.take r.length⟩

@[simp] theorem token_start (r : Reading) (pos : Int) (s : Text) :
    (r.token pos s).start = pos := rfl

@[simp] theorem token_stop (r : Reading) (pos : Int) (s : Text) :
    (r.token pos s).stop = pos + r.length := rfl

theorem token_shift (r : Reading) (pos d : Int) (s : Text) :
    r.token (pos + d) s = (r.token pos s).shift d := by
  simp only [token, Token.shift]
  congr 1
  omega

end Reading

/-- The tokens of `s`, of which the first starts at `pos`. -/
def scanFrom (mode : Mode) (pos : Int) : Text → List Token
  | [] => []
  | c :: s =>
    let r := Reading.front mode c s
    r.token pos (c :: s) :: scanFrom r.after (pos + r.length) ((c :: s).drop r.length)
termination_by s => s.length
decreasing_by
  have := Reading.front_length_pos mode c s
  simp only [List.length_drop, List.length_cons]
  omega

/-- Induction along a text by tokens, of which each has at least one character. -/
@[elab_as_elim]
theorem Text.drop_induction {motive : Text → Prop} (nil : motive [])
    (cons : ∀ c s, (∀ n, 0 < n → motive ((c :: s).drop n)) → motive (c :: s)) (s : Text) :
    motive s := by
  induction hlen : s.length using Nat.strongRecOn generalizing s with
  | ind len ih =>
    cases s with
    | nil => exact nil
    | cons c s =>
      refine cons c s fun n hn => ih _ ?_ _ rfl
      rw [← hlen, List.length_drop, List.length_cons]
      omega

end Highlighter
