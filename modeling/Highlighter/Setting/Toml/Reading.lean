import Highlighter.Setting.Toml.Scalar
import Highlighter.Setting.Toml.Tree

/-!
Documents of TOML. There is one statement on a line, and a comment may stand behind it: a header, or
a key and its value. Arrays and inline tables hold values in their turn. There is no limit to how
long a number is or how deep values are nested.
-/

set_option autoImplicit false

namespace Highlighter.Toml

/-- What is read off the front of a text, and what is left of the text. -/
structure Front (α : Type) (s : Text) where
  value : α
  rest : Text
  shorter : rest.length < s.length

namespace Front

variable {α β γ : Type} {s : Text} {c : Char}

def map (f : α → β) (r : Front α s) : Front β s := ⟨f r.value, r.rest, r.shorter⟩

/-- A value that takes the first character and so many more. -/
def taking (v : α) (n : Nat) : Front α (c :: s) :=
  ⟨v, s.drop n, Nat.lt_succ_of_le (List.drop_sublist n s).length_le⟩

/-- A value that goes on to a character and takes it as well. -/
def upTo {n : Nat} (v : α) (h : s[n]? = some c) : Front α s :=
  ⟨v, s.drop (n + 1), by
    obtain ⟨hlt, -⟩ := List.getElem?_eq_some_iff.mp h
    rw [List.length_drop]
    omega⟩

/-- What is read behind a character. -/
def behind (r : Front α s) : Front α (c :: s) := ⟨r.value, r.rest, Nat.lt_succ_of_lt r.shorter⟩

/-- What is read behind some of the text. -/
def within {n : Nat} (r : Front α (s.drop n)) : Front α s :=
  ⟨r.value, r.rest, Nat.lt_of_lt_of_le r.shorter (List.drop_sublist n s).length_le⟩

/-- Passes over some of what is left. -/
def passing (r : Front α s) (n : Nat) : Front α s :=
  ⟨r.value, r.rest.drop n, Nat.lt_of_le_of_lt (List.drop_sublist n r.rest).length_le r.shorter⟩

def pastBlanks (r : Front α s) : Front α s := r.passing (runOf isSpace r.rest)

/-- What is read, together with what is read from what is left. -/
def followedBy (r : Front α s) (next : Front β r.rest) (f : α → β → γ) : Front γ s :=
  ⟨f r.value next.value, next.rest, Nat.lt_trans next.shorter r.shorter⟩

theorem measure_lt (r : Front α s) {j k : Nat} (h : j < 3 + k) :
    3 * r.rest.length + j < 3 * s.length + k := by
  have := r.shorter
  omega

end Front

/-! Comments and keys -/

/-- How long a comment is behind its mark. -/
def commentLength (s : Text) : Option Nat :=
  let comment := s.takeWhile (· != '\n')
  if comment.any isControl then none else some comment.length

/-- How much of the front is blanks, line ends and comments. -/
def fillLength : Text → Option Nat
  | [] => some 0
  | c :: s =>
    if isFill c then (fillLength s).map (1 + ·)
    else if c = '#' then do
      let n ← commentLength s
      return 1 + n + (← fillLength (s.drop n))
    else some 0
termination_by s => s.length

def isBareKeyChar (c : Char) : Bool := c.isAlphanum || c == '-' || c == '_'

def isQuote (c : Char) : Bool := c == '"' || c == '\''

def keyPart : (s : Text) → Option (Front Text s)
  | [] => none
  | c :: s =>
    if isQuote c then (quotation c false s).map fun r => .taking r.1 r.2
    else if isBareKeyChar c then
      some (.taking (c :: s.takeWhile isBareKeyChar) (runOf isBareKeyChar s))
    else none

/-- Parts of a key with points between them, and the blanks behind. -/
def key (s : Text) : Option (Front (List Text) s) := do
  let part := (← keyPart s).pastBlanks
  if part.rest.head? = some '.' then
    let part := (part.passing 1).pastBlanks
    return part.followedBy (← key part.rest) List.cons
  else return part.map ([·])
termination_by s.length
decreasing_by exact Front.shorter _

/-! Values -/

mutual

def value : (s : Text) → Option (Front Setting s)
  | [] => none
  | c :: s =>
    if isQuote c then (stringOf c s).map fun r => .taking (.str r.1) r.2
    else if c = '[' then (items s).map fun r => .behind (r.map .list)
    else if c = '{' then do
      let n := runOf isSpace s
      if s[n]? = some '}' then return .taking (.table []) (n + 1)
      else
        let entries ← inlineEntries (s.drop n)
        let table ← Tree.ofStatements entries.value
        return .behind (entries.within.map fun _ => .table table)
    else if (c :: s).take 4 = "true".toList then some (.taking (.bool true) 3)
    else if (c :: s).take 5 = "false".toList then some (.taking (.bool false) 4)
    else (scalar (c :: s)).map fun r => .taking r.1 (r.2 - 1)
termination_by s => 3 * s.length
decreasing_by
  · simp only [List.length_cons]; omega
  · simp only [List.length_drop, List.length_cons]; omega

/-- The items of an array from the next one on. A comma may follow the last. -/
def items (s : Text) : Option (Front (List Setting) s) := do
  let n ← fillLength s
  if h : s[n]? = some ']' then
    return .upTo [] h
  else
    let first := (← value (s.drop n)).within
    let first := first.passing (← fillLength first.rest)
    match first.rest.head? with
    | some ']' => return (first.passing 1).map ([·])
    | some ',' => return (first.passing 1).followedBy (← items (first.passing 1).rest) List.cons
    | _ => none
termination_by 3 * s.length + 1
decreasing_by
  · simp only [List.length_drop]; omega
  · exact Front.measure_lt _ (by decide)

/-- The entries of an inline table from the next one on. No comma may follow the last. -/
def inlineEntries (s : Text) : Option (Front (List Statement) s) := do
  let first := (← entry s).pastBlanks
  match first.rest.head? with
  | some '}' => return (first.passing 1).map ([·])
  | some ',' =>
    let first := (first.passing 1).pastBlanks
    return first.followedBy (← inlineEntries first.rest) List.cons
  | _ => none
termination_by 3 * s.length + 2
decreasing_by
  · exact Nat.lt_succ_self _
  · exact Front.measure_lt _ (by decide)

/-- A key and its value. -/
def entry (s : Text) : Option (Front Statement s) := do
  let path ← key s
  if path.rest.head? = some '=' then
    let path := (path.passing 1).pastBlanks
    return path.followedBy (← value path.rest) .assign
  else none
termination_by 3 * s.length + 1
decreasing_by exact Front.measure_lt (j := 0) (k := 1) _ (by decide)

end

/-! Documents -/

/-- The path of a header and the brackets that close it. -/
def header (brackets : Text) (make : List Text → Statement) (s : Text) :
    Option (Front Statement s) := do
  let path := (← key (s.drop (runOf isSpace s))).within
  if path.rest.take brackets.length = brackets then
    return (path.passing brackets.length).map make
  else none

def statement : (s : Text) → Option (Front Statement s)
  | '[' :: '[' :: s => (header [']', ']'] .append s).map fun r => .behind (.behind r)
  | '[' :: s => (header [']'] .declare s).map .behind
  | s => entry s

/-- The statements of a document, of which each ends with its line. -/
def statements : Text → Option (List Statement)
  | [] => some []
  | c :: s =>
    if isFill c then statements s
    else if c = '#' then do statements (s.drop (← commentLength s))
    else do
      let first := (← statement (c :: s)).pastBlanks
      if first.rest.head?.all fun c => c == '\n' || c == '#' then
        return first.value :: (← statements first.rest)
      else none
termination_by s => s.length
decreasing_by
  · exact Nat.lt_succ_self _
  · simp only [List.length_drop, List.length_cons]; omega
  · exact Front.shorter _

/-- A line feed in place of a carriage return and a line feed. -/
def joinLineEnds : Text → Text
  | [] => []
  | '\r' :: '\n' :: s => '\n' :: joinLineEnds s
  | c :: s => c :: joinLineEnds s

/-- The table that a document writes, unless the document is malformed. -/
def read (t : Text) : Option Table := do
  Tree.ofStatements (← statements (joinLineEnds t))

end Highlighter.Toml
