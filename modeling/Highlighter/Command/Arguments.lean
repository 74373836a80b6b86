import Highlighter.Render.Format
import Highlighter.Text.Numeral

/-!
The arguments of the command. An option may stand anywhere before `--`, long or short, and takes
its value from its own word or from the next. Short options may be written in one word, and a long
one may be cut short as long as it cannot be mistaken for another. Just one word is left over: the
input.
-/

set_option autoImplicit false

namespace Highlighter

inductive Switch where
  | watch
  | debug
  | verbose
  | help
  deriving DecidableEq, Repr

/-- Options that take a value. -/
inductive Parameter where
  | output
  | format
  | tag
  | config
  deriving DecidableEq, Repr

inductive Flag where
  | switch (s : Switch)
  | parameter (p : Parameter)
  deriving DecidableEq, Repr

def longFlags : List (Text × Flag) := [
  ("help".toList, .switch .help), ("output".toList, .parameter .output),
  ("format".toList, .parameter .format), ("tag".toList, .parameter .tag),
  ("config".toList, .parameter .config), ("watch".toList, .switch .watch),
  ("debug".toList, .switch .debug), ("verbose".toList, .switch .verbose)]

def shortFlag? : Char → Option Flag
  | 'h' => some (.switch .help)
  | 'o' => some (.parameter .output)
  | 'f' => some (.parameter .format)
  | 'v' => some (.switch .verbose)
  | _ => none

/-- A word as an argument. -/
inductive Argument where
  | plain
  /-- A word in the shape of an option that does not exist. -/
  | unknown
  /-- A long option cut so short that it stands for several. -/
  | ambiguous
  | long (flag : Flag) (value : Option Text)
  | short (letters : Text)
  deriving DecidableEq, Repr

/-- Digits, perhaps with a point in front of the last of them; a line end may follow. -/
def isUnsignedNumber (s : Text) : Bool :=
  let s := if s.getLast? = some '\n' then s.dropLast else s
  let whole := s.takeWhile isDecimalDigit
  match s.drop whole.length with
  | [] => !whole.isEmpty
  | '.' :: places => !places.isEmpty && places.all isDecimalDigit
  | _ => false

/-- A word that starts with a dash but is no option: a negative number or words with spaces. -/
def Argument.ofDashed (w : Text) : Argument :=
  if isUnsignedNumber w.tail || w.contains ' ' then .plain else .unknown

/-- The part of a word before the first equals sign, and the part behind it if there is one. -/
def splitValue (w : Text) : Text × Option Text :=
  let name := w.takeWhile (· != '=')
  (name, (w.drop name.length).tail?)

namespace Argument

def ofWord (w : Text) : Argument :=
  match w with
  | '-' :: '-' :: s =>
    let (name, value) := splitValue s
    match longFlags.find? (·.1 == name) with
    | some (_, flag) => .long flag value
    | none =>
      match longFlags.filter (name.isPrefixOf ·.1) with
      | [] => ofDashed w
      | [(_, flag)] => .long flag value
      | _ => .ambiguous
  | '-' :: c :: s => if (shortFlag? c).isSome then .short (c :: s) else ofDashed w
  | _ => .plain

end Argument

structure Arguments where
  input : Text
  output : Option Text := none
  format : Option Format := none
  tags : List Text := []
  config : Option Text := none
  watch : Bool := false
  debug : Bool := false
  verbose : Bool := false
  deriving Repr

/-- Why no arguments come out: they are wrong, or they ask for help. -/
inductive Refusal where
  | usage
  | help
  deriving DecidableEq, Repr

namespace Argument

/-- What arguments ask for, one after the other. -/
inductive Step where
  | word (w : Text)
  | switch (s : Switch)
  | parameter (p : Parameter) (value : Text)
  /-- Something that is no option of the command. -/
  | surplus
  /-- `--`, and the words behind it. -/
  | last (words : List Text)
  | wrong
  deriving DecidableEq, Repr

/-- What the options in one word ask for, and the option, if any, whose value is in the next. -/
structure Cluster where
  steps : List Step
  pending : Option Parameter := none

/-- The options of a word of short ones. The value of an option is what follows its letter, less an
equals sign. -/
def cluster : Text → Option Cluster
  | [] => some ⟨[], none⟩
  | c :: s =>
    match shortFlag? c with
    | none => some ⟨[.surplus], none⟩
    | some (.switch flag) =>
      if s.head? = some '=' ∨ s.head? = some '-' then none
      else (cluster s).map fun more => { more with steps := .switch flag :: more.steps }
    | some (.parameter p) =>
      match s with
      | [] => some ⟨[], some p⟩
      | '=' :: value => some ⟨[.parameter p value], none⟩
      | value => some ⟨[.parameter p value], none⟩

def ofLong : Flag → Option Text → Option Cluster
  | .switch s, none => some ⟨[.switch s], none⟩
  | .switch _, some _ => none
  | .parameter p, none => some ⟨[], some p⟩
  | .parameter p, some value => some ⟨[.parameter p value], none⟩

/-- What a word that is not the value of an option asks for; nothing if it is wrong. -/
def clusterOfWord (w : Text) : Option Cluster :=
  match ofWord w with
  | .plain => some ⟨[.word w], none⟩
  | .unknown => some ⟨[.surplus], none⟩
  | .ambiguous => none
  | .long flag value => ofLong flag value
  | .short letters => cluster letters

def endMark : Text := ['-', '-']

/-- A word that can be the value of the option before it. -/
def isValue (w : Text) : Bool := w != endMark && ofWord w == .plain

def steps : List Text → List Step
  | [] => []
  | w :: words =>
    if w = endMark then [.last words]
    else
      match clusterOfWord w, words with
      | none, _ => [.wrong]
      | some ⟨found, none⟩, words => found ++ steps words
      | some ⟨_, some _⟩, [] => [.wrong]
      | some ⟨found, some p⟩, value :: words =>
        if isValue value then found ++ .parameter p value :: steps words else [.wrong]

end Argument

namespace Arguments

/-- What has been read so far. The input has been found if there is one, and it is `fresh` as long
as nothing follows it. -/
structure Progress where
  found : Option Text := none
  fresh : Bool := false
  surplus : Bool := false
  arguments : Arguments := { input := [] }

def setSwitch (a : Arguments) : Switch → Except Refusal Arguments
  | .watch => .ok { a with watch := true }
  | .debug => .ok { a with debug := true }
  | .verbose => .ok { a with verbose := true }
  | .help => .error .help

def setParameter (a : Arguments) (value : Text) : Parameter → Except Refusal Arguments
  | .output => .ok { a with output := some value }
  | .tag => .ok { a with tags := a.tags ++ [value] }
  | .config => .ok { a with config := some value }
  | .format =>
    match Format.ofName? (String.ofList value) with
    | some format => .ok { a with format := some format }
    | none => .error .usage

namespace Progress

/-- The input, if there is none yet; a second one is left over. -/
def addWord (p : Progress) (w : Text) : Progress :=
  match p.found with
  | none => { p with found := some w, fresh := true }
  | some _ => { p with fresh := false, surplus := true }

def take (p : Progress) : Argument.Step → Except Refusal Progress
  | .word w => .ok (p.addWord w)
  | .switch s => do return { p with fresh := false, arguments := ← p.arguments.setSwitch s }
  | .parameter o value => do
    return { p with fresh := false, arguments := ← p.arguments.setParameter value o }
  | .surplus => .ok { p with fresh := false, surplus := true }
  | .last words =>
    let p := if p.found.isSome && !p.fresh then { p with surplus := true } else p
    .ok (words.foldl addWord p)
  | .wrong => .error .usage

def finish (p : Progress) : Except Refusal Arguments :=
  match p.found, p.surplus with
  | some input, false => .ok { p.arguments with input }
  | _, _ => .error .usage

end Progress

def ofWords (words : List Text) : Except Refusal Arguments := do
  if (words.takeWhile (· != Argument.endMark)).any (Argument.ofWord · == .ambiguous) then
    throw .usage
  (← (Argument.steps words).foldlM Progress.take {}).finish

end Arguments

end Highlighter
