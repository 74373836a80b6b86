import Highlighter.Text.Basic

/-!
The kinds of tokens. A kind has a name for listings and a default tag, by which configurations
refer to it and to which a host binds a colour.
-/

set_option autoImplicit false

namespace Highlighter

inductive Kind where
  | pragmaKeyword
  | pragmaValue
  | controlKeyword
  | timelockKeyword
  | opcodeKeyword
  | typeKeyword
  | boolLiteral
  | identifier
  | stringLiteral
  | numberLiteral
  | operator
  | lineComment
  | blockComment
  | whitespace
  | unknown
  deriving DecidableEq, Repr, Inhabited

namespace Kind

/-- All kinds in their order of declaration. -/
def all : List Kind :=
  [pragmaKeyword, pragmaValue, controlKeyword, timelockKeyword, opcodeKeyword, typeKeyword,
    boolLiteral, identifier, stringLiteral, numberLiteral, operator, lineComment, blockComment,
    whitespace, unknown]

/-- The kinds that a keyword table may give to a word. -/
def isKeyword : Kind → Bool
  | pragmaKeyword | pragmaValue | controlKeyword | timelockKeyword | opcodeKeyword | typeKeyword
  | boolLiteral => true
  | _ => false

def name : Kind → String
  | pragmaKeyword => "PRAGMA_KEYWORD"
  | pragmaValue => "PRAGMA_VALUE"
  | controlKeyword => "CONTROL_KEYWORD"
  | timelockKeyword => "TIMELOCK_KEYWORD"
  | opcodeKeyword => "OPCODE_KEYWORD"
  | typeKeyword => "TYPE_KEYWORD"
  | boolLiteral => "BOOL_LITERAL"
  | identifier => "IDENTIFIER"
  | stringLiteral => "STRING_LITERAL"
  | numberLiteral => "NUMBER_LITERAL"
  | operator => "OPERATOR"
  | lineComment => "LINE_COMMENT"
  | blockComment => "BLOCK_COMMENT"
  | whitespace => "WHITESPACE"
  | unknown => "UNKNOWN"

def tag : Kind → Text
  | pragmaKeyword => "pragma-keyword".toList
  | pragmaValue => "pragma-value".toList
  | controlKeyword => "control-keyword".toList
  | timelockKeyword => "timelock-keyword".toList
  | opcodeKeyword => "opcode-keyword".toList
  | typeKeyword => "type-keyword".toList
  | boolLiteral => "bool-literal".toList
  | identifier => "identifier".toList
  | stringLiteral => "string-literal".toList
  | numberLiteral => "number-literal".toList
  | operator => "operator".toList
  | lineComment => "line-comment".toList
  | blockComment => "block-comment".toList
  | whitespace => "whitespace".toList
  | unknown => "unknown".toList

/-- The kind whose default tag is `tag`. -/
def ofTag? (tag : Text) : Option Kind := all.find? (·.tag == tag)

theorem mem_all (k : Kind) : k ∈ all := by cases k <;> decide

theorem ofTag?_tag (k : Kind) : ofTag? k.tag = some k := by cases k <;> decide

end Kind

end Highlighter
