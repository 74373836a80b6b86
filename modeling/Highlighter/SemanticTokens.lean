import Highlighter.LineIndex
import Highlighter.Span

/-!
Semantic tokens, as an editor takes them: for every piece of a span on one line, five numbers. They
are the distance in lines from the piece before, the distance in characters from it or, on a new
line, from the line's start, the length, the index of the tag among the token types, and zero.
-/

set_option autoImplicit false

namespace Highlighter

/-- A piece of a span on one line, in UTF-16 code units. -/
structure SemanticToken where
  line : Nat
  character : Nat
  length : Nat
  type : Nat
  deriving DecidableEq, Repr

/-- The last place of a tag in a list. -/
def lastIndex? (tag : Text) : List Text → Option Nat
  | [] => none
  | t :: ts =>
    match lastIndex? tag ts with
    | some i => some (i + 1)
    | none => if t = tag then some 0 else none

namespace SemanticToken

/-- The token for the piece of a text between two offsets. -/
def ofPiece (x : LineIndex) (type : Nat) (piece : Nat × Nat) : SemanticToken :=
  let (line, character) := x.positionAt piece.1
  ⟨line, character, (x.text.slice piece.1 piece.2).utf16Length, type⟩

/-- The tokens of a span; none if its tag is not among the types. -/
def ofSpan (x : LineIndex) (types : List Text) (s : Span) : List SemanticToken :=
  match lastIndex? s.tag types with
  | none => []
  | some type => (x.pieces s.start.toNat s.stop.toNat).map (ofPiece x type)

def ofSpans (t : Text) (types : List Text) (spans : List Span) : List SemanticToken :=
  spans.flatMap (ofSpan (LineIndex.ofText t) types)

/-- The numbers for tokens that come after a token at `line` and `character`. -/
def deltas (line character : Nat) : List SemanticToken → List Int
  | [] => []
  | t :: ts =>
    [(t.line : Int) - line,
      if t.line = line then (t.character : Int) - character else t.character,
      t.length, t.type, 0] ++ deltas t.line t.character ts

end SemanticToken

def encodeSemanticTokens (t : Text) (spans : List Span) (types : List Text) : List Int :=
  SemanticToken.deltas 0 0 (SemanticToken.ofSpans t types spans)

end Highlighter
