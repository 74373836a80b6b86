import Highlighter.Keywords
import Highlighter.Text.Blank

/-!
Configurations: which words are keywords, and which tag each kind of token has. A configuration is
read from a table whose part `keywords` lists more words under the categories and whose part `tags`
renames the categories. Both name a category by the default tag of its kind.
-/

set_option autoImplicit false

namespace Highlighter

structure Config where
  keywords : Keywords
  tag : Kind → Text

/-- The kind that a category name stands for. -/
def Kind.ofCategory (name : Text) (part : String) : Except ConfigFault Kind :=
  match Kind.ofTag? name with
  | some kind => .ok kind
  | none => .error (.unknownCategory name part)

/-- Tags are names without blanks. -/
def isTag (t : Text) : Bool := !t.isEmpty && !t.any isBlank

namespace Config

def standard : Config := ⟨Keywords.standard, Kind.tag⟩

/-- The distinct tags in the order of the kinds that have them. -/
def tagNamesOf (c : Config) (kinds : List Kind) : List Text := (kinds.map c.tag).eraseDups

/-- The distinct tags of all kinds but whitespace. -/
def visibleTagNames (c : Config) : List Text := c.tagNamesOf (Kind.all.filter (· ≠ .whitespace))

/-- The entries of a part of a table; a part that is missing or null has none. -/
def part (data : Table) (name : String) : Except ConfigFault Table :=
  match data.get? name.toList with
  | none | some .null => .ok []
  | some (.table entries) => .ok entries
  | some _ => .error (.notATable name)

def readWords (entry : Text × Setting) : Except ConfigFault (Kind × List Setting) := do
  let kind ← Kind.ofCategory entry.1 "keywords"
  match entry.2 with
  | .list words => return (kind, words)
  | _ => throw (.notAWordList entry.1)

def readTag (entry : Text × Setting) : Except ConfigFault (Kind × Text) := do
  let kind ← Kind.ofCategory entry.1 "tags"
  match entry.2 with
  | .str tag => if isTag tag then return (kind, tag) else throw (.notATag entry.1)
  | _ => throw (.notATag entry.1)

def ofTable (data : Table) : Except ConfigFault Config := do
  let words ← (← part data "keywords").mapM readWords
  let keywords ← Keywords.standard.extended words
  let tags ← (← part data "tags").mapM readTag
  return ⟨keywords, fun kind => (Entries.get? tags kind).getD kind.tag⟩

end Config

end Highlighter
