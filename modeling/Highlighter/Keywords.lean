import Highlighter.Config.Fault
import Highlighter.Token.Basic
import Highlighter.Token.Word

/-!
Keyword tables. A table gives kinds to words, and an identifier whose whole lexeme is in the table
becomes a token of the kind that the table gives it. Case matters.
-/

set_option autoImplicit false

namespace Highlighter

structure Keywords where
  entries : Entries Text Kind
  deriving DecidableEq, Repr

namespace Keywords

/-- Lists one more word under `kind`. -/
def addWord (kind : Kind) (entries : Entries Text Kind) (word : Setting) :
    Except ConfigFault (Entries Text Kind) :=
  match word with
  | .str w =>
    if isWord w then
      match entries.get? w with
      | some first =>
        if first = kind then .ok (entries.put w kind) else .error (.twoKinds w first kind)
      | none => .ok (entries.put w kind)
    else .error (.notAWord word)
  | _ => .error (.notAWord word)

def addGroup (entries : Entries Text Kind) (group : Kind × List Setting) :
    Except ConfigFault (Entries Text Kind) :=
  if group.1.isKeyword then group.2.foldlM (addWord group.1) entries
  else .error (.notKeywordKind group.1)

/-- The table that lists words under their kinds. Every word has to be a single word, and no word
may be listed under two kinds. -/
def ofGroups (groups : Entries Kind (List Setting)) : Except ConfigFault Keywords := do
  return ⟨← groups.foldlM addGroup []⟩

/-- The words under each kind, in the order in which they were listed. -/
def groups (k : Keywords) : Entries Kind (List Text) :=
  k.entries.foldl (fun gs e => gs.extend e.2 [e.1]) []

/-- The table with more words added. -/
def extended (k : Keywords) (more : Entries Kind (List Setting)) : Except ConfigFault Keywords :=
  ofGroups (more.foldl (fun gs g => gs.extend g.1 g.2) (k.groups.map fun g => (g.1, g.2.map .str)))

def lookup (k : Keywords) (word : Text) : Kind := (k.entries.get? word).getD .identifier

def classify (k : Keywords) (t : Token) : Token :=
  if t.kind = .identifier then { t with kind := k.lookup t.lexeme } else t

section Classify

variable (k : Keywords) (t : Token)

@[simp] theorem classify_start : (k.classify t).start = t.start := by
  unfold classify
  split <;> rfl

@[simp] theorem classify_stop : (k.classify t).stop = t.stop := by
  unfold classify
  split <;> rfl

theorem classify_shift (d : Int) : k.classify (t.shift d) = (k.classify t).shift d := by
  by_cases h : t.kind = .identifier <;> simp [classify, Token.shift, h]

theorem classify_of_kind_ne {t : Token} (h : t.kind ≠ .identifier) : k.classify t = t := by
  rw [classify, if_neg h]

end Classify

/-- The words of the contract language. -/
def standard : Keywords where
  entries := [
    ("pragma".toList, .pragmaKeyword), ("version".toList, .pragmaKeyword),
    ("target".toList, .pragmaKeyword),
    ("bithoven".toList, .pragmaValue), ("segwit".toList, .pragmaValue),
    ("taproot".toList, .pragmaValue),
    ("if".toList, .controlKeyword), ("else".toList, .controlKeyword),
    ("return".toList, .controlKeyword), ("verify".toList, .controlKeyword),
    ("older".toList, .timelockKeyword), ("after".toList, .timelockKeyword),
    ("checksig".toList, .opcodeKeyword), ("sha256".toList, .opcodeKeyword),
    ("bool".toList, .typeKeyword), ("string".toList, .typeKeyword),
    ("signature".toList, .typeKeyword),
    ("true".toList, .boolLiteral), ("false".toList, .boolLiteral)]

end Keywords

end Highlighter
