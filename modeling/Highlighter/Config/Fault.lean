import Highlighter.Setting.Basic
import Highlighter.Token.Kind

/-!
What can be wrong with a configuration, and how it is reported.
-/

set_option autoImplicit false

namespace Highlighter

inductive ConfigFault where
  /-- Words are listed under a kind that keywords cannot have. -/
  | notKeywordKind (kind : Kind)
  | notAWord (value : Setting)
  /-- A word is listed under two kinds. -/
  | twoKinds (word : Text) (first second : Kind)
  | notATable (part : String)
  | unknownCategory (name : Text) (part : String)
  | notAWordList (category : Text)
  | notATag (category : Text)
  | unknownColor (tag : Text) (value : Setting)
  | unknownFormat (known : List String)
  | invalidToml
  deriving Repr

namespace ConfigFault

def message : ConfigFault → String
  | notKeywordKind kind => s!"'{String.ofList kind.tag}' is not a keyword category"
  | notAWord value => s!"keyword {String.ofList value.quoted} is not a single word"
  | twoKinds word first second =>
    s!"keyword '{String.ofList word}' listed as both '{String.ofList first.tag}'" ++
      s!" and '{String.ofList second.tag}'"
  | notATable part => s!"[{part}] must be a table"
  | unknownCategory name part => s!"unknown category '{String.ofList name}' in [{part}]"
  | notAWordList category => s!"keywords.{String.ofList category} must be a list of words"
  | notATag category => s!"tags.{String.ofList category} must be a non-empty name"
  | unknownColor tag value =>
    s!"theme.{String.ofList tag}: unknown color {String.ofList value.quoted}"
  | unknownFormat known => "output.format must be one of " ++ String.intercalate ", " known
  | invalidToml => "invalid TOML"

end ConfigFault

/-- A fault together with the file it is in, if it is in a file. -/
structure ConfigError where
  fault : ConfigFault
  path : Option String := none
  deriving Repr

def ConfigError.report (e : ConfigError) : String :=
  match e.path with
  | none => s!"error: {e.fault.message}"
  | some path => s!"error: {e.fault.message}\n  --> {path}"

/-- Says in which file a fault is. -/
def ConfigFault.inFile {α : Type} (path : Option String) (x : Except ConfigFault α) :
    Except ConfigError α :=
  x.mapError (⟨·, path⟩)

end Highlighter
