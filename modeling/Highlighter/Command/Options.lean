import Highlighter.Command.Arguments
import Highlighter.Command.Fault
import Highlighter.Config.Basic
import Highlighter.Setting.Toml.Reading

/-!
The options of a run: what the configuration file and the arguments come to together. The file is
the one that the arguments name, or else one beside the input; without a file nothing is configured.
The arguments win over the file.
-/

set_option autoImplicit false

namespace Highlighter

structure Options where
  input : Path
  output : Option Path
  format : Format
  config : Config
  theme : Theme
  watch : Bool
  debug : Bool
  verbose : Bool

/-- Why no options come out. -/
inductive OptionsFault where
  | config (e : ConfigError)
  /-- The value of an option `--tag` is not of the form category, equals sign, tag. -/
  | tagFormat (value : Text)
  /-- The configuration file is there, but it cannot be read, or it is not UTF-8. -/
  | fault (f : Fault)
  deriving Repr

def OptionsFault.message : OptionsFault → String
  | config e => e.report
  | tagFormat value => s!"invalid tag format (expected CATEGORY=TAG): {String.ofList value}"
  | fault f => f.message

namespace Options

/-- The name of the configuration file that is looked for beside the input. -/
def configName : Text := "bithlex.toml".toList

/-- The file that the configuration is read from, if it is there. -/
def configPath (a : Arguments) : Path :=
  match a.config with
  | some (c :: cs) => Path.ofText (c :: cs)
  | _ => (Path.ofText a.input).parent.child configName

def inFile {α : Type} (path : Option Path) (x : Except ConfigFault α) : Except OptionsFault α :=
  (ConfigFault.inFile (path.map fun p => String.ofList p.toText) x).mapError .config

/-- The text of the configuration file, if there is such a file. -/
def configText (files : Files) (path : Path) : Except Fault (Option Text) := do
  if ← (files.isFile path).mapError .os then
    let bytes ← (files.read path).mapError .os
    return some (← (Utf8.decode bytes).mapError .encoding)
  else return none

/-- What the configuration file says; nothing if there is no such file. -/
def loadTable (files : Files) (path : Path) : Except OptionsFault Table := do
  match ← (configText files path).mapError .fault with
  | none => return []
  | some text =>
    inFile (some path) <|
      match Toml.read text with
      | some table => .ok table
      | none => .error .invalidToml

/-- Splits the value of an option `--tag` at its first equals sign. -/
def parseTag (value : Text) : Except OptionsFault (Text × Text) :=
  match splitValue value with
  | (category, some tag) => .ok (category, tag)
  | (_, none) => .error (.tagFormat value)

/-- The table with tags of the arguments in it. They join those of the table's part `tags`, or
stand in its place if it is not a table. -/
def withTags (data : Table) (tags : List (Text × Text)) : Table :=
  let own :=
    match data.get? "tags".toList with
    | some (.table entries) => entries
    | _ => []
  let merged := tags.foldl (fun es t => Entries.put es t.1 (.str t.2)) own
  if merged.isEmpty then data else data.put "tags".toList (.table merged)

/-- The format that a table asks for. -/
def tableFormat (data : Table) : Except ConfigFault (Option Format) :=
  match data.get? "output".toList with
  | some (.table entries) =>
    match Entries.get? entries "format".toList with
    | none | some .null => .ok none
    | some (.str name) =>
      match Format.ofName? (String.ofList name) with
      | some format => .ok (some format)
      | none => .error (.unknownFormat (Format.all.map Format.name))
    | some _ => .error (.unknownFormat (Format.all.map Format.name))
  | _ => .ok none

/-- The options for a table that was read from a file. -/
def ofTable (a : Arguments) (path : Path) (data : Table) : Except OptionsFault Options := do
  let tags ← a.tags.mapM parseTag
  let config ←
    inFile (if data.isEmpty then none else some path) (Config.ofTable (withTags data tags))
  let theme ← inFile (some path) (Theme.ofSetting (data.get? "theme".toList))
  let format ← inFile (some path) (tableFormat data)
  return {
    input := Path.ofText a.input
    output :=
      match a.output with
      | some (c :: cs) => some (Path.ofText (c :: cs))
      | _ => none
    format := (a.format <|> format).getD .ansi
    config
    theme
    watch := a.watch
    debug := a.debug
    verbose := a.verbose }

def resolve (files : Files) (a : Arguments) : Except OptionsFault Options := do
  ofTable a (configPath a) (← loadTable files (configPath a))

end Options

end Highlighter
