import Highlighter.Command.Watch

/-!
The command. What it does is decided by `Highlighter.run` and `Highlighter.Watch`; this module only
looks up the files that they ask for, writes those that they have written, and prints.
-/

set_option autoImplicit false

namespace Highlighter

namespace Command

def usage : String :=
  "usage: highlighter [-h] [-o OUTPUT] [-f ansi|html|json|tokens] [--tag CATEGORY=TAG]\n" ++
  "                   [--config FILE] [--watch] [--debug] [-v] input\n"

/-- The files that a run may look at. -/
def paths (a : Arguments) : List Path :=
  Options.configPath a :: Path.ofText a.input :: (a.output.map Path.ofText).toList

/-- The paths on the way to a path, with the path itself. -/
def waysTo (p : Path) : List Path :=
  (List.range (p.parts.length + 1)).map fun n => { p with parts := p.parts.take n }

def placeOf (p : Path) : Place :=
  p.parts.foldl Files.step (if p.root.isEmpty then [] else Files.rootPlace)

/-- Why something could not be done. -/
def causeOf : IO.Error → OsCause
  | .noFileOrDirectory _ code message | .permissionDenied _ code message
  | .inappropriateType _ code message | .hardwareFault code message
  | .resourceExhausted _ code message | .otherError code message => ⟨code.toNat, message⟩
  | e => ⟨5, toString e⟩

/-- Looks up what is at a path, and whether it can be read. -/
def lookUp (p : Path) : IO (Option FileEntry × Option (Access × OsCause)) := do
  let name := (← IO.currentDir) / String.ofList p.toText
  match ← name.metadata.toBaseIO with
  | .error e =>
    let cause := causeOf e
    return (none, if cause.isAbsence then none else some (.look, cause))
  | .ok data =>
    let stamp := Stamp.set (data.modified.sec * 1000000000 + data.modified.nsec.toNat)
    if data.type == .dir then return (some (.directory stamp), none)
    else
      match ← (IO.FS.readBinFile name).toBaseIO with
      | .ok bytes => return (some (.file bytes.toList stamp), none)
      | .error e => return (some (.file [] stamp), some (.openRead, causeOf e))

def observe (ps : List Path) : IO Files := do
  let mut files : Files := {}
  for p in ps.flatMap waysTo do
    let (entry, trouble) ← lookUp p
    if let some entry := entry then
      files := { files with entries := files.entries.put (placeOf p) entry }
    if let some (access, cause) := trouble then
      let before := files.trouble
      files := { files with
        trouble := fun a q => if a = access ∧ q = p then some cause else before a q }
  return files

/-- Writes the files that a run has written. -/
def writeBack (files : Files) : IO Unit := do
  for (place, entry) in files.entries do
    if let .file content (.written _) := entry then
      IO.FS.writeBinFile (String.ofList (['/'].intercalate place)) ⟨content.toArray⟩

/-- Makes the effects of a run real, and tells its status. -/
def finish (x : Effects) (status : Except Fault Nat) : IO UInt32 := do
  writeBack x.files
  (← IO.getStdout).putStr (String.ofList x.out)
  (← IO.getStdout).flush
  (← IO.getStderr).putStr (String.ofList x.err)
  match status with
  | .ok code => return UInt32.ofNat code
  | .error fault =>
    (← IO.getStderr).putStrLn fault.message
    return 1

partial def watchForever (o : Options) (ps : List Path) (w : Watch) (start : Effects) :
    IO UInt32 := do
  match w.step o start with
  | (x, .error fault) => finish x (.error fault)
  | (x, .ok w) =>
    let _ ← finish x (.ok 0)
    IO.sleep 500
    watchForever o ps w { files := ← observe ps }

def start (a : Arguments) : IO UInt32 := do
  let files ← observe (paths a)
  match prepare files a with
  | .error ending => finish ending.effects ending.status
  | .ok o =>
    if o.watch then watchForever o (paths a) {} (Watch.announce o { files })
    else
      let ending := o.runOnce { files }
      finish ending.effects ending.status

end Command

end Highlighter

def main (words : List String) : IO UInt32 := do
  match Highlighter.Arguments.ofWords (words.map String.toList) with
  | .error .help =>
    (← IO.getStdout).putStr Highlighter.Command.usage
    return 0
  | .error .usage =>
    (← IO.getStderr).putStr Highlighter.Command.usage
    return 2
  | .ok a => Highlighter.Command.start a
