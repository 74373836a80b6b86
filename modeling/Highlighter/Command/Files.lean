import Highlighter.Command.Path
import Highlighter.Entries
import Highlighter.Text.Quoted

/-!
Files, as they are seen from the current directory: which files and directories there are, what the
files hold, and when each was last changed. Whatever there is, looking at it, opening, reading or
writing it may fail.
-/

set_option autoImplicit false

namespace Highlighter

abbrev Bytes := List UInt8

/-- When something was changed: a time that was set, or the moment of a write. Of two writes, each
has a moment of its own, which is no time that was set. -/
inductive Stamp where
  | set (time : Int)
  | written (tick : Nat)
  deriving DecidableEq, Repr

inductive FileEntry where
  | file (content : Bytes) (stamp : Stamp)
  | directory (stamp : Stamp)
  deriving DecidableEq, Repr

namespace FileEntry

def stamp : FileEntry → Stamp
  | file _ stamp | directory stamp => stamp

def isFile : FileEntry → Bool
  | file .. => true
  | directory _ => false

end FileEntry

/-- Why something cannot be done to a file, as the system tells it. -/
structure OsCause where
  number : Nat
  message : String
  deriving DecidableEq, Repr

namespace OsCause

def missing : OsCause := ⟨2, "No such file or directory"⟩

def notADirectory : OsCause := ⟨20, "Not a directory"⟩

def isADirectory : OsCause := ⟨21, "Is a directory"⟩

/-- There is nothing at the path that one could look at: the path leads nowhere, or it leads through
a file or round in a circle, or stands for something that has been closed. -/
def isAbsence (cause : OsCause) : Bool := [2, 20, 9, 40].contains cause.number

end OsCause

/-- A failure, with the path unless a file had been opened before. -/
structure OsError where
  cause : OsCause
  path : Option Path
  deriving DecidableEq, Repr

def OsError.message (e : OsError) : String :=
  let message := s!"[Errno {e.cause.number}] {e.cause.message}"
  match e.path with
  | none => message
  | some path => s!"{message}: {String.ofList path.toText.quoted}"

/-- What can be done to a file, and may fail. -/
inductive Access where
  | look
  | openRead
  | read
  | openWrite
  | write
  deriving DecidableEq, Repr

/-- A place in the tree of files: the names on the way to it. The way starts at the current
directory, or, if its first name is `..` or `/`, at the directory above or at the root. -/
abbrev Place := List Text

structure Files where
  entries : Entries Place FileEntry := []
  /-- How many writes there have been. -/
  clock : Nat := 0
  /-- What fails at a path although the entries would allow it. -/
  trouble : Access → Path → Option OsCause := fun _ _ => none
  /-- How much gets into a file before writing it fails. -/
  kept : Path → Nat := fun _ => 0

namespace Files

def rootPlace : Place := [['/']]

/-- Directories that are always there. -/
def isAnchor (place : Place) : Bool := place == [] || place == [Path.up] || place == rootPlace

def entry? (files : Files) (place : Place) : Option FileEntry :=
  match files.entries.get? place with
  | some e => some e
  | none => if isAnchor place then some (.directory (.written 0)) else none

/-- The place to which a name leads from a directory. -/
def step (place : Place) (name : Text) : Place :=
  if name = Path.up then
    if place = [] then [Path.up] else if isAnchor place then place else place.dropLast
  else place ++ [name]

/-- The place to which names lead from a place. All that is passed has to be a directory. -/
def walk (files : Files) : Place → List Text → Except OsCause Place
  | place, [] => .ok place
  | place, name :: names =>
    match files.entry? place with
    | none => .error .missing
    | some (.file ..) => .error .notADirectory
    | some (.directory _) => walk files (step place name) names

def place (files : Files) (p : Path) : Except OsCause Place :=
  files.walk (if p.root.isEmpty then [] else rootPlace) p.parts

def find (files : Files) (p : Path) : Except OsCause FileEntry := do
  match files.entry? (← files.place p) with
  | some e => return e
  | none => throw .missing

/-- What is at a path. -/
def look (files : Files) (p : Path) : Except OsError FileEntry :=
  match files.trouble .look p with
  | some cause => .error ⟨cause, some p⟩
  | none => (files.find p).mapError (⟨·, some p⟩)

/-- When a file or directory was last changed. -/
def stamp (files : Files) (p : Path) : Except OsError Stamp := (files.look p).map FileEntry.stamp

/-- There is a file at a path, and not a directory or nothing. -/
def isFile (files : Files) (p : Path) : Except OsError Bool :=
  match files.look p with
  | .ok e => .ok e.isFile
  | .error e => if e.cause.isAbsence then .ok false else .error e

def read (files : Files) (p : Path) : Except OsError Bytes :=
  match files.trouble .openRead p, files.find p, files.trouble .read p with
  | some cause, _, _ | none, .error cause, _ => .error ⟨cause, some p⟩
  | none, .ok (.directory _), _ => .error ⟨.isADirectory, some p⟩
  | none, .ok (.file ..), some cause => .error ⟨cause, none⟩
  | none, .ok (.file content _), none => .ok content

/-- Notes that what a directory holds has changed. -/
def touchDirectory (files : Files) (place : Place) : Files :=
  { files with entries := files.entries.put place (.directory (.written files.clock)) }

/-- Puts a file at a place in a directory. -/
def putFile (files : Files) (place : Place) (content : Bytes) : Files :=
  let files := { files with clock := files.clock + 1 }
  let files :=
    if (files.entry? place).isSome then files else files.touchDirectory (step place Path.up)
  { files with entries := files.entries.put place (.file content (.written files.clock)) }

/-- The place of a file that can be opened for writing. It is made if it is not there, but its
directory has to be. -/
def writePlace (files : Files) (p : Path) : Except OsError Place :=
  match files.trouble .openWrite p, files.place p with
  | some cause, _ | none, .error cause => .error ⟨cause, some p⟩
  | none, .ok place =>
    match files.entry? place with
    | some (.directory _) => .error ⟨.isADirectory, some p⟩
    | _ => .ok place

/-- Writes a file. When that fails after the file has been opened, only a part gets into it. -/
def write (files : Files) (p : Path) (content : Bytes) : Files × Option OsError :=
  match files.writePlace p, files.trouble .write p with
  | .error e, _ => (files, some e)
  | .ok place, some cause =>
    (files.putFile place (content.take (files.kept p)), some ⟨cause, none⟩)
  | .ok place, none => (files.putFile place content, none)

end Files

end Highlighter
