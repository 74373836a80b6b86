import Highlighter.Command.Options
import Highlighter.Document
import Highlighter.Text.Line

/-!
Runs of the command. A run reads the input, highlights it and writes the output to a file or to the
standard output. It ends with a status: 0 if all went well, 1 if the input could not be read, 2 if
the options are wrong. What else goes wrong stops the run as a fault.
-/

set_option autoImplicit false

namespace Highlighter

/-- What a run has done so far: what it has printed, and the files. -/
structure Effects where
  out : Text := []
  err : Text := []
  files : Files

namespace Effects

def print (x : Effects) (t : Text) : Effects := { x with out := x.out ++ t }

def warn (x : Effects) (message : String) : Effects :=
  { x with err := x.err ++ message.toList ++ ['\n'] }

/-- Logs events if the run is to tell of them. -/
def log (x : Effects) (o : Options) (events : List Event) : Effects :=
  if o.verbose then { x with err := x.err ++ events.flatMap (·.line.toList) } else x

end Effects

/-- The end of a run: what has been done, and the status or the fault that stopped it. -/
structure Ending where
  effects : Effects
  status : Except Fault Nat

namespace Options

/-- Reads the input. Whatever ends its lines, the text has line feeds. -/
def readInput (o : Options) (files : Files) : Except Fault Text := do
  let bytes ← (files.read o.input).mapError .os
  return (← (Utf8.decode bytes).mapError .encoding).plainLineEnds

/-- The output for tokens of a text. -/
def render (o : Options) (t : Text) (tokens : List Token) : Except Fault Text :=
  (Highlighter.render o.format o.config o.theme t tokens).mapError .color

/-- The output for a text. -/
def highlight (o : Options) (t : Text) : Except Fault Text :=
  o.render t (tokenize o.config.keywords t)

/-- Writes the output where it is to go. -/
def deliver (o : Options) (x : Effects) (output : Text) : Effects × Option Fault :=
  match o.output with
  | none => (x.print output, none)
  | some path =>
    let (files, e) := x.files.write path (Utf8.encode output)
    ({ x with files }, e.map .os)

/-- Highlights the input once. -/
def runOnce (o : Options) (x : Effects) : Ending :=
  match o.readInput x.files with
  | .error fault =>
    ⟨x.warn s!"error: cannot read {String.ofList o.input.toText}: {fault.message}", .ok 1⟩
  | .ok text =>
    let tokens := tokenize o.config.keywords text
    let x := if o.debug then { x with err := x.err ++ listing tokens } else x
    match o.render text tokens with
    | .error fault => ⟨x, .error fault⟩
    | .ok output =>
      match o.deliver x output with
      | (x, some fault) => ⟨x, .error fault⟩
      | (x, none) => ⟨x.log o [.highlighted (String.ofList o.input.toText) o.format.name], .ok 0⟩

end Options

/-- The options of a run, or its end if they are wrong. -/
def prepare (files : Files) (a : Arguments) : Except Ending Options :=
  let start : Effects := { files }
  match Options.resolve files a with
  | .ok o => .ok o
  | .error (.fault f) => .error ⟨start, .error f⟩
  | .error (.config e) => .error ⟨start.warn e.report, .ok 2⟩
  | .error (.tagFormat value) =>
    .error ⟨start.warn s!"error: {(OptionsFault.tagFormat value).message}", .ok 2⟩

/-- A run that does not watch its input. -/
def run (files : Files) (a : Arguments) : Ending :=
  match prepare files a with
  | .error ending => ending
  | .ok o => o.runOnce { files }

end Highlighter
