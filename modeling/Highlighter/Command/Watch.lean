import Highlighter.Command.Run

/-!
Watching the input. At every poll the input is looked at, and when it has changed since it was last
looked at, it is read and highlighted. The text is held as a document, so that only what has changed
is scanned again.
-/

set_option autoImplicit false

namespace Highlighter

/-- What a watch knows: the document, once the input has been read, and when the input had changed
when it was last looked at. -/
structure Watch where
  document : Option Document := none
  lastSeen : Stamp := .set 0

/-- What a look at the input finds. -/
inductive Look where
  | missing
  /-- The input has changed at `stamp`; `content` tells what it holds, or why it cannot be read. -/
  | found (stamp : Stamp) (content : Except Fault Text)

/-- What a poll leads to: the watch after it, the output if there is a new one, what goes to the
log, and why the input could not be read. -/
structure Poll where
  watch : Watch
  output : Option Text := none
  events : List Event := []
  complaint : Option OsError := none

namespace Watch

/-- The document for a new text of the input. -/
def update (o : Options) (w : Watch) (t : Text) : Except EditError (Document × List Event) := do
  let d ←
    match w.document with
    | none => pure (Document.ofText o.config t)
    | some d => d.replaceText t
  d.refresh

/-- A poll that finds the input as `look` tells. -/
def poll (o : Options) (w : Watch) (look : Look) : Except Fault Poll :=
  match look with
  | .missing => .ok { watch := w }
  | .found stamp content =>
    if stamp = w.lastSeen then .ok { watch := w }
    else
      match content with
      | .error (.os e) => .ok { watch := { w with lastSeen := stamp }, complaint := some e }
      | .error fault => .error fault
      | .ok text => do
        let (d, events) ← (w.update o text).mapError .edit
        let output ← o.render d.text d.cache.tokens
        return { watch := ⟨some d, stamp⟩, output := some output, events }

def look (o : Options) (files : Files) : Look :=
  match files.stamp o.input with
  | .error _ => .missing
  | .ok stamp => .found stamp (o.readInput files)

/-- A poll with all it does. -/
def step (o : Options) (w : Watch) (x : Effects) : Effects × Except Fault Watch :=
  match w.poll o (look o x.files) with
  | .error fault => (x, .error fault)
  | .ok poll =>
    let x := x.log o poll.events
    match poll.complaint, poll.output with
    | some e, _ => (x.warn s!"error: {e.message}", .ok poll.watch)
    | none, none => (x, .ok poll.watch)
    | none, some output =>
      match o.deliver x output with
      | (x, some fault) => (x, .error fault)
      | (x, none) => (x.warn s!"Highlighted {String.ofList o.input.toText}", .ok poll.watch)

def announce (o : Options) (x : Effects) : Effects :=
  x.warn s!"Watching {String.ofList o.input.toText} for changes..."

/-- Polls again and again. In the pauses the files change as `changes` tell, and in the pause after
the last change the watch is ended. The answer has the effects of each poll, and none for
the end. -/
def loop (o : Options) (w : Watch) (x : Effects) :
    List (Files → Files) → List Effects × Except Fault Nat
  | [] =>
    match w.step o x with
    | (x, .error fault) => ([x], .error fault)
    | (x, .ok _) => ([x, { files := x.files }], .ok 0)
  | change :: changes =>
    match w.step o x with
    | (x, .error fault) => ([x], .error fault)
    | (x, .ok w) =>
      let (later, status) := loop o w { files := change x.files } changes
      (x :: later, status)

end Watch

/-- A run that watches its input while the files change. -/
def watch (files : Files) (a : Arguments) (changes : List (Files → Files)) :
    List Effects × Except Fault Nat :=
  match prepare files a with
  | .error ending => ([ending.effects], ending.status)
  | .ok o =>
    Watch.loop o {} (Watch.announce o { files }) changes

end Highlighter
