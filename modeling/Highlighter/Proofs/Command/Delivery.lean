import Highlighter.Command.Run
import Highlighter.Proofs.Command.Files

/-!
What is written. Messages apart, a run leaves its output and the files. An output that is delivered
stands where it is to go, at the end of the standard output or alone in the file, and nothing else
is written; if it cannot be put there, that is a fault, and at most a part of it is in the file.
-/

set_option autoImplicit false

namespace Highlighter

/-- What has been written: the output so far, and the files. -/
abbrev Written := Text × Files

def Effects.written (x : Effects) : Written := (x.out, x.files)

namespace Effects

@[simp] theorem written_warn (x : Effects) (message : String) :
    (x.warn message).written = x.written := rfl

@[simp] theorem written_log (x : Effects) (o : Options) (events : List Event) :
    (x.log o events).written = x.written := by
  unfold log
  split <;> rfl

end Effects

namespace Options

/-- The output can be put where it is to go. -/
def Deliverable (o : Options) (files : Files) : Prop :=
  ∀ path, o.output = some path → files.Writable path

/-- The output, and nothing more, has been written to where it is to go, and nothing has been
written to the other place. -/
def Holds (o : Options) (output : Text) (before after : Written) : Prop :=
  match o.output with
  | none => after = (before.1 ++ output, before.2)
  | some path => after.1 = before.1 ∧ after.2.content? path = some (Utf8.encode output)

/-- No more than a part of the output has been written, and nothing to the standard output. -/
def Spoils (o : Options) (output : Text) (before after : Written) : Prop :=
  after.1 = before.1 ∧ (after.2 = before.2 ∨ ∃ path n, o.output = some path ∧
    after.2.content? path = some ((Utf8.encode output).take n))

/-- What becomes of an output, if there is one. -/
inductive Delivered (o : Options) (before : Written) :
    Option Text → Written → Option Fault → Prop where
  | nothing : Delivered o before none before none
  | done {output : Text} {after : Written} : o.Deliverable before.2 →
      o.Holds output before after → Delivered o before (some output) after none
  | failed {output : Text} {after : Written} {e : OsError} : ¬ o.Deliverable before.2 →
      o.Spoils output before after → Delivered o before (some output) after (some (.os e))

variable {o : Options} {x : Effects} {output t : Text} {path : Path}

theorem deliverable_of_none (houtput : o.output = none) (files : Files) :
    o.Deliverable files := by
  intro path hpath
  rw [houtput] at hpath
  cases hpath

theorem deliverable_iff (houtput : o.output = some path) (files : Files) :
    o.Deliverable files ↔ files.Writable path := by
  refine ⟨fun h => h path houtput, fun h path' hpath => ?_⟩
  obtain rfl : path = path' := Option.some.inj (houtput.symm.trans hpath)
  exact h

theorem delivered_deliver (o : Options) (x : Effects) (output : Text) :
    o.Delivered x.written (some output) (o.deliver x output).1.written
      (o.deliver x output).2 := by
  unfold deliver
  cases houtput : o.output with
  | none =>
    refine .done (deliverable_of_none houtput _) ?_
    rw [Holds, houtput]
    rfl
  | some path =>
    by_cases hwritable : x.files.Writable path
    · obtain ⟨hnone, hcontent⟩ := hwritable.write (Utf8.encode output)
      dsimp only
      rw [hnone]
      refine .done ((deliverable_iff houtput _).mpr hwritable) ?_
      rw [Holds, houtput]
      exact ⟨rfl, hcontent⟩
    · obtain ⟨⟨e, he⟩, hspoils⟩ := Files.write_of_not_writable hwritable (Utf8.encode output)
      dsimp only
      rw [he]
      refine .failed (fun h => hwritable ((deliverable_iff houtput _).mp h)) ⟨rfl, ?_⟩
      rcases hspoils with hsame | ⟨n, hpart⟩
      · exact .inl hsame
      · exact .inr ⟨path, n, houtput, hpart⟩

/-- The status of a run after its output has been delivered, or not. -/
def statusAfter : Option Fault → Except Fault Nat
  | none => .ok 0
  | some fault => .error fault

/-- A run that does not watch delivers the output for the input. -/
theorem delivered_runOnce (hread : o.readInput x.files = .ok t)
    (hhighlight : o.highlight t = .ok output) :
    ∃ fault, (o.runOnce x).status = statusAfter fault ∧
      o.Delivered x.written (some output) (o.runOnce x).effects.written fault := by
  have hrender : o.render t (tokenize o.config.keywords t) = .ok output := hhighlight
  generalize hlisted : (if o.debug = true then
    { x with err := x.err ++ listing (tokenize o.config.keywords t) } else x) = listed
  have hsame : listed.written = x.written := by
    rw [← hlisted]
    split <;> rfl
  have hdelivered := o.delivered_deliver listed output
  rw [hsame] at hdelivered
  cases hdeliver : o.deliver listed output with
  | mk y fault =>
    rw [hdeliver] at hdelivered
    refine ⟨fault, ?_⟩
    simp only [runOnce, hread, hrender, hlisted, hdeliver]
    cases fault with
    | none => exact ⟨rfl, by simpa using hdelivered⟩
    | some fault => exact ⟨rfl, hdelivered⟩

theorem runOnce_of_readInput_error {fault : Fault} (h : o.readInput x.files = .error fault) :
    (o.runOnce x).status = .ok 1 ∧ (o.runOnce x).effects.written = x.written := by
  rw [runOnce, h]
  exact ⟨rfl, Effects.written_warn _ _⟩

end Options

end Highlighter
