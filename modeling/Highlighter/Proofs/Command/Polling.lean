import Highlighter.Proofs.Command.Reading
import Highlighter.Proofs.Command.Watching

/-!
Polls that find no text. Such a poll writes nothing, and the watch goes on with the document that it
has. There is one exception: when the input has changed and its bytes are not UTF-8, the watch is
over.
-/

set_option autoImplicit false

namespace Highlighter.Watch

variable {o : Options} {w next : Watch} {x : Effects} {files : Files} {stamp : Stamp}
  {fault : Fault}

/-- The input is not there, or what it holds cannot be read as a text. -/
def Unreadable (o : Options) (files : Files) : Prop :=
  (∃ e, files.stamp o.input = .error e) ∨ ∃ fault, o.readInput files = .error fault

/-- The input has changed, and what it holds now is not UTF-8. -/
def Garbled (o : Options) (w : Watch) (files : Files) : Prop :=
  ∃ stamp f, files.stamp o.input = .ok stamp ∧ stamp ≠ w.lastSeen ∧
    o.readInput files = .error (.encoding f)

theorem readInput_error_cases (h : o.readInput files = .error fault) :
    (∃ e, fault = .os e) ∨ ∃ f, fault = .encoding f := by
  unfold Options.readInput at h
  cases hread : files.read o.input with
  | error e =>
    rw [hread] at h
    exact .inl ⟨e, (Except.error.inj h).symm⟩
  | ok bytes =>
    rw [hread] at h
    dsimp only [mapError_ok, bind, Except.bind] at h
    cases hdecode : Utf8.decode bytes with
    | error f =>
      rw [hdecode] at h
      exact .inr ⟨f, (Except.error.inj h).symm⟩
    | ok t =>
      rw [hdecode] at h
      cases h

/-- A poll without an output writes nothing. -/
theorem step_of_poll {p : Poll} (hpoll : w.poll o (look o x.files) = .ok p)
    (houtput : p.output = none) :
    (w.step o x).1.written = x.written ∧ (w.step o x).2 = .ok p.watch := by
  obtain ⟨fault, hafter, hdelivered⟩ := delivered_step hpoll
  rw [houtput] at hdelivered
  generalize hwritten : (w.step o x).1.written = written at hdelivered
  cases hdelivered with
  | nothing => exact ⟨rfl, hafter⟩

theorem look_of_stamp (h : files.stamp o.input = .ok stamp) :
    look o files = .found stamp (o.readInput files) := by
  rw [look, h]

theorem Garbled.step (h : Garbled o w x.files) : ∃ f, w.step o x = (x, .error (.encoding f)) := by
  obtain ⟨stamp, f, hstamp, hne, hread⟩ := h
  refine ⟨f, step_of_poll_error ?_⟩
  rw [look_of_stamp hstamp, hread]
  exact poll_of_fault hne (by simp)

/-- Where the input cannot be read as a text, and it is not that it has changed to something that is
no UTF-8, the watch goes on with the document that it has. -/
theorem Unreadable.poll (h : Unreadable o files) (hgarbled : ¬ Garbled o w files) :
    ∃ p, w.poll o (look o files) = .ok p ∧ p.output = none ∧
      p.watch.document = w.document := by
  cases hstamp : files.stamp o.input with
  | error e =>
    refine ⟨{ watch := w }, ?_, rfl, rfl⟩
    rw [look, hstamp]
    rfl
  | ok stamp =>
    rw [look_of_stamp hstamp]
    by_cases hseen : stamp = w.lastSeen
    · subst hseen
      exact ⟨_, poll_of_seen o w _, rfl, rfl⟩
    · obtain ⟨e, he⟩ | ⟨fault, hread⟩ := h
      · rw [hstamp] at he
        cases he
      · rw [hread]
        obtain ⟨e, rfl⟩ | ⟨f, rfl⟩ := readInput_error_cases hread
        · exact ⟨_, poll_of_unreadable hseen e, rfl, rfl⟩
        · exact absurd ⟨stamp, f, hstamp, hseen, hread⟩ hgarbled

theorem loop_of_step (hnext : (w.step o x).2 = .ok next) (change : Files → Files)
    (changes : List (Files → Files)) :
    loop o w x (change :: changes) =
      ((w.step o x).1 :: (loop o next { files := change (w.step o x).1.files } changes).1,
        (loop o next { files := change (w.step o x).1.files } changes).2) := by
  have hstep : w.step o x = ((w.step o x).1, .ok next) := Prod.ext rfl hnext
  rw [loop, hstep]

theorem loop_of_step_error {y : Effects} (hstep : w.step o x = (y, .error fault))
    (changes : List (Files → Files)) : loop o w x changes = ([y], .error fault) := by
  cases changes with
  | nil => rw [loop, hstep]
  | cons change changes => rw [loop, hstep]

/-- A poll that cannot read the input as a text writes nothing, and the watch goes on from there
with the document that it has. Only when the input has changed to something that is not UTF-8, the
whole watch ends by a fault. -/
theorem step_of_unreadable (w : Watch) (h : Unreadable o x.files) :
    (w.step o x).1.written = x.written ∧
      (¬ Garbled o w x.files → ∃ next, (w.step o x).2 = .ok next ∧ next.document = w.document ∧
        ∀ change changes, loop o w x (change :: changes) =
          ((w.step o x).1 :: (loop o next { files := change x.files } changes).1,
            (loop o next { files := change x.files } changes).2)) ∧
      (Garbled o w x.files → ∃ f, ∀ changes, loop o w x changes = ([x], .error (.encoding f))) := by
  by_cases hgarbled : Garbled o w x.files
  · obtain ⟨f, hstep⟩ := hgarbled.step
    refine ⟨by rw [hstep], fun hno => absurd hgarbled hno, fun _ => ⟨f, ?_⟩⟩
    exact loop_of_step_error hstep
  · obtain ⟨p, hpoll, houtput, hdocument⟩ := h.poll hgarbled
    obtain ⟨hwritten, hnext⟩ := step_of_poll hpoll houtput
    refine ⟨hwritten, fun _ => ⟨p.watch, hnext, hdocument, fun change changes => ?_⟩,
      fun hno => absurd hno hgarbled⟩
    have hfiles : (w.step o x).1.files = x.files := congrArg Prod.snd hwritten
    rw [loop_of_step hnext, hfiles]

theorem step_of_directory :
    let o := Options.forFile "a".toList .json
    let w : Watch := ⟨some (Document.ofText .standard "true".toList), .set 1⟩
    let x : Effects := { files := { entries := [(["a".toList], .directory (.set 2))] } }
    Unreadable o x.files ∧ ¬ Garbled o w x.files ∧ (w.step o x).1.written = x.written ∧
      ∃ next, (w.step o x).2 = .ok next ∧ next.document = w.document := by
  intro o w x
  have hread : o.readInput x.files = .error (.os ⟨.isADirectory, some o.input⟩) := rfl
  have hunreadable : Unreadable o x.files := .inr ⟨_, hread⟩
  have hgarbled : ¬ Garbled o w x.files := by
    rintro ⟨stamp, f, -, -, hf⟩
    rw [hread] at hf
    cases hf
  obtain ⟨hwritten, hgoes, -⟩ := step_of_unreadable w hunreadable
  obtain ⟨next, hnext, hdocument, -⟩ := hgoes hgarbled
  exact ⟨hunreadable, hgarbled, hwritten, next, hnext, hdocument⟩

/-- A byte that starts no character ends the watch. -/
theorem exists_step_fault :
    ∃ (o : Options) (w : Watch) (x : Effects), Unreadable o x.files ∧
      ¬ ∃ next, (w.step o x).2 = .ok next := by
  let o := Options.forFile "a".toList .json
  let w : Watch := ⟨some (Document.ofText .standard "true".toList), .set 1⟩
  let x : Effects := { files := Files.single "a".toList [0x74, 0xFF] (.set 2) }
  have hread : o.readInput x.files = .error (.encoding ⟨.invalidStart, 0xFF, 1, 1⟩) := rfl
  have hgarbled : Garbled o w x.files := ⟨.set 2, _, rfl, by decide, hread⟩
  obtain ⟨f, hstep⟩ := hgarbled.step
  refine ⟨o, w, x, .inr ⟨_, hread⟩, ?_⟩
  rw [hstep]
  rintro ⟨next, ⟨⟩⟩

end Highlighter.Watch
