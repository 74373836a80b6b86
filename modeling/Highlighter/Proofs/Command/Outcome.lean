import Highlighter.Proofs.Command.Delivery
import Highlighter.Proofs.Command.Options
import Highlighter.Proofs.Command.Reading
import Highlighter.Proofs.Text.Utf8

/-!
How runs end that do not watch. Which status a run ends with can be told from the files and the
arguments, and so can what it has written. A run that does not end well has written nothing but
messages, or else a part of the output. Two things end a run by a fault and without a status: a
configuration file that is there and cannot be read as a text, and an output that cannot be put
where it is to go.
-/

set_option autoImplicit false

namespace Highlighter

/-- How a run ends, and what it has written then. -/
inductive Outcome (files : Files) (a : Arguments) : Except Fault Nat → Written → Prop where
  | unconfigured {fault : Fault} : Options.ConfigUnreadable files (Options.configPath a) →
      Outcome files a (.error fault) ([], files)
  | wrong : Options.Wrong files a → Outcome files a (.ok 2) ([], files)
  | unreadable {o : Options} {fault : Fault} :
      Options.resolve files a = .ok o → o.readInput files = .error fault →
      Outcome files a (.ok 1) ([], files)
  | done {o : Options} {output : Text} {written : Written} :
      Options.resolve files a = .ok o → o.highlightInput files = .ok output →
      o.Deliverable files → o.Holds output ([], files) written →
      Outcome files a (.ok 0) written
  | failed {o : Options} {output : Text} {written : Written} {e : OsError} :
      Options.resolve files a = .ok o → o.highlightInput files = .ok output →
      ¬ o.Deliverable files → o.Spoils output ([], files) written →
      Outcome files a (.error (.os e)) written

namespace Options

variable {o : Options} {files : Files} {output : Text}

theorem exists_highlightInput (h : o.theme.Known) {t : Text} (hread : o.readInput files = .ok t) :
    ∃ output, o.highlightInput files = .ok output := by
  obtain ⟨output, houtput⟩ :=
    exists_ok_mapError (f := Fault.color) |>.mpr (exists_render h o.format o.config t
      (tokenize o.config.keywords t))
  exact ⟨output, highlightInput_eq_ok_iff.mpr ⟨t, hread, houtput⟩⟩

end Options

section Run

variable {files : Files} {a : Arguments} {o : Options} {output : Text}
  {status : Except Fault Nat} {written : Written}

theorem run_of_resolve (h : Options.resolve files a = .ok o) :
    run files a = o.runOnce { files } := by
  rw [run, prepare, h]

theorem run_of_configTable {fault : Fault}
    (h : Options.configTable files (Options.configPath a) = .error fault) :
    (run files a).status = .error fault ∧ (run files a).effects.written = ([], files) := by
  rw [run, prepare, Options.resolve_of_error h]
  exact ⟨rfl, rfl⟩

theorem run_of_wrong (h : Options.Wrong files a) :
    (run files a).status = .ok 2 ∧ (run files a).effects.written = ([], files) := by
  obtain ⟨e, he, hne⟩ := h.resolve
  rw [run, prepare, he]
  cases e with
  | fault f => exact absurd rfl (hne f)
  | config _ | tagFormat _ => exact ⟨rfl, Effects.written_warn _ _⟩

theorem run_of_readInput_error {fault : Fault} (ho : Options.resolve files a = .ok o)
    (hread : o.readInput files = .error fault) :
    (run files a).status = .ok 1 ∧ (run files a).effects.written = ([], files) := by
  rw [run_of_resolve ho]
  exact Options.runOnce_of_readInput_error hread

theorem delivered_run (ho : Options.resolve files a = .ok o)
    (hinput : o.highlightInput files = .ok output) :
    ∃ fault, (run files a).status = Options.statusAfter fault ∧
      o.Delivered ([], files) (some output) (run files a).effects.written fault := by
  obtain ⟨t, hread, hhighlight⟩ := Options.highlightInput_eq_ok_iff.mp hinput
  rw [run_of_resolve ho]
  exact Options.delivered_runOnce (x := { files }) hread hhighlight

theorem run_of_deliverable (ho : Options.resolve files a = .ok o)
    (hinput : o.highlightInput files = .ok output) (hdeliver : o.Deliverable files) :
    (run files a).status = .ok 0 ∧
      o.Holds output ([], files) (run files a).effects.written := by
  obtain ⟨fault, hstatus, hdelivered⟩ := delivered_run ho hinput
  cases hdelivered with
  | done _ hholds => exact ⟨hstatus, hholds⟩
  | failed hno _ => exact absurd hdeliver hno

theorem run_of_not_deliverable (ho : Options.resolve files a = .ok o)
    (hinput : o.highlightInput files = .ok output) (hdeliver : ¬ o.Deliverable files) :
    ∃ e, (run files a).status = .error (.os e) ∧
      o.Spoils output ([], files) (run files a).effects.written := by
  obtain ⟨fault, hstatus, hdelivered⟩ := delivered_run ho hinput
  cases hdelivered with
  | done hyes _ => exact absurd hyes hdeliver
  | @failed _ _ e _ hspoils => exact ⟨e, hstatus, hspoils⟩

theorem outcome (files : Files) (a : Arguments) :
    Outcome files a (run files a).status (run files a).effects.written := by
  cases hconfig : Options.configTable files (Options.configPath a) with
  | error fault =>
    obtain ⟨hstatus, hwritten⟩ := run_of_configTable hconfig
    rw [hstatus, hwritten]
    exact .unconfigured (Options.configUnreadable_iff.mpr ⟨fault, hconfig⟩)
  | ok table =>
    by_cases hwrong : Options.Wrong files a
    · obtain ⟨hstatus, hwritten⟩ := run_of_wrong hwrong
      rw [hstatus, hwritten]
      exact .wrong hwrong
    · obtain ⟨o, ho, hknown⟩ := Options.exists_resolve hconfig hwrong
      cases hread : o.readInput files with
      | error fault =>
        obtain ⟨hstatus, hwritten⟩ := run_of_readInput_error ho hread
        rw [hstatus, hwritten]
        exact .unreadable ho hread
      | ok t =>
        obtain ⟨output, hinput⟩ := Options.exists_highlightInput hknown hread
        by_cases hdeliver : o.Deliverable files
        · obtain ⟨hstatus, hholds⟩ := run_of_deliverable ho hinput hdeliver
          rw [hstatus]
          exact .done ho hinput hdeliver hholds
        · obtain ⟨e, hstatus, hspoils⟩ := run_of_not_deliverable ho hinput hdeliver
          rw [hstatus]
          exact .failed ho hinput hdeliver hspoils

end Run

namespace Outcome

variable {files : Files} {a : Arguments} {status : Except Fault Nat} {written : Written}

theorem wrong_of_two (h : Outcome files a (.ok 2) written) : Options.Wrong files a := by
  cases h with
  | wrong hwrong => exact hwrong

theorem unreadable_of_one (h : Outcome files a (.ok 1) written) :
    ∃ o fault, Options.resolve files a = .ok o ∧ o.readInput files = .error fault := by
  cases h with
  | unreadable ho hread => exact ⟨_, _, ho, hread⟩

theorem holds_of_zero (h : Outcome files a (.ok 0) written) :
    ∃ o output, Options.resolve files a = .ok o ∧ o.highlightInput files = .ok output ∧
      o.Deliverable files ∧ o.Holds output ([], files) written := by
  cases h with
  | done ho hinput hdeliver hholds => exact ⟨_, _, ho, hinput, hdeliver, hholds⟩

theorem of_fault {fault : Fault} (h : Outcome files a (.error fault) written) :
    (Options.ConfigUnreadable files (Options.configPath a) ∧ written = ([], files)) ∨
      ∃ o output, Options.resolve files a = .ok o ∧ o.highlightInput files = .ok output ∧
        ¬ o.Deliverable files ∧ o.Spoils output ([], files) written := by
  cases h with
  | unconfigured hconfig => exact .inl ⟨hconfig, rfl⟩
  | failed ho hinput hdeliver hspoils => exact .inr ⟨_, _, ho, hinput, hdeliver, hspoils⟩

theorem written_of_pos {n : Nat} (h : Outcome files a (.ok n) written) (hn : n ≠ 0) :
    written = ([], files) := by
  cases h with
  | done => exact absurd rfl hn
  | wrong | unreadable => rfl

end Outcome

/-- A file with a word in it, and one more entry beside it. -/
def Files.beside (name : Text) (entry : FileEntry) : Files where
  entries := [(["a".toList], .file (Utf8.encode "true".toList) (.set 1)), ([name], entry)]

end Highlighter
