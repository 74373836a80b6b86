import Highlighter.Proofs.Document.InStep
import Highlighter.Proofs.LineIndex.Rounding
import Highlighter.Server

/-!
Changes that fit. Since positions keep their order when they become offsets, the change of a range
fits every text unless the range ends at an earlier position than it starts, whatever lines and
characters the positions name. So this is the only way in which a document can get out of step with
an editor.
-/

set_option autoImplicit false

namespace Highlighter

/-- The change is to a range that ends at an earlier position than it starts. -/
def Change.IsReversed : Change → Prop
  | whole _ => False
  | range startLine startCharacter stopLine stopCharacter _ =>
    toLex (stopLine, stopCharacter) < toLex (startLine, startCharacter)

theorem Change.toEdit_fits (t : Text) {c : Change} (h : ¬ c.IsReversed) : (c.toEdit t).Fits t := by
  cases c with
  | whole u => exact Edit.between_fits t u
  | range startLine startCharacter stopLine stopCharacter u =>
    have hle := LineIndex.offsetAt_mono t (not_lt.mp h)
    have hstop := LineIndex.offsetAt_le t stopLine stopCharacter
    exact ⟨Int.natCast_nonneg _, Int.ofNat_le.mpr hle, Int.ofNat_le.mpr hstop⟩

namespace Server

/-- Changes are all made, or those up to the first that cannot be made, which is a reversed one. -/
theorem applyChanges_cases (d : Document) (changes : List Change) :
    (∃ d', changes.foldlM applyChange d = .ok d') ∨
      ∃ before c after d' err, changes = before ++ c :: after ∧
        before.foldlM applyChange d = .ok d' ∧ applyChange d' c = .error err ∧
        changes.foldlM applyChange d = .error err ∧ c.IsReversed := by
  induction changes generalizing d with
  | nil => exact .inl ⟨d, rfl⟩
  | cons c changes ih =>
    rw [List.foldlM_cons]
    cases hc : applyChange d c with
    | error err =>
      have hreversed : c.IsReversed := by
        by_contra hno
        obtain ⟨text, htext⟩ : ∃ text, (c.toEdit d.text).apply d.text = .ok text :=
          ⟨_, Edit.apply_of_fits (c.toEdit_fits d.text hno)⟩
        rw [applyChange, Document.applyEdit, htext] at hc
        cases hc
      exact .inr ⟨[], c, changes, d, err, rfl, rfl, hc, rfl, hreversed⟩
    | ok m =>
      rcases ih m with ⟨d', hd'⟩ | ⟨before, c', after, d', err, rfl, hbefore, hc', herr, hreversed⟩
      · exact .inl ⟨d', hd'⟩
      · refine .inr ⟨c :: before, c', after, d', err, rfl, ?_, hc', herr, hreversed⟩
        rw [List.foldlM_cons, hc]
        exact hbefore

end Server

/-- The offset of a position, whatever numbers it is given by, lies in the text and not between a
carriage return and its line feed, and later positions have no earlier offsets. So the change of a
range that does not end before it starts is an edit that fits. A document that is open follows all
changes, unless it comes to one whose range is reversed. -/
theorem offsets_of_positions (t : Text) :
    let x := LineIndex.ofText t
    (∀ line character, x.offsetAt line character ≤ t.length ∧
        ¬ InsidePair t (x.offsetAt line character)) ∧
      (∀ line character line' character',
        toLex (line, character) ≤ toLex (line', character') →
        x.offsetAt line character ≤ x.offsetAt line' character') ∧
      (∀ startLine startCharacter stopLine stopCharacter u,
        toLex (startLine, startCharacter) ≤ toLex (stopLine, stopCharacter) →
        ((Change.range startLine startCharacter stopLine stopCharacter u).toEdit t).fault? t =
          none) ∧
      ∀ (s : Server) (uri : String) (d : Document) (changes : List Change),
        s.documents.get? uri = some d →
        (∃ d', changes.foldlM Server.applyChange d = .ok d' ∧
            s.didChange uri changes = (s.putDocument uri d', [])) ∨
          ∃ before c after d' err, changes = before ++ c :: after ∧
            before.foldlM Server.applyChange d = .ok d' ∧ Server.applyChange d' c = .error err ∧
            s.didChange uri changes =
              (s.putDocument uri (s.load uri), [.outOfSync uri err.message]) ∧
            c.IsReversed := by
  intro x
  refine ⟨fun line character => ⟨?_, ?_⟩, ?_, ?_, ?_⟩
  · exact LineIndex.offsetAt_le t line character
  · exact LineIndex.not_insidePair_offsetAt t line character
  · intro line character line' character' hle
    exact LineIndex.offsetAt_mono t hle
  · intro startLine startCharacter stopLine stopCharacter u hle
    exact (Edit.fault?_eq_none_iff _ t).mpr (Change.toEdit_fits t (not_lt.mpr hle))
  · intro s uri d changes huri
    rw [Server.didChange, huri]
    dsimp only
    rcases Server.applyChanges_cases d changes with
      ⟨d', hd'⟩ | ⟨before, c, after, d', err, hsplit, hbefore, hc, herr, hreversed⟩
    · rw [hd']
      exact .inl ⟨d', rfl, rfl⟩
    · rw [herr]
      exact .inr ⟨before, c, after, d', err, hsplit, hbefore, hc, rfl, hreversed⟩

end Highlighter
