import Highlighter.Text.Basic

/-!
Edits. An edit replaces a range of a text by another text. Edits come from outside, so their
bounds are any numbers, and an edit is checked against the text before it is applied.
-/

set_option autoImplicit false

namespace Highlighter

/-- Replaces what lies from `start` up to `stop` by `text`. -/
structure Edit where
  start : Int
  stop : Int
  text : Text
  deriving DecidableEq, Repr

/-- Why an edit does not fit a text. -/
inductive EditFault where
  | startOutside (start : Int)
  | stopBeforeStart (start stop : Int)
  | stopOutside (stop : Int)
  deriving DecidableEq, Repr

/-- A refused edit: the fault and the text that the edit was meant for. -/
structure EditError where
  fault : EditFault
  source : Text
  deriving DecidableEq, Repr

namespace Edit

/-- How much longer the text becomes. -/
def delta (e : Edit) : Int := e.text.length - (e.stop - e.start)

/-- Where the inserted text ends in the new text. -/
def newStop (e : Edit) : Int := e.start + e.text.length

/-- The edit's range lies in the text. -/
def Fits (e : Edit) (t : Text) : Prop :=
  0 ≤ e.start ∧ e.start ≤ e.stop ∧ e.stop ≤ t.length

instance (e : Edit) (t : Text) : Decidable (e.Fits t) := inferInstanceAs (Decidable (_ ∧ _ ∧ _))

def fault? (e : Edit) (t : Text) : Option EditFault :=
  if e.start < 0 ∨ t.length < e.start then some (.startOutside e.start)
  else if e.stop < e.start then some (.stopBeforeStart e.start e.stop)
  else if t.length < e.stop then some (.stopOutside e.stop)
  else none

/-- The text that an edit which fits leaves. -/
def result (e : Edit) (t : Text) : Text := t.take e.start.toNat ++ e.text ++ t.drop e.stop.toNat

def apply (e : Edit) (t : Text) : Except EditError Text :=
  match e.fault? t with
  | some fault => .error ⟨fault, t⟩
  | none => .ok (e.result t)

theorem fault?_eq_none_iff (e : Edit) (t : Text) : e.fault? t = none ↔ e.Fits t := by
  unfold fault? Fits
  repeat' split
  all_goals simp only [reduceCtorEq, true_iff, false_iff]; omega

theorem apply_of_fits {e : Edit} {t : Text} (h : e.Fits t) : e.apply t = .ok (e.result t) := by
  simp [apply, (fault?_eq_none_iff e t).mpr h]

end Edit

end Highlighter
