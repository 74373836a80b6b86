import Highlighter.Proofs.Edit.Combine

/-!
Edits that come one after the other, folded into one. The first of them is pending as it is, and
each later one is folded into what is pending by then. After every edit, what is pending fits the
first text, leads from it to the current one, and starts where the leftmost of the edits starts.
-/

set_option autoImplicit false

namespace Highlighter.Edit

/-- Each edit fits the text that those before it leave. -/
def FitInTurn : List Edit → Text → Prop
  | [], _ => True
  | e :: es, t => e.Fits t ∧ FitInTurn es (e.result t)

instance decidableFitInTurn : (es : List Edit) → (t : Text) → Decidable (FitInTurn es t)
  | [], _ => inferInstanceAs (Decidable True)
  | e :: es, t =>
    have := decidableFitInTurn es (e.result t)
    inferInstanceAs (Decidable (_ ∧ _))

/-- What is pending after edits, if `pending` was before them and the current text was `u`. -/
def combineAll (pending : Edit) (u : Text) : List Edit → Edit
  | [] => pending
  | e :: es => combineAll (pending.combine e (e.result u)) (e.result u) es

variable {pending e : Edit} {es : List Edit} {t u : Text}

theorem FitInTurn.take (h : FitInTurn es t) (n : Nat) : FitInTurn (es.take n) t := by
  induction es generalizing t n with
  | nil =>
    rw [List.take_nil]
    exact h
  | cons e es ih =>
    cases n with
    | zero => exact trivial
    | succ n => exact ⟨h.1, ih h.2 n⟩

/-- Folding goes on to lead from the first text to the current one. -/
theorem combineAll_result (hp : pending.Fits t) (hu : pending.result t = u)
    (h : FitInTurn es u) :
    (combineAll pending u es).Fits t ∧ (combineAll pending u es).result t = resultAll es u := by
  induction es generalizing pending u with
  | nil => exact ⟨hp, hu⟩
  | cons e es ih =>
    subst hu
    exact ih (combine_fits hp h.1 _) (combine_result hp h.1) h.2

/-- Folding keeps the smallest start, whatever the texts are. -/
theorem combineAll_start (pending : Edit) (u : Text) (es : List Edit) :
    (combineAll pending u es).start = (es.map (·.start)).foldl min pending.start := by
  induction es generalizing pending u with
  | nil => rfl
  | cons e es ih => exact ih _ _

/-- Of edits that fit one after the other, take the first few. What is then pending fits the first
text and leads from it to the current one; it makes the text longer by just as much, and it starts
where the leftmost of these edits starts. -/
theorem combineAll_take (h : FitInTurn (e :: es) t) (n : Nat) :
    let folded := e :: es.take n
    let p := combineAll e (e.result t) (es.take n)
    let u := resultAll folded t
    p.Fits t ∧ p.apply t = .ok u ∧ p.delta = (u.length : Int) - t.length ∧
      (folded.map (·.start)).min? = some p.start := by
  intro folded p u
  obtain ⟨hfits, hresult⟩ := combineAll_result h.1 rfl (h.2.take n)
  refine ⟨hfits, ?_, ?_, ?_⟩
  · rw [apply_of_fits hfits, hresult]
    rfl
  · have hlength := length_result hfits
    rw [hresult] at hlength
    change (u.length : Int) = t.length + p.delta at hlength
    omega
  · rw [List.map_cons, List.min?_cons', combineAll_start]

/-- The second edit takes away what the first has inserted and text on both sides of it. -/
theorem combineAll_take_overlap :
    let t := "abcdef".toList
    let edits : List Edit := [⟨2, 4, "XYZ".toList⟩, ⟨1, 6, "q".toList⟩, ⟨0, 0, "-".toList⟩]
    let p : Edit := ⟨0, 5, "-aq".toList⟩
    FitInTurn edits t ∧ p.Fits t ∧ p.apply t = .ok "-aqf".toList ∧ p.delta = 4 - 6 ∧
      (edits.map (·.start)).min? = some p.start :=
  ⟨by decide, @combineAll_take ⟨2, 4, "XYZ".toList⟩ [⟨1, 6, "q".toList⟩, ⟨0, 0, "-".toList⟩]
    "abcdef".toList (by decide) 2⟩

end Highlighter.Edit
