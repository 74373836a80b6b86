import Highlighter.Proofs.Render.Numbers
import Highlighter.Render.Json

/-!
Spans as JSON. Where the tags are known, the positions of the spans can be read from the document.
-/

set_option autoImplicit false

namespace Highlighter.Json

variable {s s' : Span} {spans spans' : List Span} {u v : Text}

theorem renderSpan_append_inj (htag : s.tag = s'.tag) (h : renderSpan s ++ u = renderSpan s' ++ v) :
    s = s' ∧ u = v := by
  have hstop : ",\n    \"end\": ".toList = ',' :: "\n    \"end\": ".toList := rfl
  have htail : ",\n    \"tag\": ".toList = ',' :: "\n    \"tag\": ".toList := rfl
  unfold renderSpan at h
  rw [htag, hstop, htail] at h
  simp only [List.append_assoc, List.cons_append] at h
  obtain ⟨hstart, hrest⟩ := number_append_inj (List.append_cancel_left h)
  obtain ⟨hstop, hrest'⟩ := number_append_inj (List.append_cancel_left hrest)
  obtain ⟨start, stop, tag⟩ := s
  obtain ⟨start', stop', tag'⟩ := s'
  subst hstart hstop htag
  exact ⟨rfl, List.append_cancel_left (List.append_cancel_left (List.append_cancel_left hrest'))⟩

theorem intercalate_renderSpan_inj (htags : spans.map Span.tag = spans'.map Span.tag)
    (h : ",\n".toList.intercalate (spans.map renderSpan) =
      ",\n".toList.intercalate (spans'.map renderSpan)) : spans = spans' := by
  induction spans generalizing spans' with
  | nil => exact (List.map_eq_nil_iff.mp htags.symm).symm
  | cons s spans ih =>
    cases spans' with
    | nil => cases htags
    | cons s' spans' =>
      rw [List.map_cons, List.map_cons, List.cons.injEq] at htags
      obtain ⟨htag, htags⟩ := htags
      cases spans with
      | nil =>
        obtain rfl := List.map_eq_nil_iff.mp htags.symm
        have h' : renderSpan s ++ [] = renderSpan s' ++ [] := by simpa using h
        rw [(renderSpan_append_inj htag h').1]
      | cons r spans =>
        cases spans' with
        | nil => cases htags
        | cons r' spans' =>
          simp only [List.map_cons, List.intercalate_cons_cons, List.append_assoc] at h
          obtain ⟨rfl, hrest⟩ := renderSpan_append_inj htag h
          rw [ih htags (by simpa using List.append_cancel_left hrest)]

/-- Of spans with the same tags no two lists are rendered alike. -/
theorem render_inj (htags : spans.map Span.tag = spans'.map Span.tag)
    (h : render spans = render spans') : spans = spans' := by
  cases spans with
  | nil => exact (List.map_eq_nil_iff.mp htags.symm).symm
  | cons s spans =>
    cases spans' with
    | nil => cases htags
    | cons s' spans' =>
      rw [render, render] at h
      · exact intercalate_renderSpan_inj htags
          (List.append_cancel_left (List.append_cancel_right h))
      · simp
      · simp

end Highlighter.Json
