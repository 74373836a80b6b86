import Highlighter.Proofs.Document.Session

/-!
Runs of a session: what one request keeps, and from it what any sequence of requests keeps.
-/

set_option autoImplicit false

namespace Highlighter.Session

variable {config : Config} {s : Session}

theorem step_of_attempt {r : Request} {next : Session} {a : Answer}
    (h : s.attempt r = .ok (next, a)) : s.step r = (next, .ok a) := by
  rw [step, h]

theorem step_edit_of_not_fits {e : Edit} (h : ¬ e.Fits s.document.text) :
    ∃ fault, s.step (.edit e) = (s, .error ⟨fault, s.document.text⟩) := by
  obtain ⟨fault, hfault⟩ := Document.applyEdit_of_not_fits h
  refine ⟨fault, ?_⟩
  rw [step, attempt, hfault]
  rfl

/-- What a request does to a session: it keeps what every session keeps, and it makes the edit that
it comes to, if it comes to one. -/
theorem Sound.step (h : s.Sound config) (r : Request) :
    (s.step r).1.Sound config ∧ s.Advances (r.edit? s.document.text).toList (s.step r).1 := by
  by_cases hfit : ∀ e, r = .edit e → e.Fits s.document.text
  · obtain ⟨next, a, hattempt, hsound, hadvances⟩ := h.succeeds hfit
    rw [step_of_attempt hattempt]
    exact ⟨hsound, hadvances⟩
  · obtain ⟨e, hr⟩ := Classical.not_forall.mp hfit
    obtain ⟨rfl, hnot⟩ := Classical.not_imp.mp hr
    obtain ⟨fault, hstep⟩ := step_edit_of_not_fits hnot
    rw [hstep, Request.edit?, if_neg hnot]
    exact ⟨h, .refl s⟩

theorem after_cons (s : Session) (r : Request) (rs : List Request) :
    s.after (r :: rs) = (s.step r).1.after rs := rfl

/-- What any sequence of requests does to a session. -/
theorem Sound.after (h : s.Sound config) (rs : List Request) :
    (s.after rs).Sound config ∧ s.Advances (editsOf s.document.text rs) (s.after rs) := by
  induction rs generalizing s with
  | nil => exact ⟨h, .refl s⟩
  | cons r rs ih =>
    obtain ⟨hsound, hadvances⟩ := h.step r
    obtain ⟨hrest, hadvances'⟩ := ih hsound
    rw [hadvances.text_eq] at hadvances'
    rw [after_cons, editsOf_cons]
    exact ⟨hrest, hadvances.trans hadvances'⟩

/-- The generation that a pass has taken is still that of the document exactly if no edit has come
since the pass was started. -/
theorem Sound.passes_start (h : s.Sound config) (rs : List Request) :
    ∃ q, (s.after (.start :: rs)).passes[s.passes.length]? = some q ∧
      (q.generation = (s.after (.start :: rs)).document.generation ↔
        editsOf s.document.text rs = []) := by
  obtain ⟨hsound, hstarted⟩ := h.step .start
  obtain ⟨-, hadvances⟩ := hsound.after rs
  rw [hstarted.text_eq] at hadvances
  have hpass : (s.step .start).1.passes[s.passes.length]? = some s.document.startPass :=
    List.getElem?_concat_length
  obtain ⟨q, hq, hqgen⟩ := hadvances.passes _ _ hpass
  refine ⟨q, hq, ?_⟩
  rw [after_cons, hadvances.generation_eq, hqgen]
  change s.document.generation = s.document.generation + (editsOf s.document.text rs).length ↔ _
  rw [← List.length_eq_zero_iff]
  omega

theorem Sound.step_commit_of_current (h : s.Sound config) {i : Nat} {p : Pass}
    (hi : s.passes[i]? = some p) (hgen : p.generation = s.document.generation) :
    (s.step (.commit i)).2 = .ok (.committed true) ∧
      Document.Refreshed s.document (s.step (.commit i)).1.document := by
  obtain ⟨d, q, hattempt, hd, -, -⟩ := h.attempt_commit_of_current hi hgen
  rw [step_of_attempt hattempt]
  exact ⟨rfl, hd⟩

theorem step_commit_of_superseded {i : Nat} {p : Pass} (hi : s.passes[i]? = some p)
    (hgen : p.generation ≠ s.document.generation) :
    (s.step (.commit i)).2 = .ok (.committed false) ∧
      (s.step (.commit i)).1.document = s.document := by
  rw [step_of_attempt (Sound.attempt_commit_of_superseded hi hgen)]
  exact ⟨rfl, rfl⟩

/-- As every edit counts, states of one generation have one text. -/
theorem Sound.text_eq_of_generation_eq (h : s.Sound config) {rs : List Request}
    (hgen : (s.after rs).document.generation = s.document.generation) :
    (s.after rs).document.text = s.document.text := by
  obtain ⟨-, hadvances⟩ := h.after rs
  have hlength : (editsOf s.document.text rs).length = 0 :=
    Nat.add_eq_left.mp (hadvances.generation_eq.symm.trans hgen)
  rw [hadvances.text_eq, List.eq_nil_of_length_eq_zero hlength]
  rfl

/-- After any requests: the text is the first one with the successful edits applied in order; the
cache holds the tokens of its own text and the pending edit leads from it to the text; an edit that
does not fit changes nothing, and nothing else fails; tokens and spans are those of the text. -/
theorem document_in_step (config : Config) (t : Text) (rs : List Request) :
    let s := (ofText config t).after rs
    let d := s.document
    d.text = Edit.resultAll (editsOf t rs) t ∧
      d.cache.tokens = tokenize config.keywords d.cache.text ∧
      LeadsTo d.pending d.cache.text d.text ∧
      (∀ e, ¬ e.Fits d.text → ∃ fault, s.step (.edit e) = (s, .error ⟨fault, d.text⟩)) ∧
      (∀ r err, (s.step r).2 = .error err → ∃ e, r = .edit e ∧ ¬ e.Fits d.text) ∧
      (∀ u, (s.step (.replace u)).1.document.text = u) ∧
      (s.step .tokens).2 = .ok (.tokens (tokenize config.keywords d.text)) ∧
      (s.step .spans).2 = .ok (.spans (highlight config d.text)) := by
  intro s d
  obtain ⟨hsound, hadvances⟩ := (ofText_sound config t).after rs
  have hconfig : d.config = config := hsound.config_eq
  obtain ⟨next, hnext, -, htokens, hspans⟩ := hsound.attempt_of_refresh
  refine ⟨hadvances.text_eq, ?_, hsound.inStep.leads, fun e he => step_edit_of_not_fits he,
    ?_, ?_, ?_, ?_⟩
  · rw [← hconfig]
    exact hsound.inStep.full
  · intro r err herr
    have hfit : ¬ ∀ e, r = .edit e → e.Fits d.text := by
      intro hfit
      obtain ⟨next, a, hattempt, -, -⟩ := hsound.succeeds hfit
      rw [step_of_attempt hattempt] at herr
      cases herr
    obtain ⟨e, hr⟩ := Classical.not_forall.mp hfit
    exact ⟨e, Classical.not_imp.mp hr⟩
  · intro u
    rw [(hsound.step (.replace u)).2.text_eq, Request.edit?]
    split
    · exact Eq.symm ‹_›
    · exact Edit.between_result _ _
  · rw [step_of_attempt htokens, hnext.tokens_eq, hconfig]
  · rw [step_of_attempt hspans, hnext.spans_eq, hconfig]

/-- A pass is taken over exactly if no edit has been made since its start, whatever else was asked
in between. If it is not, the document stays as it is; if it is, nothing is pending after it, and
the cache holds the tokens of the current text. States of one generation have one text. -/
theorem commit_taken_iff (config : Config) (t : Text) (before between : List Request) :
    let s₀ := (ofText config t).after before
    let s := s₀.after (.start :: between)
    let p := s₀.passes.length
    let next := (s.step (.commit p)).1.document
    (s₀.step .start).2 = .ok (.started p) ∧
      (∃ taken, (s.step (.commit p)).2 = .ok (.committed taken) ∧
        (taken = true ↔ editsOf s₀.document.text between = []) ∧
        (taken = false → next = s.document) ∧
        (taken = true → next.text = s.document.text ∧
          next.generation = s.document.generation ∧ next.pending = none ∧
          next.cache.text = next.text ∧
          next.cache.tokens = tokenize config.keywords next.text)) ∧
      ∀ later, (s₀.after later).document.generation = s₀.document.generation →
        (s₀.after later).document.text = s₀.document.text := by
  intro s₀ s p next
  obtain ⟨hsound₀, -⟩ := (ofText_sound config t).after before
  obtain ⟨hsound, -⟩ := hsound₀.after (.start :: between)
  obtain ⟨q, hq, hcurrent⟩ := hsound₀.passes_start between
  refine ⟨rfl, ?_, fun later => hsound₀.text_eq_of_generation_eq⟩
  by_cases hgen : q.generation = s.document.generation
  · obtain ⟨hanswer, hnext⟩ := hsound.step_commit_of_current hq hgen
    refine ⟨true, hanswer, iff_of_true rfl (hcurrent.mp hgen), ?_, fun _ => ?_⟩
    · rintro ⟨⟩
    · refine ⟨hnext.text_eq, hnext.generation_eq, hnext.pending_eq, ?_, ?_⟩
      · exact hnext.cached.trans hnext.text_eq.symm
      · rw [hnext.tokens_eq, hsound.config_eq, hnext.text_eq]
  · obtain ⟨hanswer, hnext⟩ := step_commit_of_superseded hq hgen
    refine ⟨false, hanswer, ?_, fun _ => hnext, ?_⟩
    · exact iff_of_false Bool.false_ne_true (mt hcurrent.mpr hgen)
    · rintro ⟨⟩

end Highlighter.Session
