import Highlighter.Document
import Highlighter.Proofs.Edit.Between
import Highlighter.Proofs.Edit.Folding
import Highlighter.Proofs.Relex.Rescan

/-!
Documents in step. The cache of a document holds all tokens of its own text, and the pending edit
leads from that text to the current one. Every operation keeps this. A pass takes over from the
document what it needs to lead to the same text, and so its result is, at any time later, a cache of
the text that was current when it was started.
-/

set_option autoImplicit false

namespace Highlighter

/-- A pending edit leads from one text to another; where none is pending, the texts are the same. -/
def LeadsTo (pending : Option Edit) (t u : Text) : Prop :=
  match pending with
  | none => t = u
  | some e => e.Fits t ∧ e.result t = u

/-- A pass over a text: what it has captured leads to a full cache of the text, and what it has
found already is one. -/
structure Pass.Over (config : Config) (t : Text) (p : Pass) : Prop where
  config_eq : p.config = config
  full : p.prior.Full config.keywords
  leads : LeadsTo p.edit p.prior.text t
  found : ∀ c, p.result = some c → c.text = t ∧ c.Full config.keywords

namespace Pass.Over

variable {config : Config} {t : Text} {p : Pass}

theorem withResult (h : p.Over config t) {c : Cache} (htext : c.text = t)
    (hfull : c.Full config.keywords) : Pass.Over config t { p with result := some c } where
  config_eq := h.config_eq
  full := h.full
  leads := h.leads
  found := by
    rintro d ⟨⟩
    exact ⟨htext, hfull⟩

/-- A pass never fails, whenever it is run, and what it gives is a full cache of its text. -/
theorem run (h : p.Over config t) :
    ∃ c q events, p.run = .ok (c, q, events) ∧ c.text = t ∧ c.Full config.keywords ∧
      q.Over config t ∧ q.generation = p.generation := by
  rw [Pass.run]
  cases hresult : p.result with
  | some c =>
    obtain ⟨htext, hfull⟩ := h.found c hresult
    exact ⟨c, p, [], rfl, htext, hfull, h, rfl⟩
  | none =>
    have hleads := h.leads
    cases hedit : p.edit with
    | none =>
      rw [hedit] at hleads
      refine ⟨p.prior, { p with result := some p.prior }, [], ?_, hleads, h.full,
        h.withResult hleads h.full, rfl⟩
      dsimp only
      rw [← hedit]
    | some e =>
      rw [hedit] at hleads
      obtain ⟨next, hnext, htext, hfull⟩ := Cache.relex_of_fits h.full hleads.1
      rw [hleads.2] at htext
      refine ⟨next, { p with result := some next },
        [.relexed p.generation e next.rescanned next.tokens.length], ?_, htext, hfull,
        h.withResult htext hfull, rfl⟩
      dsimp only
      rw [h.config_eq, hnext, ← hedit]
      rfl

end Pass.Over

namespace Document

structure InStep (d : Document) : Prop where
  full : d.cache.Full d.config.keywords
  leads : LeadsTo d.pending d.cache.text d.text

/-- The second document is the first one with its cache brought up to date. -/
structure Refreshed (d next : Document) : Prop where
  config_eq : next.config = d.config
  text_eq : next.text = d.text
  generation_eq : next.generation = d.generation
  pending_eq : next.pending = none
  cached : next.cache.text = d.text
  full : next.cache.Full d.config.keywords

theorem Refreshed.inStep {d next : Document} (h : Refreshed d next) : next.InStep where
  full := h.config_eq ▸ h.full
  leads := by
    rw [h.pending_eq, h.text_eq]
    exact h.cached

theorem ofText_inStep (config : Config) (t : Text) : (ofText config t).InStep where
  full := Cache.load_full _ t
  leads := rfl

variable {d : Document}

theorem applyEdit_of_not_fits {e : Edit} (h : ¬ e.Fits d.text) :
    ∃ fault, d.applyEdit e = .error ⟨fault, d.text⟩ := by
  obtain ⟨fault, hfault⟩ := Edit.apply_of_not_fits h
  refine ⟨fault, ?_⟩
  rw [applyEdit, hfault]
  rfl

theorem InStep.startPass (h : d.InStep) : d.startPass.Over d.config d.text where
  config_eq := rfl
  full := h.full
  leads := h.leads
  found := by
    rintro c ⟨⟩

theorem InStep.applyEdit (h : d.InStep) {e : Edit} (hfit : e.Fits d.text) :
    ∃ next, d.applyEdit e = .ok next ∧ next.InStep ∧ next.config = d.config ∧
      next.text = e.result d.text ∧ next.generation = d.generation + 1 := by
  rw [Document.applyEdit, Edit.apply_of_fits hfit]
  refine ⟨_, rfl, ⟨h.full, ?_⟩, rfl, rfl, rfl⟩
  have hleads := h.leads
  cases hpending : d.pending with
  | none =>
    rw [hpending, LeadsTo] at hleads
    dsimp only
    rw [hleads]
    exact ⟨hfit, rfl⟩
  | some p =>
    rw [hpending] at hleads
    obtain ⟨hp, hresult⟩ := hleads
    rw [← hresult] at hfit
    dsimp only
    rw [← hresult]
    exact ⟨Edit.combine_fits hp hfit _, Edit.combine_result hp hfit⟩

/-- What is pending after edits is all of them folded into what was pending before. -/
theorem applyEdits_of_pending {p : Edit} {es : List Edit} (hp : d.pending = some p)
    (h : Edit.FitInTurn es d.text) :
    es.foldlM Document.applyEdit d = .ok { d with
      text := Edit.resultAll es d.text
      pending := some (p.combineAll d.text es)
      generation := d.generation + es.length } := by
  induction es generalizing d p with
  | nil =>
    rw [Edit.combineAll, ← hp]
    rfl
  | cons e es ih =>
    have hnext : d.applyEdit e = .ok { d with
        text := e.result d.text
        pending := some (p.combine e (e.result d.text))
        generation := d.generation + 1 } := by
      rw [Document.applyEdit, Edit.apply_of_fits h.1, hp]
      rfl
    rw [List.foldlM_cons, hnext, List.length_cons, Nat.add_comm es.length, ← Nat.add_assoc]
    exact ih rfl h.2

theorem replaceText_self (d : Document) : d.replaceText d.text = .ok d := by
  rw [replaceText, if_pos ((Edit.between_isEmpty_iff _ _).mpr rfl)]

theorem replaceText_of_ne (d : Document) {t : Text} (hne : t ≠ d.text) :
    d.replaceText t = d.applyEdit (Edit.between d.text t) := by
  have hempty : ¬ (Edit.between d.text t).isEmpty = true := by
    rw [Edit.between_isEmpty_iff]
    exact hne.symm
  rw [replaceText, if_neg hempty]

theorem InStep.replaceText (h : d.InStep) {t : Text} (hne : t ≠ d.text) :
    ∃ next, d.replaceText t = .ok next ∧ next.InStep ∧ next.config = d.config ∧
      next.text = t ∧ next.generation = d.generation + 1 := by
  rw [d.replaceText_of_ne hne]
  have hnext := h.applyEdit (Edit.between_fits d.text t)
  rwa [Edit.between_result] at hnext

theorem commit_of_superseded {p : Pass} (h : p.generation ≠ d.generation) :
    d.commit p = .ok (false, d, p, [.passDiscarded p.generation d.generation]) := by
  rw [commit, if_pos h]

/-- A pass of the current generation is taken over, whatever has been committed before. -/
theorem commit_of_current {p : Pass} (h : p.Over d.config d.text)
    (hgen : p.generation = d.generation) :
    ∃ next q events, d.commit p = .ok (true, next, q, events) ∧ Refreshed d next ∧
      q.Over d.config d.text ∧ q.generation = p.generation := by
  obtain ⟨c, q, events, hrun, htext, hfull, hq, hqgen⟩ := h.run
  refine ⟨{ d with cache := c, pending := none }, q, events, ?_,
    ⟨rfl, rfl, rfl, rfl, htext, hfull⟩, hq, hqgen⟩
  rw [commit, if_neg (not_not_intro hgen), hrun]
  rfl

theorem InStep.refresh (h : d.InStep) :
    ∃ next events, d.refresh = .ok (next, events) ∧ Refreshed d next := by
  rw [Document.refresh]
  cases hpending : d.pending with
  | none =>
    have hleads := h.leads
    rw [hpending] at hleads
    exact ⟨d, [], rfl, rfl, rfl, rfl, hpending, hleads, h.full⟩
  | some e =>
    obtain ⟨next, q, events, hcommit, hnext, -, -⟩ := commit_of_current h.startPass rfl
    refine ⟨next, events, ?_, hnext⟩
    rw [hcommit]
    rfl

theorem Refreshed.tokens_eq {next : Document} (h : Refreshed d next) :
    next.cache.tokens = tokenize d.config.keywords d.text := by
  rw [h.full, h.cached]

theorem Refreshed.spans_eq {next : Document} (h : Refreshed d next) :
    next.spans = highlight d.config d.text := by
  rw [spans, h.config_eq, h.tokens_eq, highlight]

end Document

end Highlighter
