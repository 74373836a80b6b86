import Highlighter.Proofs.Document.InStep

/-!
Sessions: a document and all passes that were started on it, and what comes of any sequence of
requests. At every time the text is the first one with the successful edits applied in order, the
generation is their number, and a pass is taken over exactly if none of them came after its start.
-/

set_option autoImplicit false

namespace Highlighter

/-- What a client asks of a document. Passes have numbers, in the order in which they start. -/
inductive Request where
  | edit (e : Edit)
  | replace (t : Text)
  | start
  | run (pass : Nat)
  | commit (pass : Nat)
  | refresh
  | tokens
  | spans

inductive Answer where
  | generation (n : Nat)
  | started (pass : Nat)
  | cache (c : Cache)
  | committed (taken : Bool)
  | tokens (ts : List Token)
  | spans (ss : List Span)
  /-- There is no pass with this number yet. -/
  | noPass

structure Session where
  document : Document
  passes : List Pass

namespace Session

def ofText (config : Config) (t : Text) : Session := ⟨Document.ofText config t, []⟩

def attempt (s : Session) : Request → Except EditError (Session × Answer)
  | .edit e => do
    let d ← s.document.applyEdit e
    return ({ s with document := d }, .generation d.generation)
  | .replace t => do
    let d ← s.document.replaceText t
    return ({ s with document := d }, .generation d.generation)
  | .start =>
    return ({ s with passes := s.passes ++ [s.document.startPass] }, .started s.passes.length)
  | .run i =>
    match s.passes[i]? with
    | none => return (s, .noPass)
    | some p => do
      let (c, p, _) ← p.run
      return ({ s with passes := s.passes.set i p }, .cache c)
  | .commit i =>
    match s.passes[i]? with
    | none => return (s, .noPass)
    | some p => do
      let (taken, d, p, _) ← s.document.commit p
      return (⟨d, s.passes.set i p⟩, .committed taken)
  | .refresh => do
    let (d, _) ← s.document.refresh
    return ({ s with document := d }, .cache d.cache)
  | .tokens => do
    let (d, _) ← s.document.refresh
    return ({ s with document := d }, .tokens d.cache.tokens)
  | .spans => do
    let (d, _) ← s.document.refresh
    return ({ s with document := d }, .spans d.spans)

/-- The session after a request, and the answer. A request that fails leaves the session as it
was. -/
def step (s : Session) (r : Request) : Session × Except EditError Answer :=
  match s.attempt r with
  | .ok (next, a) => (next, .ok a)
  | .error err => (s, .error err)

def after (s : Session) (rs : List Request) : Session := rs.foldl (fun s r => (s.step r).1) s

end Session

/-- The edit that a request makes of a text, if it makes one and the edit is successful. -/
def Request.edit? (t : Text) : Request → Option Edit
  | .edit e => if e.Fits t then some e else none
  | .replace u => if u = t then none else some (Edit.between t u)
  | _ => none

/-- The successful edits that requests make of a text, in order. -/
def editsOf (t : Text) : List Request → List Edit
  | [] => []
  | r :: rs =>
    match r.edit? t with
    | none => editsOf t rs
    | some e => e :: editsOf (e.result t) rs

theorem editsOf_cons (t : Text) (r : Request) (rs : List Request) :
    editsOf t (r :: rs) =
      (r.edit? t).toList ++ editsOf (Edit.resultAll (r.edit? t).toList t) rs := by
  rw [editsOf]
  cases r.edit? t <;> rfl

/-- The pass was started on the document, now or before. If no edit has come since, it is a pass
over the current text. -/
def Pass.StartedOn (d : Document) (p : Pass) : Prop :=
  p.generation ≤ d.generation ∧
    ∃ t, p.Over d.config t ∧ (p.generation = d.generation → t = d.text)

namespace Session

/-- What every session keeps. -/
structure Sound (config : Config) (s : Session) : Prop where
  config_eq : s.document.config = config
  inStep : s.document.InStep
  started : ∀ p ∈ s.passes, p.StartedOn s.document

/-- One session becomes another while successful edits are made. -/
structure Advances (s : Session) (es : List Edit) (next : Session) : Prop where
  text_eq : next.document.text = Edit.resultAll es s.document.text
  generation_eq : next.document.generation = s.document.generation + es.length
  passes : ∀ (i : Nat) (p : Pass), s.passes[i]? = some p →
    ∃ q : Pass, next.passes[i]? = some q ∧ q.generation = p.generation

namespace Advances

variable {s m n : Session} {es fs : List Edit}

theorem refl (s : Session) : s.Advances [] s := ⟨rfl, rfl, fun _ p hp => ⟨p, hp, rfl⟩⟩

theorem trans (h : s.Advances es m) (h' : m.Advances fs n) : s.Advances (es ++ fs) n where
  text_eq := by rw [h'.text_eq, h.text_eq, Edit.resultAll, Edit.resultAll, Edit.resultAll,
    List.foldl_append]
  generation_eq := by
    rw [h'.generation_eq, h.generation_eq, List.length_append, Nat.add_assoc]
  passes := by
    intro i p hp
    obtain ⟨q, hq, hqp⟩ := h.passes i p hp
    obtain ⟨r, hr, hrq⟩ := h'.passes i q hq
    exact ⟨r, hr, hrq.trans hqp⟩

/-- Only the document changes. -/
theorem ofDocument {d : Document} (htext : d.text = Edit.resultAll es s.document.text)
    (hgen : d.generation = s.document.generation + es.length) :
    s.Advances es { s with document := d } :=
  ⟨htext, hgen, fun _ p hp => ⟨p, hp, rfl⟩⟩

/-- A pass is put in the place of the same pass as it was before. -/
theorem setPass {es : List Edit} {next : Session} (h : s.Advances es next) {i : Nat} {p q : Pass}
    (hp : next.passes[i]? = some p) (hgen : q.generation = p.generation) :
    s.Advances es { next with passes := next.passes.set i q } where
  text_eq := h.text_eq
  generation_eq := h.generation_eq
  passes := by
    intro j r hr
    obtain ⟨r', hr', hgen'⟩ := h.passes j r hr
    by_cases hij : i = j
    · subst hij
      obtain ⟨hlt, -⟩ := List.getElem?_eq_some_iff.mp hp
      rw [hp, Option.some.injEq] at hr'
      subst hr'
      exact ⟨q, List.getElem?_set_self hlt, hgen.trans hgen'⟩
    · exact ⟨r', by rw [List.getElem?_set_ne hij]; exact hr', hgen'⟩

end Advances

/-- A document in the place of the current one changes nothing for the passes if it is a later one,
or the same but for its cache. -/
theorem startedOn_of_later {d next : Document} {p : Pass} (h : p.StartedOn d)
    (hconfig : next.config = d.config)
    (hlater : next.text = d.text ∧ next.generation = d.generation ∨
      next.generation = d.generation + 1) : p.StartedOn next := by
  obtain ⟨hle, t, hover, hcurrent⟩ := h
  rw [← hconfig] at hover
  rcases hlater with ⟨htext, hgen⟩ | hgen
  · refine ⟨hgen ▸ hle, t, hover, fun heq => ?_⟩
    rw [htext]
    exact hcurrent (heq.trans hgen)
  · exact ⟨by omega, t, hover, fun heq => absurd heq (by omega)⟩

variable {config : Config} {s : Session}

theorem ofText_sound (config : Config) (t : Text) : (ofText config t).Sound config where
  config_eq := rfl
  inStep := Document.ofText_inStep config t
  started := by
    intro p hp
    cases hp

namespace Sound

theorem withDocument (h : s.Sound config) {d : Document} (hd : d.InStep)
    (hconfig : d.config = s.document.config)
    (hlater : d.text = s.document.text ∧ d.generation = s.document.generation ∨
      d.generation = s.document.generation + 1) :
    Sound config { s with document := d } where
  config_eq := hconfig.trans h.config_eq
  inStep := hd
  started := fun p hp => startedOn_of_later (h.started p hp) hconfig hlater

theorem setPass (h : s.Sound config) {p : Pass} (hp : p.StartedOn s.document) (i : Nat) :
    Sound config { s with passes := s.passes.set i p } where
  config_eq := h.config_eq
  inStep := h.inStep
  started := by
    intro q hq
    rcases List.mem_or_eq_of_mem_set hq with hq | rfl
    · exact h.started q hq
    · exact hp

theorem refreshed (h : s.Sound config) {d : Document} (hd : Document.Refreshed s.document d) :
    Sound config { s with document := d } ∧ s.Advances [] { s with document := d } :=
  ⟨h.withDocument hd.inStep hd.config_eq (.inl ⟨hd.text_eq, hd.generation_eq⟩),
    .ofDocument hd.text_eq hd.generation_eq⟩

/-- What a request comes to that is not an edit that does not fit: it does not fail, and what every
session keeps is kept. -/
def Succeeds (config : Config) (s : Session) (r : Request) : Prop :=
  ∃ next a, s.attempt r = .ok (next, a) ∧ next.Sound config ∧
    s.Advances (r.edit? s.document.text).toList next

theorem succeeds_edit (h : s.Sound config) {e : Edit} (hfit : e.Fits s.document.text) :
    Succeeds config s (.edit e) := by
  obtain ⟨d, hd, hstep, hconfig, htext, hgen⟩ := h.inStep.applyEdit hfit
  refine ⟨{ s with document := d }, .generation d.generation, ?_,
    h.withDocument hstep hconfig (.inr hgen), ?_⟩
  · rw [attempt, hd]
    rfl
  · rw [Request.edit?, if_pos hfit]
    exact .ofDocument htext hgen

theorem succeeds_replace (h : s.Sound config) (t : Text) : Succeeds config s (.replace t) := by
  by_cases hsame : t = s.document.text
  · refine ⟨s, .generation s.document.generation, ?_, h, ?_⟩
    · rw [attempt, hsame, Document.replaceText_self]
      rfl
    · rw [Request.edit?, if_pos hsame]
      exact .refl s
  · obtain ⟨d, hd, hstep, hconfig, htext, hgen⟩ := h.inStep.replaceText hsame
    refine ⟨{ s with document := d }, .generation d.generation, ?_,
      h.withDocument hstep hconfig (.inr hgen), ?_⟩
    · rw [attempt, hd]
      rfl
    · rw [Request.edit?, if_neg hsame]
      refine .ofDocument ?_ hgen
      rw [htext]
      exact (Edit.between_result _ _).symm

theorem succeeds_start (h : s.Sound config) : Succeeds config s .start := by
  refine ⟨{ s with passes := s.passes ++ [s.document.startPass] }, .started s.passes.length, rfl,
    ⟨h.config_eq, h.inStep, ?_⟩, ⟨rfl, rfl, ?_⟩⟩
  · intro p hp
    rcases List.mem_append.mp hp with hp | hp
    · exact h.started p hp
    · rw [List.mem_singleton.mp hp]
      exact ⟨Nat.le_refl _, _, h.inStep.startPass, fun _ => rfl⟩
  · intro i p hp
    obtain ⟨hlt, -⟩ := List.getElem?_eq_some_iff.mp hp
    exact ⟨p, by rw [List.getElem?_append_left hlt]; exact hp, rfl⟩

theorem succeeds_run (h : s.Sound config) (i : Nat) : Succeeds config s (.run i) := by
  cases hi : s.passes[i]? with
  | none => exact ⟨s, .noPass, by rw [attempt, hi]; rfl, h, .refl s⟩
  | some p =>
    obtain ⟨hle, t, hover, hcurrent⟩ := h.started p (List.mem_of_getElem? hi)
    obtain ⟨c, q, events, hrun, -, -, hq, hgen⟩ := hover.run
    refine ⟨{ s with passes := s.passes.set i q }, .cache c, ?_, h.setPass ?_ i,
      (Advances.refl s).setPass hi hgen⟩
    · rw [attempt, hi]
      dsimp only
      rw [hrun]
      rfl
    · rw [Pass.StartedOn, hgen]
      exact ⟨hle, t, hq, hcurrent⟩

/-- A pass of the current generation is taken over. -/
theorem attempt_commit_of_current (h : s.Sound config) {i : Nat} {p : Pass}
    (hi : s.passes[i]? = some p) (hgen : p.generation = s.document.generation) :
    ∃ d q, s.attempt (.commit i) = .ok (⟨d, s.passes.set i q⟩, .committed true) ∧
      Document.Refreshed s.document d ∧ q.StartedOn d ∧ q.generation = p.generation := by
  obtain ⟨hle, t, hover, hcurrent⟩ := h.started p (List.mem_of_getElem? hi)
  obtain rfl := hcurrent hgen
  obtain ⟨d, q, events, hcommit, hd, hq, hqgen⟩ := Document.commit_of_current hover hgen
  refine ⟨d, q, ?_, hd, ?_, hqgen⟩
  · rw [attempt, hi]
    dsimp only
    rw [hcommit]
    rfl
  · refine startedOn_of_later ?_ hd.config_eq (.inl ⟨hd.text_eq, hd.generation_eq⟩)
    exact ⟨hqgen ▸ hle, _, hq, fun _ => rfl⟩

theorem attempt_commit_of_superseded {i : Nat} {p : Pass}
    (hi : s.passes[i]? = some p) (hgen : p.generation ≠ s.document.generation) :
    s.attempt (.commit i) = .ok (⟨s.document, s.passes.set i p⟩, .committed false) := by
  rw [attempt, hi]
  dsimp only
  rw [Document.commit_of_superseded hgen]
  rfl

theorem succeeds_commit (h : s.Sound config) (i : Nat) : Succeeds config s (.commit i) := by
  cases hi : s.passes[i]? with
  | none => exact ⟨s, .noPass, by rw [attempt, hi]; rfl, h, .refl s⟩
  | some p =>
    by_cases hgen : p.generation = s.document.generation
    · obtain ⟨d, q, hattempt, hd, hq, hqgen⟩ := h.attempt_commit_of_current hi hgen
      obtain ⟨hsound, hadvances⟩ := h.refreshed hd
      exact ⟨_, _, hattempt, hsound.setPass hq i, hadvances.setPass hi hqgen⟩
    · have hp := h.started p (List.mem_of_getElem? hi)
      exact ⟨_, _, attempt_commit_of_superseded hi hgen, h.setPass hp i,
        (Advances.refl s).setPass hi rfl⟩

/-- The cache is brought up to date before it is looked at. -/
theorem attempt_of_refresh (h : s.Sound config) :
    ∃ d, Document.Refreshed s.document d ∧
      s.attempt .refresh = .ok ({ s with document := d }, .cache d.cache) ∧
      s.attempt .tokens = .ok ({ s with document := d }, .tokens d.cache.tokens) ∧
      s.attempt .spans = .ok ({ s with document := d }, .spans d.spans) := by
  obtain ⟨d, events, hrefresh, hd⟩ := h.inStep.refresh
  refine ⟨d, hd, ?_, ?_, ?_⟩
  all_goals
    rw [attempt, hrefresh]
    rfl

/-- Of all requests, only an edit that does not fit can fail. -/
theorem succeeds (h : s.Sound config) {r : Request}
    (hfit : ∀ e, r = .edit e → e.Fits s.document.text) : Succeeds config s r := by
  obtain ⟨d, hd, hrefresh, htokens, hspans⟩ := h.attempt_of_refresh
  obtain ⟨hsound, hadvances⟩ := h.refreshed hd
  cases r with
  | edit e => exact h.succeeds_edit (hfit e rfl)
  | replace t => exact h.succeeds_replace t
  | start => exact h.succeeds_start
  | run i => exact h.succeeds_run i
  | commit i => exact h.succeeds_commit i
  | refresh => exact ⟨_, _, hrefresh, hsound, hadvances⟩
  | tokens => exact ⟨_, _, htokens, hsound, hadvances⟩
  | spans => exact ⟨_, _, hspans, hsound, hadvances⟩

end Sound

end Session

end Highlighter
