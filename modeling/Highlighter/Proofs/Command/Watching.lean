import Highlighter.Command.Watch
import Highlighter.Proofs.Command.Delivery
import Highlighter.Proofs.Command.Reading
import Highlighter.Proofs.Document.InStep

/-!
What a watch shows. The document that a watch keeps is in step with what was read last, and so the
output of a poll is the one that highlighting the input from scratch would give. A watch that keeps
no document at all, but only when the input had changed, would show the same. What a poll shows is
what it writes.
-/

set_option autoImplicit false

namespace Highlighter

namespace Look

/-- What a poll shows that keeps no document, and when the input had changed. Before the poll this
was `seen`. -/
def shown (o : Options) (seen : Stamp) : Look → Except Fault (Option Text × Stamp)
  | missing => .ok (none, seen)
  | found stamp content =>
    if stamp = seen then .ok (none, seen)
    else
      match content with
      | .error (.os _) => .ok (none, stamp)
      | .error fault => .error fault
      | .ok t => do return (some (← o.highlight t), stamp)

/-- What polls show that keep no document, up to a fault that stops them. -/
def shownAll (o : Options) (seen : Stamp) : List Look → List (Option Text) × Option Fault
  | [] => ([], none)
  | l :: ls =>
    match l.shown o seen with
    | .error fault => ([], some fault)
    | .ok (output, seen) =>
      let (later, fault) := shownAll o seen ls
      (output :: later, fault)

variable {o : Options} {seen stamp : Stamp}

theorem shown_of_seen (o : Options) (seen : Stamp) (content : Except Fault Text) :
    (found seen content).shown o seen = .ok (none, seen) := if_pos rfl

theorem shown_of_unreadable (hne : stamp ≠ seen) (e : OsError) :
    (found stamp (.error (.os e))).shown o seen = .ok (none, stamp) := if_neg hne

theorem shown_of_fault (hne : stamp ≠ seen) {fault : Fault} (hfault : ∀ e, fault ≠ .os e) :
    (found stamp (.error fault)).shown o seen = .error fault := by
  cases fault with
  | os e => exact absurd rfl (hfault e)
  | encoding _ | color _ | edit _ => exact if_neg hne

theorem shown_of_text (hne : stamp ≠ seen) (t : Text) :
    (found stamp (.ok t)).shown o seen =
      (o.highlight t).map fun output => (some output, stamp) := by
  rw [shown, if_neg hne]
  cases o.highlight t <;> rfl

/-- What a poll can do: it sees nothing new, it sees that the input cannot be read, or it reads a
text and shows it highlighted. -/
theorem shown_cases {next : Stamp} {l : Look} {output : Option Text}
    (h : l.shown o seen = .ok (output, next)) :
    (output = none ∧ next = seen ∧ ∀ stamp content, l = .found stamp content → stamp = seen) ∨
      (output = none ∧ next ≠ seen ∧ ∃ e, l = .found next (.error (.os e))) ∨
      next ≠ seen ∧ ∃ t text, l = .found next (.ok t) ∧ o.highlight t = .ok text ∧
        output = some text := by
  cases l with
  | missing =>
    cases h
    exact .inl ⟨rfl, rfl, by rintro _ _ ⟨⟩⟩
  | found stamp content =>
    by_cases hseen : stamp = seen
    · rw [hseen, shown_of_seen] at h
      cases h
      refine .inl ⟨rfl, rfl, ?_⟩
      rintro _ _ ⟨⟩
      exact hseen
    · cases content with
      | error fault =>
        cases fault with
        | os e =>
          rw [shown_of_unreadable hseen] at h
          cases h
          exact .inr (.inl ⟨rfl, hseen, e, rfl⟩)
        | encoding _ | color _ | edit _ =>
          rw [shown_of_fault hseen (by simp)] at h
          cases h
      | ok t =>
        rw [shown_of_text hseen] at h
        cases hhighlight : o.highlight t with
        | error fault =>
          rw [hhighlight] at h
          cases h
        | ok text =>
          rw [hhighlight] at h
          cases h
          exact .inr (.inr ⟨hseen, t, text, rfl, hhighlight, rfl⟩)

/-- Only a text that is read is shown, and it is shown highlighted. -/
theorem exists_of_shown {next : Stamp} {l : Look} {output : Text}
    (h : l.shown o seen = .ok (some output, next)) :
    ∃ stamp t, l = .found stamp (.ok t) ∧ o.highlight t = .ok output := by
  obtain ⟨⟨⟩, -⟩ | ⟨⟨⟩, -⟩ | ⟨-, t, text, hl, ht, ⟨⟩⟩ := shown_cases h
  exact ⟨next, t, hl, ht⟩

theorem exists_of_shownAll {looks : List Look} {i : Nat} {output : Text}
    (h : (shownAll o seen looks).1[i]? = some (some output)) :
    ∃ stamp t, looks[i]? = some (.found stamp (.ok t)) ∧ o.highlight t = .ok output := by
  induction looks generalizing seen i with
  | nil => cases h
  | cons l ls ih =>
    rw [shownAll] at h
    cases hshown : l.shown o seen with
    | error fault =>
      rw [hshown] at h
      cases h
    | ok next =>
      obtain ⟨first, next⟩ := next
      rw [hshown] at h
      cases i with
      | zero =>
        obtain rfl := Option.some.inj h
        obtain ⟨stamp, t, rfl, ht⟩ := exists_of_shown hshown
        exact ⟨stamp, t, rfl, ht⟩
      | succ i => exact ih h

end Look

namespace Watch

/-- What polls show, one after the other, up to a fault that stops them. -/
def outputs (o : Options) (w : Watch) : List Look → List (Option Text) × Option Fault
  | [] => ([], none)
  | l :: ls =>
    match w.poll o l with
    | .error fault => ([], some fault)
    | .ok p =>
      let (later, fault) := outputs o p.watch ls
      (p.output :: later, fault)

/-- What polls do, one after the other, each with its fault, if any; a fault stops them. Before each
poll the effects are given anew, as files may have changed. -/
def steps (o : Options) (w : Watch) : List Effects → List (Effects × Option Fault)
  | [] => []
  | x :: xs =>
    match w.step o x with
    | (y, .error fault) => [(y, some fault)]
    | (y, .ok next) => (y, none) :: steps o next xs

/-- What every watch keeps: its document is one for these options, and in step. -/
def Sound (o : Options) (w : Watch) : Prop :=
  ∀ d, w.document = some d → d.config = o.config ∧ d.InStep

variable {o : Options} {w : Watch} {stamp : Stamp}

theorem start_sound (o : Options) : Sound o {} := by
  intro d hd
  cases hd

theorem sound_of_document {d : Document} (hconfig : d.config = o.config) (hd : d.InStep)
    (stamp : Stamp) : Sound o ⟨some d, stamp⟩ := by
  rintro _ ⟨⟩
  exact ⟨hconfig, hd⟩

/-- The text that was read becomes that of the document, by an edit if there is a document. -/
theorem Sound.update_eq_refresh (h : w.Sound o) (t : Text) :
    ∃ d : Document, w.update o t = d.refresh ∧ d.config = o.config ∧ d.InStep ∧ d.text = t := by
  rw [Watch.update]
  cases hdocument : w.document with
  | none => exact ⟨_, rfl, rfl, Document.ofText_inStep _ t, rfl⟩
  | some d =>
    obtain ⟨hconfig, hd⟩ := h d hdocument
    dsimp only
    by_cases hsame : t = d.text
    · subst hsame
      rw [Document.replaceText_self]
      exact ⟨d, rfl, hconfig, hd, rfl⟩
    · obtain ⟨next, hnext, hstep, hconfig', htext, -⟩ := hd.replaceText hsame
      rw [hnext]
      exact ⟨next, rfl, hconfig'.trans hconfig, hstep, htext⟩

theorem Sound.update (h : w.Sound o) (t : Text) :
    ∃ d events, w.update o t = .ok (d, events) ∧ d.config = o.config ∧ d.InStep ∧ d.text = t ∧
      d.cache.tokens = tokenize o.config.keywords t := by
  obtain ⟨d, hd, hconfig, hstep, rfl⟩ := h.update_eq_refresh t
  obtain ⟨next, events, hrefresh, hnext⟩ := hstep.refresh
  refine ⟨next, events, hd.trans hrefresh, hnext.config_eq.trans hconfig, hnext.inStep,
    hnext.text_eq, ?_⟩
  rw [hnext.tokens_eq, hconfig]

theorem poll_of_seen (o : Options) (w : Watch) (content : Except Fault Text) :
    w.poll o (.found w.lastSeen content) = .ok { watch := w } := if_pos rfl

theorem poll_of_unreadable (hne : stamp ≠ w.lastSeen) (e : OsError) :
    w.poll o (.found stamp (.error (.os e))) =
      .ok { watch := { w with lastSeen := stamp }, complaint := some e } := if_neg hne

theorem poll_of_fault (hne : stamp ≠ w.lastSeen) {fault : Fault} (hfault : ∀ e, fault ≠ .os e) :
    w.poll o (.found stamp (.error fault)) = .error fault := by
  cases fault with
  | os e => exact absurd rfl (hfault e)
  | encoding _ | color _ | edit _ => exact if_neg hne

/-- A text that is read anew is shown as if it were the first. -/
theorem Sound.poll_of_text (h : w.Sound o) (hne : stamp ≠ w.lastSeen) (t : Text) :
    ∃ d events, d.config = o.config ∧ d.InStep ∧
      w.poll o (.found stamp (.ok t)) = (o.highlight t).map fun output =>
        { watch := ⟨some d, stamp⟩, output := some output, events } := by
  obtain ⟨d, events, hupdate, hconfig, hstep, htext, htokens⟩ := h.update t
  refine ⟨d, events, hconfig, hstep, ?_⟩
  rw [Watch.poll, if_neg hne, hupdate, Options.highlight, ← htokens, ← htext]
  dsimp only [mapError_ok, bind, Except.bind]
  cases o.render d.text d.cache.tokens <;> rfl

/-- What a poll shows can be told from the look alone, and the watch stays sound. -/
theorem Sound.poll (h : w.Sound o) (l : Look) :
    (w.poll o l).map (fun p => (p.output, p.watch.lastSeen)) = l.shown o w.lastSeen ∧
      ∀ p, w.poll o l = .ok p → p.watch.Sound o := by
  cases l with
  | missing =>
    refine ⟨rfl, ?_⟩
    rintro p ⟨⟩
    exact h
  | found stamp content =>
    by_cases hseen : stamp = w.lastSeen
    · subst hseen
      rw [poll_of_seen, Look.shown_of_seen]
      refine ⟨rfl, ?_⟩
      rintro p ⟨⟩
      exact h
    · cases content with
      | error fault =>
        cases fault with
        | os e =>
          rw [poll_of_unreadable hseen, Look.shown_of_unreadable hseen]
          refine ⟨rfl, ?_⟩
          rintro p ⟨⟩
          exact h
        | encoding _ | color _ | edit _ =>
          rw [poll_of_fault hseen (by simp), Look.shown_of_fault hseen (by simp)]
          refine ⟨rfl, ?_⟩
          rintro p ⟨⟩
      | ok t =>
        obtain ⟨d, events, hconfig, hstep, hpoll⟩ := h.poll_of_text hseen t
        rw [hpoll, Look.shown_of_text hseen]
        cases o.highlight t with
        | error fault =>
          refine ⟨rfl, ?_⟩
          rintro p ⟨⟩
        | ok output =>
          refine ⟨rfl, ?_⟩
          rintro p ⟨⟩
          exact sound_of_document hconfig hstep stamp

theorem Sound.outputs_eq (h : w.Sound o) (looks : List Look) :
    outputs o w looks = Look.shownAll o w.lastSeen looks := by
  induction looks generalizing w with
  | nil => rfl
  | cons l ls ih =>
    obtain ⟨hshown, hsound⟩ := h.poll l
    rw [outputs, Look.shownAll, ← hshown]
    cases hpoll : w.poll o l with
    | error fault => rfl
    | ok p =>
      dsimp only [Except.map]
      rw [ih (hsound p hpoll)]

theorem readInput_of_look {files : Files} {content : Except Fault Text}
    (h : look o files = .found stamp content) : o.readInput files = content := by
  unfold look at h
  split at h
  · cases h
  · exact (Look.found.inj h).2

theorem output_of_complaint {l : Look} {p : Poll} {e : OsError} (hpoll : w.poll o l = .ok p)
    (hcomplaint : p.complaint = some e) : p.output = none := by
  cases l with
  | missing =>
    cases hpoll
    rfl
  | found stamp content =>
    by_cases hseen : stamp = w.lastSeen
    · rw [hseen, poll_of_seen] at hpoll
      cases hpoll
      rfl
    · unfold Watch.poll at hpoll
      dsimp only at hpoll
      rw [if_neg hseen] at hpoll
      split at hpoll
      · cases hpoll
        rfl
      · cases hpoll
      · dsimp only [bind, Except.bind] at hpoll
        split at hpoll
        · cases hpoll
        · split at hpoll
          · cases hpoll
          · cases hpoll
            cases hcomplaint

/-- How a poll ends, if what it shows has met this fault, or none. -/
def after (p : Poll) : Option Fault → Except Fault Watch
  | none => .ok p.watch
  | some fault => .error fault

/-- A poll delivers the output that it shows. -/
theorem delivered_step {x : Effects} {p : Poll} (hpoll : w.poll o (look o x.files) = .ok p) :
    ∃ fault, (w.step o x).2 = after p fault ∧
      o.Delivered x.written p.output (w.step o x).1.written fault := by
  rw [step, hpoll]
  dsimp only
  cases hcomplaint : p.complaint with
  | some e =>
    rw [output_of_complaint hpoll hcomplaint]
    refine ⟨none, rfl, ?_⟩
    simpa using Options.Delivered.nothing
  | none =>
    cases p.output with
    | none =>
      refine ⟨none, rfl, ?_⟩
      simpa using Options.Delivered.nothing
    | some output =>
      have hdelivered := o.delivered_deliver (x.log o p.events) output
      rw [Effects.written_log] at hdelivered
      dsimp only
      cases hdeliver : o.deliver (x.log o p.events) output with
      | mk y fault =>
        rw [hdeliver] at hdelivered
        refine ⟨fault, ?_⟩
        cases fault with
        | none => exact ⟨rfl, by simpa using hdelivered⟩
        | some fault => exact ⟨rfl, hdelivered⟩

theorem step_of_poll_error {x : Effects} {fault : Fault}
    (hpoll : w.poll o (look o x.files) = .error fault) : w.step o x = (x, .error fault) := by
  rw [step, hpoll]

theorem steps_of_error {x y : Effects} {fault : Fault} (hstep : w.step o x = (y, .error fault))
    (xs : List Effects) : steps o w (x :: xs) = [(y, some fault)] := by
  rw [steps, hstep]

theorem steps_of_ok {x y : Effects} {next : Watch} (hstep : w.step o x = (y, .ok next))
    (xs : List Effects) : steps o w (x :: xs) = (y, none) :: steps o next xs := by
  rw [steps, hstep]

/-- A poll delivers what it shows, or it is the one at which a fault stops what is shown, and then
it writes nothing. -/
theorem delivered_steps {xs : List Effects} {i : Nat} {x y : Effects} {fault : Option Fault}
    (hx : xs[i]? = some x) (hy : (steps o w xs)[i]? = some (y, fault)) :
    let shown := outputs o w (xs.map fun x => look o x.files)
    (∃ output, shown.1[i]? = some output ∧ o.Delivered x.written output y.written fault) ∨
      shown.1[i]? = none ∧ fault ≠ none ∧ fault = shown.2 ∧ y.written = x.written := by
  induction xs generalizing w i with
  | nil => cases hx
  | cons x' xs ih =>
    dsimp only at ih ⊢
    rw [List.map_cons, outputs]
    cases hpoll : w.poll o (look o x'.files) with
    | error f =>
      rw [steps_of_error (step_of_poll_error hpoll)] at hy
      cases i with
      | zero =>
        cases hx
        cases hy
        exact .inr ⟨rfl, by simp, rfl, rfl⟩
      | succ i => cases hy
    | ok p =>
      obtain ⟨f, hafter, hdelivered⟩ := delivered_step hpoll
      have hstep : w.step o x' = ((w.step o x').1, after p f) := Prod.ext rfl hafter
      cases f with
      | some f =>
        rw [steps_of_error hstep] at hy
        cases i with
        | zero =>
          cases hx
          cases hy
          exact .inl ⟨_, rfl, hdelivered⟩
        | succ i => cases hy
      | none =>
        rw [steps_of_ok hstep] at hy
        cases i with
        | zero =>
          cases hx
          cases hy
          exact .inl ⟨_, rfl, hdelivered⟩
        | succ i => exact ih hx hy

/-- If no fault stops what is shown, every poll delivers what it shows. -/
theorem delivered_of_shown {xs : List Effects} {i : Nat} {x y : Effects} {fault : Option Fault}
    (hshown : (outputs o w (xs.map fun x => look o x.files)).2 = none)
    (hx : xs[i]? = some x) (hy : (steps o w xs)[i]? = some (y, fault)) :
    ∃ output, (outputs o w (xs.map fun x => look o x.files)).1[i]? = some output ∧
      o.Delivered x.written output y.written fault := by
  rcases delivered_steps hx hy with hdelivered | ⟨-, hfault, hsome, -⟩
  · exact hdelivered
  · exact absurd (hsome.trans hshown) hfault

theorem highlightInput_of_look {files : Files} {t text : Text}
    (hlook : look o files = .found stamp (.ok t)) (ht : o.highlight t = .ok text) :
    o.highlightInput files = .ok text :=
  Options.highlightInput_eq_ok_iff.mpr ⟨t, readInput_of_look hlook, ht⟩

/-- Polls show what they would if no document were kept: each text that is read because the input
has changed, highlighted from scratch. And what a poll shows it writes: the output for the input as
it is then comes to stand where it is to go, unless it cannot be put there. -/
theorem outputs_eq_highlight (o : Options) :
    (∀ looks, outputs o {} looks = Look.shownAll o (.set 0) looks) ∧
      (∀ (looks : List Look) (i : Nat) (output : Text),
        (outputs o {} looks).1[i]? = some (some output) →
        ∃ stamp t, looks[i]? = some (.found stamp (.ok t)) ∧ o.highlight t = .ok output) ∧
      ∀ (xs : List Effects) (i : Nat) (x y : Effects) (fault : Option Fault),
        xs[i]? = some x → (steps o {} xs)[i]? = some (y, fault) →
        let shown := outputs o {} (xs.map fun x => look o x.files)
        (∃ output, shown.1[i]? = some output ∧ o.Delivered x.written output y.written fault ∧
          ∀ text, output = some text → o.highlightInput x.files = .ok text) ∨
          shown.1[i]? = none ∧ fault ≠ none ∧ fault = shown.2 ∧ y.written = x.written := by
  have hall := (start_sound o).outputs_eq
  refine ⟨hall, ?_, ?_⟩
  · intro looks i output houtput
    rw [hall] at houtput
    exact Look.exists_of_shownAll houtput
  · intro xs i x y fault hx hy
    rcases delivered_steps hx hy with ⟨output, houtput, hdelivered⟩ | hstopped
    · refine .inl ⟨output, houtput, hdelivered, ?_⟩
      rintro text rfl
      rw [hall] at houtput
      obtain ⟨stamp, t, hlook, ht⟩ := Look.exists_of_shownAll houtput
      rw [List.getElem?_map, hx] at hlook
      exact highlightInput_of_look (Option.some.inj hlook) ht
    · exact .inr hstopped

end Watch

end Highlighter
