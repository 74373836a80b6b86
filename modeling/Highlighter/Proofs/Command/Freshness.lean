import Highlighter.Proofs.Command.Reading
import Highlighter.Proofs.Command.Watching

/-!
Whether the last output is up to date. A watch reads the input when it sees another time of change
than before; at the start it takes the input to have changed at the time zero. A time of change is
missed if the watch has come to know it without reading the input: it is zero and there has been no
other, or the input could not be read when the time was first seen. If the time of change tells what
the input holds, the last output is the one for the input as it is unless its time of change is
missed.
-/

set_option autoImplicit false

namespace Highlighter

/-- The last of the outputs there are. -/
def lastShown (outputs : List (Option Text)) : Option Text :=
  outputs.foldl (fun last output => output <|> last) none

theorem lastShown_append (outputs : List (Option Text)) (output : Option Text) :
    lastShown (outputs ++ [output]) = (output <|> lastShown outputs) := by
  rw [lastShown, List.foldl_append]
  rfl

namespace Look

variable {o : Options} {looks rest : List Look} {last : Option Text} {seen stamp : Stamp}

/-- Polls from the start that no fault has stopped, with the last output and the time of change that
was seen last. -/
inductive Polled (o : Options) : List Look → Option Text → Stamp → Prop where
  | start : Polled o [] none (.set 0)
  | poll {looks : List Look} {last output : Option Text} {seen next : Stamp} {l : Look} :
      Polled o looks last seen → l.shown o seen = .ok (output, next) →
      Polled o (looks ++ [l]) (output <|> last) next

/-- The time of change that was seen last, if it was `seen` before. -/
def seenAfter (seen : Stamp) (looks : List Look) : Stamp :=
  looks.foldl (fun seen l => match l with | missing => seen | found stamp _ => stamp) seen

/-- The time of change that was seen last. -/
def lastSeen (looks : List Look) : Stamp := seenAfter (.set 0) looks

theorem seenAfter_append (seen : Stamp) (looks rest : List Look) :
    seenAfter seen (looks ++ rest) = seenAfter (seenAfter seen looks) rest := List.foldl_append

theorem seenAfter_of_forall (h : ∀ s content, .found s content ∈ looks → s = seen) :
    seenAfter seen looks = seen := by
  induction looks with
  | nil => rfl
  | cons l looks ih =>
    have hrest := ih fun s content hmem => h s content (List.mem_cons_of_mem l hmem)
    cases l with
    | missing => exact hrest
    | found s content =>
      obtain rfl := h s content List.mem_cons_self
      exact hrest

/-- The input was found, and it had changed at some other time than zero. -/
def Dated (looks : List Look) : Prop :=
  ∃ stamp content, .found stamp content ∈ looks ∧ stamp ≠ .set 0

theorem not_dated_nil : ¬ Dated [] := by
  rintro ⟨stamp, content, hmem, -⟩
  cases hmem

theorem dated_append_iff {l : Look} :
    Dated (looks ++ [l]) ↔
      Dated looks ∨ ∃ stamp content, l = .found stamp content ∧ stamp ≠ .set 0 := by
  constructor
  · rintro ⟨stamp, content, hmem, hne⟩
    rcases List.mem_append.mp hmem with hmem | hmem
    · exact .inl ⟨stamp, content, hmem, hne⟩
    · exact .inr ⟨stamp, content, (List.mem_singleton.mp hmem).symm, hne⟩
  · rintro (⟨stamp, content, hmem, hne⟩ | ⟨stamp, content, rfl, hne⟩)
    · exact ⟨stamp, content, List.mem_append_left _ hmem, hne⟩
    · exact ⟨stamp, content, List.mem_append_right _ List.mem_cons_self, hne⟩

/-- The time of change has been seen last, but the input has not been read at it: there has been no
time other than zero; or after another time of change, the poll that saw this one could not read the
input, and no other has been seen since. -/
inductive Missed (looks : List Look) (stamp : Stamp) : Prop where
  | undated : stamp = .set 0 → ¬ Dated looks → Missed looks stamp
  | failed {before recent : List Look} {e : OsError} :
      looks = before ++ .found stamp (.error (.os e)) :: recent → lastSeen before ≠ stamp →
      (∀ s content, .found s content ∈ recent → s = stamp) → Missed looks stamp

theorem Missed.lastSeen_eq (h : Missed looks stamp) : lastSeen looks = stamp := by
  cases h with
  | undated hzero hdated =>
    subst hzero
    refine seenAfter_of_forall fun s content hmem => ?_
    exact Classical.byContradiction fun hne => hdated ⟨s, content, hmem, hne⟩
  | @failed before recent e hlooks _ hrecent =>
    have hstays : seenAfter stamp recent = stamp := seenAfter_of_forall hrecent
    rw [hlooks, lastSeen, seenAfter_append]
    exact hstays

theorem Missed.append (h : Missed looks stamp) {l : Look}
    (hl : ∀ s content, l = .found s content → s = stamp) : Missed (looks ++ [l]) stamp := by
  cases h with
  | undated hzero hdated =>
    subst hzero
    refine .undated rfl fun hno => ?_
    obtain ⟨s, content, hfound, hne⟩ := (dated_append_iff.mp hno).resolve_left hdated
    exact hne (hl s content hfound)
  | @failed before recent e hlooks hbefore hrecent =>
    refine .failed (by rw [hlooks, List.append_assoc, List.cons_append]) hbefore ?_
    intro s content hmem
    rcases List.mem_append.mp hmem with hmem | hmem
    · exact hrecent s content hmem
    · exact hl s content (List.mem_singleton.mp hmem).symm

namespace Polled

theorem shownAll (h : Polled o looks last seen) :
    ∃ outputs, lastShown outputs = last ∧ ∀ rest, shownAll o (.set 0) (looks ++ rest) =
      (outputs ++ (Look.shownAll o seen rest).1, (Look.shownAll o seen rest).2) := by
  induction h with
  | start => exact ⟨[], rfl, fun rest => rfl⟩
  | @poll looks last output seen next l _ hshown ih =>
    obtain ⟨outputs, hlast, hall⟩ := ih
    refine ⟨outputs ++ [output], by rw [lastShown_append, hlast], fun rest => ?_⟩
    rw [List.append_assoc, List.singleton_append, hall, Look.shownAll, hshown, List.append_assoc]
    rfl

theorem lastShown_eq (h : Polled o looks last seen) :
    lastShown (Look.shownAll o (.set 0) looks).1 = last := by
  obtain ⟨outputs, hlast, hall⟩ := h.shownAll
  have hnil := hall []
  rw [List.append_nil, Look.shownAll, List.append_nil] at hnil
  rw [hnil]
  exact hlast

/-- A poll more shows one more output, or none. -/
theorem shownAll_snoc (h : Polled o looks last seen) {l : Look} {output : Option Text}
    {next : Stamp} (hshown : l.shown o seen = .ok (output, next)) :
    Look.shownAll o (.set 0) (looks ++ [l]) =
      ((Look.shownAll o (.set 0) looks).1 ++ [output], none) := by
  obtain ⟨outputs, -, hall⟩ := h.shownAll
  have hnil := hall []
  rw [List.append_nil, Look.shownAll, List.append_nil] at hnil
  rw [hall, hnil, Look.shownAll, hshown]
  rfl

theorem append (h : Polled o looks last seen) (hrest : (Look.shownAll o seen rest).2 = none) :
    ∃ last' seen', Polled o (looks ++ rest) last' seen' := by
  induction rest generalizing looks last seen with
  | nil => exact ⟨last, seen, by rwa [List.append_nil]⟩
  | cons l rest ih =>
    rw [Look.shownAll] at hrest
    cases hshown : l.shown o seen with
    | error fault =>
      rw [hshown] at hrest
      cases hrest
    | ok next =>
      rw [hshown] at hrest
      have hall := ih (h.poll hshown) hrest
      rwa [List.append_assoc, List.singleton_append] at hall

theorem seen_eq (h : Polled o looks last seen) : seen = lastSeen looks := by
  induction h with
  | start => rfl
  | @poll looks last output seen next l _ hshown ih =>
    rw [lastSeen, seenAfter_append, ← lastSeen, ← ih]
    obtain ⟨-, rfl, hold⟩ | ⟨-, -, e, rfl⟩ | ⟨-, t, text, rfl, -⟩ := shown_cases hshown
    · refine (seenAfter_of_forall ?_).symm
      intro stamp content hmem
      exact hold stamp content (List.mem_singleton.mp hmem).symm
    · rfl
    · rfl

/-- The last output is the one for a text that the input held at the time of change seen last, or
this time is missed. -/
theorem last_eq_or_missed (h : Polled o looks last seen) :
    (∃ t output, .found seen (.ok t) ∈ looks ∧ o.highlight t = .ok output ∧ last = some output) ∨
      Missed looks seen := by
  induction h with
  | start => exact .inr (.undated rfl not_dated_nil)
  | @poll looks last output seen next l hpolled hshown ih =>
    obtain ⟨rfl, rfl, hold⟩ | ⟨-, hne, e, rfl⟩ | ⟨-, t, text, rfl, ht, rfl⟩ := shown_cases hshown
    · rcases ih with ⟨t, text, hmem, ht, rfl⟩ | hmissed
      · exact .inl ⟨t, text, List.mem_append_left _ hmem, ht, rfl⟩
      · exact .inr (hmissed.append hold)
    · exact .inr (.failed rfl (hpolled.seen_eq ▸ hne.symm) (by simp))
    · exact .inl ⟨t, text, List.mem_append_right _ List.mem_cons_self, ht, rfl⟩

end Polled

theorem exists_polled (h : (shownAll o (.set 0) looks).2 = none) :
    ∃ last seen, Polled o looks last seen := by
  have hall := Polled.start.append h
  rwa [List.nil_append] at hall

end Look

namespace Watch

variable {o : Options} {looks : List Look} {stamp : Stamp} {t output : Text}

/-- When a poll finds a text, and every poll before that read a text at the same time of change read
the same one, the last output is then the one for this text, unless its time of change is missed: in
this case the poll shows nothing, and the last output stays what it was. And what polls show they
deliver. -/
theorem lastShown_eq_iff (hrun : (outputs o {} looks).2 = none)
    (hsame : ∀ t', .found stamp (.ok t') ∈ looks → t' = t)
    (hhighlight : o.highlight t = .ok output) :
    let all := looks ++ [.found stamp (.ok t)]
    (outputs o {} all).2 = none ∧
      (lastShown (outputs o {} all).1 = some output ↔
        ¬ Look.Missed looks stamp ∨ lastShown (outputs o {} looks).1 = some output) ∧
      (Look.Missed looks stamp → (outputs o {} all).1 = (outputs o {} looks).1 ++ [none]) ∧
      ∀ (xs : List Effects) (i : Nat) (x y : Effects) (fault : Option Fault),
        xs.map (fun x => look o x.files) = all →
        xs[i]? = some x → (steps o {} xs)[i]? = some (y, fault) →
        ∃ shown, (outputs o {} all).1[i]? = some shown ∧
          o.Delivered x.written shown y.written fault := by
  intro all
  have hwritten : (outputs o {} all).2 = none → ∀ (xs : List Effects) (i : Nat) (x y : Effects)
      (fault : Option Fault), xs.map (fun x => look o x.files) = all → xs[i]? = some x →
      (steps o {} xs)[i]? = some (y, fault) → ∃ shown, (outputs o {} all).1[i]? = some shown ∧
        o.Delivered x.written shown y.written fault := by
    intro hnone xs i x y fault hlooks hx hy
    rw [← hlooks] at hnone ⊢
    exact delivered_of_shown hnone hx hy
  have houtputs : ∀ looks, outputs o {} looks = Look.shownAll o (.set 0) looks :=
    (start_sound o).outputs_eq
  rw [houtputs] at hrun hwritten ⊢
  rw [houtputs]
  obtain ⟨last, seen, hpolled⟩ := Look.exists_polled hrun
  by_cases hseen : stamp = seen
  · have hafter : Look.shownAll o (.set 0) all = (_, none) :=
      hpolled.shownAll_snoc (by rw [hseen, Look.shown_of_seen])
    rw [hafter] at hwritten ⊢
    refine ⟨rfl, ?_, fun _ => rfl, hwritten rfl⟩
    have hstays := (lastShown_append (Look.shownAll o (.set 0) looks).1 none).trans
      hpolled.lastShown_eq
    rw [hstays, hpolled.lastShown_eq]
    refine ⟨.inr, ?_⟩
    rintro (hmissed | hshown)
    · rcases hpolled.last_eq_or_missed with ⟨t', output', hmem, ht', rfl⟩ | hmissed'
      · obtain rfl := hsame t' (hseen ▸ hmem)
        rw [Except.ok.inj (hhighlight.symm.trans ht')]
      · exact absurd (hseen ▸ hmissed') hmissed
    · exact hshown
  · have hafter : Look.shownAll o (.set 0) all = (_, none) :=
      hpolled.shownAll_snoc (by rw [Look.shown_of_text hseen, hhighlight]; rfl)
    have hmissed : ¬ Look.Missed looks stamp := by
      intro hmissed
      exact hseen (hmissed.lastSeen_eq.symm.trans hpolled.seen_eq.symm)
    rw [hafter] at hwritten ⊢
    refine ⟨rfl, ?_, fun h => absurd h hmissed, hwritten rfl⟩
    rw [lastShown_append]
    exact ⟨fun _ => .inl hmissed, fun _ => rfl⟩

/-- A text that was shown, a failure at another time of change, and another text at this time. -/
theorem lastShown_after_failure :
    let o := Options.forFile "a".toList .json
    let looks : List Look := [.found (.set 1) (.ok "a".toList),
      .found (.set 2) (.error (.os ⟨.isADirectory, some o.input⟩))]
    (outputs o {} looks).2 = none ∧
      (∀ t, Look.found (.set 2) (.ok t) ∈ looks → t = "true".toList) ∧
      Look.Missed looks (.set 2) ∧
      (outputs o {} (looks ++ [.found (.set 2) (.ok "true".toList)])).1 =
        (outputs o {} looks).1 ++ [none] := by
  intro o looks
  have hrun : (outputs o {} looks).2 = none := by
    rw [(start_sound o).outputs_eq]
    rfl
  have hsame : ∀ t, Look.found (.set 2) (.ok t) ∈ looks → t = "true".toList := by
    intro t hmem
    simp [looks] at hmem
  have hmissed : Look.Missed looks (.set 2) :=
    @Look.Missed.failed _ _ [.found (.set 1) (.ok "a".toList)] [] _ rfl (by decide) (by simp)
  exact ⟨hrun, hsame, hmissed, (lastShown_eq_iff hrun hsame rfl).2.2.1 hmissed⟩

/-- An input that has never had another time of change than zero is not shown, and neither is one
whose time of change is another, if it could not be read when this time was first seen. -/
theorem not_lastShown_eq_highlight :
    (¬ ∀ (o : Options) (looks : List Look) (stamp : Stamp) (t output : Text),
      (outputs o {} looks).2 = none →
      (∀ content, .found stamp content ∈ looks → content = .ok t) →
      o.highlight t = .ok output →
      lastShown (outputs o {} (looks ++ [.found stamp (.ok t)])).1 = some output) ∧
    ¬ ∀ (o : Options) (looks : List Look) (stamp : Stamp) (t output : Text),
      stamp ≠ .set 0 → (outputs o {} looks).2 = none →
      (∀ t', .found stamp (.ok t') ∈ looks → t' = t) →
      o.highlight t = .ok output →
      lastShown (outputs o {} (looks ++ [.found stamp (.ok t)])).1 = some output := by
  constructor
  · intro h
    have hnone := h (Options.forFile "a".toList .json) [] (.set 0) "true".toList _ rfl (by simp) rfl
    cases hnone
  · intro h
    have hnone := h (Options.forFile "a".toList .json)
      [.found (.set 2) (.error (.os ⟨.isADirectory, none⟩))] (.set 2) "true".toList _ (by decide)
      rfl (by simp) rfl
    cases hnone

end Watch

end Highlighter
