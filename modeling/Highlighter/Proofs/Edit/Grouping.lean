import Highlighter.Proofs.Document.InStep

/-!
Edits folded in groups. Neighbours may be folded in any order, as long as the edits stay in their
order: what comes out is the same edit, with the same range and the same text. So what is pending in
a document, and what a pass reads again for it, depends on the edits alone.
-/

set_option autoImplicit false

namespace Highlighter

namespace Edit

/-- Edits that come one after the other, of which neighbours are folded two by two. -/
inductive Grouping where
  | one (e : Edit)
  | join (first second : Grouping)
  deriving DecidableEq, Repr

namespace Grouping

def edits : Grouping → List Edit
  | one e => [e]
  | join g h => g.edits ++ h.edits

/-- What the edits are folded into; `t` is the text before the first of them. -/
def folded (t : Text) : Grouping → Edit
  | one e => e
  | join g h =>
    (g.folded t).combine (h.folded (resultAll g.edits t)) (resultAll (g.edits ++ h.edits) t)

theorem exists_edits_eq (g : Grouping) : ∃ e es, g.edits = e :: es := by
  induction g with
  | one e => exact ⟨e, [], rfl⟩
  | join g h ihg _ =>
    obtain ⟨e, es, hg⟩ := ihg
    exact ⟨e, es ++ h.edits, by rw [edits, hg, List.cons_append]⟩

end Grouping

section Associative

variable {a b c : Edit} {t : Text}

theorem combine_delta (ha : a.Fits t) (hb : b.Fits (a.result t)) :
    (a.combine b (b.result (a.result t))).delta = a.delta + b.delta := by
  have hlength := length_result (combine_fits ha hb (b.result (a.result t)))
  rw [combine_result ha hb, length_result hb, length_result ha] at hlength
  omega

theorem combine_newStop (ha : a.Fits t) (hb : b.Fits (a.result t)) :
    (a.combine b (b.result (a.result t))).newStop = max a.newStop b.stop + b.delta := by
  have hnew := a.newStop_eq
  rw [newStop_eq, combine_delta ha hb]
  dsimp only [combine]
  omega

/-- Whichever two of three edits are folded first, together they stop at the same place. It is told
once behind the second edit and once in front of it. -/
theorem max_combine_newStop (ha : a.Fits t) (hb : b.Fits (a.result t)) (c : Edit) (v : Text) :
    max (a.combine b (b.result (a.result t))).newStop c.stop =
      max a.newStop (b.combine c v).stop + b.delta := by
  have hnew := b.newStop_eq
  have hadd : ∀ i j : Int, max (i + b.delta) (j + b.delta) = max i j + b.delta := by
    intro i j
    omega
  have hinner : max b.newStop c.stop = (b.combine c v).stop + b.delta := by
    dsimp only [combine]
    omega
  calc max (a.combine b (b.result (a.result t))).newStop c.stop
      = max (max a.newStop b.stop + b.delta) c.stop := by rw [combine_newStop ha hb]
    _ = max (max (a.newStop + b.delta) b.newStop) c.stop := by
      rw [← hadd, ← hnew]
    _ = max (a.newStop + b.delta) (max b.newStop c.stop) := Int.max_assoc _ _ _
    _ = max (a.newStop + b.delta) ((b.combine c v).stop + b.delta) := by rw [hinner]
    _ = max a.newStop (b.combine c v).stop + b.delta := hadd _ _

/-- Of three edits the first two may be folded first, or the last two. -/
theorem combine_combine (ha : a.Fits t) (hb : b.Fits (a.result t))
    (hc : c.Fits (b.result (a.result t))) :
    (a.combine b (b.result (a.result t))).combine c (c.result (b.result (a.result t))) =
      a.combine (b.combine c (c.result (b.result (a.result t))))
        (c.result (b.result (a.result t))) := by
  have hleft := combine_newStop ha hb
  have hright := combine_delta hb hc
  have hmax := max_combine_newStop ha hb c (c.result (b.result (a.result t)))
  generalize c.result (b.result (a.result t)) = v at hright hmax ⊢
  generalize b.result (a.result t) = u at hleft hmax ⊢
  -- Of the inner edits only the range and the lengths matter: the text is cut out of `v` anew.
  have hstart : min (a.combine b u).start c.start = min a.start (b.combine c v).start :=
    Int.min_assoc _ _ _
  have hback : (a.combine b u).stop + (max (a.combine b u).newStop c.stop -
      (a.combine b u).newStop) = a.stop + (max a.newStop (b.combine c v).stop - a.newStop) := by
    rw [hmax, hleft]
    dsimp only [combine]
    omega
  have hbehind : max (a.combine b u).newStop c.stop + c.delta =
      max a.newStop (b.combine c v).stop + (b.combine c v).delta := by
    rw [hmax, hright, Int.add_assoc]
  rw [combine, hstart, hback, hbehind]
  rfl

end Associative

section Sequences

variable {e p : Edit} {es fs : List Edit} {t u : Text}

theorem resultAll_append (es fs : List Edit) (t : Text) :
    resultAll (es ++ fs) t = resultAll fs (resultAll es t) :=
  List.foldl_append

theorem fitInTurn_append_iff :
    FitInTurn (es ++ fs) t ↔ FitInTurn es t ∧ FitInTurn fs (resultAll es t) := by
  induction es generalizing t with
  | nil =>
    rw [FitInTurn, true_and]
    rfl
  | cons e es ih =>
    rw [List.cons_append, FitInTurn, FitInTurn, ih, and_assoc]
    rfl

theorem combineAll_append (p : Edit) (u : Text) (es fs : List Edit) :
    p.combineAll u (es ++ fs) = (p.combineAll u es).combineAll (resultAll es u) fs := by
  induction es generalizing p u with
  | nil => rfl
  | cons e es ih => exact ih _ _

/-- Edits may be folded into one before that one is folded into what is pending. -/
theorem combineAll_combine (hp : p.Fits t) (hu : p.result t = u) (h : FitInTurn (e :: es) u) :
    p.combineAll u (e :: es) =
      p.combine (e.combineAll (e.result u) es) (resultAll (e :: es) u) := by
  induction es generalizing e with
  | nil => rfl
  | cons f es ih =>
    subst hu
    obtain ⟨he, hf, hes⟩ := h
    have hfits := combine_fits he hf (f.result (e.result (p.result t)))
    have hresult := combine_result he hf
    have hmore := ih ⟨hfits, hresult.symm ▸ hes⟩
    rw [combineAll, resultAll, List.foldl_cons, hresult] at hmore
    rw [combineAll, combineAll, combine_combine hp he hf, hmore]
    rfl

/-- Whatever the groups are, folding them comes to folding one edit after the other. -/
theorem Grouping.folded_eq {g : Grouping} (hg : g.edits = e :: es) (h : FitInTurn (e :: es) t) :
    g.folded t = e.combineAll (e.result t) es := by
  induction g generalizing e es t with
  | one a =>
    obtain ⟨rfl, rfl⟩ := List.cons.inj hg
    rfl
  | join g₁ g₂ ih₁ ih₂ =>
    obtain ⟨a, as, h₁⟩ := g₁.exists_edits_eq
    obtain ⟨b, bs, h₂⟩ := g₂.exists_edits_eq
    rw [edits, h₁, h₂, List.cons_append] at hg
    obtain ⟨rfl, rfl⟩ := List.cons.inj hg
    rw [← List.cons_append] at h
    obtain ⟨hfront, hback⟩ := fitInTurn_append_iff.mp h
    obtain ⟨hfits, hresult⟩ := combineAll_result hfront.1 rfl hfront.2
    rw [folded, ih₁ h₁ hfront, h₁, h₂, ih₂ h₂ hback, resultAll_append, combineAll_append]
    exact (combineAll_combine hfits hresult hback).symm

end Sequences

end Edit

namespace Document

variable {d : Document} {e : Edit} {es : List Edit}

theorem applyEdits_of_none (hd : d.pending = none) (h : Edit.FitInTurn (e :: es) d.text) :
    (e :: es).foldlM applyEdit d = .ok { d with
      text := Edit.resultAll (e :: es) d.text
      pending := some (e.combineAll (e.result d.text) es)
      generation := d.generation + 1 + es.length } := by
  have hrest := applyEdits_of_pending (d := { d with
    text := e.result d.text
    pending := some e
    generation := d.generation + 1 }) rfl h.2
  rw [List.foldlM_cons, applyEdit, Edit.apply_of_fits h.1, hd]
  exact hrest

/-- A pass reads again what the edit that is pending at its start makes necessary. -/
theorem startPass_run (hd : d.pending = some e) :
    d.startPass.run.map (·.1) = d.cache.relex d.config.keywords e := by
  rw [startPass, hd, Pass.run]
  dsimp only
  cases d.cache.relex d.config.keywords e <;> rfl

end Document

namespace Edit

/-- Of three edits, each of which fits what those before it leave, the first two may be folded first
or the last two. So folding a sequence of edits gives the same edit for all ways to group it. It is
what is pending in a document after the sequence, and what a pass that is started then reads again
is what this edit makes necessary. -/
theorem combine_associative (t : Text) :
    (∀ a b c : Edit, a.Fits t → b.Fits (a.result t) → c.Fits (b.result (a.result t)) →
      let u := b.result (a.result t)
      let v := c.result u
      (a.combine b u).combine c v = a.combine (b.combine c v) v) ∧
    ∀ g : Grouping, FitInTurn g.edits t →
      (∀ g' : Grouping, g'.edits = g.edits → g'.folded t = g.folded t) ∧
      ∀ d : Document, d.text = t → d.pending = none →
        ∃ next, g.edits.foldlM Document.applyEdit d = .ok next ∧
          next.text = resultAll g.edits t ∧ next.pending = some (g.folded t) ∧
          next.startPass.run.map (·.1) = d.cache.relex d.config.keywords (g.folded t) := by
  refine ⟨fun a b c => combine_combine, fun g h => ?_⟩
  obtain ⟨e, es, hg⟩ := g.exists_edits_eq
  rw [hg] at h ⊢
  have hfolded := Grouping.folded_eq hg h
  constructor
  · intro g' hg'
    rw [hfolded, Grouping.folded_eq hg' h]
  · rintro d rfl hd
    refine ⟨_, Document.applyEdits_of_none hd h, rfl, ?_, ?_⟩
    · rw [hfolded]
    · rw [hfolded]
      exact Document.startPass_run rfl

/-- The second edit reaches over both ends of the first, and the third over the front end of what
the second has put in. -/
theorem combine_associative_overlap :
    let t := "abcdefgh".toList
    let a : Edit := ⟨3, 5, "XYZ".toList⟩
    let b : Edit := ⟨2, 7, "pq".toList⟩
    let c : Edit := ⟨1, 3, "-".toList⟩
    let u := "abpqgh".toList
    let v := "a-qgh".toList
    a.Fits t ∧ b.Fits (a.result t) ∧ c.Fits (b.result (a.result t)) ∧
      b.result (a.result t) = u ∧ c.result u = v ∧
      (a.combine b u).combine c v = a.combine (b.combine c v) v ∧
      (a.combine b u).combine c v = ⟨1, 6, "-q".toList⟩ := by
  intro t a b c u v
  have ha : a.Fits t := by decide
  have hb : b.Fits (a.result t) := by decide
  have hc : c.Fits (b.result (a.result t)) := by decide
  exact ⟨ha, hb, hc, by decide, by decide, (combine_associative t).1 a b c ha hb hc, by decide⟩

end Edit

end Highlighter
