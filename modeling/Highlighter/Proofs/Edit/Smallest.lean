import Highlighter.Proofs.Document.InStep

/-!
The edit between two texts is the smallest one that leads from the one to the other. Every such edit
leaves a common beginning and a common end alone. The longest common beginning is taken first, so
that another edit may leave more of a common end; but then nothing of the shorter text is left over
between what is taken.
-/

set_option autoImplicit false

namespace Highlighter

namespace Text

theorem le_commonPrefix {s t : Text} {n : Nat} (hs : n ≤ s.length) (ht : n ≤ t.length)
    (h : s.take n = t.take n) : n ≤ commonPrefix s t := by
  induction s generalizing t n with
  | nil => exact hs
  | cons a s ih =>
    cases n with
    | zero => exact Nat.zero_le _
    | succ n =>
      cases t with
      | nil => simp at ht
      | cons b t =>
        simp only [List.take_succ_cons, List.cons.injEq] at h
        rw [commonPrefix, if_pos h.1]
        apply Nat.succ_le_succ
        exact ih (Nat.le_of_succ_le_succ hs) (Nat.le_of_succ_le_succ ht) h.2

theorem le_commonPrefix_reverse {s t : Text} {n : Nat} (hs : n ≤ s.length) (ht : n ≤ t.length)
    (h : s.drop (s.length - n) = t.drop (t.length - n)) :
    n ≤ commonPrefix s.reverse t.reverse := by
  apply le_commonPrefix
  · simpa using hs
  · simpa using ht
  · rw [List.take_reverse, List.take_reverse, h]

end Text

namespace Edit

variable {e : Edit} {old new : Text}

theorem start_le_front (h : e.Fits old) : e.start ≤ old.commonPrefix (e.result old) := by
  have hlength := length_result h
  have hdelta : e.delta = e.text.length - (e.stop - e.start) := rfl
  obtain ⟨hstart, hle, hstop⟩ := h
  have hfront : e.start.toNat ≤ old.commonPrefix (e.result old) := by
    apply Text.le_commonPrefix
    · omega
    · omega
    · exact (take_result ⟨hstart, hle, hstop⟩ (Int.le_refl _)).symm
  omega

/-- An end of the old text behind an edit is an end of the new one. -/
theorem drop_length_result (h : e.Fits old) {n : Nat} (hn : n ≤ old.length - e.stop) :
    (e.result old).drop ((e.result old).length - n) = old.drop (old.length - n) := by
  have hlength := length_result h
  have hnew := e.newStop_eq
  have hstart := e.start_le_newStop
  have hpos := h.start_nonneg
  have hdrop := drop_result h (i := ((e.result old).length : Int) - n) (by omega)
  have hto : (((e.result old).length : Int) - n).toNat = (e.result old).length - n := by omega
  have hfrom : (((e.result old).length : Int) - n - e.delta).toNat = old.length - n := by omega
  rwa [hto, hfrom] at hdrop

theorem le_backLength (h : e.Fits old) {n : Nat} (hn : n ≤ old.length - e.stop)
    (hold : old.commonPrefix (e.result old) + n ≤ old.length)
    (hnew : old.commonPrefix (e.result old) + n ≤ (e.result old).length) :
    n ≤ backLength old (e.result old) := by
  have hdrop := drop_length_result h hn
  generalize e.result old = new at hdrop hold hnew
  have ho : old.commonPrefix new + (old.length - old.commonPrefix new - n) = old.length - n := by
    omega
  have hw : old.commonPrefix new + (new.length - old.commonPrefix new - n) = new.length - n := by
    omega
  apply Text.le_commonPrefix_reverse
  · rw [List.length_drop]
    omega
  · rw [List.length_drop]
    omega
  · rw [List.length_drop, List.length_drop, List.drop_drop, List.drop_drop, ho, hw, hdrop]

/-- The edit between two texts leaves at least as much alone as any other edit. -/
theorem kept_le (h : e.Fits old) :
    e.start + (old.length - e.stop) ≤
      (old.commonPrefix (e.result old) + backLength old (e.result old) : Int) := by
  have hlength := length_result h
  have hdelta : e.delta = e.text.length - (e.stop - e.start) := rfl
  have hfront := start_le_front h
  have hpos := h.start_nonneg
  have hle := h.start_le_stop
  have hstop := h.stop_le_length
  have hold := Text.commonPrefix_le_left old (e.result old)
  have hnew := Text.commonPrefix_le_right old (e.result old)
  -- The end that the edit leaves alone may be too long to fit behind the common beginning in the
  -- shorter text. As much of it as does fit is then taken, and nothing of that text is left.
  by_cases hroom : (old.commonPrefix (e.result old) : Int) + (old.length - e.stop) ≤
      min old.length (e.result old).length
  · have hback := le_backLength h (n := (old.length - e.stop).toNat) (by omega) (by omega)
      (by omega)
    omega
  · have hback := le_backLength h
      (n := min old.length (e.result old).length - old.commonPrefix (e.result old)) (by omega)
      (by omega) (by omega)
    omega

theorem between_le (h : e.Fits old) :
    (between old (e.result old)).stop - (between old (e.result old)).start ≤ e.stop - e.start := by
  have hkept := kept_le h
  rw [between_eq]
  dsimp only
  omega

theorem between_text_le (h : e.Fits old) :
    (between old (e.result old)).text.length ≤ e.text.length := by
  have hle := between_le h
  have hlength := length_result h
  have hlength' := length_result (between_fits old (e.result old))
  rw [between_result] at hlength'
  unfold delta at hlength hlength'
  omega

end Edit

/-- Putting another text in place of the current one never fails. -/
theorem Document.exists_replaceText (d : Document) {t : Text} (hne : t ≠ d.text) :
    ∃ next, d.replaceText t = .ok next ∧ next.text = t ∧ next.generation = d.generation + 1 := by
  rw [d.replaceText_of_ne hne, applyEdit, Edit.apply_of_fits (Edit.between_fits d.text t)]
  exact ⟨_, rfl, Edit.between_result d.text t, rfl⟩

/-- The edit between two texts fits the old one, leads to the new one and is empty if and only if
they are the same; no other edit that leads from the one to the other removes or inserts less. So a
document in which another text is put in place of the current one goes on to the next generation,
and it stays as it is if and only if the text is the current one. -/
theorem between_smallest (old new : Text) :
    let b := Edit.between old new
    b.Fits old ∧ b.apply old = .ok new ∧ (b.start = b.stop ∧ b.text = [] ↔ old = new) ∧
      (∀ e : Edit, e.Fits old → e.apply old = .ok new →
        b.stop - b.start ≤ e.stop - e.start ∧ b.text.length ≤ e.text.length) ∧
      ∀ d : Document, ∃ next, d.replaceText new = .ok next ∧
        (next.text = d.text ∧ next.generation = d.generation ∧ next.pending = d.pending ↔
          new = d.text) ∧
        (new = d.text → next = d) ∧
        (new ≠ d.text → next.text = new ∧ next.generation = d.generation + 1) := by
  intro b
  have hfits := Edit.between_fits old new
  refine ⟨hfits, ?_, ?_, ?_, ?_⟩
  · rw [Edit.apply_of_fits hfits, Edit.between_result]
  · rw [← Edit.between_isEmpty_iff old new, Edit.isEmpty, Bool.and_eq_true, decide_eq_true_iff,
      List.isEmpty_iff]
  · intro e he happly
    rw [Edit.apply_of_fits he] at happly
    obtain rfl := Except.ok.inj happly
    exact ⟨Edit.between_le he, Edit.between_text_le he⟩
  · intro d
    by_cases hnew : new = d.text
    · subst hnew
      exact ⟨d, d.replaceText_self, by simp, fun _ => rfl, fun hne => absurd rfl hne⟩
    · obtain ⟨next, hnext, htext, hgeneration⟩ := d.exists_replaceText hnew
      refine ⟨next, hnext, ?_, fun heq => absurd heq hnew, fun _ => ⟨htext, hgeneration⟩⟩
      apply iff_of_false _ hnew
      intro hsame
      exact hnew (htext.symm.trans hsame.1)

end Highlighter
