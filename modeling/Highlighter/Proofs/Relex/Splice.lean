import Highlighter.Proofs.Edit.Basic
import Highlighter.Proofs.Relex.Restart

/-!
Where reading again may stop. A token past the edit is aligned if a cached token starts at the
corresponding place of the old text. From there on old and new text are the same, so the cached
tokens are those of the new text but for their places: reading stops at the first aligned token, and
what was read and what is taken over from the cache make up the whole scan.
-/

set_option autoImplicit false

namespace Highlighter

/-- Cached tokens either hold none that starts at a place, or go on from the first that does. -/
theorem dropWhile_start_cases (place : Int) (cached : List Token) :
    (cached.any (·.start = place) = false ∧ cached.dropWhile (·.start ≠ place) = []) ∨
      (cached.any (·.start = place) = true ∧ ∃ pre old post, cached = pre ++ old :: post ∧
        old.start = place ∧ cached.dropWhile (·.start ≠ place) = old :: post) := by
  induction cached with
  | nil => exact .inl ⟨rfl, rfl⟩
  | cons t cached ih =>
    by_cases h : t.start = place
    · exact .inr ⟨by simp [h], [], t, cached, rfl, h, by simp [h]⟩
    · rcases ih with ⟨hnone, hdrop⟩ | ⟨hsome, pre, old, post, rfl, hold, hdrop⟩
      · exact .inl ⟨by simpa [h] using hnone, by simpa [h] using hdrop⟩
      · exact .inr ⟨by simp [hold], t :: pre, old, post, rfl, hold, by simpa [h] using hdrop⟩

namespace Edit

/-- The token lies past the edit, and a cached token starts where it would start in the old text. -/
def aligned (e : Edit) (cached : List Token) (t : Token) : Bool :=
  e.newStop ≤ t.start && cached.any (·.start = t.start - e.delta)

variable {e : Edit} {t : Token} {cached : List Token}

theorem meet_of_not_aligned (h : e.aligned cached t = false) : e.meet t cached = none := by
  rw [meet]
  split
  · rfl
  · rename_i hpast
    rcases dropWhile_start_cases (t.start - e.delta) cached with ⟨-, hdrop⟩ | ⟨hsome, -⟩
    · rw [hdrop]
    · rw [aligned, hsome, Bool.and_true, decide_eq_false_iff_not] at h
      omega

/-- An aligned token meets a cached one that is the same token but for its place. -/
theorem meet_of_aligned (h : e.aligned cached t = true)
    (hsame : ∀ pre old post, cached = pre ++ old :: post → old.start + e.delta = t.start →
      old.shift e.delta = t) :
    ∃ pre old post, cached = pre ++ old :: post ∧ old.start + e.delta = t.start ∧
      e.meet t cached = some (old :: post) := by
  rw [aligned, Bool.and_eq_true, decide_eq_true_iff] at h
  rcases dropWhile_start_cases (t.start - e.delta) cached with
    ⟨hnone, -⟩ | ⟨-, pre, old, post, hcached, hold, hdrop⟩
  · rw [hnone] at h
    cases h.2
  · have hstart : old.start + e.delta = t.start := by omega
    have hshift := hsame pre old post hcached hstart
    refine ⟨pre, old, post, hcached, hstart, ?_⟩
    rw [meet, if_neg (by omega), hdrop]
    dsimp only
    rw [if_pos]
    rw [← hshift, Token.shift_kind, Token.shift_lexeme]
    exact ⟨rfl, rfl⟩

end Edit

section Splice

variable {k : Keywords} {e : Edit} {cached : List Token} {new : Text}

/-- From every cached token that lies past the edit, the cached tokens go on as the new text
does. -/
def GoesOn (k : Keywords) (e : Edit) (cached : List Token) (new : Text) : Prop :=
  ∀ pre old post, cached = pre ++ old :: post → e.newStop ≤ old.start + e.delta →
    (old :: post).map (Token.shift e.delta) =
      (scanFrom .default (old.start + e.delta)
        (new.drop (old.start + e.delta).toNat)).map k.classify

/-- The cached tokens from the one that an aligned token meets are, moved to their new places, what
the scan goes on with. -/
theorem GoesOn.meet_eq (hcached : GoesOn k e cached new) {t : Token} {rest : List Token}
    (hscan : (scanFrom .default t.start (new.drop t.start.toNat)).map k.classify = t :: rest)
    (hal : e.aligned cached t = true) :
    ∃ tail, e.meet t cached = some tail ∧ tail.map (Token.shift e.delta) = t :: rest := by
  have hgoes : ∀ pre old post, cached = pre ++ old :: post → old.start + e.delta = t.start →
      (old :: post).map (Token.shift e.delta) = t :: rest := by
    intro pre old post hsplit hold
    rw [Edit.aligned, Bool.and_eq_true, decide_eq_true_iff] at hal
    rw [hcached pre old post hsplit (hold ▸ hal.1), hold, hscan]
  obtain ⟨pre, old, post, hsplit, hold, hmeet⟩ := Edit.meet_of_aligned hal (by
    intro pre old post hsplit hold
    exact (List.cons.inj (hgoes pre old post hsplit hold)).1)
  exact ⟨old :: post, hmeet, hgoes pre old post hsplit hold⟩

theorem splice_of_nextToken? {place : Nat} {mode after : Mode} {u : Token}
    (h : nextToken? new place mode = some (u, after)) :
    splice k e cached new place mode =
      match e.meet (k.classify u) cached with
      | some tail => ⟨[], tail⟩
      | none =>
        let more := splice k e cached new u.stop.toNat after
        ⟨k.classify u :: more.fresh, more.tail⟩ := by
  rw [splice]
  split
  · rename_i hnone
    rw [h] at hnone
    cases hnone
  · rename_i hsome
    rw [h] at hsome
    cases hsome
    rfl

theorem splice_of_length_le {place : Nat} (h : new.length ≤ place) (mode : Mode) :
    splice k e cached new place mode = ⟨[], []⟩ := by
  rw [splice]
  split
  · rfl
  · rename_i hsome
    rw [nextToken?_eq_none_iff.mpr h] at hsome
    cases hsome

/-- What is read again are the tokens in front of the first aligned one, and the tokens taken over
from the cache are, moved to their new places, the tokens from that one on. -/
theorem splice_eq (hcached : GoesOn k e cached new) (pos : Nat) {tokens : List Token}
    (htokens : tokens = (scanFrom .default pos (new.drop pos)).map k.classify) :
    (splice k e cached new pos .default).fresh = tokens.takeWhile (!e.aligned cached ·) ∧
      (splice k e cached new pos .default).tail.map (Token.shift e.delta) =
        tokens.dropWhile (!e.aligned cached ·) := by
  generalize hs : new.drop pos = s at htokens
  induction s using Text.drop_induction generalizing pos tokens with
  | nil =>
    rw [htokens, scanFrom_nil, splice_of_length_le (List.drop_eq_nil_iff.mp hs)]
    exact ⟨rfl, rfl⟩
  | cons c s ih =>
    have hpos := Reading.fresh_length_pos c s
    have hmore := ih _ hpos _ (by rw [← List.drop_drop, hs]) rfl
    rw [Int.natCast_add] at hmore
    rw [scanFrom_cons, List.map_cons, Reading.front] at htokens
    rw [splice_of_nextToken? (nextToken?_of_drop .default hs), Reading.front, Reading.token_stop,
      ← Int.natCast_add, Int.toNat_natCast]
    generalize ht : k.classify ((Reading.fresh c s).token pos (c :: s)) = t at htokens
    have hstart : t.start = pos := by rw [← ht, k.classify_start, Reading.token_start]
    dsimp only
    cases hal : e.aligned cached t with
    | false =>
      rw [Edit.meet_of_not_aligned hal, htokens]
      simpa [hal] using hmore
    | true =>
      have hscan :
          (scanFrom .default t.start (new.drop t.start.toNat)).map k.classify = tokens := by
        rw [htokens, hstart, Int.toNat_natCast, hs, scanFrom_cons, List.map_cons,
          Reading.front, ht]
      rw [htokens] at hscan ⊢
      obtain ⟨tail, hmeet, htail⟩ := hcached.meet_eq hscan hal
      rw [hmeet, htail]
      simp [hal]

end Splice

end Highlighter
