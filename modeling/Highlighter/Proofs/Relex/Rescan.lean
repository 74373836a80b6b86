import Highlighter.Proofs.Relex.Splice

/-!
A cache that is brought up to date after an edit holds what a scan of the whole new text finds, and
so does every cache in a chain of edits.
-/

set_option autoImplicit false

namespace Highlighter

theorem map_classify_shift (k : Keywords) (d : Int) (tokens : List Token) :
    (tokens.map k.classify).map (Token.shift d) = (tokens.map (Token.shift d)).map k.classify := by
  rw [List.map_map, List.map_map]
  exact List.map_congr_left fun t _ => (k.classify_shift t d).symm

/-- The cached tokens past an edit go on as the new text does. -/
theorem goesOn_of_fits (k : Keywords) {e : Edit} {t : Text} (h : e.Fits t) :
    GoesOn k e ((tokenize k t).dropWhile (·.start < e.stop)) (e.result t) := by
  intro pre old post hsplit hpast
  have hall := List.takeWhile_append_dropWhile (p := (·.start < e.stop)) (l := tokenize k t)
  rw [hsplit, ← List.append_assoc, tokenize, scan_eq] at hall
  obtain ⟨front, tail, hscan, -, htail⟩ := List.map_eq_append_iff.mp hall.symm
  obtain ⟨raw, rest, rfl, rfl, rfl⟩ := List.map_eq_cons_iff.mp htail
  obtain ⟨n, hstart, hfrom⟩ := scanFrom_from hscan
  rw [k.classify_start] at hpast ⊢
  rw [Edit.drop_result h hpast, Int.add_sub_cancel, ← List.map_cons, map_classify_shift, hfrom,
    ← scanFrom_shift, hstart, Int.zero_add, Int.toNat_natCast]

namespace Cache

variable {k : Keywords} {c : Cache} {e : Edit}

/-- The tokens are those that a scan of the whole text finds. -/
def Full (k : Keywords) (c : Cache) : Prop := c.tokens = tokenize k c.text

theorem load_full (k : Keywords) (t : Text) : (load k t).Full k := rfl

/-- What an edit that fits leads to: the kept tokens, those that are read again, and those that are
taken over from the cache. -/
theorem relex_eq_ok (hfit : e.Fits c.text) {kept : List Token} {place : Nat} {r : Splice}
    (hkept : kept = c.tokens.take (restartIndex c.tokens e.start))
    (hplace : restartPlace kept = place)
    (hr : r = splice k e (c.tokens.dropWhile (·.start < e.stop)) (e.result c.text) place
      .default) :
    c.relex k e = .ok ⟨e.result c.text, kept ++ r.fresh ++ r.tail.map (Token.shift e.delta),
      r.fresh.length + if r.tail = [] then 0 else 1⟩ := by
  rw [restartPlace, hkept] at hplace
  rw [relex, Edit.apply_of_fits hfit, hr, hkept]
  dsimp only [bind, Except.bind, pure, Except.pure]
  rw [hplace, Int.toNat_natCast]

/-- The kept tokens stop at a place from which the scan of the new text goes on with the rest of its
tokens. -/
theorem exists_restartPlace (hfull : c.Full k) (hfit : e.Fits c.text) {kept : List Token}
    (hkept : kept = c.tokens.take (restartIndex c.tokens e.start)) :
    ∃ m : Nat, restartPlace kept = m ∧ tokenize k (e.result c.text) =
      kept ++ (scanFrom .default m ((e.result c.text).drop m)).map k.classify := by
  have hstart : ((e.start.toNat : Nat) : Int) = e.start := Int.toNat_of_nonneg hfit.start_nonneg
  have hagree := (Edit.take_result hfit (Int.le_refl e.start)).symm
  have hplace := tokenize_eq_kept_append k hagree rfl
  rwa [hstart, ← hfull, ← hkept] at hplace

theorem relex_of_fits (hfull : c.Full k) (hfit : e.Fits c.text) :
    ∃ next, c.relex k e = .ok next ∧ next.text = e.result c.text ∧ next.Full k := by
  obtain ⟨m, hplace, htokens⟩ := exists_restartPlace hfull hfit rfl
  have hgoes := goesOn_of_fits k hfit
  rw [← hfull] at hgoes
  obtain ⟨hfresh, htail⟩ := splice_eq hgoes m rfl
  refine ⟨_, relex_eq_ok hfit rfl hplace rfl, rfl, ?_⟩
  rw [Full, htokens]
  dsimp only
  rw [hfresh, htail, List.append_assoc, List.takeWhile_append_dropWhile]

theorem relex_of_not_fits (h : ¬ e.Fits c.text) :
    ∃ fault, c.relex k e = .error ⟨fault, c.text⟩ ∧ e.apply c.text = .error ⟨fault, c.text⟩ := by
  obtain ⟨fault, hfault⟩ := Edit.apply_of_not_fits h
  refine ⟨fault, ?_, hfault⟩
  rw [relex, hfault]
  rfl

/-- The cache after edits one after the other. An edit that is refused leaves no cache, and the next
one applies to the cache before. -/
def relexAll (k : Keywords) (c : Cache) : List Edit → Cache
  | [] => c
  | e :: es =>
    match c.relex k e with
    | .ok next => next.relexAll k es
    | .error _ => c.relexAll k es

theorem relexAll_full (hfull : c.Full k) (es : List Edit) : (c.relexAll k es).Full k := by
  induction es generalizing c with
  | nil => exact hfull
  | cons e es ih =>
    rw [relexAll]
    by_cases hfit : e.Fits c.text
    · obtain ⟨next, hnext, -, hnextFull⟩ := relex_of_fits hfull hfit
      rw [hnext]
      exact ih hnextFull
    · obtain ⟨fault, hfault, -⟩ := relex_of_not_fits hfit
      rw [hfault]
      exact ih hfull

/-- However long a chain of edits is, the next edit that fits leads to the text that it leaves and
to the tokens that a scan of this text finds; one that does not fit leads to its error alone. -/
theorem relex_chain_eq_rescan (k : Keywords) (t : Text) (es : List Edit) (e : Edit) :
    let c := (load k t).relexAll k es
    match c.relex k e with
    | .ok next => e.Fits c.text ∧ e.apply c.text = .ok next.text ∧
        next.tokens = tokenize k next.text ∧
        next.starts = (tokenize k next.text).map (·.start)
    | .error err => ¬ e.Fits c.text ∧ e.apply c.text = .error err := by
  intro c
  have hfull : c.Full k := relexAll_full (load_full k t) es
  by_cases hfit : e.Fits c.text
  · obtain ⟨next, hnext, htext, hnextFull⟩ := relex_of_fits hfull hfit
    rw [hnext]
    refine ⟨hfit, ?_, hnextFull, ?_⟩
    · rw [htext, Edit.apply_of_fits hfit]
    · rw [starts, hnextFull]
  · obtain ⟨fault, hrelex, happly⟩ := relex_of_not_fits hfit
    rw [hrelex]
    exact ⟨hfit, happly⟩

end Cache

end Highlighter
