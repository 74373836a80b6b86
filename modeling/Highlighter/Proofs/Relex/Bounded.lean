import Mathlib.Data.List.TakeWhile
import Highlighter.Proofs.Relex.Rescan
import Highlighter.Proofs.Scan.Progress

/-!
How much of a text is read again after an edit. The scanner is asked for one token after the other,
from where the kept tokens stop. The first token past the edit that starts where a cached one would
start is the same as that one, so it is the last that is read.
-/

set_option autoImplicit false

namespace Highlighter

/-- Reading again, token by token, until one meets a cached token: all tokens that the scanner is
asked for, and what they lead to. -/
inductive Rereads (k : Keywords) (e : Edit) (cached : List Token) (t : Text) :
    Nat → Mode → List Token → Splice → Prop where
  | finish {place : Nat} {mode : Mode} : nextToken? t place mode = none →
      Rereads k e cached t place mode [] ⟨[], []⟩
  | meet {place : Nat} {mode after : Mode} {u : Token} {tail : List Token} :
      nextToken? t place mode = some (u, after) → e.meet (k.classify u) cached = some tail →
      Rereads k e cached t place mode [k.classify u] ⟨[], tail⟩
  | next {place : Nat} {mode after : Mode} {u : Token} {read : List Token} {r : Splice} :
      nextToken? t place mode = some (u, after) → e.meet (k.classify u) cached = none →
      Rereads k e cached t u.stop.toNat after read r →
      Rereads k e cached t place mode (k.classify u :: read) ⟨k.classify u :: r.fresh, r.tail⟩

namespace Edit

variable {e : Edit} {u : Token} {cached tail : List Token}

theorem exists_of_meet (h : e.meet u cached = some tail) :
    ∃ pre old post, cached = pre ++ old :: post ∧ tail = old :: post := by
  rw [meet] at h
  split at h
  · cases h
  · rcases dropWhile_start_cases (u.start - e.delta) cached with
      ⟨-, hdrop⟩ | ⟨-, pre, old, post, hcached, -, hdrop⟩
    · rw [hdrop] at h
      cases h
    · rw [hdrop] at h
      dsimp only at h
      split at h
      · exact ⟨pre, old, post, hcached, (Option.some.inj h).symm⟩
      · cases h

/-- A token past the edit is not aligned with a cached token in front of it. -/
theorem aligned_dropWhile (e : Edit) (cached : List Token) (u : Token) :
    e.aligned (cached.dropWhile (·.start < e.stop)) u = e.aligned cached u := by
  by_cases hpast : e.newStop ≤ u.start
  · have hnone :
        (cached.takeWhile (·.start < e.stop)).any (·.start = u.start - e.delta) = false := by
      rw [List.any_eq_false]
      intro old hold hstart
      have hlt := List.all_eq_true.mp List.all_takeWhile old hold
      have := e.newStop_eq
      simp only [decide_eq_true_eq] at hlt hstart
      omega
    have hall := List.takeWhile_append_dropWhile (p := (·.start < e.stop)) (l := cached)
    rw [aligned, aligned]
    conv => rhs; rw [← hall, List.any_append, hnone, Bool.false_or]
  · simp [aligned, hpast]

end Edit

section Rereads

variable {k : Keywords} {e : Edit} {cached read : List Token} {t : Text} {place : Nat} {mode : Mode}
  {r : Splice}

theorem Rereads.length_read (h : Rereads k e cached t place mode read r) :
    read.length = r.fresh.length + if r.tail = [] then 0 else 1 := by
  induction h with
  | finish => rfl
  | meet _ hmeet =>
    obtain ⟨pre, old, post, -, rfl⟩ := Edit.exists_of_meet hmeet
    rfl
  | next _ _ _ ih =>
    rw [List.length_cons, List.length_cons, ih]
    exact Nat.add_right_comm _ _ _

theorem Rereads.tail_suffix (h : Rereads k e cached t place mode read r) : r.tail <:+ cached := by
  induction h with
  | finish => exact List.nil_suffix
  | meet _ hmeet =>
    obtain ⟨pre, old, post, rfl, rfl⟩ := Edit.exists_of_meet hmeet
    exact List.suffix_append _ _
  | next _ _ _ ih => exact ih

theorem take_findIdx_cons {p : Token → Bool} {u : Token} {tokens : List Token} :
    (u :: tokens).take ((u :: tokens).findIdx p + 1) =
      u :: if p u then [] else tokens.take (tokens.findIdx p + 1) := by
  rw [List.findIdx_cons, List.take_succ_cons]
  cases p u <;> rfl

/-- The tokens that are read again are those up to the first aligned one. -/
theorem splice_rereads {new : Text} (hcached : GoesOn k e cached new) {tokens : List Token}
    (htokens : tokens = (scanFrom .default place (new.drop place)).map k.classify) :
    Rereads k e cached new place .default
      (tokens.take (tokens.findIdx (e.aligned cached) + 1))
      (splice k e cached new place .default) := by
  generalize hs : new.drop place = s at htokens
  induction s using Text.drop_induction generalizing place tokens with
  | nil =>
    have hend := List.drop_eq_nil_iff.mp hs
    rw [htokens, scanFrom_nil, splice_of_length_le hend]
    exact .finish (nextToken?_eq_none_iff.mpr hend)
  | cons c s ih =>
    have hpos := Reading.fresh_length_pos c s
    have hnext := nextToken?_of_drop .default hs
    rw [Reading.front] at hnext
    have hmore := @ih _ hpos (place + (Reading.fresh c s).length) _
      (by rw [← List.drop_drop, hs]) rfl
    rw [Int.natCast_add] at hmore
    rw [scanFrom_cons, List.map_cons, Reading.front] at htokens
    rw [splice_of_nextToken? hnext]
    cases hal : e.aligned cached (k.classify ((Reading.fresh c s).token place (c :: s))) with
    | false =>
      have hmeet := Edit.meet_of_not_aligned hal
      rw [hmeet, htokens, take_findIdx_cons, hal]
      refine .next hnext hmeet ?_
      rw [Reading.token_stop, ← Int.natCast_add, Int.toNat_natCast]
      rw [← Int.natCast_add] at hmore
      exact hmore
    | true =>
      have hstart : (k.classify ((Reading.fresh c s).token place (c :: s))).start = place := by
        rw [k.classify_start, Reading.token_start]
      obtain ⟨tail, hmeet, -⟩ := hcached.meet_eq
        (by rw [hstart, Int.toNat_natCast, hs, scanFrom_cons, List.map_cons, Reading.front]) hal
      rw [hmeet, htokens, take_findIdx_cons, hal]
      exact .meet hnext hmeet

/-- Either all tokens are read and none is taken over from the cache, or the last that is read is
the first aligned one, and it is the first that the cache goes on with. -/
theorem splice_cases {new : Text} (hcached : GoesOn k e cached new) {tokens : List Token}
    (htokens : tokens = (scanFrom .default place (new.drop place)).map k.classify)
    (hread : read = tokens.take (tokens.findIdx (e.aligned cached) + 1))
    (hr : r = splice k e cached new place .default) :
    (tokens.find? (e.aligned cached) = none ∧ read = r.fresh ∧ r.tail = []) ∨
      ∃ u old post, tokens.find? (e.aligned cached) = some u ∧ read = r.fresh ++ [u] ∧
        r.tail = old :: post ∧ old.shift e.delta = u := by
  obtain ⟨hfresh, htail⟩ := splice_eq hcached place htokens
  rw [← hr] at hfresh htail
  cases hfind : tokens.find? (e.aligned cached) with
  | none =>
    have hnone : ∀ u ∈ tokens, (!e.aligned cached u) = true := by
      simpa using hfind
    have hindex := List.findIdx_eq_length.mpr fun u hu => by simpa using hnone u hu
    have hall : tokens.takeWhile (!e.aligned cached ·) = tokens :=
      List.takeWhile_eq_self_iff.mpr hnone
    have hrest := List.takeWhile_append_dropWhile (p := (!e.aligned cached ·)) (l := tokens)
    rw [hall, List.append_right_eq_self] at hrest
    refine .inl ⟨rfl, ?_, by simpa [hrest] using htail⟩
    rw [hread, hindex, hfresh, hall, List.take_of_length_le (Nat.le_succ _)]
  | some u =>
    obtain ⟨hal, front, behind, rfl, hfront⟩ := List.find?_eq_some_iff_append.mp hfind
    have hindex : (front ++ u :: behind).findIdx (e.aligned cached) = front.length := by
      rw [List.findIdx_append, List.findIdx_eq_length.mpr fun v hv => by simpa using hfront v hv,
        List.findIdx_cons, hal, if_neg (Nat.lt_irrefl _)]
      exact Nat.zero_add _
    rw [List.takeWhile_append_of_pos hfront, List.takeWhile_cons_of_neg (by simp [hal]),
      List.append_nil] at hfresh
    rw [List.dropWhile_append_of_pos hfront, List.dropWhile_cons_of_neg (by simp [hal])] at htail
    obtain ⟨old, post, hcons, hold, -⟩ := List.map_eq_cons_iff.mp htail
    refine .inr ⟨u, old, post, rfl, ?_, hcons, hold⟩
    rw [hread, hindex, hfresh, List.take_length_add_append, List.take_succ_cons, List.take_zero]

end Rereads

/-- Behind the kept tokens start the tokens that start where these stop, or later. -/
theorem filter_restartPlace {k : Keywords} {t : Text} {kept rest : List Token} {m : Nat}
    (htokens : tokenize k t = kept ++ rest) (hplace : restartPlace kept = m)
    (hrest : Tiles t m rest) :
    (tokenize k t).filter (restartPlace kept ≤ ·.start) = rest := by
  have htiles := tokenize_tiles k t
  rw [htokens] at htiles ⊢
  have hbefore : ∀ u ∈ kept, u.start < restartPlace kept := by
    intro u hu
    have hlt : ∀ v ∈ kept, v.start < v.stop := fun v hv =>
      (htiles.start_lt_stop v (List.mem_append_left _ hv)).2
    have hle := stop_le_restartPlace (List.pairwise_append.mp htiles.pairwise).1 hlt hu
    have := hlt u hu
    omega
  rw [List.filter_append, List.filter_eq_nil_iff.mpr, List.filter_eq_self.mpr, List.nil_append]
  · intro u hu
    rw [hplace]
    exact decide_eq_true (hrest.start_lt_stop u hu).1
  · intro u hu
    have := hbefore u hu
    simpa using this

namespace Cache

/-- Behind the kept tokens an edit that fits reads the tokens of the new text again, one after the
other, up to the first that is aligned with a cached one, or all of them. The aligned token is the
same as the cached one, and behind it come the tokens behind the cached one, moved. -/
theorem relex_rescans (k : Keywords) (t : Text) (es : List Edit) (e : Edit) :
    let c := (load k t).relexAll k es
    let kept := c.tokens.take (restartIndex c.tokens e.start)
    match c.relex k e with
    | .error _ => ¬ e.Fits c.text
    | .ok next =>
      let ahead := (tokenize k next.text).filter (restartPlace kept ≤ ·.start)
      let read := ahead.take (ahead.findIdx (e.aligned c.tokens) + 1)
      e.Fits c.text ∧ next.text = e.result c.text ∧ next.rescanned = read.length ∧
        (∃ r, Rereads k e (c.tokens.dropWhile (·.start < e.stop)) next.text
          (restartPlace kept).toNat .default read r ∧
          next.tokens = kept ++ r.fresh ++ r.tail.map (Token.shift e.delta)) ∧
        match ahead.find? (e.aligned c.tokens) with
        | none => next.tokens = kept ++ read
        | some u => ∃ pre old post, c.tokens = pre ++ old :: post ∧ old.shift e.delta = u ∧
            next.tokens = kept ++ read ++ post.map (Token.shift e.delta) := by
  intro c kept
  have hfull : c.Full k := relexAll_full (load_full k t) es
  by_cases hfit : e.Fits c.text
  · obtain ⟨m, hplace, htokens⟩ := exists_restartPlace hfull hfit rfl
    have hgoes := goesOn_of_fits k hfit
    rw [← hfull] at hgoes
    generalize hrest : (scanFrom .default m ((e.result c.text).drop m)).map k.classify = rest
      at htokens
    have htiles : Tiles (e.result c.text) m rest :=
      hrest ▸ scanAt_eq (e.result c.text) m .default ▸
        (scanAt_tiles (e.result c.text) m .default).map_classify k
    have hahead := filter_restartPlace htokens hplace htiles
    have hrereads := splice_rereads hgoes hrest.symm
    have hcases := splice_cases hgoes hrest.symm rfl rfl
    rw [relex_eq_ok hfit rfl hplace rfl]
    dsimp only
    rw [hahead, hplace, Int.toNat_natCast]
    rw [funext (e.aligned_dropWhile c.tokens)] at hrereads hcases
    refine ⟨hfit, rfl, hrereads.length_read.symm, ⟨_, hrereads, rfl⟩, ?_⟩
    rcases hcases with ⟨hfind, hread, htail⟩ | ⟨u, old, post, hfind, hread, htail, hold⟩
    · rw [hfind]
      dsimp only
      rw [hread, htail, List.map_nil, List.append_nil]
    · rw [hfind]
      obtain ⟨pre, hpre⟩ := hrereads.tail_suffix.trans (List.dropWhile_suffix _)
      refine ⟨pre, old, post, by rw [← hpre, htail], hold, ?_⟩
      rw [hread, htail, List.map_cons, hold]
      simp only [List.append_assoc, List.singleton_append]
      rfl
  · obtain ⟨fault, hrelex, -⟩ := relex_of_not_fits hfit
    rw [hrelex]
    exact hfit

end Cache

end Highlighter
