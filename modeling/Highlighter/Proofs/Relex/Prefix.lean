import Highlighter.Proofs.Relex.Restart
import Highlighter.Proofs.Scan.Tiling

/-!
The tokens in front of the restart index. They end before the place from which the text changes, no
more of them could be kept, and what stands in front of the place alone decides them: every text
that is the same up to there begins with the same tokens.
-/

set_option autoImplicit false

namespace Highlighter

/-- A scan may restart behind the first `i` tokens although the text changes from `place` on. -/
def RestartsAt (tokens : List Token) (place : Int) (i : Nat) : Prop :=
  i = 0 ∨ ∃ u, tokens[i - 1]? = some u ∧ u.isRestart = true ∧ u.stop < place

section RestartIndex

variable {t : Text} {pos : Nat} {tokens : List Token} {place : Int}

theorem Token.isRestartBefore_iff {u : Token} :
    u.isRestartBefore place = true ↔ u.isRestart = true ∧ u.stop < place := by
  rw [isRestartBefore, Bool.and_eq_true, decide_eq_true_iff, and_comm]

theorem restartIndex_le (tokens : List Token) (place : Int) :
    restartIndex tokens place ≤ tokens.length := by
  have hbefore := (List.takeWhile_sublist (·.start < place) (l := tokens)).length_le
  rw [restartIndex]
  omega

/-- Behind the restart index come the tokens in front of the place that were passed over, and then
all that start at the place or behind it. -/
theorem drop_restartIndex (tokens : List Token) (place : Int) :
    tokens.drop (restartIndex tokens place) =
      ((tokens.takeWhile (·.start < place)).reverse.takeWhile
        (!·.isRestartBefore place)).reverse ++ tokens.dropWhile (·.start < place) := by
  rw [← List.append_right_inj (tokens.take (restartIndex tokens place)), List.take_append_drop,
    take_restartIndex, ← List.append_assoc, ← List.reverse_append, List.takeWhile_append_dropWhile,
    List.reverse_reverse, List.takeWhile_append_dropWhile]

theorem Tiles.le_start_of_mem_dropWhile (h : Tiles t pos tokens) {u : Token}
    (hu : u ∈ tokens.dropWhile (·.start < place)) : place ≤ u.start := by
  induction h with
  | stop => cases hu
  | @token pos stop kind rest hlt _ hrest ih =>
    by_cases hstart : (pos : Int) < place
    · rw [List.dropWhile_cons_of_pos (by simpa using hstart)] at hu
      exact ih hu
    · rw [List.dropWhile_cons_of_neg (by simpa using hstart)] at hu
      rcases List.mem_cons.mp hu with rfl | hu
      · exact Int.not_lt.mp hstart
      · have := (hrest.start_lt_stop u hu).1
        omega

theorem Tiles.stop_lt_of_mem_take (h : Tiles t pos tokens) {u : Token}
    (hu : u ∈ tokens.take (restartIndex tokens place)) : u.stop < place := by
  have hsub := List.take_sublist (restartIndex tokens place) tokens
  have hle := stop_le_restartPlace (h.pairwise.sublist hsub)
    (fun v hv => (h.start_lt_stop v (hsub.subset hv)).2) hu
  cases hlast : (tokens.take (restartIndex tokens place)).getLast? with
  | none =>
    rw [List.getLast?_eq_none_iff.mp hlast] at hu
    cases hu
  | some r =>
    have hlt := (Token.isRestartBefore_iff.mp (isRestartBefore_of_getLast? hlast)).2
    rw [restartPlace, hlast, Option.map_some, Option.getD_some] at hle
    exact Int.lt_of_le_of_lt hle hlt

theorem restartsAt_restartIndex (tokens : List Token) (place : Int) :
    RestartsAt tokens place (restartIndex tokens place) := by
  by_cases hzero : restartIndex tokens place = 0
  · exact .inl hzero
  · have hlt : restartIndex tokens place - 1 < tokens.length := by
      have := restartIndex_le tokens place
      omega
    obtain ⟨u, hsome⟩ : ∃ u, tokens[restartIndex tokens place - 1]? = some u :=
      ⟨_, List.getElem?_eq_getElem hlt⟩
    have hlast : (tokens.take (restartIndex tokens place)).getLast? = some u := by
      rw [List.getLast?_take, if_neg hzero, hsome, Option.some_or]
    exact .inr ⟨_, hsome, Token.isRestartBefore_iff.mp (isRestartBefore_of_getLast? hlast)⟩

/-- No token behind the index ends before the place and could be restarted behind. -/
theorem Tiles.le_restartIndex (h : Tiles t pos tokens) {i : Nat} (hi : RestartsAt tokens place i) :
    i ≤ restartIndex tokens place := by
  rcases hi with rfl | ⟨u, hu, hrestart, hstop⟩
  · exact Nat.zero_le _
  · refine Nat.le_of_not_lt fun hlt => ?_
    have hmem : u ∈ tokens.drop (restartIndex tokens place) := by
      refine List.mem_iff_getElem?.mpr ⟨i - 1 - restartIndex tokens place, ?_⟩
      rw [List.getElem?_drop, Nat.add_sub_cancel' (by omega), hu]
    rw [drop_restartIndex] at hmem
    rcases List.mem_append.mp hmem with hpassed | hbehind
    · have hno := List.all_eq_true.mp List.all_takeWhile u (List.mem_reverse.mp hpassed)
      rw [Token.isRestartBefore_iff.mpr ⟨hrestart, hstop⟩] at hno
      cases hno
    · have hle := h.le_start_of_mem_dropWhile hbehind
      have := (h.start_lt_stop u (List.mem_of_getElem? hu)).2
      omega

end RestartIndex

/-- What is kept of the tokens of a text stands at the beginning of the tokens of every text that is
the same up to the place. -/
theorem take_restartIndex_prefix (k : Keywords) {t t' : Text} {place : Int}
    (h : t'.take place.toNat = t.take place.toNat) :
    (tokenize k t).take (restartIndex (tokenize k t) place) <+: tokenize k t' := by
  by_cases hplace : 0 ≤ place
  · obtain ⟨n, rfl⟩ := Int.eq_ofNat_of_zero_le hplace
    rw [Int.toNat_natCast] at h
    obtain ⟨m, -, htokens⟩ := tokenize_eq_kept_append k h.symm rfl
    rw [htokens]
    exact List.prefix_append _ _
  · have hnone : (tokenize k t).take (restartIndex (tokenize k t) place) = [] := by
      rw [List.eq_nil_iff_forall_not_mem]
      intro u hu
      have htiles := tokenize_tiles k t
      have hstop := htiles.stop_lt_of_mem_take hu
      have hstart := htiles.start_lt_stop u (List.mem_of_mem_take hu)
      omega
    rw [hnone]
    exact List.nil_prefix

/-- The tokens in front of the restart index end before the place. The index is the largest behind
which a scan may restart. The tokens in front of it are those with which every text begins that is
the same up to the place, whatever follows there. -/
theorem restartIndex_stable (k : Keywords) (t : Text) (place : Int) :
    let tokens := tokenize k t
    let i := restartIndex tokens place
    (∀ u ∈ tokens.take i, u.stop < place) ∧
      RestartsAt tokens place i ∧ (∀ j, RestartsAt tokens place j → j ≤ i) ∧
      i ≤ tokens.length ∧
      ∀ t' : Text, t'.take place.toNat = t.take place.toNat → tokens.take i <+: tokenize k t' := by
  intro tokens i
  have htiles := tokenize_tiles k t
  exact ⟨fun u hu => htiles.stop_lt_of_mem_take hu, restartsAt_restartIndex tokens place,
    fun j hj => htiles.le_restartIndex hj, restartIndex_le tokens place,
    fun t' h => take_restartIndex_prefix k h⟩

/-- Behind the number no scan may restart, and the blank behind it stops at the place itself. -/
example : restartIndex (scan "x 1.5 y".toList) 6 = 2 := by decide +kernel

end Highlighter
