import Highlighter.Proofs.Scan.Stream
import Highlighter.Relex

/-!
Where a scan may restart. The tokens in front of the restart index are those of every text that is
the same up to the edit, and the rest of its tokens is the scan of what follows them.
-/

set_option autoImplicit false

namespace Highlighter

section RestartIndex

variable {tokens : List Token} {place : Int}

/-- The kept tokens end with the last one, of those that start before the place, behind which a scan
may restart. -/
theorem take_restartIndex (tokens : List Token) (place : Int) :
    tokens.take (restartIndex tokens place) =
      ((tokens.takeWhile (·.start < place)).reverse.dropWhile
        (!·.isRestartBefore place)).reverse := by
  generalize hbefore : tokens.takeWhile (·.start < place) = before
  generalize hpassed : before.reverse.takeWhile (!·.isRestartBefore place) = passed
  generalize hkept : before.reverse.dropWhile (!·.isRestartBefore place) = kept
  have hsplit : before = kept.reverse ++ passed.reverse := by
    rw [← List.reverse_append, ← hpassed, ← hkept, List.takeWhile_append_dropWhile,
      List.reverse_reverse]
  have hindex : restartIndex tokens place = kept.reverse.length := by
    rw [restartIndex, hbefore, hpassed, hsplit, List.length_append, List.length_reverse,
      List.length_reverse, Nat.add_sub_cancel]
  have htokens : tokens = kept.reverse ++ (passed.reverse ++
      tokens.dropWhile (·.start < place)) := by
    rw [← List.append_assoc, ← hsplit, ← hbefore, List.takeWhile_append_dropWhile]
  rw [hindex]
  exact (congrArg (List.take kept.reverse.length) htokens).trans List.take_left

theorem isRestartBefore_of_getLast? {t : Token}
    (h : (tokens.take (restartIndex tokens place)).getLast? = some t) :
    t.isRestartBefore place = true := by
  rw [take_restartIndex, List.getLast?_reverse] at h
  have hhead := List.head?_dropWhile_not (!·.isRestartBefore place)
    (tokens.takeWhile (·.start < place)).reverse
  rw [h] at hhead
  simpa using hhead

end RestartIndex

namespace Token

variable {k : Keywords} {t : Token} {place : Int}

/-- A token behind which a scan may restart is not a number, whatever the keywords are: a number is
never classified anew. -/
theorem not_number_of_isRestart (h : (k.classify t).isRestart = true) :
    t.kind ≠ .numberLiteral ∧ t.kind ≠ .pragmaValue := by
  constructor <;> intro hkind
  all_goals
    rw [k.classify_of_kind_ne (by rw [hkind]; decide), isRestart, hkind] at h
    cases h

end Token

/-- Where the scan restarts after kept tokens. -/
def restartPlace (kept : List Token) : Int := (kept.getLast?.map (·.stop)).getD 0

/-- Tokens that lie one behind the other all stop where the scan restarts, or before. -/
theorem stop_le_restartPlace {kept : List Token} (hpairs : kept.Pairwise (·.stop ≤ ·.start))
    (hlt : ∀ u ∈ kept, u.start < u.stop) {u : Token} (hu : u ∈ kept) :
    u.stop ≤ restartPlace kept := by
  cases hlast : kept.getLast? with
  | none =>
    rw [List.getLast?_eq_none_iff.mp hlast] at hu
    cases hu
  | some r =>
    have hr := hlt r (List.mem_of_getLast? hlast)
    rw [restartPlace, hlast, Option.map_some, Option.getD_some]
    obtain ⟨init, rfl⟩ := List.getLast?_eq_some_iff.mp hlast
    rcases List.mem_append.mp hu with hinit | hend
    · have hle := (List.pairwise_append.mp hpairs).2.2 u hinit r (List.mem_singleton.mpr rfl)
      omega
    · exact Int.le_of_eq (congrArg _ (List.mem_singleton.mp hend))

/-- When a text changes from a place on, the kept tokens stay, and behind them the new text is
scanned as it is from where they stop. -/
theorem tokenize_eq_kept_append (k : Keywords) {t u : Text} {n : Nat} (h : t.take n = u.take n)
    {kept : List Token} (hkept : kept = (tokenize k t).take (restartIndex (tokenize k t) n)) :
    ∃ m : Nat, restartPlace kept = m ∧
      tokenize k u = kept ++ (scanFrom .default m (u.drop m)).map k.classify := by
  have hprefix : kept <+: tokenize k t := hkept ▸ List.take_prefix _ _
  cases hlast : kept.getLast? with
  | none =>
    rw [List.getLast?_eq_none_iff] at hlast
    subst hlast
    refine ⟨0, rfl, ?_⟩
    rw [tokenize, scan_eq]
    rfl
  | some r =>
    have hrestart := isRestartBefore_of_getLast? (hkept ▸ hlast)
    obtain ⟨init, rfl⟩ := List.getLast?_eq_some_iff.mp hlast
    obtain ⟨rest, hrest⟩ := hprefix
    rw [List.append_assoc, List.singleton_append, tokenize] at hrest
    obtain ⟨pre, tail, hscan, hpre, htail⟩ := List.map_eq_append_iff.mp hrest.symm
    obtain ⟨raw, post, rfl, rfl, -⟩ := List.map_eq_cons_iff.mp htail
    rw [Token.isRestartBefore, Bool.and_eq_true, decide_eq_true_iff, k.classify_stop] at hrestart
    obtain ⟨hnum, hval⟩ := Token.not_number_of_isRestart hrestart.2
    rw [scan_eq] at hscan
    obtain ⟨post', hscan'⟩ := scanFrom_stable h hscan (by omega) hnum hval
    obtain ⟨m, hstop, hbehind⟩ := scanFrom_behind hscan'
    rw [Int.zero_add] at hstop
    refine ⟨m, by simp [restartPlace, hstop], ?_⟩
    rw [tokenize, scan_eq, hscan', List.map_append, List.map_cons, hbehind, hstop, hpre,
      List.append_assoc, List.singleton_append]

end Highlighter
