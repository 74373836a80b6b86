import Highlighter.Proofs.Scan.Stream

/-!
Scans cut texts. In whatever mode a scan starts, its tokens lie one behind the other from where it
starts to the end of the text, and each has at least one character.
-/

set_option autoImplicit false

namespace Highlighter

/-- The tokens are what lies in a text from a place to its end, piece by piece. -/
inductive Tiles (t : Text) : Nat → List Token → Prop where
  | stop {pos : Nat} : t.length ≤ pos → Tiles t pos []
  | token {pos stop : Nat} {kind : Kind} {rest : List Token} : pos < stop → stop ≤ t.length →
      Tiles t stop rest → Tiles t pos (⟨kind, pos, stop, t.slice pos stop⟩ :: rest)

theorem Text.head?_slice (t : Text) {i j : Nat} (h : i < j) : (t.slice i j).head? = t[i]? := by
  rw [slice, Int.toNat_natCast, Int.toNat_natCast, List.head?_drop, List.getElem?_take, if_pos h]

namespace Tiles

variable {t : Text} {pos : Nat} {tokens : List Token}

theorem flatMap_lexeme (h : Tiles t pos tokens) : tokens.flatMap (·.lexeme) = t.drop pos := by
  induction h with
  | stop hend => rw [List.flatMap_nil, List.drop_eq_nil_of_le hend]
  | @token pos stop _ _ hlt _ _ ih =>
    obtain ⟨n, rfl⟩ := Nat.exists_eq_add_of_le (Nat.le_of_lt hlt)
    rw [List.flatMap_cons, ih, Text.slice_eq_take_drop, ← List.drop_drop, List.take_append_drop]

theorem eq_nil_iff (h : Tiles t pos tokens) : tokens = [] ↔ t.length ≤ pos := by
  cases h with
  | stop hend => simp [hend]
  | token hlt hle _ =>
    constructor
    · intro h
      cases h
    · intro h
      omega

theorem map_classify (h : Tiles t pos tokens) (k : Keywords) :
    Tiles t pos (tokens.map k.classify) := by
  induction h with
  | stop hend => exact .stop hend
  | @token pos stop kind rest hlt hle _ ih =>
    rw [List.map_cons, Keywords.classify]
    split
    · exact .token hlt hle ih
    · exact .token hlt hle ih

theorem start_lt_stop (h : Tiles t pos tokens) :
    ∀ u ∈ tokens, pos ≤ u.start ∧ u.start < u.stop := by
  induction h with
  | stop => simp
  | token hlt _ _ ih =>
    intro u hu
    rcases List.mem_cons.mp hu with rfl | hu
    · dsimp only
      omega
    · have := ih u hu
      omega

theorem pairwise (h : Tiles t pos tokens) : tokens.Pairwise (·.stop ≤ ·.start) := by
  induction h with
  | stop => exact .nil
  | token _ _ hrest ih => exact .cons (fun u hu => (hrest.start_lt_stop u hu).1) ih

/-- A place lies in one token only. -/
theorem eq_of_mem (h : Tiles t pos tokens) {u v : Token} (hu : u ∈ tokens) (hv : v ∈ tokens)
    {i : Int} (hstart : u.start ≤ i) (hstop : i < u.stop) (hstart' : v.start ≤ i)
    (hstop' : i < v.stop) : u = v := by
  induction h with
  | stop => cases hu
  | token _ _ hrest ih =>
    rcases List.mem_cons.mp hu with rfl | hu
    · rcases List.mem_cons.mp hv with rfl | hv
      · rfl
      · have := (hrest.start_lt_stop v hv).1
        dsimp only at hstop
        omega
    · rcases List.mem_cons.mp hv with rfl | hv
      · have := (hrest.start_lt_stop u hu).1
        dsimp only at hstop'
        omega
      · exact ih hu hv

/-- Every place of the text from where the tokens start lies in one of them. -/
theorem exists_mem (h : Tiles t pos tokens) {i : Nat} (hle : pos ≤ i) (hlt : i < t.length) :
    ∃ u ∈ tokens, u.start ≤ i ∧ i < u.stop := by
  induction h with
  | stop hend => omega
  | @token pos stop kind rest _ _ _ ih =>
    by_cases hi : i < stop
    · exact ⟨_, List.mem_cons_self, Int.ofNat_le.mpr hle, Int.ofNat_lt.mpr hi⟩
    · obtain ⟨u, hu, hcovers⟩ := ih (Nat.le_of_not_lt hi)
      exact ⟨u, List.mem_cons_of_mem _ hu, hcovers⟩

/-- A token is what lies in the text between two places. -/
theorem exists_eq_slice (h : Tiles t pos tokens) {u : Token} (hu : u ∈ tokens) :
    ∃ start stop : Nat, start < stop ∧ stop ≤ t.length ∧
      u = ⟨u.kind, start, stop, t.slice start stop⟩ := by
  induction h with
  | stop => cases hu
  | @token pos stop kind rest hlt hle _ ih =>
    rcases List.mem_cons.mp hu with rfl | hu
    · exact ⟨pos, stop, hlt, hle, rfl⟩
    · exact ih hu

/-- Where a token starts, another one stops, unless it is the first one. -/
theorem exists_stop_eq (h : Tiles t pos tokens) {u : Token} (hu : u ∈ tokens) :
    u.start = pos ∨ ∃ v ∈ tokens, v.stop = u.start := by
  induction h with
  | stop => cases hu
  | token _ _ _ ih =>
    rcases List.mem_cons.mp hu with rfl | hu
    · exact .inl rfl
    · rcases ih hu with hfirst | ⟨v, hv, hstop⟩
      · exact .inr ⟨_, List.mem_cons_self, hfirst.symm⟩
      · exact .inr ⟨v, List.mem_cons_of_mem _ hv, hstop⟩

end Tiles

namespace Reading

theorem fresh_length_le (c : Char) (s : Text) : (fresh c s).length ≤ s.length + 1 :=
  (rule_fresh c s).length_le

theorem front_length_le (mode : Mode) (c : Char) (s : Text) :
    (front mode c s).length ≤ s.length + 1 := by
  have hfresh := fresh_length_le c s
  cases mode with
  | default => exact hfresh
  | lineComment =>
    unfold front
    dsimp only
    split
    · exact hfresh
    · exact runLength_le _ (c :: s)
  | blockComment => exact blockRest_le (c :: s)
  | string =>
    unfold front
    dsimp only
    split
    · exact hfresh
    · exact stringRest_le (c :: s)

end Reading

theorem scanFrom_tiles (mode : Mode) {t s : Text} {pos : Nat} (hs : s = t.drop pos) :
    Tiles t pos (scanFrom mode pos s) := by
  induction s using Text.drop_induction generalizing mode pos with
  | nil =>
    rw [scanFrom_nil]
    exact .stop (List.drop_eq_nil_iff.mp hs.symm)
  | cons c s ih =>
    have hpos := Reading.front_length_pos mode c s
    have hle := Reading.front_length_le mode c s
    have hlength := congrArg List.length hs
    rw [List.length_drop, List.length_cons] at hlength
    have hrest := @ih _ hpos .default (pos + (Reading.front mode c s).length)
      (by rw [hs, List.drop_drop])
    rw [scanFrom_cons, Reading.token_eq_slice _ hs]
    exact .token (by omega) (by omega) hrest

theorem scanAt_tiles (t : Text) (offset : Nat) (mode : Mode) :
    Tiles t offset (scanAt t offset mode) := by
  rw [scanAt_eq]
  exact scanFrom_tiles mode rfl

theorem tokenize_tiles (k : Keywords) (t : Text) : Tiles t 0 (tokenize k t) :=
  (scanAt_tiles t 0 .default).map_classify k

end Highlighter
