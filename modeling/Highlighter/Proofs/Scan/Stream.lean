import Highlighter.Proofs.Scan.LookAhead
import Highlighter.Proofs.Scan.Scanner
import Highlighter.Tokenize

/-!
Scans as streams of tokens. After the first token a scan is always in the default mode, so what
follows a token in a scan is the scan of what follows it in the text. A scan depends on where it
starts only in the positions of its tokens, and its tokens up to a place do not depend on what the
text is a little further on.
-/

set_option autoImplicit false

namespace Highlighter

/-- A scan depends on its place only in the positions of the tokens. -/
theorem scanFrom_shift (mode : Mode) (pos d : Int) (s : Text) :
    scanFrom mode (pos + d) s = (scanFrom mode pos s).map (Token.shift d) := by
  induction s using Text.drop_induction generalizing mode pos with
  | nil => simp
  | cons c s ih =>
    have hrest := ih _ (Reading.front_length_pos mode c s) .default
      (pos + (Reading.front mode c s).length)
    rw [scanFrom_cons, scanFrom_cons, List.map_cons, Reading.token_shift, ← hrest,
      Int.add_right_comm]

theorem lt_stop_of_mem_scanFrom {mode : Mode} {pos : Int} {s : Text} {t : Token}
    (h : t ∈ scanFrom mode pos s) : pos < t.stop := by
  induction s using Text.drop_induction generalizing mode pos with
  | nil => simp at h
  | cons c s ih =>
    have hpos := Reading.front_length_pos mode c s
    rw [scanFrom_cons] at h
    rcases List.mem_cons.mp h with rfl | h
    · rw [Reading.token_stop]
      omega
    · have := ih _ hpos h
      omega

/-- The end of a scan is the scan of an end of the text. -/
theorem scanFrom_suffix {pos : Int} {s : Text} {pre post : List Token}
    (h : scanFrom .default pos s = pre ++ post) :
    ∃ n : Nat, post = scanFrom .default (pos + n) (s.drop n) := by
  induction pre generalizing pos s with
  | nil => exact ⟨0, by simpa using h.symm⟩
  | cons t pre ih =>
    cases s with
    | nil => simp at h
    | cons c s =>
      rw [scanFrom_cons, List.cons_append, List.cons.injEq] at h
      obtain ⟨n, hn⟩ := ih h.2
      refine ⟨(Reading.front .default c s).length + n, ?_⟩
      rw [hn, List.drop_drop, Int.natCast_add, Int.add_assoc]

/-- From a token on, a scan is the scan of the text from where the token starts. -/
theorem scanFrom_from {pos : Int} {s : Text} {pre post : List Token} {t : Token}
    (h : scanFrom .default pos s = pre ++ t :: post) :
    ∃ n : Nat, t.start = pos + n ∧ t :: post = scanFrom .default t.start (s.drop n) := by
  obtain ⟨n, hn⟩ := scanFrom_suffix h
  have hstart : t.start = pos + n := by
    cases hs : s.drop n with
    | nil => simp [hs] at hn
    | cons c s =>
      rw [hs, scanFrom_cons, List.cons.injEq] at hn
      rw [hn.1, Reading.token_start]
  exact ⟨n, hstart, by rw [hn, hstart]⟩

/-- Behind a token, a scan is the scan of the text from where the token stops. -/
theorem scanFrom_behind {pos : Int} {s : Text} {pre post : List Token} {t : Token}
    (h : scanFrom .default pos s = pre ++ t :: post) :
    ∃ n : Nat, t.stop = pos + n ∧ post = scanFrom .default t.stop (s.drop n) := by
  obtain ⟨n, hstart, hn⟩ := scanFrom_from h
  cases hs : s.drop n with
  | nil => simp [hs] at hn
  | cons c s =>
    rw [hs, scanFrom_cons, List.cons.injEq] at hn
    obtain ⟨ht, hpost⟩ := hn
    have hstop : t.stop = t.start + (Reading.front .default c s).length := by
      rw [ht, Reading.token_stop, Reading.token_start]
    refine ⟨n + (Reading.front .default c s).length, ?_, ?_⟩
    · rw [hstop, hstart, Int.natCast_add, Int.add_assoc]
    · rw [hpost, hstop, ← List.drop_drop, hs]

/-- Texts that agree as far as the first token looks begin with the same token. -/
theorem scanFrom_cons_congr {pos : Int} {c : Char} {s s' : Text}
    (h : (c :: s).take ((Reading.fresh c s).seen + 1) = s'.take ((Reading.fresh c s).seen + 1)) :
    scanFrom .default pos s' =
      (Reading.fresh c s).token pos (c :: s) ::
        scanFrom .default (pos + (Reading.fresh c s).length)
          (s'.drop (Reading.fresh c s).length) := by
  have hlexeme := take_eq_of_le h (Nat.le_succ_of_le (Reading.fresh c s).length_le_seen)
  cases s' with
  | nil => simp at h
  | cons d s' =>
    rw [List.take_succ_cons, List.take_succ_cons, List.cons.injEq] at h
    obtain ⟨rfl, hs⟩ := h
    have hfresh := ((Reading.rule_fresh c s).congr hs).fresh_eq
    rw [scanFrom_cons, Reading.front, hfresh, Reading.token, Reading.token, hlexeme]

/-- A scan is the same, up to and with a token, on every text with the same characters up to a place
past that token. The token must not be a number, which may look past the place. -/
theorem scanFrom_stable {pos : Int} {s s' : Text} {n : Nat} {pre post : List Token} {t : Token}
    (hs : s.take n = s'.take n) (h : scanFrom .default pos s = pre ++ t :: post)
    (hstop : t.stop < pos + n) (hnum : t.kind ≠ .numberLiteral) (hval : t.kind ≠ .pragmaValue) :
    ∃ post', scanFrom .default pos s' = pre ++ t :: post' := by
  induction pre generalizing pos s s' n with
  | nil =>
    cases s with
    | nil => simp at h
    | cons c s =>
      rw [scanFrom_cons, Reading.front, List.nil_append, List.cons.injEq] at h
      obtain ⟨rfl, -⟩ := h
      have hseen := Reading.seen_of_not_number hnum hval
      rw [Reading.token_stop] at hstop
      have hagree := take_eq_of_le hs (show (Reading.fresh c s).seen + 1 ≤ n by omega)
      exact ⟨_, scanFrom_cons_congr hagree⟩
  | cons u pre ih =>
    cases s with
    | nil => simp at h
    | cons c s =>
      rw [scanFrom_cons, Reading.front, List.cons_append, List.cons.injEq] at h
      obtain ⟨rfl, hrest⟩ := h
      -- `t` comes after the first token and has a character at least, so all that the first token
      -- looks at lies before the place.
      have hlt := lt_stop_of_mem_scanFrom
        (show t ∈ scanFrom .default (pos + (Reading.fresh c s).length) _ by rw [hrest]; simp)
      have hseen := (Reading.fresh c s).seen_le
      have hagree := take_eq_of_le hs (show (Reading.fresh c s).seen + 1 ≤ n by omega)
      obtain ⟨post', hpost⟩ := ih (drop_take_eq hs (Reading.fresh c s).length) hrest (by omega)
      exact ⟨post', by rw [scanFrom_cons_congr hagree, hpost, List.cons_append]⟩

end Highlighter
