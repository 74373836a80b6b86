import Highlighter.Proofs.Scan.Lexical

/-!
Words in a text. A place inside a token at which a word could start has a character of a word in
front of it, unless the token is a comment or a string. No token stops with the start of a word
where another word starts behind it. So words are found whole wherever they stand alone.
-/

set_option autoImplicit false

namespace Highlighter

/-- A word stands at a place, and no character of a word stands next to it. -/
structure StandsAlone (t word : Text) (i : Nat) : Prop where
  here : word <+: t.drop i
  before : ∀ j c, i = j + 1 → t[j]? = some c → isWordChar c = false
  behind : ∀ c, t[i + word.length]? = some c → isWordChar c = false

section Classes

variable {t : Text} {c : Char} {start stop i : Nat}

theorem endsString_excludes (h : endsString c = true) : isWordStart c = false := by
  rw [endsString, isLineEnd, Bool.or_eq_true, Bool.or_eq_true, beq_iff_eq, beq_iff_eq,
    beq_iff_eq] at h
  rcases h with rfl | rfl | rfl
  all_goals decide

theorem isDigit_excludes_word (h : isDigit c = true) : isWordStart c = false := by
  rw [Bool.eq_false_iff]
  intro hword
  rw [(isWordStart_excludes hword).2.2] at h
  cases h

theorem pair_excludes_word (h : (t.drop start).take 2 ∈ operatorPairs) (hle : start ≤ i)
    (hlt : i < start + 2) (hc : t[i]? = some c) : isWordStart c = false := by
  have hmem : c ∈ (t.drop start).take 2 := mem_take_drop_iff.mpr ⟨i, hle, hlt, hc⟩
  have hall : operatorPairs.all (·.all (isWordStart · = false)) = true := by decide
  have hpair := List.all_eq_true.mp hall _ h
  exact of_decide_eq_true (List.all_eq_true.mp hpair c hmem)

theorem Digits.excludes_word (h : Digits t start stop) (hle : start ≤ i) (hlt : i < stop)
    (hc : t[i]? = some c) : isWordStart c = false :=
  isDigit_excludes_word (by simpa using h.2.eq_false hle hlt hc)

theorem Groups.excludes_word (h : Groups t start stop) (hle : start ≤ i) (hlt : i < stop)
    (hc : t[i]? = some c) : isWordStart c = false := by
  have hpoint : ∀ {place}, t[place]? = some '.' → i = place → isWordStart c = false := by
    rintro place hpoint rfl
    obtain rfl := Option.some.inj (hpoint.symm.trans hc)
    decide
  induction h with
  | @last start stop hat hdigits =>
    rcases Nat.eq_or_lt_of_le hle with heq | hle
    · exact hpoint hat heq.symm
    · exact hdigits.excludes_word hle hlt hc
  | @more start place stop hat hdigits _ ih =>
    rcases Nat.eq_or_lt_of_le hle with heq | hle
    · exact hpoint hat heq.symm
    · by_cases hi : i < place
      · exact hdigits.excludes_word hle hi hc
      · exact ih (Nat.le_of_not_lt hi) hlt

end Classes

section Lexical

variable {t word : Text} {c d : Char} {start stop i : Nat} {kind : Kind}

/-- What starts at a place obeys one lexical rule only. -/
theorem Lexical.unique {stop' : Nat} {kind' : Kind} (hc : t[start]? = some c)
    (h : Lexical t start stop kind) (h' : Lexical t start stop' kind') :
    stop = stop' ∧ kind = kind' := by
  obtain ⟨n, rfl, hrule⟩ := h.rule (drop_eq_cons hc)
  obtain ⟨n', rfl, hrule'⟩ := h'.rule (drop_eq_cons hc)
  obtain ⟨rfl, rfl, -⟩ := Reading.mk.inj (hrule.fresh_eq.symm.trans hrule'.fresh_eq)
  exact ⟨rfl, rfl⟩

theorem Lexical.kind_of_isWordStart (h : Lexical t start stop kind) (hc : t[start]? = some c)
    (hword : isWordStart c = true) : kind = .identifier :=
  (h.unique hc (.word hc hword (firstFrom_not_iff.mpr rfl))).2

/-- Where a word may start inside a token, it has begun before. -/
theorem Lexical.isWordChar_before (h : Lexical t start stop kind)
    (hplain : kind ∉ [.lineComment, .blockComment, .stringLiteral])
    (hquote : kind = .unknown → t[start]? ≠ some '"') (hle : start ≤ i) (hlt : i + 1 < stop)
    (hd : t[i + 1]? = some d) (hword : isWordStart d = true) :
    ∃ c, t[i]? = some c ∧ isWordChar c = true := by
  have hno : isWordStart d ≠ false := by simp [hword]
  cases h with
  | lineComment | blockComment | string => exact absurd (by decide) hplain
  | unclosed hopen => exact absurd hopen (hquote rfl)
  | number hdigits => exact absurd (hdigits.excludes_word (by omega) (by omega) hd) hno
  | @version place hdigits hgroups =>
    by_cases hi : i + 1 < place
    · exact absurd (hdigits.excludes_word (by omega) hi hd) hno
    · exact absurd (hgroups.excludes_word (by omega) (by omega) hd) hno
  | word hc hstart hstop =>
    rcases Nat.eq_or_lt_of_le hle with rfl | hle
    · exact ⟨_, hc, isWordChar_of_isWordStart hstart⟩
    · obtain ⟨c, hc, hin⟩ := hstop.2.1 i hle (by omega)
      exact ⟨c, hc, by simpa using hin⟩
  | pair hpair hstop => exact absurd (pair_excludes_word hpair (by omega) (by omega) hd) hno
  | operator | stray => omega
  | blank _ _ hstop =>
    have hblank := hstop.eq_false (by omega) (by omega) hd
    exact absurd (isBlank_excludes (by simpa using hblank)).2.2.2.1 hno

/-- Where a word starts behind a token, the token does not stop with the start of a word. -/
theorem Lexical.excludes_word_last (h : Lexical t start (i + 1) kind) (hle : start ≤ i)
    (hc : t[i]? = some c) (hd : t[i + 1]? = some d) (hword : isWordStart d = true) :
    isWordStart c = false := by
  have heq : ∀ {b}, t[i]? = some b → isWordStart b = false → isWordStart c = false := by
    intro b hb hno
    exact Option.some.inj (hb.symm.trans hc) ▸ hno
  have hend : ∀ {b}, isWordStart b = false → b ≠ d := by
    rintro b hno rfl
    rw [hno] at hword
    cases hword
  cases h with
  | lineComment _ _ hstop =>
    refine absurd rfl (hend (endsString_excludes ?_))
    rw [endsString, hstop.2.2 d hd, Bool.or_true]
  | blockComment _ _ hstop =>
    cases hstop with
    | @closed j _ hclose _ hstop =>
      obtain rfl : i = j + 1 := by omega
      exact heq hclose.2 (by decide)
    | unclosed _ hstop =>
      rw [List.getElem?_eq_none (by omega)] at hd
      cases hd
  | @string place _ _ hquote hstop =>
    obtain rfl : i = place := by omega
    exact heq hquote (by decide)
  | unclosed _ hstop => exact absurd rfl (hend (endsString_excludes (hstop.2.2 d hd)))
  | number hdigits => exact hdigits.excludes_word hle (by omega) hc
  | version _ hgroups =>
    have := hgroups.start_lt_stop
    exact hgroups.excludes_word (by omega) (by omega) hc
  | word _ _ hstop =>
    have hout : (!isWordChar d) = true := hstop.2.2 d hd
    rw [isWordChar_of_isWordStart hword] at hout
    cases hout
  | pair hpair hstop => exact pair_excludes_word hpair hle (by omega) hc
  | operator hb _ hop hstop =>
    obtain rfl : i = start := by omega
    exact heq hb (mem_operatorChars_excludes hop).2.2.2
  | @blank b hb hblank hstop =>
    have hcblank : isBlank c = true := by
      rcases Nat.eq_or_lt_of_le hle with rfl | hle
      · exact Option.some.inj (hb.symm.trans hc) ▸ hblank
      · simpa using hstop.eq_false hle (by omega) hc
    exact (isBlank_excludes hcblank).2.2.2.1
  | stray hb hstray hstop =>
    obtain rfl : i = start := by omega
    exact heq hb hstray.no_word

/-- The lexeme of a token is a word if and only if the token is read as one. -/
theorem Lexical.isWord_slice_iff (h : Lexical t start stop kind) (hlt : start < stop)
    (hle : stop ≤ t.length) : isWord (t.slice start stop) = true ↔ kind = .identifier := by
  obtain ⟨n, rfl⟩ := Nat.exists_eq_add_of_lt hlt
  have hc := List.getElem?_eq_getElem (show start < t.length by omega)
  generalize t[start] = c at hc
  have hslice : t.slice start (start + n + 1 : Nat) = c :: (t.drop (start + 1)).take n := by
    rw [Nat.add_assoc, Text.slice_eq_take_drop, drop_eq_cons hc, List.take_succ_cons]
  rw [hslice, isWord, Bool.and_eq_true, List.all_eq_true]
  constructor
  · rintro ⟨hstart, -⟩
    exact h.kind_of_isWordStart hc hstart
  · rintro rfl
    cases h with
    | word hc' hstart hstop =>
      obtain rfl := Option.some.inj (hc'.symm.trans hc)
      refine ⟨hstart, fun d hd => ?_⟩
      obtain ⟨j, hj, hlt, hd⟩ := mem_take_drop_iff.mp hd
      simpa using hstop.eq_false hj (by omega) hd

/-- A word that stands alone is a token if a token starts with it. -/
theorem StandsAlone.lexical (h : StandsAlone t word i) (hword : isWord word = true) :
    Lexical t i (i + word.length) .identifier := by
  obtain ⟨rest, hrest⟩ := h.here
  cases word with
  | nil => cases hword
  | cons c word =>
    rw [isWord, Bool.and_eq_true, List.all_eq_true] at hword
    have hs : t.drop i = c :: (word ++ rest) := by rw [← hrest, List.cons_append]
    refine .word (getElem?_of_drop hs) hword.1 ⟨by simp, ?_, ?_⟩
    · intro j hle hlt
      rw [List.length_cons] at hlt
      have hj : j - (i + 1) < word.length := by omega
      have hat : (t.drop (i + 1))[j - (i + 1)]? = some word[j - (i + 1)] := by
        rw [drop_succ_of_drop hs, List.getElem?_append_left hj, List.getElem?_eq_getElem hj]
      rw [List.getElem?_drop, Nat.add_sub_cancel' hle] at hat
      exact ⟨_, hat, by simp [hword.2]⟩
    · intro d hd
      simpa using h.behind d hd

end Lexical

end Highlighter
