import Highlighter.Proofs.Keywords.Accepted
import Highlighter.Proofs.Scan.Words

/-!
Keywords among the tokens of a text. With an accepted table, the tokens of keyword kinds are the
words that the table lists and the numbers with points. A listed word is found wherever it stands
alone outside comments and strings, whatever the token in front of it is.
-/

set_option autoImplicit false

namespace Highlighter

/-- Comments and strings, closed or not. Nothing in them is read as a token of its own. -/
def Token.isPassage (u : Token) : Bool :=
  match u.kind with
  | .lineComment | .blockComment | .stringLiteral => true
  | .unknown => u.lexeme.head? = some '"'
  | _ => false

/-- The token is a number with points in it. -/
def Token.IsVersion (t : Text) (u : Token) : Prop :=
  ∃ place, Digits t u.start.toNat place ∧ Groups t place u.stop.toNat

/-- How the classified tokens of a text tell words and keywords. -/
structure TellsWords (k : Keywords) (t : Text) : Prop where
  word_iff : ∀ u ∈ tokenize k t,
    (isWord u.lexeme = true ↔ ∃ v ∈ scan t, v.kind = .identifier ∧ u = k.classify v)
  keyword_iff : ∀ u ∈ tokenize k t, ∀ kind, kind.isKeyword = true →
    (u.kind = kind ↔ isWord u.lexeme = true ∧ k.entries.get? u.lexeme = some kind ∨
      kind = .pragmaValue ∧ u.IsVersion t)
  behind_word : ∀ u ∈ tokenize k t, isWord u.lexeme = true → ∀ i c, u.stop = (i : Nat) →
    t[i]? = some c → isWordChar c = false
  before_word : ∀ u ∈ tokenize k t, isWord u.lexeme = true → ∀ i c, u.start = (i : Nat) + 1 →
    t[i]? = some c → isLetter c = false ∧ c ≠ '_'
  found : ∀ word kind, k.entries.get? word = some kind → ∀ i : Nat, StandsAlone t word i →
    (∀ v ∈ tokenize k t, v.start ≤ i → i < v.stop → v.isPassage = false) →
    ⟨kind, i, i + word.length, word⟩ ∈ tokenize k t

section Tokens

variable {k : Keywords} {t : Text} {u v : Token} {start stop : Nat}

theorem mem_tokenize_iff : u ∈ tokenize k t ↔ ∃ v ∈ scan t, u = k.classify v := by
  simp only [tokenize, List.mem_map, eq_comm]

namespace Keywords

@[simp] theorem classify_lexeme (k : Keywords) (v : Token) :
    (k.classify v).lexeme = v.lexeme := by
  unfold classify
  split <;> rfl

theorem classify_of_kind_eq (h : v.kind = .identifier) :
    k.classify v = { v with kind := k.lookup v.lexeme } := by
  rw [classify, if_pos h]

theorem isPassage_of_classify (h : (k.classify v).isPassage = false) : v.isPassage = false := by
  by_cases hkind : v.kind = .identifier
  · rw [Token.isPassage, hkind]
  · rwa [k.classify_of_kind_ne hkind] at h

end Keywords

/-- A token is a number with points if and only if it is read as one. -/
theorem isVersion_iff (h : v ∈ scan t) : v.IsVersion t ↔ v.kind = .pragmaValue := by
  obtain ⟨start, stop, hlt, hle, hv, hlexical⟩ := exists_lexical_of_mem_scan h
  rw [Token.IsVersion, show v.start.toNat = start by rw [hv, Int.toNat_natCast],
    show v.stop.toNat = stop by rw [hv, Int.toNat_natCast]]
  constructor
  · rintro ⟨place, hdigits, hgroups⟩
    obtain ⟨c, hc, hdigit⟩ := hdigits.exists_digit
    obtain ⟨stop', hgroups', hend⟩ := exists_groups hgroups.pointAt
    exact (hlexical.unique hc (.version hdigits hgroups' hend)).2
  · intro hkind
    rw [hkind] at hlexical
    cases hlexical with
    | version hdigits hgroups => exact ⟨_, hdigits, hgroups⟩

/-- A scan gives no keyword kind but to numbers with points. -/
theorem kind_eq_of_isKeyword (h : v ∈ scan t) (hkeyword : v.kind.isKeyword = true) :
    v.kind = .pragmaValue := by
  obtain ⟨start, stop, -, -, -, hlexical⟩ := exists_lexical_of_mem_scan h
  generalize v.kind = kind at hkeyword hlexical
  cases hlexical with
  | version => rfl
  | _ => cases hkeyword

theorem isWord_lexeme_iff (h : v ∈ scan t) : isWord v.lexeme = true ↔ v.kind = .identifier := by
  obtain ⟨start, stop, hlt, hle, hv, hlexical⟩ := exists_lexical_of_mem_scan h
  have hlexeme : v.lexeme = t.slice start stop := by rw [hv]
  rw [hlexeme]
  exact hlexical.isWord_slice_iff hlt hle

/-- The words among the classified tokens are those that are read as words. -/
theorem isWord_lexeme_iff_exists (h : u ∈ tokenize k t) :
    isWord u.lexeme = true ↔ ∃ v ∈ scan t, v.kind = .identifier ∧ u = k.classify v := by
  constructor
  · intro hword
    obtain ⟨v, hv, rfl⟩ := mem_tokenize_iff.mp h
    rw [Keywords.classify_lexeme, isWord_lexeme_iff hv] at hword
    exact ⟨v, hv, hword, rfl⟩
  · rintro ⟨v, hv, hkind, rfl⟩
    rw [Keywords.classify_lexeme, isWord_lexeme_iff hv]
    exact hkind

theorem classify_kind_iff (k : Keywords) (h : v ∈ scan t) {kind : Kind}
    (hkeyword : kind.isKeyword = true) :
    (k.classify v).kind = kind ↔
      isWord (k.classify v).lexeme = true ∧ k.entries.get? (k.classify v).lexeme = some kind ∨
        kind = .pragmaValue ∧ (k.classify v).IsVersion t := by
  rw [Token.IsVersion, k.classify_start, k.classify_stop, ← Token.IsVersion, isVersion_iff h,
    k.classify_lexeme, isWord_lexeme_iff h]
  by_cases hword : v.kind = .identifier
  · have hne : kind ≠ .identifier := by
      rintro rfl
      cases hkeyword
    rw [k.classify_of_kind_eq hword]
    simp [hword, Keywords.lookup_eq_iff hne]
  · rw [k.classify_of_kind_ne hword]
    constructor
    · rintro rfl
      have hversion := kind_eq_of_isKeyword h hkeyword
      exact .inr ⟨hversion, hversion⟩
    · rintro (⟨hkind, -⟩ | ⟨rfl, hkind⟩)
      · exact absurd hkind hword
      · exact hkind

/-- Behind a word no word goes on. -/
theorem isWordChar_behind (h : v ∈ scan t) (hkind : v.kind = .identifier) {i : Nat} {c : Char}
    (hi : v.stop = i) (hc : t[i]? = some c) : isWordChar c = false := by
  obtain ⟨start, stop, hlt, hle, hv, hlexical⟩ := exists_lexical_of_mem_scan h
  rw [hkind] at hlexical
  have hstop : v.stop = stop := by rw [hv]
  obtain rfl : i = stop := by omega
  cases hlexical with
  | word _ _ hstop => simpa using hstop.2.2 c hc

/-- In front of a word no word could have started, since the token that stops there has not taken
the word in. -/
theorem isWordStart_before (h : v ∈ scan t) (hkind : v.kind = .identifier) {i : Nat} {c : Char}
    (hi : v.start = (i : Nat) + 1) (hc : t[i]? = some c) : isWordStart c = false := by
  obtain ⟨start, stop, hlt, hle, hv, hlexical⟩ := exists_lexical_of_mem_scan h
  have hstart : v.start = start := by rw [hv]
  obtain rfl : start = i + 1 := by omega
  rw [hkind] at hlexical
  rcases (scanAt_tiles t 0 .default).exists_stop_eq h with hfirst | ⟨u, hu, hstop⟩
  · omega
  · obtain ⟨start', stop', hlt', hle', hu', hlexical'⟩ := exists_lexical_of_mem_scan hu
    have hstop' : u.stop = stop' := by rw [hu']
    obtain rfl : stop' = i + 1 := by omega
    cases hlexical with
    | word hd hword _ => exact hlexical'.excludes_word_last (by omega) hc hd hword

theorem plain_of_isPassage (hv : v = ⟨v.kind, start, stop, t.slice start stop⟩)
    (hlt : start < stop) (h : v.isPassage = false) :
    v.kind ∉ [.lineComment, .blockComment, .stringLiteral] ∧
      (v.kind = .unknown → t[start]? ≠ some '"') := by
  have hhead : v.lexeme.head? = t[start]? := by
    rw [hv, Text.head?_slice t hlt]
  rw [Token.isPassage] at h
  constructor
  · intro hmem
    simp only [List.mem_cons, List.not_mem_nil, or_false] at hmem
    rcases hmem with hkind | hkind | hkind
    all_goals
      rw [hkind] at h
      cases h
  · intro hkind
    rw [hkind] at h
    rw [← hhead]
    exact of_decide_eq_false h

/-- A word that stands alone outside comments and strings is a token: the token around its first
character starts there, since nothing in front of the word could have gone on into it. -/
theorem StandsAlone.mem_scan {word : Text} {i : Nat} (h : StandsAlone t word i)
    (hword : isWord word = true)
    (hplain : ∀ v ∈ scan t, v.start ≤ i → i < v.stop → v.isPassage = false) :
    ⟨.identifier, i, i + word.length, word⟩ ∈ scan t := by
  have hlexical := h.lexical hword
  obtain ⟨c, hc, hstart⟩ : ∃ c, t[i]? = some c ∧ isWordStart c = true := by
    cases hlexical with
    | word hc hstart _ => exact ⟨_, hc, hstart⟩
  have hi := (List.getElem?_eq_some_iff.mp hc).1
  obtain ⟨v, hv, hvi, hiv⟩ := (scanAt_tiles t 0 .default).exists_mem (Nat.zero_le i) hi
  have hpassage := hplain v hv hvi hiv
  obtain ⟨start, stop, hlt, hle, heq, hvlexical⟩ := exists_lexical_of_mem_scan hv
  have hstart' : v.start = start := by rw [heq]
  have hstop' : v.stop = stop := by rw [heq]
  have hfirst : start = i := by
    refine Nat.le_antisymm (by omega) (Nat.le_of_not_lt fun hlt' => ?_)
    obtain ⟨j, rfl⟩ := Nat.exists_eq_add_of_lt hlt'
    obtain ⟨hkind, hquote⟩ := plain_of_isPassage heq hlt hpassage
    obtain ⟨d, hd, hgoes⟩ := hvlexical.isWordChar_before hkind hquote (Nat.le_add_right start j)
      (by omega) hc hstart
    rw [h.before _ d rfl hd] at hgoes
    cases hgoes
  subst hfirst
  obtain ⟨rfl, hkind⟩ := hvlexical.unique hc hlexical
  rw [hkind] at heq
  obtain ⟨rest, hrest⟩ := h.here
  rw [Text.slice_eq_take_drop, ← hrest, List.take_left] at heq
  rw [Int.natCast_add] at heq
  exact heq ▸ hv

end Tokens

/-- With an accepted table, keywords are told as they should be in every text. -/
theorem tokenize_tellsWords {groups : Entries Kind (List Setting)} {k : Keywords}
    (h : Keywords.ofGroups groups = .ok k) (t : Text) : TellsWords k t := by
  have hlisted := Keywords.wellFormed_of_ofGroups h
  constructor
  case word_iff =>
    intro u hu
    exact isWord_lexeme_iff_exists hu
  case keyword_iff =>
    intro u hu kind hkeyword
    obtain ⟨v, hv, rfl⟩ := mem_tokenize_iff.mp hu
    exact classify_kind_iff k hv hkeyword
  case behind_word =>
    intro u hu hword i c hi hc
    obtain ⟨v, hv, hkind, rfl⟩ := (isWord_lexeme_iff_exists hu).mp hword
    rw [Keywords.classify_stop] at hi
    exact isWordChar_behind hv hkind hi hc
  case before_word =>
    intro u hu hword i c hi hc
    obtain ⟨v, hv, hkind, rfl⟩ := (isWord_lexeme_iff_exists hu).mp hword
    rw [Keywords.classify_start] at hi
    have hstart := isWordStart_before hv hkind hi hc
    rw [isWordStart, Bool.or_eq_false_iff, beq_eq_false_iff_ne] at hstart
    exact hstart
  case found =>
    intro word kind hget i halone hplain
    obtain ⟨hword, hkeyword⟩ := hlisted word kind hget
    refine mem_tokenize_iff.mpr ⟨_, halone.mem_scan hword ?_, ?_⟩
    · intro v hv hvi hiv
      refine Keywords.isPassage_of_classify (hplain _ (mem_tokenize_iff.mpr ⟨v, hv, rfl⟩) ?_ ?_)
      · rwa [Keywords.classify_start]
      · rwa [Keywords.classify_stop]
    · rw [Keywords.classify_of_kind_eq rfl, Keywords.lookup, hget]
      rfl

/-- In front of the word there is a point, behind a number that ends in a digit. -/
theorem tokenize_tellsWords_point :
    Keywords.ofGroups [(.controlKeyword, [.str "if".toList])] =
        .ok ⟨[("if".toList, .controlKeyword)]⟩ ∧
      TellsWords ⟨[("if".toList, .controlKeyword)]⟩ "0.1.if".toList ∧
      ⟨.controlKeyword, 4, 6, "if".toList⟩ ∈
        tokenize ⟨[("if".toList, .controlKeyword)]⟩ "0.1.if".toList := by
  have hgroups : Keywords.ofGroups [(.controlKeyword, [.str "if".toList])] =
      .ok ⟨[("if".toList, .controlKeyword)]⟩ := rfl
  have htells := tokenize_tellsWords hgroups "0.1.if".toList
  refine ⟨hgroups, htells, htells.found "if".toList .controlKeyword rfl 4 ?_ (by decide +kernel)⟩
  refine ⟨⟨[], rfl⟩, ?_, ?_⟩
  · rintro j c hj hc
    obtain rfl : j = 3 := by omega
    obtain rfl := Option.some.inj hc
    decide
  · rintro c ⟨⟩

end Highlighter
