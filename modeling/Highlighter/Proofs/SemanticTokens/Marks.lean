import Highlighter.Proofs.LineIndex.Pieces
import Highlighter.Proofs.SemanticTokens.Decode
import Highlighter.Proofs.Span.Cover

/-!
What a reader of semantic tokens sees. The marks have, line by line and in order, the visible
characters of a text, each under the name of the tag of its token.
-/

set_option autoImplicit false

namespace Highlighter

variable {t : Text} {a b a' b' i : Nat}

namespace Mark

def start (x : LineIndex) (m : Mark) : Nat := x.offsetAt m.line m.character

def stop (x : LineIndex) (m : Mark) : Nat := x.offsetAt m.line (m.character + m.length)

/-- The mark has the characters from `a` up to `b`, which lie in one line. -/
inductive On (t : Text) (a b : Nat) : Mark → Prop where
  | piece {line first last : Nat} {type : Int} :
      (LineIndex.ofText t).bounds? line = some (first, last) → first ≤ a → a < b → b ≤ last →
      On t a b ⟨line, (t.slice first a).utf16Length, (t.slice a b).utf16Length, type⟩

/-- The first mark has characters in front of those of the second. -/
def Before (t : Text) (m n : Mark) : Prop :=
  ∃ a b a' b', On t a b m ∧ On t a' b' n ∧ b ≤ a'

namespace On

variable {m n : Mark}

theorem start_eq (h : On t a b m) : m.start (LineIndex.ofText t) = a := by
  cases h with
  | piece hbounds hfirst hlt hlast =>
    exact LineIndex.offsetAt_utf16Length hbounds hfirst (by omega)

theorem stop_eq (h : On t a b m) : m.stop (LineIndex.ofText t) = b := by
  cases h with
  | piece hbounds hfirst hlt hlast =>
    rw [stop, ← Int.natCast_add, ← Text.utf16Length_slice t hfirst (Nat.le_of_lt hlt)]
    exact LineIndex.offsetAt_utf16Length hbounds (by omega) hlast

theorem length_pos (h : On t a b m) : 0 < m.length := by
  cases h with
  | piece hbounds hfirst hlt hlast =>
    have hlength := (LineIndex.isLine_of_bounds? hbounds).stop_le_length
    exact Int.natCast_pos.mpr (Text.utf16Length_slice_pos hlt (Nat.le_trans hlast hlength))

theorem exists_line (h : On t a b m) : ∃ line start stop : Nat,
    (LineIndex.ofText t).bounds? line = some (start, stop) ∧ m.line = line ∧ 0 ≤ m.character ∧
      m.character + m.length ≤ (t.slice start stop).utf16Length := by
  cases h with
  | @piece line first last _ hbounds hfirst hlt hlast =>
    refine ⟨line, first, last, hbounds, rfl, Int.natCast_nonneg _, ?_⟩
    have hpiece := Text.utf16Length_slice t hfirst (Nat.le_of_lt hlt)
    have hline := Text.utf16Length_slice t (Nat.le_trans hfirst (Nat.le_of_lt hlt)) hlast
    dsimp only
    omega

theorem line_lt_or (h : On t a b m) (h' : On t a' b' n) (hle : b ≤ a') :
    m.line < n.line ∨ m.line = n.line ∧ m.character + m.length ≤ n.character := by
  cases h with
  | @piece line first last _ hbounds hfirst hlt hlast =>
    cases h' with
    | @piece line' first' last' _ hbounds' hfirst' hlt' hlast' =>
      dsimp only
      rcases Nat.lt_trichotomy line line' with hline | rfl | hline
      · exact .inl (by omega)
      · obtain ⟨rfl, rfl⟩ := Prod.mk.inj (Option.some.inj (hbounds.symm.trans hbounds'))
        have hpiece := Text.utf16Length_slice t hfirst (Nat.le_of_lt hlt)
        have hgap := Text.utf16Length_slice t (Nat.le_trans hfirst (Nat.le_of_lt hlt)) hle
        exact .inr ⟨rfl, by omega⟩
      · have hstop := (LineIndex.isLine_of_bounds? hbounds').stop_lt_start
          (LineIndex.isLine_of_bounds? hbounds) hline
        omega

end On

namespace Before

variable {m n : Mark}

theorem line_lt_or (h : Before t m n) :
    m.line < n.line ∨ m.line = n.line ∧ m.character < n.character := by
  obtain ⟨a, b, a', b', hm, hn, hle⟩ := h
  have hpos := hm.length_pos
  rcases hm.line_lt_or hn hle with hline | ⟨hline, hcharacter⟩
  · exact .inl hline
  · exact .inr ⟨hline, by omega⟩

theorem add_length_le (h : Before t m n) (hline : m.line = n.line) :
    m.character + m.length ≤ n.character := by
  obtain ⟨a, b, a', b', hm, hn, hle⟩ := h
  rcases hm.line_lt_or hn hle with hlt | ⟨-, hcharacter⟩
  · omega
  · exact hcharacter

theorem stop_le_start (h : Before t m n) :
    m.stop (LineIndex.ofText t) ≤ n.start (LineIndex.ofText t) := by
  obtain ⟨a, b, a', b', hm, hn, hle⟩ := h
  rw [hm.stop_eq, hn.start_eq]
  exact hle

end Before

end Mark

theorem getElem?_of_lastIndex? {tag : Text} {types : List Text} {type : Nat}
    (h : lastIndex? tag types = some type) : types[type]? = some tag := by
  induction types generalizing type with
  | nil => cases h
  | cons name types ih =>
    rw [lastIndex?] at h
    split at h
    · rename_i type hlast
      obtain rfl := Option.some.inj h
      exact ih hlast
    · split at h
      · rename_i heq
        obtain rfl := Option.some.inj h
        exact congrArg some heq
      · cases h

theorem exists_lastIndex? {tag : Text} {types : List Text} (h : tag ∈ types) :
    ∃ type, lastIndex? tag types = some type := by
  induction types with
  | nil => cases h
  | cons name types ih =>
    rw [lastIndex?]
    cases hlast : lastIndex? tag types with
    | some type => exact ⟨_, rfl⟩
    | none =>
      rcases List.mem_cons.mp h with rfl | h
      · exact ⟨0, if_pos rfl⟩
      · obtain ⟨type, htype⟩ := ih h
        rw [hlast] at htype
        cases htype

/-- If whitespace shares its tag with no other kind, the names leave out whitespace alone. -/
theorem Config.mem_visibleTagNames_iff {c : Config}
    (h : ∀ k, k ≠ .whitespace → c.tag k ≠ c.tag .whitespace) {k : Kind} :
    c.tag k ∈ c.visibleTagNames ↔ k ≠ .whitespace := by
  rw [visibleTagNames, tagNamesOf, List.mem_eraseDups, List.mem_map]
  constructor
  · rintro ⟨k', hk', htag⟩ rfl
    exact h k' (of_decide_eq_true (List.mem_filter.mp hk').2) htag
  · intro hk
    exact ⟨k, List.mem_filter.mpr ⟨Kind.mem_all k, decide_eq_true hk⟩, rfl⟩

namespace SemanticToken

variable {types : List Text} {type : Nat} {spans : List Span} {u : SemanticToken}

theorem ofPiece_on {start stop : Nat} (h : (a, b) ∈ (LineIndex.ofText t).pieces start stop) :
    Mark.On t a b (ofPiece (LineIndex.ofText t) type (a, b)).mark := by
  obtain ⟨line, first, last, hbounds, ha, hb, hlt⟩ := LineIndex.mem_pieces_iff.mp h
  have hline := LineIndex.isLine_of_bounds? hbounds
  rw [ofPiece, hline.positionAt_eq (by omega) (by omega)]
  exact .piece hbounds (by omega) hlt (by omega)

theorem mem_ofSpan_iff {s : Span} : u ∈ ofSpan (LineIndex.ofText t) types s ↔
    ∃ type, lastIndex? s.tag types = some type ∧
      ∃ a b, (a, b) ∈ (LineIndex.ofText t).pieces s.start.toNat s.stop.toNat ∧
        ofPiece (LineIndex.ofText t) type (a, b) = u := by
  rw [ofSpan]
  split
  · rename_i hnone
    simp only [hnone, List.not_mem_nil, reduceCtorEq, false_and, exists_false]
  · rename_i type hsome
    simp only [hsome, List.mem_map, Prod.exists, Option.some.injEq, exists_eq_left']

theorem ofSpan_pairwise (t : Text) (types : List Text) (s : Span) :
    (ofSpan (LineIndex.ofText t) types s).Pairwise fun u v => Mark.Before t u.mark v.mark := by
  rw [ofSpan]
  split
  · exact .nil
  · rw [List.pairwise_map]
    apply (LineIndex.pieces_pairwise t _ _).imp_of_mem
    rintro ⟨a, b⟩ ⟨a', b'⟩ hp hq hlt
    exact ⟨a, b, a', b', ofPiece_on hp, ofPiece_on hq, Nat.le_of_lt hlt⟩

theorem ofSpans_pairwise (t : Text) (types : List Text)
    (h : spans.Pairwise (·.stop ≤ ·.start)) :
    (ofSpans t types spans).Pairwise fun u v => Mark.Before t u.mark v.mark := by
  apply List.pairwise_flatMap.mpr
  refine ⟨fun s _ => ofSpan_pairwise t types s, ?_⟩
  apply h.imp
  intro r s hle u hu v hv
  obtain ⟨_, -, a, b, hp, rfl⟩ := mem_ofSpan_iff.mp hu
  obtain ⟨_, -, a', b', hq, rfl⟩ := mem_ofSpan_iff.mp hv
  have hbefore := LineIndex.bounds_of_mem_pieces hp
  have hbehind := LineIndex.bounds_of_mem_pieces hq
  exact ⟨a, b, a', b', ofPiece_on hp, ofPiece_on hq, by omega⟩

theorem exists_on_of_mem_ofSpans (h : u ∈ ofSpans t types spans) : ∃ a b, Mark.On t a b u.mark := by
  obtain ⟨s, -, hu⟩ := List.mem_flatMap.mp h
  obtain ⟨_, -, a, b, hp, rfl⟩ := mem_ofSpan_iff.mp hu
  exact ⟨a, b, ofPiece_on hp⟩

/-- A place in a mark is in a span with the tag that the mark names, and it ends no line. -/
theorem exists_span_of_mem_ofSpans (h : u ∈ ofSpans t types spans)
    (hstart : u.mark.start (LineIndex.ofText t) ≤ i)
    (hstop : i < u.mark.stop (LineIndex.ofText t)) :
    (∃ s ∈ spans, s.start ≤ i ∧ i < s.stop ∧ types[u.type]? = some s.tag) ∧
      ∃ ch, t[i]? = some ch ∧ isLineEnd ch = false := by
  obtain ⟨s, hs, hu⟩ := List.mem_flatMap.mp h
  obtain ⟨type, htype, a, b, hp, rfl⟩ := mem_ofSpan_iff.mp hu
  rw [(ofPiece_on hp).start_eq] at hstart
  rw [(ofPiece_on hp).stop_eq] at hstop
  obtain ⟨hstart, hstop, hplain⟩ := LineIndex.exists_mem_pieces_iff.mp ⟨a, b, hp, hstart, hstop⟩
  exact ⟨⟨s, hs, by omega, by omega, getElem?_of_lastIndex? htype⟩, hplain⟩

theorem exists_mem_ofSpans {s : Span} (hs : s ∈ spans) (htag : s.tag ∈ types) (hstart : s.start ≤ i)
    (hstop : i < s.stop) {ch : Char} (hch : t[i]? = some ch) (hplain : isLineEnd ch = false) :
    ∃ u ∈ ofSpans t types spans,
      u.mark.start (LineIndex.ofText t) ≤ i ∧ i < u.mark.stop (LineIndex.ofText t) := by
  obtain ⟨type, htype⟩ := exists_lastIndex? htag
  have hstart' : s.start.toNat ≤ i := by omega
  have hstop' : i < s.stop.toNat := by omega
  obtain ⟨a, b, hp, ha, hb⟩ :=
    LineIndex.exists_mem_pieces_iff.mpr ⟨hstart', hstop', ch, hch, hplain⟩
  have hu := mem_ofSpan_iff.mpr ⟨type, htype, a, b, hp, rfl⟩
  refine ⟨_, List.mem_flatMap.mpr ⟨s, hs, hu⟩, ?_⟩
  rw [(ofPiece_on hp).start_eq, (ofPiece_on hp).stop_eq]
  exact ⟨ha, hb⟩

end SemanticToken

/-- The marks have exactly the visible characters of a text, under the tags of their tokens. -/
structure MarksText (c : Config) (t : Text) (marks : List Mark) : Prop where
  length_pos : ∀ m ∈ marks, 0 < m.length
  increasing : marks.Pairwise fun m n =>
    m.line < n.line ∨ m.line = n.line ∧ m.character < n.character
  apart : marks.Pairwise fun m n => m.line = n.line → m.character + m.length ≤ n.character
  in_line : ∀ m ∈ marks, ∃ line start stop : Nat,
    (LineIndex.ofText t).bounds? line = some (start, stop) ∧ m.line = line ∧ 0 ≤ m.character ∧
      m.character + m.length ≤ (t.slice start stop).utf16Length
  disjoint : marks.Pairwise fun m n => m.stop (LineIndex.ofText t) ≤ n.start (LineIndex.ofText t)
  covers : ∀ i : Nat,
    (∃ m ∈ marks, m.start (LineIndex.ofText t) ≤ i ∧ i < m.stop (LineIndex.ofText t)) ↔
      (∃ ch, t[i]? = some ch ∧ ch ≠ '\r' ∧ ch ≠ '\n') ∧
        ∃ v ∈ tokenize c.keywords t, v.start ≤ i ∧ i < v.stop ∧ v.kind ≠ .whitespace
  tagged : ∀ m ∈ marks, ∀ i : Nat, m.start (LineIndex.ofText t) ≤ i →
    i < m.stop (LineIndex.ofText t) → ∀ v ∈ tokenize c.keywords t, v.start ≤ i → i < v.stop →
      ∃ type : Nat, m.type = type ∧ c.visibleTagNames[type]? = some (c.tag v.kind)

theorem isLineEnd_eq_false_iff {ch : Char} : isLineEnd ch = false ↔ ch ≠ '\r' ∧ ch ≠ '\n' := by
  rw [isLineEnd, Bool.or_eq_false_iff, beq_eq_false_iff_ne, beq_eq_false_iff_ne, and_comm]

theorem marksText_ofSpans {c : Config} (t : Text)
    (h : ∀ k, k ≠ .whitespace → c.tag k ≠ c.tag .whitespace) :
    MarksText c t
      ((SemanticToken.ofSpans t c.visibleTagNames (highlight c t)).map SemanticToken.mark) := by
  have htiles := tokenize_tiles c.keywords t
  have hordered := List.pairwise_map.mpr (SemanticToken.ofSpans_pairwise t c.visibleTagNames
    (Span.fill_ofTokens c htiles (Nat.zero_le _)).pairwise)
  constructor
  case length_pos =>
    intro m hm
    obtain ⟨u, hu, rfl⟩ := List.mem_map.mp hm
    obtain ⟨a, b, hon⟩ := SemanticToken.exists_on_of_mem_ofSpans hu
    exact hon.length_pos
  case increasing => exact hordered.imp Mark.Before.line_lt_or
  case apart => exact hordered.imp Mark.Before.add_length_le
  case in_line =>
    intro m hm
    obtain ⟨u, hu, rfl⟩ := List.mem_map.mp hm
    obtain ⟨a, b, hon⟩ := SemanticToken.exists_on_of_mem_ofSpans hu
    exact hon.exists_line
  case disjoint => exact hordered.imp Mark.Before.stop_le_start
  case covers =>
    intro i
    constructor
    · rintro ⟨m, hm, hstart, hstop⟩
      obtain ⟨u, hu, rfl⟩ := List.mem_map.mp hm
      obtain ⟨⟨s, hs, hsi, his, hname⟩, ch, hch, hplain⟩ :=
        SemanticToken.exists_span_of_mem_ofSpans hu hstart hstop
      obtain ⟨v, hv, hvi, hiv, htag⟩ :=
        (Span.exists_mem_ofTokens_iff c htiles).mp ⟨s, hs, hsi, his, rfl⟩
      have hvisible := List.mem_of_getElem? hname
      rw [← htag, Config.mem_visibleTagNames_iff h] at hvisible
      exact ⟨⟨ch, hch, isLineEnd_eq_false_iff.mp hplain⟩, v, hv, hvi, hiv, hvisible⟩
    · rintro ⟨⟨ch, hch, hplain⟩, v, hv, hvi, hiv, hkind⟩
      obtain ⟨s, hs, hsi, his, htag⟩ :=
        (Span.exists_mem_ofTokens_iff c htiles).mpr ⟨v, hv, hvi, hiv, rfl⟩
      have hvisible := (Config.mem_visibleTagNames_iff h).mpr hkind
      rw [← htag] at hvisible
      obtain ⟨u, hu, hui⟩ := SemanticToken.exists_mem_ofSpans hs hvisible hsi his hch
        (isLineEnd_eq_false_iff.mpr hplain)
      exact ⟨u.mark, List.mem_map_of_mem hu, hui⟩
  case tagged =>
    intro m hm i hstart hstop v hv hvi hiv
    obtain ⟨u, hu, rfl⟩ := List.mem_map.mp hm
    obtain ⟨⟨s, hs, hsi, his, hname⟩, -⟩ :=
      SemanticToken.exists_span_of_mem_ofSpans hu hstart hstop
    obtain ⟨w, hw, hwi, hiw, htag⟩ :=
      (Span.exists_mem_ofTokens_iff c htiles).mp ⟨s, hs, hsi, his, rfl⟩
    obtain rfl := htiles.eq_of_mem hv hw hvi hiv hwi hiw
    exact ⟨u.type, rfl, htag ▸ hname⟩

/-- The numbers for the spans of a text, read back, give marks of the text. -/
theorem decode_encodeSemanticTokens (c : Config) (t : Text)
    (h : ∀ k, k ≠ .whitespace → c.tag k ≠ c.tag .whitespace) :
    let data := encodeSemanticTokens t (highlight c t) c.visibleTagNames
    (∀ n ∈ data, 0 ≤ n) ∧ data.length = 5 * (Mark.decode 0 0 data).length ∧
      MarksText c t (Mark.decode 0 0 data) := by
  intro data
  have hdecode : Mark.decode 0 0 data = _ :=
    SemanticToken.decode_deltas 0 0 (SemanticToken.ofSpans t c.visibleTagNames (highlight c t))
  have hmarks := marksText_ofSpans t h
  have hordered := List.pairwise_map.mp hmarks.increasing
  rw [hdecode, List.length_map]
  refine ⟨?_, SemanticToken.length_deltas 0 0 _, hmarks⟩
  apply SemanticToken.deltas_nonneg
  · intro u _
    rw [SemanticToken.NotBefore]
    omega
  · apply hordered.imp
    intro u v hlt
    rw [SemanticToken.mark, SemanticToken.mark] at hlt
    rw [SemanticToken.NotBefore]
    dsimp only at hlt
    omega

theorem standard_tag_ne_whitespace {k : Kind} (hk : k ≠ .whitespace) :
    Config.standard.tag k ≠ Config.standard.tag .whitespace := by
  intro htag
  have hkind := congrArg Kind.ofTag? (show k.tag = Kind.tag .whitespace from htag)
  rw [Kind.ofTag?_tag, Kind.ofTag?_tag] at hkind
  exact hk (Option.some.inj hkind)

/-- A comment over two lines, the second of which starts with a character of two code units. -/
theorem decode_encodeSemanticTokens_comment :
    (∀ k, k ≠ .whitespace → Config.standard.tag k ≠ Config.standard.tag .whitespace) ∧
      MarksText .standard "/*a\r\n😀*/ x".toList [⟨0, 0, 3, 12⟩, ⟨1, 0, 4, 12⟩, ⟨1, 5, 1, 7⟩] := by
  have hdata : encodeSemanticTokens "/*a\r\n😀*/ x".toList
      (highlight .standard "/*a\r\n😀*/ x".toList) Config.standard.visibleTagNames =
        [0, 0, 3, 12, 0, 1, 0, 4, 12, 0, 0, 5, 1, 7, 0] := by
    decide +kernel
  have hmarks := (decode_encodeSemanticTokens .standard "/*a\r\n😀*/ x".toList
    fun _ => standard_tag_ne_whitespace).2.2
  rw [hdata] at hmarks
  exact ⟨fun _ => standard_tag_ne_whitespace, hmarks⟩

end Highlighter
