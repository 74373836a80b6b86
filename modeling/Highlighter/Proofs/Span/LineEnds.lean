import Highlighter.Proofs.Scan.LineEnds
import Highlighter.Proofs.Span.Cover

/-!
Spans do not depend on how lines end. With plain line ends a text has the same spans, with the same
tags, and their positions are the same if and only if no carriage return of the text is followed by
a line feed.
-/

set_option autoImplicit false

namespace Highlighter

namespace Text

variable {t : Text} {i : Int}

theorem plainPlace_eq_self (h : ¬ ['\r', '\n'] <:+: t) (hi : 0 ≤ i) (hle : i ≤ t.length) :
    t.plainPlace i = i := by
  have hno : ¬ ['\r', '\n'] <:+: t.take i.toNat :=
    fun hpair => h (hpair.trans (List.take_prefix _ t).isInfix)
  rw [plainPlace, length_plainLineEnds_eq_iff.mpr hno, List.length_take]
  omega

end Text

namespace Span

/-- A span of a text, where it lies when the text has plain line ends. -/
def withPlainLineEnds (t : Text) (s : Span) : Span :=
  ⟨t.plainPlace s.start, t.plainPlace s.stop, s.tag⟩

variable {t : Text} {s : Span} {spans : List Span} {pos : Nat} {start stop stop' : Int}

theorem Fill.uncons (h : Fill stop start (s :: spans)) :
    s.start = start ∧ s.start < s.stop ∧ Fill stop s.stop spans := by
  cases h with
  | cons hlt hrest => exact ⟨rfl, hlt, hrest⟩

theorem Fill.stop_unique (h : Fill stop start spans) (h' : Fill stop' start spans) :
    stop = stop' := by
  induction h with
  | nil =>
    cases h'
    rfl
  | cons _ _ ih => exact ih h'.uncons.2.2

theorem Fill.bounds (h : Fill stop start spans) :
    start ≤ stop ∧ ∀ s ∈ spans, start ≤ s.start ∧ s.stop ≤ stop ∧ s.start < s.stop := by
  induction h with
  | nil => exact ⟨Int.le_refl _, List.forall_mem_nil _⟩
  | cons hlt _ ih =>
    refine ⟨by omega, ?_⟩
    intro r hr
    rcases List.mem_cons.mp hr with rfl | hr
    · exact ⟨Int.le_refl _, ih.1, hlt⟩
    · have := ih.2 r hr
      omega

theorem ofTokens_withPlainLineEnds (c : Config) {tokens : List Token} (h : Tiles t pos tokens)
    (hpos : pos ≤ t.length) :
    ofTokens c (tokens.map (Token.withPlainLineEnds t)) =
      (ofTokens c tokens).map (withPlainLineEnds t) := by
  induction h with
  | stop => rfl
  | @token pos stop kind rest hlt hle hrest ih =>
    have hfill := fill_ofTokens c hrest hle
    rw [List.map_cons, ofTokens, ofTokens, ih hle]
    cases hspans : ofTokens c rest with
    | nil => rfl
    | cons r spans =>
      -- What comes behind starts where the token stops, so whether it is joined is told by the tag.
      rw [hspans] at hfill
      have hstart := hfill.uncons.1
      rw [List.map_cons, join, join]
      simp only [Token.withPlainLineEnds, withPlainLineEnds, hstart, and_true]
      split
      · rfl
      · simp only [List.map_cons, withPlainLineEnds, hstart]

end Span

theorem highlight_plainLineEnds (c : Config) (t : Text) :
    highlight c t.plainLineEnds = (highlight c t).map (Span.withPlainLineEnds t) := by
  rw [highlight, tokenize_plainLineEnds]
  exact Span.ofTokens_withPlainLineEnds c (tokenize_tiles c.keywords t) (Nat.zero_le _)

theorem highlight_fill (c : Config) (t : Text) : Span.Fill t.length 0 (highlight c t) :=
  Span.fill_ofTokens c (tokenize_tiles c.keywords t) (Nat.zero_le _)

theorem highlight_plainLineEnds_eq_iff (c : Config) (t : Text) :
    highlight c t.plainLineEnds = highlight c t ↔ ¬ ['\r', '\n'] <:+: t := by
  have hfill := highlight_fill c t
  constructor
  · intro heq
    have hfill' := highlight_fill c t.plainLineEnds
    rw [heq] at hfill'
    exact Text.length_plainLineEnds_eq_iff.mp (Int.natCast_inj.mp (hfill'.stop_unique hfill))
  · intro hno
    rw [highlight_plainLineEnds]
    refine (List.map_congr_left fun s hs => ?_).trans (List.map_id _)
    obtain ⟨hstart, hstop, hlt⟩ := hfill.bounds.2 s hs
    rw [Span.withPlainLineEnds, Text.plainPlace_eq_self hno hstart (by omega),
      Text.plainPlace_eq_self hno (by omega) hstop]
    rfl

end Highlighter
