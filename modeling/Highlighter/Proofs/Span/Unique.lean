import Mathlib.Data.List.Chain
import Highlighter.Proofs.Span.LineEnds

/-!
What determines the spans of a text. They fill the text, neighbouring ones have different tags, and
every place has the tag of its token; no other list of spans is like that. So spans change only
where the tags of tokens do.
-/

set_option autoImplicit false

namespace Highlighter

namespace Span

variable {t : Text} {r s : Span} {spans spans' rest : List Span} {pos : Nat} {start stop : Int}

theorem isChain_join (h : Fill stop s.stop spans) (hchain : spans.IsChain (·.tag ≠ ·.tag)) :
    (join s spans).IsChain (·.tag ≠ ·.tag) := by
  cases spans with
  | nil => exact .singleton s
  | cons r rest =>
    have hstart := h.uncons.1
    rw [join]
    split
    · rename_i hjoin
      rw [List.isChain_cons, ← hjoin.1] at hchain
      exact List.isChain_cons.mpr hchain
    · rename_i hapart
      exact .cons_cons (fun htag => hapart ⟨htag, hstart.symm⟩) hchain

theorem isChain_ofTokens (c : Config) {tokens : List Token} (h : Tiles t pos tokens) :
    (ofTokens c tokens).IsChain (·.tag ≠ ·.tag) := by
  induction h with
  | stop => exact .nil
  | token _ hle hrest ih => exact isChain_join (fill_ofTokens c hrest hle) ih

theorem Fill.eq_of_mem (h : Fill stop start spans) (hr : r ∈ spans) (hs : s ∈ spans) {i : Int}
    (hri : r.start ≤ i) (hir : i < r.stop) (hsi : s.start ≤ i) (his : i < s.stop) : r = s := by
  induction h with
  | nil => cases hr
  | cons _ hrest ih =>
    rcases List.mem_cons.mp hr with rfl | hr'
    · rcases List.mem_cons.mp hs with rfl | hs'
      · rfl
      · have := hrest.le_start s hs'
        omega
    · rcases List.mem_cons.mp hs with rfl | hs'
      · have := hrest.le_start r hr'
        omega
      · exact ih hr' hs'

/-- A span with a different one behind it does not stop before another span that gives the same tag
to what they share. -/
theorem Fill.stop_le (h : Fill stop s.stop rest) (hchain : (s :: rest).IsChain (·.tag ≠ ·.tag))
    (hle : r.stop ≤ stop) (hstart : r.start ≤ s.stop) (htag : s.tag = r.tag)
    (hagree : ∀ a ∈ rest, ∀ i, a.start ≤ i → i < a.stop → r.start ≤ i → i < r.stop →
      a.tag = r.tag) : r.stop ≤ s.stop := by
  refine Int.not_lt.mp fun hlt => ?_
  cases rest with
  | nil =>
    have hstop := h.stop_unique .nil
    omega
  | cons a rest =>
    obtain ⟨hfirst, hpos, -⟩ := h.uncons
    have hsame := hagree a List.mem_cons_self a.start (Int.le_refl _) hpos (by omega) (by omega)
    exact (List.isChain_cons_cons.mp hchain).1 (htag.trans hsame.symm)

/-- Spans that fill the same range, of which neighbouring ones differ in their tags, are the same if
they give every place the same tag. -/
theorem Fill.eq_of_agree (h : Fill stop start spans) (h' : Fill stop start spans')
    (hchain : spans.IsChain (·.tag ≠ ·.tag)) (hchain' : spans'.IsChain (·.tag ≠ ·.tag))
    (hagree : ∀ r ∈ spans, ∀ s ∈ spans', ∀ i, r.start ≤ i → i < r.stop → s.start ≤ i →
      i < s.stop → r.tag = s.tag) : spans = spans' := by
  induction h generalizing spans' with
  | nil =>
    cases spans' with
    | nil => rfl
    | cons r rest' =>
      obtain ⟨hstart, hlt, hrest'⟩ := h'.uncons
      have := hrest'.bounds.1
      omega
  | @cons s rest hlt hrest ih =>
    cases spans' with
    | nil =>
      have hstop := h'.stop_unique .nil
      have := hrest.bounds.1
      omega
    | cons r rest' =>
      obtain ⟨hstart, hlt', hrest'⟩ := h'.uncons
      have htag := hagree s List.mem_cons_self r List.mem_cons_self s.start (Int.le_refl _) hlt
        (Int.le_of_eq hstart) (by omega)
      have hle : r.stop ≤ s.stop := hrest.stop_le hchain hrest'.bounds.1 (by omega) htag
        fun a ha i hai hia hri hir => hagree a (List.mem_cons_of_mem _ ha) r List.mem_cons_self i
          hai hia hri hir
      have hle' : s.stop ≤ r.stop := hrest'.stop_le hchain' hrest.bounds.1 (by omega) htag.symm
        fun a ha i hai hia hsi his => (hagree s List.mem_cons_self a (List.mem_cons_of_mem _ ha) i
          hsi his hai hia).symm
      have hstop : s.stop = r.stop := Int.le_antisymm hle' hle
      have heq : s = r := by
        cases s
        cases r
        simp_all
      subst heq
      rw [ih hrest' (List.isChain_cons.mp hchain).2 (List.isChain_cons.mp hchain').2
        fun a ha b hb => hagree a (List.mem_cons_of_mem _ ha) b (List.mem_cons_of_mem _ hb)]

theorem exists_bounds_of_mem_join (h : r ∈ join s spans) :
    (r.start = s.start ∨ ∃ a ∈ spans, r.start = a.start) ∧
      (r.stop = s.stop ∨ ∃ a ∈ spans, r.stop = a.stop) := by
  cases spans with
  | nil =>
    obtain rfl := List.mem_singleton.mp h
    exact ⟨.inl rfl, .inl rfl⟩
  | cons a rest =>
    rw [join] at h
    split at h
    · rcases List.mem_cons.mp h with rfl | hr
      · exact ⟨.inl rfl, .inr ⟨a, List.mem_cons_self, rfl⟩⟩
      · have hmem := List.mem_cons_of_mem a hr
        exact ⟨.inr ⟨r, hmem, rfl⟩, .inr ⟨r, hmem, rfl⟩⟩
    · rcases List.mem_cons.mp h with rfl | hr
      · exact ⟨.inl rfl, .inl rfl⟩
      · exact ⟨.inr ⟨r, hr, rfl⟩, .inr ⟨r, hr, rfl⟩⟩

/-- A span starts where a token starts and stops where a token stops. -/
theorem exists_bounds_of_mem_ofTokens (c : Config) {tokens : List Token}
    (h : s ∈ ofTokens c tokens) :
    (∃ u ∈ tokens, s.start = u.start) ∧ ∃ u ∈ tokens, s.stop = u.stop := by
  induction tokens generalizing s with
  | nil => cases h
  | cons u tokens ih =>
    rw [ofTokens] at h
    obtain ⟨hstart, hstop⟩ := exists_bounds_of_mem_join h
    constructor
    · rcases hstart with hstart | ⟨a, ha, hstart⟩
      · exact ⟨u, List.mem_cons_self, hstart⟩
      · obtain ⟨v, hv, hav⟩ := (ih ha).1
        exact ⟨v, List.mem_cons_of_mem _ hv, hstart.trans hav⟩
    · rcases hstop with hstop | ⟨a, ha, hstop⟩
      · exact ⟨u, List.mem_cons_self, hstop⟩
      · obtain ⟨v, hv, hav⟩ := (ih ha).2
        exact ⟨v, List.mem_cons_of_mem _ hv, hstop.trans hav⟩

end Span

/-- No token starts or stops inside another one. -/
theorem Tiles.not_inside {t : Text} {pos : Nat} {tokens : List Token} (h : Tiles t pos tokens)
    {u v : Token} (hu : u ∈ tokens) (hv : v ∈ tokens) :
    ¬ (u.start < v.start ∧ v.start < u.stop) ∧ ¬ (u.start < v.stop ∧ v.stop < u.stop) := by
  have hpos := (h.start_lt_stop v hv).2
  constructor
  · rintro ⟨hlt, hgt⟩
    obtain rfl := h.eq_of_mem hu hv (Int.le_of_lt hlt) hgt (Int.le_refl _) hpos
    omega
  · rintro ⟨hlt, hgt⟩
    obtain rfl := h.eq_of_mem hu hv (i := v.stop - 1) (by omega) (by omega) (by omega) (by omega)
    omega

/-- The spans give every place of a text the tag of its token. -/
def TagsPlaces (c : Config) (t : Text) (spans : List Span) : Prop :=
  ∀ i : Nat, i < t.length → ∃ s ∈ spans, ∃ u ∈ tokenize c.keywords t,
    s.start ≤ i ∧ i < s.stop ∧ u.start ≤ i ∧ i < u.stop ∧ s.tag = c.tag u.kind

theorem highlight_tagsPlaces (c : Config) (t : Text) : TagsPlaces c t (highlight c t) := by
  intro i hi
  have htiles := tokenize_tiles c.keywords t
  obtain ⟨u, hu, hui, hiu⟩ := htiles.exists_mem (Nat.zero_le i) hi
  obtain ⟨s, hs, hsi, his, htag⟩ :=
    (Span.exists_mem_ofTokens_iff c htiles).mpr ⟨u, hu, hui, hiu, rfl⟩
  exact ⟨s, hs, u, hu, hsi, his, hui, hiu, htag⟩

/-- Spans that fill a text and give every place the tag of its token give to a place in a token that
token's tag. -/
theorem TagsPlaces.tag_eq {c : Config} {t : Text} {spans : List Span} (h : TagsPlaces c t spans)
    (hfill : Span.Fill t.length 0 spans) {s : Span} {u : Token} (hs : s ∈ spans)
    (hu : u ∈ tokenize c.keywords t) {i : Int} (hsi : s.start ≤ i) (his : i < s.stop)
    (hui : u.start ≤ i) (hiu : i < u.stop) : s.tag = c.tag u.kind := by
  obtain ⟨hstart, hstop, -⟩ := hfill.bounds.2 s hs
  obtain ⟨n, rfl⟩ := Int.eq_ofNat_of_zero_le (show 0 ≤ i by omega)
  obtain ⟨r, hr, v, hv, hrn, hnr, hvn, hnv, htag⟩ := h n (by omega)
  rw [hfill.eq_of_mem hs hr hsi his hrn hnr,
    (tokenize_tiles c.keywords t).eq_of_mem hu hv hui hiu hvn hnv, htag]

/-- Two texts have the same tags at all places. -/
def SameTags (c c' : Config) (t t' : Text) : Prop :=
  ∀ u ∈ tokenize c.keywords t, ∀ u' ∈ tokenize c'.keywords t', ∀ i, u.start ≤ i → i < u.stop →
    u'.start ≤ i → i < u'.stop → c.tag u.kind = c'.tag u'.kind

theorem sameTags_self (c : Config) (t : Text) : SameTags c c t t := by
  intro u hu u' hu' i hui hiu hui' hiu'
  rw [(tokenize_tiles c.keywords t).eq_of_mem hu hu' hui hiu hui' hiu']

theorem TagsPlaces.eq_of_sameTags {c c' : Config} {t t' : Text} {spans spans' : List Span}
    (h : TagsPlaces c t spans) (h' : TagsPlaces c' t' spans')
    (hfill : Span.Fill t.length 0 spans) (hfill' : Span.Fill t'.length 0 spans')
    (hchain : spans.IsChain (·.tag ≠ ·.tag)) (hchain' : spans'.IsChain (·.tag ≠ ·.tag))
    (hlength : t.length = t'.length) (hsame : SameTags c c' t t') : spans = spans' := by
  refine hfill.eq_of_agree (hlength ▸ hfill') hchain hchain' ?_
  intro r hr s hs i hri hir hsi his
  obtain ⟨hstart, hstop, -⟩ := hfill.bounds.2 r hr
  obtain ⟨n, rfl⟩ := Int.eq_ofNat_of_zero_le (show 0 ≤ i by omega)
  obtain ⟨u, hu, hui, hiu⟩ :=
    (tokenize_tiles c.keywords t).exists_mem (i := n) (Nat.zero_le n) (by omega)
  obtain ⟨u', hu', hui', hiu'⟩ :=
    (tokenize_tiles c'.keywords t').exists_mem (i := n) (Nat.zero_le n) (by omega)
  calc r.tag = c.tag u.kind := h.tag_eq hfill hr hu hri hir hui hiu
    _ = c'.tag u'.kind := hsame u hu u' hu' n hui hiu hui' hiu'
    _ = s.tag := (h'.tag_eq hfill' hs hu' hsi his hui' hiu').symm

theorem highlight_isChain (c : Config) (t : Text) :
    (highlight c t).IsChain (·.tag ≠ ·.tag) :=
  Span.isChain_ofTokens c (tokenize_tiles c.keywords t)

/-- The spans of a text are the one way to fill it with spans that are not empty, of which
neighbours differ in their tags, and that give every place the tag of its token. They start and stop
between tokens, and texts with the same tags at all places have the same spans. -/
theorem eq_highlight_iff (c : Config) (t : Text) (spans : List Span) :
    (spans = highlight c t ↔ Span.Fill t.length 0 spans ∧ spans.IsChain (·.tag ≠ ·.tag) ∧
      TagsPlaces c t spans) ∧
    (∀ s ∈ highlight c t, ∀ u ∈ tokenize c.keywords t,
      ¬ (u.start < s.start ∧ s.start < u.stop) ∧ ¬ (u.start < s.stop ∧ s.stop < u.stop)) ∧
    ∀ (c' : Config) (t' : Text), t.length = t'.length → SameTags c c' t t' →
      highlight c t = highlight c' t' := by
  have htiles := tokenize_tiles c.keywords t
  have hfill := highlight_fill c t
  have hchain := highlight_isChain c t
  have htags := highlight_tagsPlaces c t
  refine ⟨⟨?_, ?_⟩, ?_, ?_⟩
  · rintro rfl
    exact ⟨hfill, hchain, htags⟩
  · rintro ⟨hfill', hchain', htags'⟩
    exact htags'.eq_of_sameTags htags hfill' hfill hchain' hchain rfl (sameTags_self c t)
  · intro s hs u hu
    obtain ⟨⟨v, hv, hstart⟩, w, hw, hstop⟩ := Span.exists_bounds_of_mem_ofTokens c hs
    rw [hstart, hstop]
    exact ⟨(htiles.not_inside hu hv).1, (htiles.not_inside hu hw).2⟩
  · intro c' t' hlength hsame
    exact htags.eq_of_sameTags (highlight_tagsPlaces c' t') hfill (highlight_fill c' t') hchain
      (highlight_isChain c' t') hlength hsame

end Highlighter
