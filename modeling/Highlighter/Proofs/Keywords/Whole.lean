import Highlighter.Proofs.Keywords.Listing
import Highlighter.Proofs.Keywords.Recognition

/-!
Texts that are one word. What counts as a word is settled apart from scanning, character by
character; still the words are the texts that a scan reads as one identifier. So a keyword that a
table accepts is found where it is the whole text, and whatever is found as a word is accepted as a
keyword.
-/

set_option autoImplicit false

namespace Highlighter

variable {w : Text} {k : Keywords} {kind : Kind}

theorem StandsAlone.self (w : Text) : StandsAlone w w 0 := by
  constructor
  case here => exact ⟨[], List.append_nil w⟩
  case before =>
    intro j c hj
    omega
  case behind =>
    intro c hc
    rw [Nat.zero_add, List.getElem?_eq_none (Nat.le_refl w.length)] at hc
    cases hc

theorem Tiles.whole (h : w ≠ []) (kind : Kind) : Tiles w 0 [⟨kind, 0, w.length, w⟩] := by
  have hslice : w.slice 0 w.length = w := by
    rw [← Nat.zero_add w.length]
    simpa using w.slice_eq_take_drop 0 w.length
  have htile : Tiles w 0 [⟨kind, (0 : Nat), w.length, w.slice (0 : Nat) w.length⟩] :=
    .token (List.length_pos_iff.mpr h) (Nat.le_refl w.length) (.stop (Nat.le_refl w.length))
  rwa [Int.natCast_zero, hslice] at htile

theorem ne_nil_of_isWord (h : isWord w = true) : w ≠ [] := by
  rintro rfl
  cases h

/-- The words are the texts that a scan reads as one identifier. -/
theorem isWord_iff_scan_eq : isWord w = true ↔ scan w = [⟨.identifier, 0, w.length, w⟩] := by
  constructor
  · intro hword
    symm
    rw [eq_scan_iff]
    refine ⟨.whole (ne_nil_of_isWord hword) .identifier, ?_⟩
    intro v hv
    obtain rfl := List.mem_singleton.mp hv
    simpa using (StandsAlone.self w).lexical hword
  · intro hscan
    have hmem : ⟨.identifier, 0, w.length, w⟩ ∈ scan w := by
      rw [hscan]
      exact List.mem_singleton_self _
    exact (isWord_lexeme_iff hmem).mpr rfl

theorem tokenize_of_isWord (h : isWord w = true) (k : Keywords) :
    tokenize k w = [⟨k.lookup w, 0, w.length, w⟩] := by
  rw [tokenize, isWord_iff_scan_eq.mp h, List.map_singleton, k.classify_of_kind_eq rfl]

theorem ofGroups_singleton (hword : isWord w = true) (hkind : kind.isKeyword = true) :
    Keywords.ofGroups [(kind, [.str w])] = .ok ⟨[(w, kind)]⟩ := by
  have hadd : Keywords.addWord kind [] (.str w) = .ok [(w, kind)] := by
    apply Keywords.addWord_eq_ok_iff.mpr
    refine ⟨w, rfl, hword, ?_, rfl⟩
    intro first hno
    cases hno
  have hgroup : Keywords.addGroup [] (kind, [.str w]) = .ok [(w, kind)] := by
    rw [Keywords.addGroup, if_pos hkind, List.foldlM_cons, hadd]
    rfl
  rw [Keywords.ofGroups, List.foldlM_cons, hgroup]
  rfl

/-- Words are recognized in the same way as keywords and in texts: what is a word is read as one
identifier, what a table lists is found as it is listed, and what is found as a word in any text can
be listed. -/
theorem isWord_iff_scan (w : Text) :
    (isWord w = true ↔ scan w = [⟨.identifier, 0, w.length, w⟩]) ∧
      (∀ groups k kind, Keywords.ofGroups groups = .ok k →
        ((w, kind) ∈ k.entries ↔ groups.Lists kind (.str w)) ∧
          ((w, kind) ∈ k.entries → tokenize k w = [⟨kind, 0, w.length, w⟩])) ∧
      ∀ t, ∀ v ∈ scan t, v.kind = .identifier → v.lexeme = w →
        ∀ kind, kind.isKeyword = true →
          Keywords.ofGroups [(kind, [.str w])] = .ok ⟨[(w, kind)]⟩ := by
  refine ⟨isWord_iff_scan_eq, ?_, ?_⟩
  · intro groups k kind h
    have hget := (Keywords.distinct_of_ofGroups h).get?_eq_some_iff (k := w) (v := kind)
    refine ⟨?_, ?_⟩
    · rw [← hget, Keywords.get?_of_ofGroups h]
    · intro hmem
      have hfound := hget.mpr hmem
      rw [tokenize_of_isWord (Keywords.wellFormed_of_ofGroups h w kind hfound).1, Keywords.lookup,
        hfound, Option.getD_some]
  · intro t v hv hkind hlexeme kind hkeyword
    subst hlexeme
    exact ofGroups_singleton ((isWord_lexeme_iff hv).mpr hkind) hkeyword

-- Digits of other scripts go on a word, but start neither a word nor a number.
example : isWord "x٣".toList = true ∧ isWord "٣x".toList = false := by decide +kernel

end Highlighter
