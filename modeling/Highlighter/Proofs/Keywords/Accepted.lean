import Highlighter.Keywords
import Highlighter.Proofs.Except

/-!
Accepted keyword tables. A table that is made from groups lists single words, each under a kind that
keywords may have.
-/

set_option autoImplicit false

namespace Highlighter

namespace Keywords

variable {entries entries' : Entries Text Kind} {kind : Kind} {word : Text} {value : Setting}

/-- The entries give single words kinds that keywords may have. -/
def WellFormed (entries : Entries Text Kind) : Prop :=
  ∀ word kind, entries.get? word = some kind → isWord word = true ∧ kind.isKeyword = true

theorem wellFormed_nil : WellFormed [] := by
  rintro _ _ ⟨⟩

theorem WellFormed.put (h : WellFormed entries) (hword : isWord word = true)
    (hkind : kind.isKeyword = true) : WellFormed (entries.put word kind) := by
  intro word' kind' hget
  rw [Entries.get?_put] at hget
  split at hget
  · rename_i heq
    subst heq
    exact Option.some.inj hget ▸ ⟨hword, hkind⟩
  · exact h word' kind' hget

theorem addWord_eq_ok_iff :
    addWord kind entries value = .ok entries' ↔
      ∃ word, value = .str word ∧ isWord word = true ∧
        (∀ first, entries.get? word = some first → first = kind) ∧
        entries.put word kind = entries' := by
  unfold addWord
  split
  · rename_i word
    cases hget : entries.get? word with
    | none => by_cases hword : isWord word = true <;> simp [hword, hget]
    | some first =>
      by_cases hword : isWord word = true
      · by_cases hfirst : first = kind <;> simp [hword, hget, hfirst]
      · simp [hword]
  · rename_i hno
    constructor
    · intro h
      cases h
    · intro h
      obtain ⟨word, heq, -⟩ := h
      exact absurd heq (hno word)

/-- What is kept by every word that is added, a table that is made from groups has. -/
theorem ofGroups_keeps {P : Entries Text Kind → Prop} (hnil : P [])
    (hput : ∀ entries word kind, P entries → isWord word = true → kind.isKeyword = true →
      P (entries.put word kind))
    {groups : Entries Kind (List Setting)} {k : Keywords} (h : ofGroups groups = .ok k) :
    P k.entries := by
  obtain ⟨entries, hfold, h⟩ := exists_of_bind_eq_ok h
  obtain rfl := Except.ok.inj h
  refine foldlM_keeps ?_ hnil hfold
  intro entries group next hentries hgroup
  rw [addGroup] at hgroup
  split at hgroup
  · rename_i hkind
    refine foldlM_keeps ?_ hentries hgroup
    intro entries value next hentries hadd
    obtain ⟨word, -, hword, -, rfl⟩ := addWord_eq_ok_iff.mp hadd
    exact hput entries word group.1 hentries hword hkind
  · cases hgroup

theorem wellFormed_of_ofGroups {groups : Entries Kind (List Setting)} {k : Keywords}
    (h : ofGroups groups = .ok k) : WellFormed k.entries :=
  ofGroups_keeps wellFormed_nil (fun _ _ _ h hword hkind => h.put hword hkind) h

theorem lookup_eq_iff {k : Keywords} (hkind : kind ≠ .identifier) :
    k.lookup word = kind ↔ k.entries.get? word = some kind := by
  rw [lookup]
  cases k.entries.get? word with
  | none => simpa using hkind.symm
  | some found => simp

end Keywords

end Highlighter
