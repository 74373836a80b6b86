import Highlighter.Proofs.Entries
import Highlighter.Proofs.Keywords.Accepted

/-!
What groups list. Words are added one after the other, and each must have one kind only, whether it
is listed once or many times. So groups make a table if and only if their kinds are those of
keywords, all that they list are single words, and no word is listed under two kinds; and the table
gives the words just those kinds.
-/

set_option autoImplicit false

namespace Highlighter.Keywords

/-- No word is given two kinds. -/
def Unambiguous (gives : Text → Kind → Prop) : Prop :=
  ∀ word kind kind', gives word kind → gives word kind' → kind = kind'

theorem Unambiguous.mono {gives gives' : Text → Kind → Prop} (h : Unambiguous gives')
    (hsub : ∀ word kind, gives word kind → gives' word kind) : Unambiguous gives := by
  intro word kind kind' hkind hkind'
  exact h word kind kind' (hsub word kind hkind) (hsub word kind' hkind')

theorem unambiguous_congr {gives gives' : Text → Kind → Prop}
    (h : ∀ word kind, gives word kind ↔ gives' word kind) :
    Unambiguous gives ↔ Unambiguous gives' :=
  ⟨fun hu => hu.mono fun word kind => (h word kind).mpr,
    fun hu => hu.mono fun word kind => (h word kind).mp⟩

/-- The kinds that entries give to words are never ambiguous. -/
theorem unambiguous_get? (entries : Entries Text Kind) :
    Unambiguous fun word kind => entries.get? word = some kind := by
  intro word kind kind' hkind hkind'
  exact Option.some.inj (hkind.symm.trans hkind')

section Collects

variable {α : Type} {step : Entries Text Kind → α → Except ConfigFault (Entries Text Kind)}
  {gives : α → Text → Kind → Prop} {fine : α → Prop} {entries entries' : Entries Text Kind} {a : α}

/-- The step adds the words that an item gives. It succeeds if nothing is wrong with the item itself
and no word comes to have two kinds. -/
structure Collects (step : Entries Text Kind → α → Except ConfigFault (Entries Text Kind))
    (gives : α → Text → Kind → Prop) (fine : α → Prop) : Prop where
  get?_iff : ∀ {entries entries' a}, step entries a = .ok entries' → ∀ word kind,
    entries'.get? word = some kind ↔ entries.get? word = some kind ∨ gives a word kind
  fine_of_ok : ∀ {entries entries' a}, step entries a = .ok entries' → fine a
  exists_ok : ∀ {entries a}, fine a →
    (Unambiguous fun word kind => entries.get? word = some kind ∨ gives a word kind) →
    ∃ entries', step entries a = .ok entries'

theorem Collects.exists_ok_iff (h : Collects step gives fine) :
    (∃ entries', step entries a = .ok entries') ↔
      fine a ∧ Unambiguous fun word kind => entries.get? word = some kind ∨ gives a word kind := by
  constructor
  · intro hsome
    obtain ⟨entries', hok⟩ := hsome
    refine ⟨h.fine_of_ok hok, (unambiguous_get? entries').mono ?_⟩
    intro word kind hgives
    exact (h.get?_iff hok word kind).mpr hgives
  · intro hfine
    exact h.exists_ok hfine.1 hfine.2

/-- Steps that are taken for one item after another collect what the items give together. -/
theorem Collects.foldlM (h : Collects step gives fine) :
    Collects (fun entries (items : List α) => items.foldlM step entries)
      (fun items word kind => ∃ a ∈ items, gives a word kind) fun items => ∀ a ∈ items, fine a := by
  constructor
  case get?_iff =>
    intro entries entries' items hfold word kind
    induction items generalizing entries with
    | nil =>
      obtain rfl : entries = entries' := Except.ok.inj hfold
      simp
    | cons a items ih =>
      rw [List.foldlM_cons] at hfold
      obtain ⟨next, hnext, hfold⟩ := exists_of_bind_eq_ok hfold
      rw [ih hfold, h.get?_iff hnext, or_assoc]
      simp only [List.mem_cons, exists_eq_or_imp]
  case fine_of_ok =>
    intro entries entries' items hfold
    induction items generalizing entries with
    | nil => simp
    | cons a items ih =>
      rw [List.foldlM_cons] at hfold
      obtain ⟨next, hnext, hfold⟩ := exists_of_bind_eq_ok hfold
      exact List.forall_mem_cons.mpr ⟨h.fine_of_ok hnext, ih hfold⟩
  case exists_ok =>
    intro entries items hfine hu
    induction items generalizing entries with
    | nil => exact ⟨entries, rfl⟩
    | cons a items ih =>
      obtain ⟨hfirst, hrest⟩ := List.forall_mem_cons.mp hfine
      obtain ⟨next, hnext⟩ := h.exists_ok hfirst (hu.mono fun word kind hgives =>
        hgives.imp_right fun hgives => ⟨a, List.mem_cons_self, hgives⟩)
      rw [List.foldlM_cons, exists_bind_eq_ok_iff]
      refine ⟨next, hnext, ih hrest (hu.mono ?_)⟩
      -- What is given after the first item, and then by the rest, is what all items give.
      intro word kind hgives
      rw [h.get?_iff hnext, or_assoc] at hgives
      simpa only [List.mem_cons, exists_eq_or_imp] using hgives

end Collects

variable {entries entries' : Entries Text Kind} {groups : Entries Kind (List Setting)}
  {k : Keywords} {kind : Kind} {word : Text} {value : Setting}

theorem addWord_collects (kind : Kind) :
    Collects (addWord kind) (fun value word kind' => kind' = kind ∧ value = .str word)
      fun value => ∃ word, value = .str word ∧ isWord word = true := by
  constructor
  case get?_iff =>
    intro entries entries' value hadd word' kind'
    obtain ⟨word, rfl, -, hfirst, rfl⟩ := addWord_eq_ok_iff.mp hadd
    rw [Entries.get?_put, Setting.str.injEq]
    by_cases heq : word = word'
    · subst heq
      rw [if_pos rfl, Option.some.injEq]
      constructor
      · intro h
        exact .inr ⟨h.symm, rfl⟩
      · intro h
        rcases h with hget | ⟨h, -⟩
        · exact (hfirst kind' hget).symm
        · exact h.symm
    · simp [heq]
  case fine_of_ok =>
    intro entries entries' value hadd
    obtain ⟨word, hvalue, hword, -⟩ := addWord_eq_ok_iff.mp hadd
    exact ⟨word, hvalue, hword⟩
  case exists_ok =>
    intro entries value hfine hu
    obtain ⟨word, rfl, hword⟩ := hfine
    refine ⟨_, addWord_eq_ok_iff.mpr ⟨word, rfl, hword, ?_, rfl⟩⟩
    intro first hget
    exact hu word first kind (.inl hget) (.inr ⟨rfl, rfl⟩)

theorem addGroup_collects :
    Collects addGroup (fun group word kind => kind = group.1 ∧ .str word ∈ group.2)
      fun group => group.1.isKeyword = true ∧
        ∀ value ∈ group.2, ∃ word, value = .str word ∧ isWord word = true := by
  have hgives : ∀ (group : Kind × List Setting) word kind,
      (∃ value ∈ group.2, kind = group.1 ∧ value = .str word) ↔
        kind = group.1 ∧ .str word ∈ group.2 := by
    intro group word kind
    grind
  constructor
  case get?_iff =>
    intro entries entries' group hadd word kind
    rw [addGroup] at hadd
    split at hadd
    · rw [(addWord_collects group.1).foldlM.get?_iff hadd, hgives]
    · cases hadd
  case fine_of_ok =>
    intro entries entries' group hadd
    rw [addGroup] at hadd
    split at hadd
    · rename_i hkind
      exact ⟨hkind, (addWord_collects group.1).foldlM.fine_of_ok hadd⟩
    · cases hadd
  case exists_ok =>
    intro entries group hfine hu
    obtain ⟨hkind, hwords⟩ := hfine
    rw [addGroup, if_pos hkind]
    apply (addWord_collects group.1).foldlM.exists_ok hwords
    simpa only [hgives] using hu

theorem distinct_of_ofGroups (h : ofGroups groups = .ok k) : k.entries.Distinct :=
  ofGroups_keeps Entries.distinct_nil (fun _ word kind h _ _ => h.put word kind) h

/-- The kinds that a table and groups together give to words. -/
def Gives (k : Keywords) (groups : Entries Kind (List Setting)) (word : Text) (kind : Kind) :
    Prop :=
  k.entries.get? word = some kind ∨ groups.Lists kind (.str word)

/-- Nothing is wrong with groups, nor with what they add to a table. -/
structure Acceptable (k : Keywords) (groups : Entries Kind (List Setting)) : Prop where
  kinds : ∀ kind ∈ groups.map Prod.fst, kind.isKeyword = true
  words : ∀ kind value, groups.Lists kind value → ∃ word, value = .str word ∧ isWord word = true
  unambiguous : Unambiguous (k.Gives groups)

theorem get?_of_ofGroups (h : ofGroups groups = .ok k) :
    k.entries.get? word = some kind ↔ groups.Lists kind (.str word) := by
  obtain ⟨entries, hfold, hk⟩ := exists_of_bind_eq_ok h
  obtain rfl := Except.ok.inj hk
  rw [addGroup_collects.foldlM.get?_iff hfold, Entries.Lists]
  simp [Entries.get?]

theorem exists_ofGroups_iff : (∃ k, ofGroups groups = .ok k) ↔ Acceptable ⟨[]⟩ groups := by
  have hfold : (∃ k, ofGroups groups = .ok k) ↔
      ∃ entries, groups.foldlM addGroup [] = .ok entries := by
    rw [ofGroups, exists_bind_eq_ok_iff]
    simp [pure, Except.pure]
  rw [hfold, addGroup_collects.foldlM.exists_ok_iff]
  constructor
  · intro h
    obtain ⟨hfine, hu⟩ := h
    constructor
    case kinds =>
      intro kind hkind
      obtain ⟨group, hgroup, rfl⟩ := List.mem_map.mp hkind
      exact (hfine group hgroup).1
    case words =>
      intro kind value hlists
      obtain ⟨group, hgroup, -, hvalue⟩ := hlists
      exact (hfine group hgroup).2 value hvalue
    case unambiguous => exact hu
  · intro h
    refine ⟨?_, h.unambiguous⟩
    intro group hgroup
    refine ⟨h.kinds group.1 (List.mem_map_of_mem hgroup), ?_⟩
    intro value hvalue
    exact h.words group.1 value ⟨group, hgroup, rfl, hvalue⟩

end Highlighter.Keywords
