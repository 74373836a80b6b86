import Highlighter.Proofs.Keywords.Listing

/-!
Tables with more words. Extending a table makes it anew, from its own words and those that are
added; still it comes out only that the added words are known on top of what was known. What order
kinds and words are listed in does not matter, nor how often.
-/

set_option autoImplicit false

namespace Highlighter.Keywords

variable {base base' more more' groups groups' : Entries Kind (List Setting)}
  {k k' : Keywords} {kind : Kind} {word : Text} {value : Setting}

/-- The words of a table under their kinds, as they would be listed to make the table. -/
def listing (k : Keywords) : Entries Kind (List Setting) :=
  k.groups.map fun g => (g.1, g.2.map .str)

/-- What a table and more groups list together. -/
def merged (k : Keywords) (more : Entries Kind (List Setting)) : Entries Kind (List Setting) :=
  more.foldl (fun gs g => gs.extend g.1 g.2) k.listing

theorem extended_eq (k : Keywords) (more : Entries Kind (List Setting)) :
    k.extended more = ofGroups (k.merged more) := rfl

theorem lookup_of_get? (h : k.entries.get? word = some kind) : k.lookup word = kind := by
  rw [lookup, h, Option.getD_some]

theorem lookup_congr
    (h : ∀ kind, k.entries.get? word = some kind ↔ k'.entries.get? word = some kind) :
    k.lookup word = k'.lookup word := by
  rw [lookup, lookup, Option.ext h]

section Sound

/-- A table of single words under kinds of keywords, in which no word stands twice. -/
structure Sound (k : Keywords) : Prop where
  distinct : k.entries.Distinct
  wellFormed : WellFormed k.entries

theorem sound_of_ofGroups (h : ofGroups groups = .ok k) : k.Sound :=
  ⟨distinct_of_ofGroups h, wellFormed_of_ofGroups h⟩

theorem Sound.of_mem (h : k.Sound) {e : Text × Kind} (he : e ∈ k.entries) :
    isWord e.1 = true ∧ e.2.isKeyword = true :=
  h.wellFormed e.1 e.2 (h.distinct.get?_eq_some_iff.mpr he)

theorem mem_keys_listing : kind ∈ k.listing.map Prod.fst ↔ ∃ e ∈ k.entries, kind = e.2 := by
  have hkeys : k.listing.map Prod.fst = k.groups.map Prod.fst := by
    rw [listing, List.map_map]
    rfl
  rw [hkeys, groups, Entries.mem_keys_foldl_extend]
  simp

theorem lists_listing :
    k.listing.Lists kind value ↔ ∃ e ∈ k.entries, kind = e.2 ∧ .str e.1 = value := by
  rw [listing, Entries.lists_map]
  simp only [groups, Entries.lists_foldl_extend, Entries.not_lists_nil, false_or,
    List.mem_singleton]
  grind

theorem mem_keys_merged : kind ∈ (k.merged more).map Prod.fst ↔
    kind ∈ k.listing.map Prod.fst ∨ kind ∈ more.map Prod.fst := by
  rw [merged, Entries.mem_keys_foldl_extend]
  simp only [List.mem_map, eq_comm]

theorem lists_merged :
    (k.merged more).Lists kind value ↔ k.listing.Lists kind value ∨ more.Lists kind value :=
  Entries.lists_foldl_extend

theorem Sound.lists_listing_str (h : k.Sound) :
    k.listing.Lists kind (.str word) ↔ k.entries.get? word = some kind := by
  rw [lists_listing, h.distinct.get?_eq_some_iff]
  simp only [Setting.str.injEq]
  grind

/-- A table and more groups give words the same kinds together as what they list together does. -/
theorem Sound.lists_merged_str (h : k.Sound) :
    (k.merged more).Lists kind (.str word) ↔ k.Gives more word kind := by
  rw [lists_merged, h.lists_listing_str, Gives]

/-- A table's own words are nothing that could be wrong. -/
theorem Sound.acceptable_merged_iff (h : k.Sound) :
    Acceptable ⟨[]⟩ (k.merged more) ↔ Acceptable k more := by
  have hgives : ∀ word kind, Gives ⟨[]⟩ (k.merged more) word kind ↔ k.Gives more word kind := by
    intro word kind
    rw [← h.lists_merged_str, Gives]
    simp [Entries.get?]
  constructor
  · intro hmerged
    constructor
    case kinds =>
      intro kind hkind
      exact hmerged.kinds kind (mem_keys_merged.mpr (.inr hkind))
    case words =>
      intro kind value hlists
      exact hmerged.words kind value (lists_merged.mpr (.inr hlists))
    case unambiguous => exact (unambiguous_congr hgives).mp hmerged.unambiguous
  · intro hmore
    constructor
    case kinds =>
      intro kind hkind
      rcases mem_keys_merged.mp hkind with hown | hadded
      · obtain ⟨e, he, rfl⟩ := mem_keys_listing.mp hown
        exact (h.of_mem he).2
      · exact hmore.kinds kind hadded
    case words =>
      intro kind value hlists
      rcases lists_merged.mp hlists with hown | hadded
      · obtain ⟨e, he, -, hvalue⟩ := lists_listing.mp hown
        exact ⟨e.1, hvalue.symm, (h.of_mem he).1⟩
      · exact hmore.words kind value hadded
    case unambiguous => exact (unambiguous_congr hgives).mpr hmore.unambiguous

theorem acceptable_nil (k : Keywords) : Acceptable k [] := by
  constructor
  case kinds =>
    intro kind hkind
    cases hkind
  case words =>
    intro kind value hlists
    exact absurd hlists Entries.not_lists_nil
  case unambiguous =>
    refine (unambiguous_get? k.entries).mono ?_
    intro word kind hgives
    exact hgives.resolve_right Entries.not_lists_nil

theorem Sound.exists_extended_iff (h : k.Sound) :
    (∃ k', k.extended more = .ok k') ↔ Acceptable k more := by
  rw [← h.acceptable_merged_iff, ← exists_ofGroups_iff, extended_eq]

theorem Sound.get?_extended (h : k.Sound) (hk' : k.extended more = .ok k') :
    k'.entries.get? word = some kind ↔ k.Gives more word kind := by
  rw [extended_eq] at hk'
  rw [get?_of_ofGroups hk', h.lists_merged_str]

/-- From what a table lists, a table can be made that knows the same words. -/
theorem Sound.exists_ofGroups_listing (h : k.Sound) :
    ∃ k', ofGroups k.listing = .ok k' ∧ ∀ word, k'.lookup word = k.lookup word := by
  obtain ⟨k', hk'⟩ := h.exists_extended_iff.mpr k.acceptable_nil
  refine ⟨k', hk', ?_⟩
  intro word
  apply lookup_congr
  intro kind
  rw [h.get?_extended hk', Gives]
  exact or_iff_left Entries.not_lists_nil

end Sound

section SameListings

/-- Groups that differ in order and in repetitions only. -/
structure SameListings (groups groups' : Entries Kind (List Setting)) : Prop where
  kinds : ∀ kind, kind ∈ groups.map Prod.fst ↔ kind ∈ groups'.map Prod.fst
  values : ∀ kind value, groups.Lists kind value ↔ groups'.Lists kind value

theorem SameListings.trans {groups'' : Entries Kind (List Setting)}
    (h : SameListings groups groups') (h' : SameListings groups' groups'') :
    SameListings groups groups'' := by
  constructor
  case kinds =>
    intro kind
    exact (h.kinds kind).trans (h'.kinds kind)
  case values =>
    intro kind value
    exact (h.values kind value).trans (h'.values kind value)

theorem SameListings.of_perm (h : groups.Perm groups') : SameListings groups groups' := by
  constructor
  case kinds =>
    intro kind
    exact (h.map Prod.fst).mem_iff
  case values =>
    intro kind value
    simp only [Entries.Lists, h.mem_iff]

theorem SameListings.of_words {words words' : List Setting}
    (h : ∀ value, value ∈ words ↔ value ∈ words') :
    SameListings ((kind, words) :: groups) ((kind, words') :: groups) := by
  constructor
  case kinds =>
    intro kind'
    rfl
  case values =>
    intro kind' value
    rw [Entries.lists_cons, Entries.lists_cons, h]

/-- Either both fail, or both give tables that know the same words. -/
def SameOutcome : Except ConfigFault Keywords → Except ConfigFault Keywords → Prop
  | .ok k, .ok k' => ∀ word, k.lookup word = k'.lookup word
  | .error _, .error _ => True
  | _, _ => False

theorem SameListings.acceptable_iff (h : SameListings groups groups') :
    Acceptable k groups ↔ Acceptable k groups' := by
  have hgives : ∀ word kind, k.Gives groups word kind ↔ k.Gives groups' word kind := by
    intro word kind
    rw [Gives, Gives, h.values]
  constructor
  · intro ha
    constructor
    case kinds => simpa only [h.kinds] using ha.kinds
    case words => simpa only [h.values] using ha.words
    case unambiguous => exact (unambiguous_congr hgives).mp ha.unambiguous
  · intro ha
    constructor
    case kinds => simpa only [h.kinds] using ha.kinds
    case words => simpa only [h.values] using ha.words
    case unambiguous => exact (unambiguous_congr hgives).mpr ha.unambiguous

theorem SameListings.sameOutcome (h : SameListings groups groups') :
    SameOutcome (ofGroups groups) (ofGroups groups') := by
  have hok : (∃ k, ofGroups groups = .ok k) ↔ ∃ k, ofGroups groups' = .ok k := by
    rw [exists_ofGroups_iff, exists_ofGroups_iff, h.acceptable_iff]
  cases hleft : ofGroups groups with
  | error fault =>
    cases hright : ofGroups groups' with
    | error fault' => trivial
    | ok k' => simp [hleft, hright] at hok
  | ok k =>
    cases hright : ofGroups groups' with
    | error fault' => simp [hleft, hright] at hok
    | ok k' =>
      intro word
      apply lookup_congr
      intro kind
      rw [get?_of_ofGroups hleft, get?_of_ofGroups hright, h.values]

theorem SameListings.merged (h : SameListings more more')
    (hk : ∀ word kind, k.entries.get? word = some kind ↔ k'.entries.get? word = some kind)
    (hsound : k.Sound) (hsound' : k'.Sound) : SameListings (k.merged more) (k'.merged more') := by
  have hmem : ∀ e, e ∈ k.entries ↔ e ∈ k'.entries := by
    intro e
    rw [← hsound.distinct.get?_eq_some_iff, ← hsound'.distinct.get?_eq_some_iff, hk]
  constructor
  case kinds =>
    intro kind
    simp only [mem_keys_merged, mem_keys_listing, hmem, h.kinds]
  case values =>
    intro kind value
    simp only [lists_merged, lists_listing, hmem, h.values]

end SameListings

/-- The second table knows what is listed and whatever else the first one knows. -/
structure Extends (k : Keywords) (more : Entries Kind (List Setting)) (k' : Keywords) : Prop where
  listed : ∀ kind word, more.Lists kind (.str word) → k'.lookup word = kind
  unlisted : ∀ word, (∀ kind, ¬ more.Lists kind (.str word)) → k'.lookup word = k.lookup word
  unknown : ∀ word, (∀ kind, ¬ k.Gives more word kind) → k'.lookup word = .identifier
  entries : ∀ e ∈ k'.entries, isWord e.1 = true ∧ e.2.isKeyword = true
  again : ∃ k'', ofGroups k'.listing = .ok k'' ∧ ∀ word, k''.lookup word = k'.lookup word

theorem Sound.extends (h : k.Sound) (hk' : k.extended more = .ok k') : Extends k more k' := by
  constructor
  case listed =>
    intro kind word hlists
    exact lookup_of_get? ((h.get?_extended hk').mpr (.inr hlists))
  case unlisted =>
    intro word hno
    apply lookup_congr
    intro kind
    rw [h.get?_extended hk', Gives]
    exact or_iff_left (hno kind)
  case unknown =>
    intro word hno
    have hnone : k'.entries.get? word = none := by
      rw [Option.eq_none_iff_forall_ne_some]
      intro kind hget
      exact hno kind ((h.get?_extended hk').mp hget)
    rw [lookup, hnone, Option.getD_none]
  case entries =>
    intro e he
    exact (sound_of_ofGroups hk').of_mem he
  case again => exact (sound_of_ofGroups hk').exists_ofGroups_listing

/-- A table can be extended if and only if nothing is wrong with what is added, and how it is listed
makes no difference. -/
theorem extended_extends (h : ofGroups base = .ok k) (more : Entries Kind (List Setting)) :
    (Acceptable k more → ∃ k', k.extended more = .ok k' ∧ Extends k more k') ∧
      (¬ Acceptable k more → ∃ fault, k.extended more = .error fault) ∧
      ∀ base' k' more', ofGroups base' = .ok k' → SameListings base base' →
        SameListings more more' → SameOutcome (k.extended more) (k'.extended more') := by
  have hsound := sound_of_ofGroups h
  refine ⟨?_, ?_, ?_⟩
  · intro hmore
    obtain ⟨k', hk'⟩ := hsound.exists_extended_iff.mpr hmore
    exact ⟨k', hk', hsound.extends hk'⟩
  · intro hmore
    rw [← hsound.exists_extended_iff] at hmore
    cases hk' : k.extended more with
    | error fault => exact ⟨fault, rfl⟩
    | ok k' => exact absurd ⟨k', hk'⟩ hmore
  · intro base' k' more' h' hbase hmore
    refine (hmore.merged ?_ hsound (sound_of_ofGroups h')).sameOutcome
    intro word kind
    rw [get?_of_ofGroups h, get?_of_ofGroups h', hbase.values]

/-- Two kinds that change places, one of them with a word that the table has already and that is
listed twice. -/
theorem extended_extends_swapped :
    ofGroups [(.controlKeyword, [.str "if".toList])] =
        .ok ⟨[("if".toList, .controlKeyword)]⟩ ∧
      (∃ k', extended ⟨[("if".toList, .controlKeyword)]⟩
          [(.boolLiteral, [.str "yes".toList]), (.controlKeyword, [.str "if".toList])] = .ok k' ∧
        Extends ⟨[("if".toList, .controlKeyword)]⟩
          [(.boolLiteral, [.str "yes".toList]), (.controlKeyword, [.str "if".toList])] k') ∧
      SameOutcome
        (extended ⟨[("if".toList, .controlKeyword)]⟩
          [(.boolLiteral, [.str "yes".toList]), (.controlKeyword, [.str "if".toList])])
        (extended ⟨[("if".toList, .controlKeyword)]⟩
          [(.controlKeyword, [.str "if".toList, .str "if".toList]),
            (.boolLiteral, [.str "yes".toList])]) := by
  have hbase : ofGroups [(.controlKeyword, [.str "if".toList])] =
      .ok ⟨[("if".toList, .controlKeyword)]⟩ := rfl
  obtain ⟨hextends, -, hsame⟩ := extended_extends hbase
    [(.boolLiteral, [.str "yes".toList]), (.controlKeyword, [.str "if".toList])]
  refine ⟨hbase, hextends ?_, hsame _ _ _ hbase (.of_words fun _ => Iff.rfl) ?_⟩
  · exact (sound_of_ofGroups hbase).exists_extended_iff.mp ⟨_, rfl⟩
  · refine (SameListings.of_perm (.swap _ _ _)).trans (.of_words ?_)
    intro value
    simp

end Highlighter.Keywords
