import Highlighter.Proofs.Command.Options
import Highlighter.Proofs.Config.Parts
import Highlighter.Proofs.Setting.Keys
import Highlighter.Proofs.Text.Utf8
import Mathlib

/-!
What arguments hide of a configuration file. The tags of the arguments join those of the file before
these are looked at. So with a tag among the arguments, a file is not refused because its part
`tags` is no table, nor because of the tags of those categories that the arguments name. For
whatever else is wrong with it, it is refused as it is without them.
-/

set_option autoImplicit false

namespace Highlighter

/-- The arguments without the tags and the format, which a configuration file may give as well. -/
def Arguments.unflagged (a : Arguments) : Arguments := { a with tags := [], format := none }

namespace Options

/-- The value of an option `--tag` gives a tag to a category that there is. -/
structure NamesTag (value : Text) : Prop where
  equals : '=' ∈ value
  category : ∃ kind, Kind.ofTag? (splitTag value).1 = some kind
  tag : isTag (splitTag value).2 = true

/-- The options are refused because of what is wrong with the configuration. -/
def Refused (x : Except OptionsFault Options) : Prop := ∃ e, x = .error (.config e)

/-- The tags of a table, none if its part `tags` is no table. -/
def ownTags (data : Table) : Table :=
  match data.get? "tags".toList with
  | some (.table entries) => entries
  | _ => []

/-- The categories that the arguments give tags to. -/
def categories (a : Arguments) : List Text := a.tags.map fun value => (splitTag value).1

/-- Nothing is wrong with a table apart from its part `tags`. -/
structure RestRight (data : Table) : Prop where
  keywords : ∃ keywords, Config.keywordsOf data = .ok keywords
  theme : ∃ theme, Theme.ofSetting (data.get? "theme".toList) = .ok theme
  format : ∃ format, tableFormat data = .ok format

/-- There is nothing wrong with a table but what the arguments hide: its part `tags` is no table, or
all that is wrong with that part stands under categories that the arguments name. -/
structure Masked (a : Arguments) (data : Table) : Prop where
  given : a.tags ≠ []
  rest : RestRight data
  hidden : ∀ entry ∈ ownTags data, entry.1 ∈ categories a ∨ Config.RightTag entry

section WithTags

variable {data : Table} {tags : List (Text × Text)} {name : Text}

/-- The tags of a table with those of the arguments in it. -/
def mergedTags (data : Table) (tags : List (Text × Text)) : Table :=
  (ownTags data).putAll (tags.map fun t => (t.1, .str t.2))

theorem withTags_eq (data : Table) (tags : List (Text × Text)) :
    withTags data tags =
      if (mergedTags data tags).isEmpty then data
      else data.put "tags".toList (.table (mergedTags data tags)) := by
  rw [mergedTags, Entries.putAll, List.foldl_map]
  rfl

theorem get?_withTags (h : name ≠ "tags".toList) :
    (withTags data tags).get? name = data.get? name := by
  rw [withTags_eq]
  split
  · rfl
  · rw [Entries.get?_put, if_neg h.symm]

theorem get?_tags (h : ownTags data ≠ []) :
    data.get? "tags".toList = some (.table (ownTags data)) := by
  unfold ownTags at h ⊢
  split
  · assumption
  · rename_i hno
    split at h
    · rename_i entries htable
      exact absurd htable (hno entries)
    · exact absurd rfl h

theorem get?_withTags_nil (data : Table) (name : Text) :
    (withTags data []).get? name = data.get? name := by
  have hown : mergedTags data [] = ownTags data := rfl
  rw [withTags_eq, hown]
  split
  · rfl
  · rename_i hne
    rw [Entries.get?_put]
    split
    · rename_i heq
      rw [← heq, get?_tags (by simpa using hne)]
    · rfl

theorem part_withTags (h : tags ≠ []) :
    Config.part (withTags data tags) "tags" = .ok (mergedTags data tags) := by
  have hne : mergedTags data tags ≠ [] := Entries.putAll_ne_nil (.inr (by simpa using h))
  rw [withTags_eq, if_neg (by simpa using hne), Config.part, Entries.get?_put, if_pos rfl]

theorem distinct_ownTags (h : (Setting.table data).Keyed) : (ownTags data).Distinct := by
  unfold ownTags
  split
  · rename_i entries hget
    exact (h.get? hget).distinct
  · exact Entries.distinct_nil

theorem rightTag_of_tagsOf (h : ∃ tags, Config.tagsOf data = .ok tags) :
    ∀ entry ∈ ownTags data, Config.RightTag entry := by
  obtain ⟨entries, hpart, hright⟩ := Config.exists_tagsOf_iff.mp h
  intro entry hentry
  unfold ownTags at hentry
  split at hentry
  · rename_i own hget
    rw [Config.part, hget] at hpart
    obtain rfl := Except.ok.inj hpart
    exact hright entry hentry
  · cases hentry

end WithTags

section Refused

variable {a : Arguments} {path : Path} {data : Table} {files : Files}

theorem tagsOf_withTags_nil (data : Table) :
    Config.tagsOf (withTags data []) = Config.tagsOf data :=
  Config.tagsOf_congr (get?_withTags_nil data _)

/-- Of the tags of a file, only those count that the arguments do not replace. -/
theorem exists_tagsOf_withTags_iff (h : ∀ value ∈ a.tags, NamesTag value) (hgiven : a.tags ≠ [])
    (hkeyed : (Setting.table data).Keyed) :
    (∃ tags, Config.tagsOf (withTags data (a.tags.map splitTag)) = .ok tags) ↔
      ∀ entry ∈ ownTags data, entry.1 ∈ categories a ∨ Config.RightTag entry := by
  have hnews : ∀ entry ∈ (a.tags.map splitTag).map fun t => (t.1, Setting.str t.2),
      Config.RightTag entry := by
    intro entry hentry
    rw [List.map_map] at hentry
    obtain ⟨value, hvalue, rfl⟩ := List.mem_map.mp hentry
    have hnames := h value hvalue
    exact Config.rightTag_iff.mpr ⟨hnames.category, _, rfl, hnames.tag⟩
  have hcategories : ((a.tags.map splitTag).map fun t => (t.1, Setting.str t.2)).map Prod.fst =
      categories a := by
    rw [List.map_map, List.map_map]
    rfl
  rw [Config.exists_tagsOf_iff, part_withTags (by simpa using hgiven)]
  simp only [Except.ok.injEq, exists_eq_left']
  rw [mergedTags, (distinct_ownTags hkeyed).forall_mem_putAll hnews, hcategories]

theorem valid_iff :
    Valid a data ↔ (∀ value ∈ a.tags, '=' ∈ value) ∧ RestRight data ∧
      ∃ tags, Config.tagsOf (withTags data (a.tags.map splitTag)) = .ok tags := by
  have hkeywords : Config.keywordsOf (withTags data (a.tags.map splitTag)) =
      Config.keywordsOf data :=
    Config.keywordsOf_congr (get?_withTags (by decide))
  constructor
  · intro h
    have hconfig := h.config
    rw [Config.exists_ofTable_iff, hkeywords] at hconfig
    exact ⟨h.tags, ⟨hconfig.1, h.theme, h.format⟩, hconfig.2⟩
  · intro h
    obtain ⟨htags, hrest, hmerged⟩ := h
    refine ⟨htags, ?_, hrest.theme, hrest.format⟩
    rw [Config.exists_ofTable_iff, hkeywords]
    exact ⟨hrest.keywords, hmerged⟩

theorem config_of_inFile {α : Type} {path : Option Path} {x : Except ConfigFault α}
    {e : OptionsFault} (h : inFile path x = .error e) : ∃ c, e = .config c := by
  cases x with
  | ok v => cases h
  | error fault => exact ⟨_, (Except.error.inj h).symm⟩

theorem config_of_ofTable (htags : ∀ value ∈ a.tags, '=' ∈ value) {e : OptionsFault}
    (h : ofTable a path data = .error e) : ∃ c, e = .config c := by
  rw [ofTable] at h
  rcases cases_of_bind_eq_error h with hnames | ⟨tags, -, h⟩
  · rcases mapM_parseTag_cases a.tags with ⟨-, hok⟩ | ⟨value, hvalue, hno, -⟩
    · rw [hok] at hnames
      cases hnames
    · exact absurd (htags value hvalue) hno
  · rcases cases_of_bind_eq_error h with hconfig | ⟨config, -, h⟩
    · exact config_of_inFile hconfig
    · rcases cases_of_bind_eq_error h with htheme | ⟨theme, -, h⟩
      · exact config_of_inFile htheme
      · rcases cases_of_bind_eq_error h with hformat | ⟨format, -, h⟩
        · exact config_of_inFile hformat
        · cases h

theorem refused_ofTable_iff (htags : ∀ value ∈ a.tags, '=' ∈ value) :
    Refused (ofTable a path data) ↔ ¬ Valid a data := by
  rcases ofTable_cases a path data with ⟨hvalid, o, hok, -⟩ | ⟨hno, e, herror, -⟩
  · simp [Refused, hok, hvalid]
  · obtain ⟨c, rfl⟩ := config_of_ofTable htags herror
    simp [Refused, herror, hno]

theorem refused_ofTable_iff_unflagged (h : ∀ value ∈ a.tags, NamesTag value)
    (hkeyed : (Setting.table data).Keyed) :
    Refused (ofTable a path data) ↔ Refused (ofTable a.unflagged path data) ∧ ¬ Masked a data := by
  have htags : ∀ value ∈ a.tags, '=' ∈ value := fun value hvalue => (h value hvalue).equals
  have hno : ∀ value ∈ a.unflagged.tags, '=' ∈ value := fun value hvalue => nomatch hvalue
  have hplain : Valid a.unflagged data ↔
      RestRight data ∧ ∃ tags, Config.tagsOf data = .ok tags := by
    rw [valid_iff, ← tagsOf_withTags_nil data]
    exact and_iff_right hno
  rw [refused_ofTable_iff htags, refused_ofTable_iff hno, hplain, valid_iff, and_iff_right htags]
  by_cases hgiven : a.tags = []
  · have hmasked : ¬ Masked a data := fun hmasked => hmasked.given hgiven
    rw [hgiven, List.map_nil, tagsOf_withTags_nil]
    exact (and_iff_left hmasked).symm
  · rw [exists_tagsOf_withTags_iff h hgiven hkeyed]
    -- With tags among the arguments, what is right is right without them, or is masked.
    have hmasked : Masked a data ↔ RestRight data ∧
        ∀ entry ∈ ownTags data, entry.1 ∈ categories a ∨ Config.RightTag entry :=
      ⟨fun h => ⟨h.rest, h.hidden⟩, fun h => ⟨hgiven, h.1, h.2⟩⟩
    rw [hmasked]
    refine (and_iff_right_of_imp ?_).symm
    intro hwrong hright
    refine hwrong ⟨hright.1, ?_⟩
    intro entry hentry
    exact .inr (rightTag_of_tagsOf hright.2 entry hentry)

theorem keyed_of_configTable (h : configTable files path = .ok (some data)) :
    (Setting.table data).Keyed := by
  unfold configTable at h
  cases hconfig : configText files path with
  | error f =>
    rw [hconfig] at h
    cases h
  | ok text? =>
    rw [hconfig] at h
    cases text? with
    | none =>
      obtain rfl := Option.some.inj (Except.ok.inj h)
      exact .table Entries.distinct_nil fun _ hno => nomatch hno
    | some text => exact Toml.keyed_read (Except.ok.inj h)

end Refused

/-- Where the tags of the arguments are right, a file is refused with them if and only if it is
refused without any flags and what is wrong with it is not masked. -/
theorem refused_iff_unflagged {a : Arguments} (h : ∀ value ∈ a.tags, NamesTag value) :
    (∀ path data, (Setting.table data).Keyed →
      (Refused (ofTable a path data) ↔
        Refused (ofTable a.unflagged path data) ∧ ¬ Masked a data)) ∧
      ∀ files, Refused (resolve files a) ↔ Refused (resolve files a.unflagged) ∧
        ∀ data, configTable files (configPath a) = .ok (some data) → ¬ Masked a data := by
  refine ⟨fun path data => refused_ofTable_iff_unflagged h, ?_⟩
  intro files
  have hpath : configPath a.unflagged = configPath a := rfl
  cases hconfig : configTable files (configPath a) with
  | error f =>
    rw [resolve_of_error hconfig, resolve_of_error (hpath ▸ hconfig)]
    simp [Refused]
  | ok table =>
    cases table with
    | none =>
      have hrefused : ∀ a', configPath a' = configPath a → Refused (resolve files a') := by
        intro a' hsame
        rw [← hsame] at hconfig
        rw [resolve, loadTable_eq, hconfig]
        exact ⟨_, rfl⟩
      simp [hrefused a rfl, hrefused a.unflagged hpath]
    | some data =>
      rw [resolve_of_table hconfig, resolve_of_table (hpath ▸ hconfig), hpath,
        refused_ofTable_iff_unflagged h (keyed_of_configTable hconfig)]
      simp

/-- Arguments that give one tag. -/
def tagging (value : Text) : Arguments := { input := "a".toList, tags := [value] }

theorem refused_iff_unflagged_other :
    (∀ value ∈ (tagging "identifier=name".toList).tags, NamesTag value) ∧
      (Setting.table [("tags".toList, .table [("unknown".toList, .str [])])]).Keyed ∧
      Refused (ofTable (tagging "identifier=name".toList) ⟨[], [configName]⟩
        [("tags".toList, .table [("unknown".toList, .str [])])]) := by
  have hnames : ∀ value ∈ (tagging "identifier=name".toList).tags, NamesTag value := by
    intro value hvalue
    obtain rfl := List.mem_singleton.mp hvalue
    exact ⟨by decide, ⟨.identifier, by decide⟩, by decide⟩
  have hkeyed : (Setting.table [("tags".toList, .table [("unknown".toList, .str [])])]).Keyed := by
    apply Setting.Keyed.table
    · simp [Entries.Distinct]
    · intro e he
      obtain rfl := List.mem_singleton.mp he
      apply Setting.Keyed.table
      · simp [Entries.Distinct]
      · intro e he
        obtain rfl := List.mem_singleton.mp he
        exact .plain rfl
  refine ⟨hnames, hkeyed, ((refused_iff_unflagged hnames).1 _ _ hkeyed).mpr ⟨⟨_, rfl⟩, ?_⟩⟩
  intro hmasked
  rcases hmasked.hidden _ List.mem_cons_self with hgiven | hright
  · exact absurd hgiven (by decide)
  · obtain ⟨-, tag, htag, hno⟩ := Config.rightTag_iff.mp hright
    obtain rfl := Setting.str.inj htag
    cases hno

/-- A configuration beside the input, the part `tags` of which is no table. -/
def untabled : Files where
  entries := [([configName], .file (Utf8.encode "tags = 'x'".toList) (.set 1))]

theorem configTable_untabled :
    configTable untabled (configPath (tagging "line-comment=comment".toList)) =
      .ok (some [("tags".toList, .str "x".toList)]) := by
  have hread : Toml.read "tags = 'x'".toList = some [("tags".toList, .str "x".toList)] := by cbv
  rw [configTable_of_read rfl rfl (Utf8.decode_encode _), hread]

/-- A part `tags` that is no table makes a file be refused, but not if there is a tag among the
arguments. -/
theorem exists_refused_unflagged :
    (∀ value ∈ (tagging "line-comment=comment".toList).tags, NamesTag value) ∧
      Refused (resolve untabled (tagging "line-comment=comment".toList).unflagged) ∧
      ¬ Refused (resolve untabled (tagging "line-comment=comment".toList)) := by
  have hnames : ∀ value ∈ (tagging "line-comment=comment".toList).tags, NamesTag value := by
    intro value hvalue
    obtain rfl := List.mem_singleton.mp hvalue
    exact ⟨by decide, ⟨.lineComment, by decide⟩, by decide⟩
  have hread := configTable_untabled
  refine ⟨hnames, ?_, ?_⟩
  · rw [resolve_of_table (a := (tagging "line-comment=comment".toList).unflagged) hread]
    exact ⟨_, rfl⟩
  · have hrest : RestRight [("tags".toList, .str "x".toList)] := ⟨⟨_, rfl⟩, ⟨_, rfl⟩, ⟨_, rfl⟩⟩
    have hmasked : Masked (tagging "line-comment=comment".toList)
        [("tags".toList, .str "x".toList)] :=
      ⟨by simp [tagging], hrest, fun _ hno => nomatch hno⟩
    rw [resolve_of_table hread, refused_ofTable_iff_unflagged hnames (keyed_of_configTable hread)]
    intro hrefused
    exact hrefused.2 hmasked

end Options

end Highlighter
