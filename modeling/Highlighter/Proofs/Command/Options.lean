import Highlighter.Command.Options
import Highlighter.Proofs.Command.Files
import Highlighter.Proofs.Render.Theme

/-!
Which options come out. They do if the configuration file is right and so are the tags that the
arguments give. What is wrong with them is reported; but a file that is there and cannot be read as
a text is a fault.
-/

set_option autoImplicit false

namespace Highlighter.Options

variable {value : Text}

theorem takeWhile_ne_equals (h : '=' ∉ value) (s : Text) :
    (value ++ s).takeWhile (· != '=') = value ++ s.takeWhile (· != '=') := by
  refine List.takeWhile_append_of_pos fun c hc => ?_
  rw [bne_iff_ne]
  rintro rfl
  exact h hc

theorem splitValue_append (h : '=' ∉ value) (tag : Text) :
    splitValue (value ++ '=' :: tag) = (value, some tag) := by
  simp [splitValue, takeWhile_ne_equals h]

theorem splitValue_of_not_mem (h : '=' ∉ value) : splitValue value = (value, none) := by
  have hall := takeWhile_ne_equals h []
  rw [List.append_nil, List.takeWhile_nil, List.append_nil] at hall
  simp [splitValue, hall]

/-- The category and the tag that the value of an option `--tag` names. -/
def splitTag (value : Text) : Text × Text :=
  ((splitValue value).1, (splitValue value).2.getD [])

theorem parseTag_of_mem (h : '=' ∈ value) : parseTag value = .ok (splitTag value) := by
  obtain ⟨category, tag, rfl, hcategory⟩ := List.eq_append_cons_of_mem h
  rw [parseTag, splitTag, splitValue_append hcategory]
  rfl

theorem parseTag_of_not_mem (h : '=' ∉ value) : parseTag value = .error (.tagFormat value) := by
  rw [parseTag, splitValue_of_not_mem h]

/-- Either all values are of the right form, or one that is not is reported. -/
theorem mapM_parseTag_cases (values : List Text) :
    (∀ value ∈ values, '=' ∈ value) ∧ values.mapM parseTag = .ok (values.map splitTag) ∨
      ∃ value ∈ values, '=' ∉ value ∧ values.mapM parseTag = .error (.tagFormat value) := by
  induction values with
  | nil => exact .inl ⟨by simp, rfl⟩
  | cons value values ih =>
    rw [List.mapM_cons]
    by_cases hvalue : '=' ∈ value
    · rw [parseTag_of_mem hvalue]
      rcases ih with ⟨hall, hok⟩ | ⟨bad, hbad, hno, herror⟩
      · refine .inl ⟨List.forall_mem_cons.mpr ⟨hvalue, hall⟩, ?_⟩
        rw [hok]
        rfl
      · refine .inr ⟨bad, List.mem_cons_of_mem _ hbad, hno, ?_⟩
        rw [herror]
        rfl
    · refine .inr ⟨value, List.mem_cons_self, hvalue, ?_⟩
      rw [parseTag_of_not_mem hvalue]
      rfl

/-- Nothing is wrong with the tags of the arguments, nor with a table that was read from a file. -/
structure Valid (a : Arguments) (data : Table) : Prop where
  tags : ∀ value ∈ a.tags, '=' ∈ value
  config : ∃ config, Config.ofTable (withTags data (a.tags.map splitTag)) = .ok config
  theme : ∃ theme, Theme.ofSetting (data.get? "theme".toList) = .ok theme
  format : ∃ format, tableFormat data = .ok format

theorem inFile_cases {α : Type} (path : Option Path) (x : Except ConfigFault α) :
    (∃ v, x = .ok v ∧ inFile path x = .ok v) ∨
      (∀ v, x ≠ .ok v) ∧ ∃ e, inFile path x = .error (.config e) := by
  cases x with
  | ok v => exact .inl ⟨v, rfl, rfl⟩
  | error e => exact .inr ⟨by simp, _, rfl⟩

/-- What is wrong with a table or with the tags is reported. -/
theorem ofTable_cases (a : Arguments) (path : Path) (data : Table) :
    Valid a data ∧ (∃ o, ofTable a path data = .ok o ∧ o.theme.Known) ∨
      ¬ Valid a data ∧ ∃ e, ofTable a path data = .error e ∧ ∀ f, e ≠ .fault f := by
  rw [ofTable]
  rcases mapM_parseTag_cases a.tags with ⟨htags, hok⟩ | ⟨value, hvalue, hno, herror⟩
  · rw [hok]
    dsimp only [bind, Except.bind]
    rcases inFile_cases (if data.isEmpty then none else some path)
      (Config.ofTable (withTags data (a.tags.map splitTag))) with
      ⟨config, hconfig, hin⟩ | ⟨hne, e, hin⟩
    · rw [hin]
      dsimp only
      rcases inFile_cases (some path) (Theme.ofSetting (data.get? "theme".toList)) with
        ⟨theme, htheme, hin⟩ | ⟨hne, e, hin⟩
      · rw [hin]
        dsimp only
        rcases inFile_cases (some path) (tableFormat data) with
          ⟨format, hformat, hin⟩ | ⟨hne, e, hin⟩
        · rw [hin]
          refine .inl ⟨⟨htags, ⟨_, hconfig⟩, ⟨_, htheme⟩, _, hformat⟩, _, rfl, ?_⟩
          exact Theme.known_of_ofSetting htheme
        · rw [hin]
          refine .inr ⟨fun h => ?_, _, rfl, by simp⟩
          exact h.format.elim hne
      · rw [hin]
        refine .inr ⟨fun h => ?_, _, rfl, by simp⟩
        exact h.theme.elim hne
    · rw [hin]
      refine .inr ⟨fun h => ?_, _, rfl, by simp⟩
      exact h.config.elim hne
  · rw [herror]
    exact .inr ⟨fun h => hno (h.tags value hvalue), _, rfl, by simp⟩

/-- What the configuration file says: a text that is no table, or a table. Without a file there is a
table, but it is empty. -/
def configTable (files : Files) (path : Path) : Except Fault (Option Table) :=
  (configText files path).map fun
    | none => some []
    | some text => Toml.read text

theorem loadTable_eq (files : Files) (path : Path) :
    loadTable files path =
      match configTable files path with
      | .error f => .error (.fault f)
      | .ok none => .error (.config ⟨.invalidToml, some (String.ofList path.toText)⟩)
      | .ok (some data) => .ok data := by
  rw [loadTable, configTable]
  cases configText files path with
  | error f => rfl
  | ok text? =>
    cases text? with
    | none => rfl
    | some text =>
      dsimp only [mapError_ok, Except.map, bind, Except.bind]
      cases Toml.read text <;> rfl

theorem configTable_of_read {files : Files} {path : Path} {bytes : Bytes} {t : Text}
    (hfile : files.isFile path = .ok true) (hread : files.read path = .ok bytes)
    (hdecode : Utf8.decode bytes = .ok t) : configTable files path = .ok (Toml.read t) := by
  rw [configTable, configText, hfile, hread]
  dsimp only [mapError_ok, bind, Except.bind]
  rw [if_pos rfl, hdecode]
  rfl

/-- The configuration file cannot be looked at, or it is there and cannot be read as a text. -/
def ConfigUnreadable (files : Files) (path : Path) : Prop :=
  (∃ e, files.isFile path = .error e) ∨
    files.isFile path = .ok true ∧
      ¬ ∃ bytes t, files.read path = .ok bytes ∧ Utf8.decode bytes = .ok t

theorem configUnreadable_iff {files : Files} {path : Path} :
    ConfigUnreadable files path ↔ ∃ f, configTable files path = .error f := by
  have hmap : (∃ f, configTable files path = .error f) ↔ ∃ f, configText files path = .error f := by
    rw [configTable]
    cases configText files path <;> simp [Except.map]
  rw [hmap, configText, ConfigUnreadable]
  cases hfile : files.isFile path with
  | error e => simp [bind, Except.bind]
  | ok isFile =>
    cases isFile with
    | false => simp [bind, Except.bind, pure, Except.pure]
    | true =>
      cases hread : files.read path with
      | error e => simp [bind, Except.bind]
      | ok bytes =>
        cases hdecode : Utf8.decode bytes with
        | error f => simp [hdecode, bind, Except.bind]
        | ok t => simp [hdecode, bind, Except.bind, pure, Except.pure]

/-- Something is wrong with the configuration file, although it can be read, or with the tags that
the arguments give. -/
def Wrong (files : Files) (a : Arguments) : Prop :=
  configTable files (configPath a) = .ok none ∨
    ∃ data, configTable files (configPath a) = .ok (some data) ∧ ¬ Valid a data

variable {files : Files} {a : Arguments} {data : Table} {o : Options}

theorem resolve_of_error {f : Fault} (h : configTable files (configPath a) = .error f) :
    resolve files a = .error (.fault f) := by
  rw [resolve, loadTable_eq, h]
  rfl

theorem resolve_of_table (h : configTable files (configPath a) = .ok (some data)) :
    resolve files a = ofTable a (configPath a) data := by
  rw [resolve, loadTable_eq, h]
  rfl

theorem Wrong.resolve (h : Wrong files a) :
    ∃ e, Options.resolve files a = .error e ∧ ∀ f, e ≠ .fault f := by
  rcases h with hnone | ⟨data, hdata, hwrong⟩
  · rw [Options.resolve, loadTable_eq, hnone]
    exact ⟨_, rfl, by simp⟩
  · rw [resolve_of_table hdata]
    exact ((ofTable_cases a (configPath a) data).resolve_left fun h => hwrong h.1).2

theorem Valid.resolve (h : Valid a data)
    (hdata : configTable files (configPath a) = .ok (some data)) :
    ∃ o, Options.resolve files a = .ok o ∧ o.theme.Known := by
  rw [resolve_of_table hdata]
  exact ((ofTable_cases a (configPath a) data).resolve_right fun hwrong => hwrong.1 h).2

/-- Where the configuration file can be read and nothing is wrong, there are options. -/
theorem exists_resolve {table : Option Table} (h : configTable files (configPath a) = .ok table)
    (hright : ¬ Wrong files a) : ∃ o, Options.resolve files a = .ok o ∧ o.theme.Known := by
  cases table with
  | none => exact absurd (.inl h) hright
  | some data =>
    by_cases hvalid : Valid a data
    · exact hvalid.resolve h
    · exact absurd (.inr ⟨data, h, hvalid⟩) hright

end Highlighter.Options
