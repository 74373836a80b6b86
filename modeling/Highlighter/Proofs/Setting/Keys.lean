import Highlighter.Proofs.Entries
import Highlighter.Setting.Toml.Reading

/-!
The keys of a document. A key is given a value once, so in the table that a document writes, and in
the tables within it, no key stands twice.
-/

set_option autoImplicit false

namespace Highlighter

/-- The setting holds no others. -/
def Setting.isPlain : Setting → Bool
  | list _ | table _ => false
  | _ => true

/-- No key stands twice in the setting, if it is a table, nor in any setting within it. -/
inductive Setting.Keyed : Setting → Prop where
  | plain {s : Setting} : s.isPlain = true → Keyed s
  | list {items : List Setting} : (∀ s ∈ items, Keyed s) → Keyed (.list items)
  | table {entries : Table} : entries.Distinct → (∀ e ∈ entries, Keyed e.2) →
      Keyed (.table entries)

theorem Setting.Keyed.distinct {entries : Table} (h : (Setting.table entries).Keyed) :
    entries.Distinct := by
  cases h with
  | plain hno => cases hno
  | table hdistinct _ => exact hdistinct

theorem Setting.Keyed.get? {entries : Table} (h : (Setting.table entries).Keyed) {k : Text}
    {s : Setting} (hget : entries.get? k = some s) : s.Keyed := by
  cases h with
  | plain hno => cases hno
  | table _ hall => exact hall (k, s) (Entries.mem_of_get? hget)

namespace Toml

inductive Tree.Keyed : Tree → Prop where
  | value {v : Setting} : v.Keyed → Keyed (.value v)
  | table {origin : Origin} {b : Branches} : b.Distinct → (∀ e ∈ b, Keyed e.2) →
      Keyed (.table origin b)
  | array {older : List Setting} {b : Branches} : (∀ s ∈ older, s.Keyed) → b.Distinct →
      (∀ e ∈ b, Keyed e.2) → Keyed (.array older b)

structure Branches.Keyed (b : Branches) : Prop where
  distinct : b.Distinct
  trees : ∀ e ∈ b, e.2.Keyed

def Statement.Keyed : Statement → Prop
  | .declare _ | .append _ => True
  | .assign _ v => v.Keyed

section Branches

variable {origin : Origin} {b sub : Branches} {k : Text} {t : Tree} {older : List Setting}

theorem Branches.keyed_nil : Branches.Keyed [] := by
  constructor
  case distinct => exact Entries.distinct_nil
  case trees =>
    intro e he
    cases he

theorem Branches.Keyed.tree (h : Branches.Keyed b) (origin : Origin) :
    (Tree.table origin b).Keyed :=
  .table h.distinct h.trees

theorem Branches.Keyed.array (h : Branches.Keyed b) (holder : ∀ s ∈ older, s.Keyed) :
    (Tree.array older b).Keyed :=
  .array holder h.distinct h.trees

theorem Tree.Keyed.branches (h : (Tree.table origin sub).Keyed) : Branches.Keyed sub := by
  cases h with
  | table hdistinct htrees => exact ⟨hdistinct, htrees⟩

theorem Tree.Keyed.last (h : (Tree.array older sub).Keyed) :
    (∀ s ∈ older, s.Keyed) ∧ Branches.Keyed sub := by
  cases h with
  | array holder hdistinct htrees => exact ⟨holder, hdistinct, htrees⟩

theorem Branches.Keyed.get? (h : Branches.Keyed b) (hget : b.get? k = some t) : t.Keyed :=
  h.trees _ (Entries.mem_of_get? hget)

theorem Branches.Keyed.put (h : Branches.Keyed b) (ht : t.Keyed) :
    Branches.Keyed (b.put k t) := by
  constructor
  case distinct => exact h.distinct.put k t
  case trees =>
    intro e he
    rcases h.distinct.mem_put_iff.mp he with rfl | hold
    · exact ht
    · exact h.trees e hold.2

end Branches

namespace Tree

theorem toEntries_eq_map (b : Branches) : toEntries b = b.map fun e => (e.1, e.2.toSetting) := by
  induction b with
  | nil => rw [toEntries, List.map_nil]
  | cons e b ih => rw [toEntries, ih, List.map_cons]

theorem keyed_toEntries {b : Branches} (hdistinct : b.Distinct)
    (htrees : ∀ e ∈ b, e.2.toSetting.Keyed) : (Setting.table (toEntries b)).Keyed := by
  rw [toEntries_eq_map]
  refine .table (Entries.distinct_map.mpr hdistinct) ?_
  intro e he
  obtain ⟨e', he', rfl⟩ := List.mem_map.mp he
  exact htrees e' he'

theorem Keyed.toSetting {t : Tree} (h : t.Keyed) : t.toSetting.Keyed := by
  induction h with
  | value hv =>
    rw [Tree.toSetting]
    exact hv
  | table hdistinct _ ih =>
    rw [Tree.toSetting]
    exact keyed_toEntries hdistinct ih
  | array holder hdistinct _ ih =>
    rw [Tree.toSetting]
    refine .list (List.forall_mem_append.mpr ⟨holder, ?_⟩)
    exact List.forall_mem_singleton.mpr (keyed_toEntries hdistinct ih)

section Change

variable {b b' : Branches} {path : List Text} {header : Nat} {v : Setting} {t : Tree}
  {t? : Option Tree}

theorem keyed_declare (h : ∀ t ∈ t?, t.Keyed) (ht : declare t? = some t) : t.Keyed := by
  unfold declare at ht
  split at ht
  · obtain rfl := Option.some.inj ht
    exact Branches.keyed_nil.tree _
  · obtain rfl := Option.some.inj ht
    exact (h _ rfl).branches.tree _
  · cases ht

theorem keyed_append (h : ∀ t ∈ t?, t.Keyed) (ht : append t? = some t) : t.Keyed := by
  unfold append at ht
  split at ht
  · obtain rfl := Option.some.inj ht
    exact Branches.keyed_nil.array (by simp)
  · obtain rfl := Option.some.inj ht
    obtain ⟨holder, hlast⟩ := (h _ rfl).last
    refine Branches.keyed_nil.array (List.forall_mem_append.mpr ⟨holder, ?_⟩)
    refine List.forall_mem_singleton.mpr (keyed_toEntries hlast.distinct ?_)
    intro e he
    exact (hlast.trees e he).toSetting
  · cases ht

theorem keyed_change {last : Option Tree → Option Tree} (h : Branches.Keyed b)
    (hlast : ∀ t? t, (∀ t ∈ t?, Tree.Keyed t) → last t? = some t → t.Keyed)
    (hb : change last path b = some b') : Branches.Keyed b' := by
  fun_induction change last path b generalizing b' with
  | case1 => cases hb
  | case2 k b =>
    obtain ⟨t, ht, rfl⟩ := Option.map_eq_some_iff.mp hb
    exact h.put (hlast _ t (fun _ hget => h.get? hget) ht)
  | case3 k path b hpath hget ih =>
    obtain ⟨sub, hsub, rfl⟩ := Option.map_eq_some_iff.mp hb
    exact h.put ((ih Branches.keyed_nil hsub).tree _)
  | case4 k path b hpath origin sub hget ih =>
    obtain ⟨sub', hsub, rfl⟩ := Option.map_eq_some_iff.mp hb
    exact h.put ((ih (h.get? hget).branches hsub).tree _)
  | case5 k path b hpath older sub hget ih =>
    obtain ⟨sub', hsub, rfl⟩ := Option.map_eq_some_iff.mp hb
    exact h.put ((ih (h.get? hget).last.2 hsub).array (h.get? hget).last.1)
  | case6 => cases hb

theorem keyed_assign (h : Branches.Keyed b) (hv : v.Keyed)
    (hb : assign header v path b = some b') : Branches.Keyed b' := by
  fun_induction assign header v path b generalizing b' with
  | case1 => cases hb
  | case2 => exact Option.some.inj hb ▸ h.put (.value hv)
  | case3 => cases hb
  | case4 k path b hpath hget ih =>
    obtain ⟨sub, hsub, rfl⟩ := Option.map_eq_some_iff.mp hb
    exact h.put ((ih Branches.keyed_nil hsub).tree _)
  | case5 k path b hpath origin sub hget horigin ih =>
    obtain ⟨sub', hsub, rfl⟩ := Option.map_eq_some_iff.mp hb
    exact h.put ((ih (h.get? hget).branches hsub).tree _)
  | case6 => cases hb
  | case7 => cases hb

theorem keyed_inside {f : Branches → Option Branches} (h : Branches.Keyed b)
    (hf : ∀ b b', Branches.Keyed b → f b = some b' → Branches.Keyed b')
    (hb : inside f path b = some b') : Branches.Keyed b' := by
  fun_induction inside f path b generalizing b' with
  | case1 b => exact hf b b' h hb
  | case2 k path b origin sub hget ih =>
    obtain ⟨sub', hsub, rfl⟩ := Option.map_eq_some_iff.mp hb
    exact h.put ((ih (h.get? hget).branches hsub).tree _)
  | case3 k path b older sub hget ih =>
    obtain ⟨sub', hsub, rfl⟩ := Option.map_eq_some_iff.mp hb
    exact h.put ((ih (h.get? hget).last.2 hsub).array (h.get? hget).last.1)
  | case4 => cases hb

theorem keyed_build {n : Nat} {statements : List Statement} (h : Branches.Keyed b)
    (hstatements : ∀ st ∈ statements, st.Keyed) (hb : build n path b statements = some b') :
    Branches.Keyed b' := by
  induction statements generalizing n path b with
  | nil => exact Option.some.inj hb ▸ h
  | cons st statements ih =>
    obtain ⟨hst, hrest⟩ := List.forall_mem_cons.mp hstatements
    cases st with
    | declare key =>
      obtain ⟨next, hnext, hb⟩ := Option.bind_eq_some_iff.mp hb
      exact ih (keyed_change h (fun _ _ => keyed_declare) hnext) hrest hb
    | append key =>
      obtain ⟨next, hnext, hb⟩ := Option.bind_eq_some_iff.mp hb
      exact ih (keyed_change h (fun _ _ => keyed_append) hnext) hrest hb
    | assign key v =>
      obtain ⟨next, hnext, hb⟩ := Option.bind_eq_some_iff.mp hb
      refine ih (keyed_inside h ?_ hnext) hrest hb
      intro b b' h hassign
      exact keyed_assign h hst hassign

end Change

theorem keyed_ofStatements {statements : List Statement} {table : Table}
    (h : ∀ st ∈ statements, st.Keyed) (htable : ofStatements statements = some table) :
    (Setting.table table).Keyed := by
  obtain ⟨b, hb, rfl⟩ := Option.map_eq_some_iff.mp htable
  have hkeyed := ((keyed_build Branches.keyed_nil h hb).tree .declared).toSetting
  rwa [toSetting] at hkeyed

end Tree

section Readers

variable {s : Text}

theorem prefixed?_isPlain {r : Setting × Nat} (h : prefixed? s = some r) : r.1.isPlain = true := by
  unfold prefixed? at h
  split at h
  · obtain ⟨base, -, h⟩ := Option.bind_eq_some_iff.mp h
    split at h
    · obtain rfl := Option.some.inj h
      rfl
    · cases h
  · cases h

theorem numberOf_isPlain (negative whole : Bool) (size : Nat) (power : Int) :
    (numberOf negative whole size power).isPlain = true := by
  cases whole <;> rfl

theorem decimal?_isPlain {r : Setting × Nat} (h : decimal? s = some r) : r.1.isPlain = true := by
  unfold decimal? at h
  dsimp only at h
  split at h
  · obtain rfl := Option.some.inj h
    exact numberOf_isPlain _ _ _ _
  · cases h

theorem special?_isPlain {r : Setting × Nat} (h : special? s = some r) : r.1.isPlain = true := by
  unfold special? at h
  dsimp only at h
  split at h
  · obtain rfl := Option.some.inj h
    rfl
  · split at h
    · obtain rfl := Option.some.inj h
      rfl
    · cases h

theorem scalar_isPlain {r : Setting × Nat} (h : scalar s = some r) : r.1.isPlain = true := by
  unfold scalar at h
  split at h
  · split at h
    · split at h
      all_goals
        obtain rfl := Option.some.inj h
        rfl
    · cases h
  · split at h
    · obtain rfl := Option.some.inj h
      rfl
    · rcases Option.or_eq_some_iff.mp h with h | ⟨-, h⟩
      · exact prefixed?_isPlain h
      · rcases Option.or_eq_some_iff.mp h with h | ⟨-, h⟩
        · exact decimal?_isPlain h
        · exact special?_isPlain h

/-- All that is read from texts shorter than this is keyed. -/
structure ReadsKeyed (n : Nat) : Prop where
  value : ∀ s r, s.length < n → value s = some r → r.value.Keyed
  items : ∀ s r, s.length < n → items s = some r → ∀ v ∈ r.value, v.Keyed
  inlineEntries : ∀ s r, s.length < n → inlineEntries s = some r → ∀ st ∈ r.value, st.Keyed

theorem ReadsKeyed.mono {m n : Nat} (h : ReadsKeyed n) (hle : m ≤ n) : ReadsKeyed m := by
  constructor
  case value => exact fun s r hs => h.value s r (Nat.lt_of_lt_of_le hs hle)
  case items => exact fun s r hs => h.items s r (Nat.lt_of_lt_of_le hs hle)
  case inlineEntries => exact fun s r hs => h.inlineEntries s r (Nat.lt_of_lt_of_le hs hle)

theorem ReadsKeyed.value_self (h : ReadsKeyed s.length) {r : Front Setting s}
    (hr : Toml.value s = some r) : r.value.Keyed := by
  cases s with
  | nil =>
    rw [Toml.value] at hr
    cases hr
  | cons c s =>
    rw [Toml.value] at hr
    split at hr
    · obtain ⟨body, -, rfl⟩ := Option.map_eq_some_iff.mp hr
      exact .plain rfl
    · split at hr
      · obtain ⟨items, hitems, rfl⟩ := Option.map_eq_some_iff.mp hr
        exact .list (h.items _ _ (Nat.lt_succ_self _) hitems)
      · split at hr
        · dsimp only at hr
          split at hr
          · obtain rfl := Option.some.inj hr
            exact .table Entries.distinct_nil (by simp)
          · obtain ⟨entries, hentries, hr⟩ := Option.bind_eq_some_iff.mp hr
            obtain ⟨table, htable, hr⟩ := Option.bind_eq_some_iff.mp hr
            obtain rfl := Option.some.inj hr
            refine Tree.keyed_ofStatements (h.inlineEntries _ _ ?_ hentries) htable
            rw [List.length_drop, List.length_cons]
            omega
        · split at hr
          · obtain rfl := Option.some.inj hr
            exact .plain rfl
          · split at hr
            · obtain rfl := Option.some.inj hr
              exact .plain rfl
            · obtain ⟨v, hv, rfl⟩ := Option.map_eq_some_iff.mp hr
              exact .plain (scalar_isPlain hv)

theorem ReadsKeyed.entry_self (h : ReadsKeyed s.length) {r : Front Statement s}
    (hr : entry s = some r) : r.value.Keyed := by
  rw [entry] at hr
  obtain ⟨path, -, hr⟩ := Option.bind_eq_some_iff.mp hr
  split at hr
  · obtain ⟨v, hv, hr⟩ := Option.bind_eq_some_iff.mp hr
    obtain rfl := Option.some.inj hr
    exact h.value _ _ (Front.shorter _) hv
  · cases hr

theorem ReadsKeyed.items_self (h : ReadsKeyed s.length) {r : Front (List Setting) s}
    (hr : Toml.items s = some r) : ∀ v ∈ r.value, v.Keyed := by
  rw [Toml.items] at hr
  obtain ⟨n, -, hr⟩ := Option.bind_eq_some_iff.mp hr
  split at hr
  · obtain rfl := Option.some.inj hr
    exact List.forall_mem_nil _
  · obtain ⟨first, hfirst, hr⟩ := Option.bind_eq_some_iff.mp hr
    obtain ⟨m, -, hr⟩ := Option.bind_eq_some_iff.mp hr
    have hkeyed := (h.mono (List.drop_sublist n s).length_le).value_self hfirst
    dsimp only at hr
    split at hr
    · obtain rfl := Option.some.inj hr
      exact List.forall_mem_singleton.mpr hkeyed
    · obtain ⟨more, hmore, hr⟩ := Option.bind_eq_some_iff.mp hr
      obtain rfl := Option.some.inj hr
      exact List.forall_mem_cons.mpr ⟨hkeyed, h.items _ _ (Front.shorter _) hmore⟩
    · cases hr

theorem ReadsKeyed.inlineEntries_self (h : ReadsKeyed s.length)
    {r : Front (List Statement) s} (hr : Toml.inlineEntries s = some r) :
    ∀ st ∈ r.value, st.Keyed := by
  rw [Toml.inlineEntries] at hr
  obtain ⟨first, hfirst, hr⟩ := Option.bind_eq_some_iff.mp hr
  have hkeyed := h.entry_self hfirst
  dsimp only at hr
  split at hr
  · obtain rfl := Option.some.inj hr
    exact List.forall_mem_singleton.mpr hkeyed
  · obtain ⟨more, hmore, hr⟩ := Option.bind_eq_some_iff.mp hr
    obtain rfl := Option.some.inj hr
    exact List.forall_mem_cons.mpr ⟨hkeyed, h.inlineEntries _ _ (Front.shorter _) hmore⟩
  · cases hr

theorem readsKeyed (n : Nat) : ReadsKeyed n := by
  induction n with
  | zero =>
    constructor
    all_goals
      intro s r hs
      cases hs
  | succ n ih =>
    have hself : ∀ s : Text, s.length < n + 1 → ReadsKeyed s.length := fun s hs =>
      ih.mono (Nat.le_of_lt_succ hs)
    constructor
    case value => exact fun s r hs => (hself s hs).value_self
    case items => exact fun s r hs => (hself s hs).items_self
    case inlineEntries => exact fun s r hs => (hself s hs).inlineEntries_self

theorem header_make {brackets : Text} {make : List Text → Statement} {r : Front Statement s}
    (h : header brackets make s = some r) : ∃ path, r.value = make path := by
  obtain ⟨path, -, h⟩ := Option.bind_eq_some_iff.mp h
  dsimp only at h
  split at h
  · obtain rfl := Option.some.inj h
    exact ⟨_, rfl⟩
  · cases h

theorem keyed_statement {r : Front Statement s} (h : statement s = some r) : r.value.Keyed := by
  unfold statement at h
  split at h
  · obtain ⟨front, hfront, rfl⟩ := Option.map_eq_some_iff.mp h
    obtain ⟨path, hpath⟩ := header_make hfront
    change front.value.Keyed
    rw [hpath]
    trivial
  · obtain ⟨front, hfront, rfl⟩ := Option.map_eq_some_iff.mp h
    obtain ⟨path, hpath⟩ := header_make hfront
    change front.value.Keyed
    rw [hpath]
    trivial
  · exact (readsKeyed _).entry_self h

theorem keyed_statements {found : List Statement} (h : statements s = some found) :
    ∀ st ∈ found, st.Keyed := by
  fun_induction statements s generalizing found with
  | case1 =>
    obtain rfl := Option.some.inj h
    simp
  | case2 c s hfill ih => exact ih h
  | case3 s hfill ih =>
    obtain ⟨n, -, h⟩ := Option.bind_eq_some_iff.mp h
    exact ih n h
  | case4 c s hfill hcomment ih =>
    obtain ⟨first, hfirst, h⟩ := Option.bind_eq_some_iff.mp h
    dsimp only at h
    split at h
    · obtain ⟨more, hmore, h⟩ := Option.bind_eq_some_iff.mp h
      obtain rfl := Option.some.inj h
      have hkeyed := keyed_statement hfirst
      exact List.forall_mem_cons.mpr ⟨hkeyed, ih first hmore⟩
    · cases h

end Readers

/-- In what is read from a document no key stands twice, at any depth. -/
theorem keyed_read {t : Text} {table : Table} (h : read t = some table) :
    (Setting.table table).Keyed := by
  obtain ⟨found, hfound, htable⟩ := Option.bind_eq_some_iff.mp h
  exact Tree.keyed_ofStatements (keyed_statements hfound) htable

end Toml

end Highlighter
