import Highlighter.Entries

/-!
Entries under distinct keys, and lists under keys. Putting a value keeps the keys distinct, and as
long as they are, an entry is there if and only if its key leads to it. Extending a list adds to
what is listed and takes nothing away.
-/

set_option autoImplicit false

namespace Highlighter.Entries

section Distinct

variable {α β : Type} {es : Entries α β} {e : α × β} {k j : α} {v : β}

/-- No key is given twice. -/
def Distinct (es : Entries α β) : Prop := (es.map Prod.fst).Nodup

theorem distinct_nil : Distinct ([] : Entries α β) := .nil

theorem distinct_cons : Distinct (e :: es) ↔ e.1 ∉ es.map Prod.fst ∧ es.Distinct := by
  rw [Distinct, List.map_cons, List.nodup_cons, Distinct]

theorem distinct_map {γ : Type} {f : β → γ} :
    Distinct (es.map fun e => (e.1, f e.2)) ↔ es.Distinct := by
  rw [Distinct, Distinct, List.map_map]
  rfl

variable [DecidableEq α]

theorem mem_keys_put : j ∈ (es.put k v).map Prod.fst ↔ j = k ∨ j ∈ es.map Prod.fst := by
  induction es with
  | nil => simp [put]
  | cons e es ih =>
    obtain ⟨a, b⟩ := e
    rw [put]
    split
    · rename_i h
      simp [h]
    · simp only [List.map_cons, List.mem_cons, ih]
      exact or_left_comm

theorem Distinct.put (h : es.Distinct) (k : α) (v : β) : (es.put k v).Distinct := by
  induction es with
  | nil => simp [Entries.put, Distinct]
  | cons e es ih =>
    obtain ⟨a, b⟩ := e
    obtain ⟨hnew, hrest⟩ := distinct_cons.mp h
    rw [Entries.put]
    split
    · exact distinct_cons.mpr ⟨hnew, hrest⟩
    · rename_i hne
      apply distinct_cons.mpr
      refine ⟨?_, ih hrest⟩
      intro hmem
      rcases mem_keys_put.mp hmem with heq | hmem
      · exact hne heq
      · exact hnew hmem

theorem Distinct.get?_eq_some_iff (h : es.Distinct) : es.get? k = some v ↔ (k, v) ∈ es := by
  constructor
  · exact mem_of_get?
  · intro hmem
    induction es with
    | nil => cases hmem
    | cons e es ih =>
      obtain ⟨a, b⟩ := e
      obtain ⟨hnew, hrest⟩ := distinct_cons.mp h
      rw [get?]
      rcases List.mem_cons.mp hmem with heq | hmem
      · obtain ⟨rfl, rfl⟩ := Prod.mk.inj heq
        rw [if_pos rfl]
      · have hne : a ≠ k := by
          intro heq
          exact hnew (List.mem_map.mpr ⟨(k, v), hmem, heq.symm⟩)
        rw [if_neg hne]
        exact ih hrest hmem

theorem Distinct.mem_put_iff (h : es.Distinct) :
    e ∈ es.put k v ↔ e = (k, v) ∨ e.1 ≠ k ∧ e ∈ es := by
  obtain ⟨a, b⟩ := e
  rw [← (h.put k v).get?_eq_some_iff, get?_put, ← h.get?_eq_some_iff]
  by_cases heq : k = a
  · simp [heq, eq_comm]
  · simp [heq, Ne.symm heq]

/-- What is put in replaces what was there under its key, and nothing else. -/
theorem Distinct.forall_mem_putAll {news : Entries α β} {P : α × β → Prop} (h : es.Distinct)
    (hnews : ∀ e ∈ news, P e) :
    (∀ e ∈ es.putAll news, P e) ↔ ∀ e ∈ es, e.1 ∈ news.map Prod.fst ∨ P e := by
  induction news generalizing es with
  | nil => simp [putAll]
  | cons n news ih =>
    obtain ⟨hn, hrest⟩ := List.forall_mem_cons.mp hnews
    have hput : es.putAll (n :: news) = (es.put n.1 n.2).putAll news := rfl
    rw [hput, ih (h.put n.1 n.2) hrest]
    simp only [h.mem_put_iff, List.map_cons, List.mem_cons]
    constructor
    · intro hall e he
      by_cases heq : e.1 = n.1
      · exact .inl (.inl heq)
      · exact (hall e (.inr ⟨heq, he⟩)).imp_left .inr
    · intro hall e he
      rcases he with rfl | ⟨hne, he⟩
      · exact .inr hn
      · exact (hall e he).imp_left fun hmem => hmem.resolve_left hne

theorem put_ne_nil : es.put k v ≠ [] := by
  intro hnil
  have hkey : k ∈ (es.put k v).map Prod.fst := mem_keys_put.mpr (.inl rfl)
  rw [hnil] at hkey
  cases hkey

theorem putAll_ne_nil {news : Entries α β} (h : es ≠ [] ∨ news ≠ []) : es.putAll news ≠ [] := by
  induction news generalizing es with
  | nil => exact h.resolve_right fun hno => hno rfl
  | cons n news ih => exact ih (.inl put_ne_nil)

end Distinct

section Lists

variable {α β : Type} {es : Entries α (List β)} {e : α × List β} {k j : α} {vs : List β} {v : β}

/-- The value is in a list under the key. -/
def Lists (es : Entries α (List β)) (k : α) (v : β) : Prop := ∃ e ∈ es, k = e.1 ∧ v ∈ e.2

theorem not_lists_nil : ¬ Lists ([] : Entries α (List β)) k v := by
  intro h
  obtain ⟨e, hmem, -⟩ := h
  cases hmem

theorem lists_cons : Lists (e :: es) k v ↔ k = e.1 ∧ v ∈ e.2 ∨ es.Lists k v := by
  simp only [Lists, List.mem_cons, exists_eq_or_imp]

theorem lists_map {γ : Type} {f : β → γ} {w : γ} :
    Lists (es.map fun e => (e.1, e.2.map f)) k w ↔ ∃ v, es.Lists k v ∧ f v = w := by
  constructor
  · intro h
    obtain ⟨_, hmem, rfl, hw⟩ := h
    obtain ⟨e, he, rfl⟩ := List.mem_map.mp hmem
    obtain ⟨v, hv, rfl⟩ := List.mem_map.mp hw
    exact ⟨v, ⟨e, he, rfl, hv⟩, rfl⟩
  · intro h
    obtain ⟨v, ⟨e, he, rfl, hv⟩, rfl⟩ := h
    exact ⟨_, List.mem_map_of_mem he, rfl, List.mem_map_of_mem hv⟩

variable [DecidableEq α]

theorem extend_cons (k : α) (vs : List β) :
    extend (e :: es) k vs = if e.1 = k then (e.1, e.2 ++ vs) :: es else e :: es.extend k vs := by
  obtain ⟨a, b⟩ := e
  by_cases h : a = k
  · simp [extend, put, get?, h]
  · simp [extend, put, get?, h]

theorem lists_extend : (es.extend k vs).Lists j v ↔ es.Lists j v ∨ j = k ∧ v ∈ vs := by
  induction es with
  | nil =>
    have hextend : extend [] k vs = [(k, vs)] := rfl
    rw [hextend, lists_cons, or_comm]
  | cons e es ih =>
    rw [extend_cons]
    split
    · rename_i h
      rw [lists_cons, lists_cons, List.mem_append, ← h]
      grind
    · rw [lists_cons, lists_cons, ih, or_assoc]

theorem mem_keys_extend : j ∈ (es.extend k vs).map Prod.fst ↔ j = k ∨ j ∈ es.map Prod.fst :=
  mem_keys_put

section Items

variable {γ : Type} {items : List γ} {key : γ → α} {list : γ → List β}

/-- Items that are added one after the other, each a list under a key. -/
theorem lists_foldl_extend :
    Lists (items.foldl (fun gs a => extend gs (key a) (list a)) es) j v ↔
      es.Lists j v ∨ ∃ a ∈ items, j = key a ∧ v ∈ list a := by
  induction items generalizing es with
  | nil => simp
  | cons a items ih =>
    rw [List.foldl_cons, ih, lists_extend, or_assoc]
    simp only [List.mem_cons, exists_eq_or_imp]

theorem mem_keys_foldl_extend :
    j ∈ (items.foldl (fun gs a => extend gs (key a) (list a)) es).map Prod.fst ↔
      j ∈ es.map Prod.fst ∨ ∃ a ∈ items, j = key a := by
  induction items generalizing es with
  | nil => simp
  | cons a items ih =>
    rw [List.foldl_cons, ih, mem_keys_extend, or_assoc, or_left_comm]
    simp only [List.mem_cons, exists_eq_or_imp]

end Items

end Lists

end Highlighter.Entries
