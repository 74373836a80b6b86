/-!
Entries: values under distinct keys, in the order in which the keys were first put.
-/

set_option autoImplicit false

namespace Highlighter

abbrev Entries (α β : Type) := List (α × β)

namespace Entries

variable {α β : Type} [DecidableEq α]

def get? : Entries α β → α → Option β
  | [], _ => none
  | (a, b) :: es, k => if a = k then some b else get? es k

/-- Gives `k` the value `v`; a key that is already there keeps its place. -/
def put : Entries α β → α → β → Entries α β
  | [], k, v => [(k, v)]
  | (a, b) :: es, k, v => if a = k then (a, v) :: es else (a, b) :: put es k v

def putAll (es : Entries α β) (news : Entries α β) : Entries α β :=
  news.foldl (fun es e => es.put e.1 e.2) es

def erase (es : Entries α β) (k : α) : Entries α β := es.filter (·.1 ≠ k)

/-- Adds to the list under `k`, which is empty where there is none. -/
def extend (es : Entries α (List β)) (k : α) (vs : List β) : Entries α (List β) :=
  es.put k ((es.get? k).getD [] ++ vs)

theorem get?_put (es : Entries α β) (k j : α) (v : β) :
    (es.put k v).get? j = if k = j then some v else es.get? j := by
  induction es with
  | nil => simp [put, get?]
  | cons e es ih =>
    obtain ⟨a, b⟩ := e
    by_cases h : a = k
    · subst h
      by_cases hj : a = j
      · simp [put, get?, hj]
      · simp [put, get?, hj]
    · by_cases hj : a = j
      · subst hj
        simp [put, get?, h, Ne.symm h]
      · simp [put, get?, h, hj, ih]

theorem mem_of_get? {es : Entries α β} {k : α} {v : β} (h : es.get? k = some v) : (k, v) ∈ es := by
  induction es with
  | nil => cases h
  | cons e es ih =>
    rw [get?] at h
    split at h
    · rename_i heq
      cases heq
      cases h
      exact List.mem_cons_self
    · exact List.mem_cons_of_mem e (ih h)

theorem get?_erase (es : Entries α β) (k j : α) :
    (es.erase k).get? j = if k = j then none else es.get? j := by
  induction es with
  | nil => simp [erase, get?]
  | cons e es ih =>
    obtain ⟨a, b⟩ := e
    simp only [erase] at ih
    by_cases h : a = k
    · subst h
      by_cases hj : a = j
      · simp_all [erase]
      · simp_all [erase, get?]
    · by_cases hj : a = j
      · subst hj
        simp [erase, get?, h, Ne.symm h]
      · simp_all [erase, get?]

end Entries

end Highlighter
