import Mathlib.Data.List.Basic
import Mathlib.Tactic.ByContra
import SqlPreview.Table

namespace SqlPreview

namespace Table

variable {α : Type} {name : Text} {value : α} {table : Table α}

theorem mem_of_get?_eq_some (h : table.get? name = some value) : (name, value) ∈ table := by
  induction table with
  | nil => simp at h
  | cons entry rest ih =>
    obtain ⟨key, old⟩ := entry
    simp only [get?] at h
    split at h
    · next hk =>
      cases h
      rw [hk]
      exact List.mem_cons_self
    · exact List.mem_cons_of_mem _ (ih h)

-- In a table in order no later entry has the name of an earlier one.
theorem mem_iff_get?_eq_some (h : table.Ordered) :
    (name, value) ∈ table ↔ table.get? name = some value := by
  refine ⟨fun hm => ?_, mem_of_get?_eq_some⟩
  induction table with
  | nil => cases hm
  | cons entry rest ih =>
    obtain ⟨key, first⟩ := entry
    obtain ⟨hlt, hrest⟩ := List.pairwise_cons.1 h
    rcases List.mem_cons.1 hm with he | hm
    · cases he
      simp [get?]
    · have hne : key ≠ name := fun hk => List.lt_irrefl name (hk ▸ hlt _ hm)
      simp [get?, hne, ih hrest hm]

theorem get?_eq_none_of_lt (h : ∀ entry ∈ table, name < entry.1) : table.get? name = none := by
  by_contra hne
  obtain ⟨value, hv⟩ := Option.ne_none_iff_exists'.1 hne
  exact List.lt_irrefl name (h _ (mem_of_get?_eq_some hv))

theorem get?_append (first second : Table α) (name : Text) :
    get? name (first ++ second) = (get? name first).or (get? name second) := by
  induction first with
  | nil => rfl
  | cons entry rest ih =>
    obtain ⟨key, value⟩ := entry
    by_cases hk : key = name <;> simp [get?, hk, ih]

-- What is copied into a table wins over what was there, and of several entries of one name the last
-- one does.
theorem get?_merge (below above : Table α) (name : Text) :
    (merge below above).get? name = (get? name above.reverse).or (below.get? name) := by
  induction above generalizing below with
  | nil => rfl
  | cons entry rest ih =>
    obtain ⟨key, value⟩ := entry
    have hstep : (merge below ((key, value) :: rest)).get? name =
        (get? name rest.reverse).or ((below.insert key value).get? name) := ih _
    rw [hstep, get?_insert, List.reverse_cons, get?_append, Option.or_assoc]
    by_cases hk : key = name <;> simp [get?, hk]

theorem get?_reverse (h : table.Ordered) (name : Text) :
    get? name table.reverse = table.get? name := by
  induction table with
  | nil => rfl
  | cons entry rest ih =>
    obtain ⟨key, value⟩ := entry
    obtain ⟨hlt, hrest⟩ := List.pairwise_cons.1 h
    rw [List.reverse_cons, get?_append, ih hrest]
    by_cases hk : key = name
    · subst hk
      simp [get?, get?_eq_none_of_lt hlt]
    · simp [get?, hk]

end Table

namespace Map

variable {α : Type}

theorem mem_entries_iff {name : Text} {value : α} {map : Map α} :
    (name, value) ∈ map.entries ↔ map.get? name = some value :=
  Table.mem_iff_get?_eq_some map.ordered

theorem get?_insertAll (pairs : List (Text × α)) (map : Map α) (name : Text) :
    (map.insertAll pairs).get? name = (Table.get? name pairs.reverse).or (map.get? name) :=
  Table.get?_merge map.entries pairs name

-- Where both maps have a name, the value is the one of `above`.
theorem get?_merge (below above : Map α) (name : Text) :
    (below.merge above).get? name = (above.get? name).or (below.get? name) := by
  rw [merge, get?_insertAll, Table.get?_reverse above.ordered]
  rfl

end Map

end SqlPreview
