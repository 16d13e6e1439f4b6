import SqlPreview.Text.Basic

namespace SqlPreview

-- Entries under names. Written by `insert` alone they are in the order of the names by code point.
abbrev Table (α : Type) := List (Text × α)

namespace Table

variable {α : Type}

def get? (name : Text) : Table α → Option α
  | [] => none
  | (key, value) :: rest => if key = name then some value else get? name rest

-- Writes an entry, in place of the one of the same name if there is one.
def insert (name : Text) (value : α) : Table α → Table α
  | [] => [(name, value)]
  | (key, old) :: rest =>
    if key = name then (name, value) :: rest
    else if key < name then (key, old) :: insert name value rest
    else (name, value) :: (key, old) :: rest

-- Copies every entry of `above` into `below`, so that `above` wins where both have a name.
def merge (below above : Table α) : Table α :=
  above.foldl (fun table entry => insert entry.1 entry.2 table) below

-- A table of pairs in any order. Of several pairs with one name the last one counts.
def ofPairs (pairs : List (Text × α)) : Table α :=
  merge [] pairs

-- A table has its names in order, each one once.
def Ordered (table : Table α) : Prop :=
  table.Pairwise fun earlier later => earlier.1 < later.1

@[simp]
theorem get?_nil (name : Text) : get? name ([] : Table α) = none := rfl

@[simp]
theorem get?_insert (name other : Text) (value : α) (table : Table α) :
    get? other (insert name value table) =
      if name = other then some value else get? other table := by
  induction table with
  | nil => simp [insert, get?]
  | cons entry rest ih =>
    obtain ⟨key, old⟩ := entry
    by_cases hk : key = name
    · subst hk
      by_cases ho : key = other <;> simp [insert, get?, ho]
    · by_cases hl : key < name
      · simp only [insert, hk, if_false, hl, if_true, get?, ih]
        by_cases ho : key = other
        · subst ho
          simp [Ne.symm hk]
        · simp [ho]
      · simp [insert, get?, hk, hl]

theorem lt_of_not_lt {a b : Text} (h : ¬a < b) (hn : a ≠ b) : b < a := by
  apply Classical.byContradiction
  intro hb
  exact hn (List.le_antisymm (List.not_lt.1 hb) (List.not_lt.1 h))

theorem mem_insert {name : Text} {value : α} {table : Table α} {entry : Text × α}
    (h : entry ∈ insert name value table) : entry = (name, value) ∨ entry ∈ table := by
  induction table with
  | nil => simpa [insert] using h
  | cons first rest ih =>
    obtain ⟨key, old⟩ := first
    simp only [insert] at h
    split at h
    · simp only [List.mem_cons] at h ⊢
      rcases h with h | h <;> simp [h]
    · split at h
      · simp only [List.mem_cons] at h ⊢
        rcases h with h | h
        · simp [h]
        · rcases ih h with h | h <;> simp [h]
      · simpa using h

theorem ordered_insert {name : Text} {value : α} {table : Table α} (h : table.Ordered) :
    (insert name value table).Ordered := by
  induction table with
  | nil => simp [insert, Ordered]
  | cons first rest ih =>
    obtain ⟨key, old⟩ := first
    simp only [Ordered, List.pairwise_cons] at h
    simp only [insert]
    split
    · next hk =>
      subst hk
      simpa only [Ordered, List.pairwise_cons] using h
    · next hk =>
      split
      · next hl =>
        simp only [Ordered, List.pairwise_cons]
        refine ⟨fun entry he => ?_, ih h.2⟩
        rcases mem_insert he with rfl | he
        · exact hl
        · exact h.1 entry he
      · next hl =>
        have hn := lt_of_not_lt hl hk
        simp only [Ordered, List.pairwise_cons, List.mem_cons]
        refine ⟨?_, h⟩
        rintro entry (rfl | he)
        · exact hn
        · exact List.lt_trans hn (h.1 entry he)

theorem ordered_merge {below above : Table α} (h : below.Ordered) :
    (merge below above).Ordered := by
  induction above generalizing below with
  | nil => exact h
  | cons entry rest ih => exact ih (ordered_insert h)

end Table

-- A table together with its order, as it is read from a document and passed on.
structure Map (α : Type) where
  entries : Table α
  ordered : entries.Ordered

namespace Map

variable {α : Type}

def empty : Map α := ⟨[], List.Pairwise.nil⟩

def get? (name : Text) (map : Map α) : Option α :=
  map.entries.get? name

def size (map : Map α) : Nat :=
  map.entries.length

def insert (name : Text) (value : α) (map : Map α) : Map α :=
  ⟨map.entries.insert name value, Table.ordered_insert map.ordered⟩

def insertAll (pairs : List (Text × α)) (map : Map α) : Map α :=
  ⟨Table.merge map.entries pairs, Table.ordered_merge map.ordered⟩

-- The entries of both, those of `above` where both have a name.
def merge (below above : Map α) : Map α :=
  below.insertAll above.entries

def ofPairs (pairs : List (Text × α)) : Map α :=
  ⟨Table.ofPairs pairs, Table.ordered_merge List.Pairwise.nil⟩

end Map

end SqlPreview
