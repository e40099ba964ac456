/-!
# Tables keyed by name

A table binds each name at most once as far as a reader can tell, and keeps its entries in the
order in which their names were first bound. Binding a name again replaces its value in place.

## Main definitions

* `Offside.Table`: entries in order of first binding.
* `Offside.Table.get?`: the value bound to a name.
* `Offside.Table.insert`: bind a name, replacing an earlier value.
* `Offside.Table.merge`: bind every entry of another table.
* `Offside.Table.map`: replace every value.

## Main results

* `Offside.Table.get?_insert`: reading a table after one binding.
* `Offside.Table.get?_map`: reading a table whose values have been replaced.
-/

namespace Offside

/-- Values bound to names, in the order in which the names were first bound. -/
structure Table (α : Type) where
  entries : List (String × α)
  deriving DecidableEq, Repr

namespace Table

variable {α : Type}

/-- The table that binds nothing. -/
def empty : Table α := ⟨[]⟩

instance : Inhabited (Table α) := ⟨empty⟩

/-- The value bound to `name`. -/
def get? (table : Table α) (name : String) : Option α := find table.entries
where
  /-- The value of the first entry for `name`. -/
  find : List (String × α) → Option α
    | [] => none
    | (other, value) :: rest => if other = name then some value else find rest

/-- Whether `name` is bound. -/
def contains (table : Table α) (name : String) : Bool := (table.get? name).isSome

/-- The bound names, in order. -/
def names (table : Table α) : List String := table.entries.map (·.1)

/-- The number of entries. -/
def size (table : Table α) : Nat := table.entries.length

/-- Bind `name` to `value`, replacing an earlier value. -/
def insert (table : Table α) (name : String) (value : α) : Table α := ⟨place table.entries⟩
where
  /-- Replace the value of `name` where it stands, or add it at the end. -/
  place : List (String × α) → List (String × α)
    | [] => [(name, value)]
    | (other, old) :: rest =>
      if other = name then (name, value) :: rest else (other, old) :: place rest

/-- Bind every entry of `other`, in order. -/
def merge (table other : Table α) : Table α :=
  other.entries.foldl (fun acc entry => acc.insert entry.1 entry.2) table

/-- A table with the given entries, later ones replacing earlier ones of the same name. -/
def ofList (entries : List (String × α)) : Table α := empty.merge ⟨entries⟩

/-- A table with a function applied to its values. -/
def map {β : Type} (f : α → β) (table : Table α) : Table β :=
  ⟨table.entries.map fun entry => (entry.1, f entry.2)⟩

@[simp] theorem get?_empty (name : String) : (empty : Table α).get? name = none := rfl

theorem get?_insert (table : Table α) (name other : String) (value : α) :
    (table.insert name value).get? other = if name = other then some value else table.get? other := by
  obtain ⟨entries⟩ := table
  simp only [insert, get?]
  induction entries with
  | nil => rfl
  | cons entry rest ih =>
    obtain ⟨key, old⟩ := entry
    by_cases hk : key = name <;> by_cases h : name = other <;> grind [insert.place, get?.find]

@[simp] theorem get?_insert_self (table : Table α) (name : String) (value : α) :
    (table.insert name value).get? name = some value := by simp [get?_insert]

theorem get?_map {β : Type} (f : α → β) (table : Table α) (name : String) :
    (table.map f).get? name = (table.get? name).map f := by
  obtain ⟨entries⟩ := table
  simp only [map, get?]
  induction entries with
  | nil => rfl
  | cons entry entries ih =>
    rw [List.map_cons, get?.find, ih, get?.find]
    split <;> rfl

theorem insert_map {β : Type} (f : α → β) (table : Table α) (name : String) (value : α) :
    (table.map f).insert name (f value) = (table.insert name value).map f := by
  obtain ⟨entries⟩ := table
  simp only [map, insert, mk.injEq]
  induction entries with
  | nil => rfl
  | cons entry entries ih =>
    rw [insert.place, List.map_cons, insert.place, ih]
    split <;> rfl

@[simp] theorem merge_empty (table : Table α) : table.merge empty = table := rfl

end Table

end Offside
