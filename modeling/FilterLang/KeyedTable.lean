/-! Finite tables from texts to values, kept in the order of their keys. -/

namespace FilterLang

/-- A table from texts to values, in strictly ascending order of the keys. -/
structure KeyedTable (α : Type) where
  entries : List (String × α)
  ascending : entries.Pairwise fun left right => left.1 < right.1
deriving DecidableEq, Repr

namespace KeyedTable

variable {α : Type}

/-- The table without entries. -/
def empty : KeyedTable α :=
  ⟨[], .nil⟩

instance : Inhabited (KeyedTable α) := ⟨empty⟩

/-- The value of a key. -/
def get? (table : KeyedTable α) (key : String) : Option α :=
  (table.entries.find? (·.1 == key)).map (·.2)

/-- Entries with a key put in its place, over an earlier value of it. -/
def insertEntry (key : String) (value : α) : List (String × α) → List (String × α)
  | [] => [(key, value)]
  | (other, kept) :: rest =>
    if key < other then (key, value) :: (other, kept) :: rest
    else if other < key then (other, kept) :: insertEntry key value rest
    -- Neither key is below the other, so they are the same.
    else (key, value) :: rest

/-- An entry after an insertion is the new one or was there before. -/
theorem mem_insertEntry {key : String} {value : α} {entries : List (String × α)}
    {entry : String × α} (found : entry ∈ insertEntry key value entries) :
    entry = (key, value) ∨ entry ∈ entries := by
  -- The insertion walks past smaller keys and then stops, so each step keeps or adds one entry.
  induction entries with
  | nil => simpa [insertEntry] using found
  | cons head rest ih =>
    obtain ⟨other, kept⟩ := head
    simp only [insertEntry] at found
    split at found
    · simpa using found
    · split at found
      · rcases List.mem_cons.mp found with here | later
        · simp [here]
        · rcases ih later with new | old
          · exact .inl new
          · simp [old]
      · rcases List.mem_cons.mp found with here | later
        · exact .inl here
        · simp [later]

/-- Inserting a key keeps the entries in ascending order. -/
theorem insertEntry_ascending (key : String) (value : α) {entries : List (String × α)}
    (ascending : entries.Pairwise fun left right => left.1 < right.1) :
    (insertEntry key value entries).Pairwise fun left right => left.1 < right.1 := by
  -- A new first key lies below the old first key, and an equal one takes its place.
  induction entries with
  | nil => simp [insertEntry]
  | cons head rest ih =>
    obtain ⟨other, kept⟩ := head
    obtain ⟨above, tail⟩ := List.pairwise_cons.mp ascending
    simp only [insertEntry]
    split
    · rename_i below
      refine List.pairwise_cons.mpr ⟨fun entry member => ?_, ascending⟩
      rcases List.mem_cons.mp member with here | later
      · simpa [here] using below
      · exact String.lt_trans below (above entry later)
    · split
      · rename_i below
        refine List.pairwise_cons.mpr ⟨fun entry member => ?_, ih tail⟩
        rcases mem_insertEntry member with new | old
        · simpa [new] using below
        · exact above entry old
      · rename_i notBelow notAbove
        have same : key = other :=
          String.le_antisymm (String.not_lt.mp notAbove) (String.not_lt.mp notBelow)
        exact List.pairwise_cons.mpr ⟨fun entry member => same ▸ above entry member, tail⟩

/-- A table with a key's value set. -/
def insert (table : KeyedTable α) (key : String) (value : α) : KeyedTable α :=
  ⟨insertEntry key value table.entries, insertEntry_ascending key value table.ascending⟩

/-- The table of a list of entries, in which a later value of a key replaces an earlier one. -/
def ofList (entries : List (String × α)) : KeyedTable α :=
  entries.foldl (fun table entry => table.insert entry.1 entry.2) empty

end KeyedTable

end FilterLang
