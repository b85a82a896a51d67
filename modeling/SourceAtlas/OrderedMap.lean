/-! # Insertion-ordered maps

The keys of a map are in the order in which they first came in; a key that is set again keeps its
place and takes the new value.
-/

namespace SourceAtlas

structure OrderedMap (κ α : Type) where
  entries : List (κ × α)
deriving DecidableEq, Repr

namespace OrderedMap

variable {κ α : Type}

def empty : OrderedMap κ α := ⟨[]⟩

def keys (map : OrderedMap κ α) : List κ :=
  map.entries.map (·.1)

def values (map : OrderedMap κ α) : List α :=
  map.entries.map (·.2)

def size (map : OrderedMap κ α) : Nat :=
  map.entries.length

variable [BEq κ]

def get? (map : OrderedMap κ α) (key : κ) : Option α :=
  List.lookup key map.entries

def contains (map : OrderedMap κ α) (key : κ) : Bool :=
  (map.get? key).isSome

def insertEntry (key : κ) (value : α) : List (κ × α) → List (κ × α)
  | [] => [(key, value)]
  | (other, old) :: rest =>
    if key == other then (other, value) :: rest else (other, old) :: insertEntry key value rest

def insert (map : OrderedMap κ α) (key : κ) (value : α) : OrderedMap κ α :=
  ⟨insertEntry key value map.entries⟩

/-- Sets every key of another map, in its order. -/
def merge (map other : OrderedMap κ α) : OrderedMap κ α :=
  other.entries.foldl (fun map (key, value) => map.insert key value) map

def ofList (entries : List (κ × α)) : OrderedMap κ α :=
  empty.merge ⟨entries⟩

section Lawful

variable [LawfulBEq κ]

theorem lookup_insertEntry (key other : κ) (value : α) (entries : List (κ × α)) :
    List.lookup other (insertEntry key value entries) =
      if other == key then some value else List.lookup other entries := by
  induction entries with
  | nil => cases h : other == key <;> simp [insertEntry, List.lookup_cons, h]
  | cons entry rest ih =>
    obtain ⟨first, old⟩ := entry
    by_cases hk : key = first
    · subst hk
      cases h : other == key <;> simp [insertEntry, List.lookup_cons, h]
    · have hne : (key == first) = false := by simpa using hk
      by_cases ho : other = first
      · subst ho
        have : (other == key) = false := by simpa using Ne.symm hk
        simp [insertEntry, hne, this]
      · have : (other == first) = false := by simpa using ho
        simp [insertEntry, List.lookup_cons, hne, this, ih]

/-- Setting a key changes what is found under it and nothing else. -/
theorem get?_insert (map : OrderedMap κ α) (key other : κ) (value : α) :
    (map.insert key value).get? other = if other == key then some value else map.get? other :=
  lookup_insertEntry key other value map.entries

theorem map_fst_insertEntry (key : κ) (value : α) (entries : List (κ × α)) :
    (insertEntry key value entries).map (·.1) =
      if key ∈ entries.map (·.1) then entries.map (·.1) else entries.map (·.1) ++ [key] := by
  induction entries with
  | nil => simp [insertEntry]
  | cons entry rest ih =>
    obtain ⟨first, old⟩ := entry
    by_cases hk : key = first
    · subst hk
      simp [insertEntry]
    · have hne : (key == first) = false := by simpa using hk
      simp only [insertEntry, hne, Bool.false_eq_true, ↓reduceIte, List.map_cons, List.mem_cons, hk,
        false_or, ih]
      split <;> rfl

/-- A key that is set again keeps its place, and a new one comes last. -/
theorem keys_insert (map : OrderedMap κ α) (key : κ) (value : α) :
    (map.insert key value).keys = if key ∈ map.keys then map.keys else map.keys ++ [key] :=
  map_fst_insertEntry key value map.entries

end Lawful

end OrderedMap

end SourceAtlas
