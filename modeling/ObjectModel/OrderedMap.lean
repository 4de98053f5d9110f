import Std.Data.TreeMap

/-!
# Ordered mappings

A mapping from text to values that enumerates its keys in the order in which they arrived. Attribute
maps, global names, local names and the storage of `dict` are all ordered mappings.

* The entries stand in one array, in order of arrival.
* A tree map sends each key to the position of its entry, so a lookup does not scan the entries.
* Overwriting a key keeps its position; removing one closes the gap and renumbers the entries behind
  it.

`OrderedMap.Coherent` says that the two parts agree: the index knows exactly the keys of the
entries, each at its own position.
-/

namespace ObjectModel

/-- Entries in order of arrival, with the position of every key. -/
structure OrderedMap (α : Type) where
  entries : Array (String × α)
  index : Std.TreeMap String Nat

namespace OrderedMap

variable {α : Type}

/-! ## 1. Reading -/

/-- The mapping without entries. -/
def empty : OrderedMap α := ⟨#[], {}⟩

instance : EmptyCollection (OrderedMap α) := ⟨empty⟩

instance : Inhabited (OrderedMap α) := ⟨empty⟩

/-- Number of keys. -/
def size (m : OrderedMap α) : Nat := m.entries.size

def isEmpty (m : OrderedMap α) : Bool := m.entries.isEmpty

/-- The value stored under `key`. -/
def get? (m : OrderedMap α) (key : String) : Option α := do
  let position ← m.index[key]?
  let entry ← m.entries[position]?
  return entry.2

def contains (m : OrderedMap α) (key : String) : Bool := m.index.contains key

/-- The entries in order of arrival. -/
def toList (m : OrderedMap α) : List (String × α) := m.entries.toList

def keys (m : OrderedMap α) : List String := m.toList.map (·.1)

def values (m : OrderedMap α) : List α := m.toList.map (·.2)

/-! ## 2. Writing -/

/-- Stores `value` under `key`: in place if the key is known, else behind all other entries. -/
def insert (m : OrderedMap α) (key : String) (value : α) : OrderedMap α :=
  match m.index[key]? with
  | some position => { m with entries := m.entries.modify position fun entry => (entry.1, value) }
  | none => { entries := m.entries.push (key, value), index := m.index.insert key m.entries.size }

/-- Writes the positions of the keys from `start` on into `index`. -/
def renumber (entries : Array (String × α)) (start : Nat) (index : Std.TreeMap String Nat) :
    Std.TreeMap String Nat :=
  (entries.toList.zipIdx.drop start).foldl
    (fun positions entry => positions.insert entry.1.1 entry.2) index

/-- Removes `key`, keeping the order of the other entries. -/
def erase (m : OrderedMap α) (key : String) : OrderedMap α :=
  match m.index[key]? with
  | none => m
  | some position =>
    let remaining := m.entries.eraseIdxIfInBounds position
    { entries := remaining, index := renumber remaining position (m.index.erase key) }

/-- Inserts the pairs one after another into the empty mapping. -/
def ofList (pairs : List (String × α)) : OrderedMap α :=
  pairs.foldl (fun m pair => m.insert pair.1 pair.2) empty

/-! ## 3. Agreement of entries and index -/

/-- Entries and index agree: a key is indexed at `i` exactly if the entry at `i` carries it. -/
def Coherent (m : OrderedMap α) : Prop :=
  ∀ (key : String) (i : Nat), m.index[key]? = some i ↔ ∃ value, m.entries[i]? = some (key, value)

end OrderedMap

end ObjectModel
