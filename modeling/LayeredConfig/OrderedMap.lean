/-!
# Maps that keep the order of their keys

An `OrderedMap` lists its entries in the order in which their keys were first inserted.
Overwriting a key keeps its place, erasing one keeps the order of the others, and two maps are
equal when they list the same entries in the same order.
-/

namespace LayeredConfig

/-- A map from strings that remembers the order of its keys. -/
structure OrderedMap (α : Type u) where
  /-- The entries in order. Every operation keeps the keys distinct. -/
  toList : List (String × α)
deriving DecidableEq, Repr

namespace OrderedMap

/-- The map without entries. -/
def empty : OrderedMap α :=
  ⟨[]⟩

instance : EmptyCollection (OrderedMap α) := ⟨empty⟩

instance : Inhabited (OrderedMap α) := ⟨empty⟩

/-- Writes an entry into a list of entries: in place if its key is there, at the end if not. -/
def insertEntry (key : String) (value : α) : List (String × α) → List (String × α)
  | [] => [(key, value)]
  | (k, v) :: entries =>
    if k = key then (k, value) :: entries else (k, v) :: insertEntry key value entries

/-- Writes `value` at `key`. A key that is there already keeps its place. -/
def insert (map : OrderedMap α) (key : String) (value : α) : OrderedMap α :=
  ⟨insertEntry key value map.toList⟩

/-- The map that a list of entries fills, one after the other. -/
def ofList (entries : List (String × α)) : OrderedMap α :=
  entries.foldl (fun map (key, value) => map.insert key value) ∅

/-- The value at `key`. -/
def get? (map : OrderedMap α) (key : String) : Option α :=
  map.toList.lookup key

/-- Whether there is a value at `key`. -/
def contains (map : OrderedMap α) (key : String) : Bool :=
  (map.get? key).isSome

/-- Inserts `value` at the end unless there is a value at `key` already. -/
def insertIfNew (map : OrderedMap α) (key : String) (value : α) : OrderedMap α :=
  if map.contains key then map else map.insert key value

/-- Changes the value at `key`, if there is one. -/
def modify (map : OrderedMap α) (key : String) (f : α → α) : OrderedMap α :=
  ⟨map.toList.map fun (k, v) => if k = key then (k, f v) else (k, v)⟩

/-- Drops `key`. -/
def erase (map : OrderedMap α) (key : String) : OrderedMap α :=
  ⟨map.toList.filter fun (k, _) => k ≠ key⟩

/-- Changes every value, and drops the entries for which there is no new one. -/
def filterMap (map : OrderedMap α) (f : String → α → Option β) : OrderedMap β :=
  ⟨map.toList.filterMap fun (k, v) => (f k v).map (k, ·)⟩

/-- Changes every value. -/
def map (map : OrderedMap α) (f : α → β) : OrderedMap β :=
  ⟨map.toList.map fun (k, v) => (k, f v)⟩

/-- The keys in order. -/
def keys (map : OrderedMap α) : List String :=
  map.toList.map (·.1)

/-- The values in the order of their keys. -/
def values (map : OrderedMap α) : List α :=
  map.toList.map (·.2)

/-- The number of keys. -/
def size (map : OrderedMap α) : Nat :=
  map.toList.length

/-- Whether there are no keys. -/
def isEmpty (map : OrderedMap α) : Bool :=
  map.toList.isEmpty

/-- Whether two maps list equal entries in the same order. -/
def beq [BEq α] (map map' : OrderedMap α) : Bool :=
  map.size == map'.size && (map.toList.zip map'.toList).all fun (entry, entry') => entry == entry'

end OrderedMap

end LayeredConfig
