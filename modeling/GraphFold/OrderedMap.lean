/-
GraphFold.OrderedMap — finite maps that remember the order in which their keys
came in.

Putting a value under a key that is there already keeps the key's place; a key
that was erased comes last when it is put again. No key ever occurs twice: a map
carries the proof, and each operation keeps it.
-/

namespace GraphFold

/-- A finite map as its entries, oldest key first. -/
@[ext] structure OrderedMap (K V : Type) where
  entries : List (K × V)
  /-- No key occurs twice. -/
  nodup : (entries.map (·.1)).Nodup

namespace OrderedMap

variable {K V : Type}

/-- The map without entries. -/
def empty : OrderedMap K V := ⟨[], List.nodup_nil⟩

/-- The map of one entry. -/
def singleton (key : K) (value : V) : OrderedMap K V :=
  ⟨[(key, value)], List.nodup_cons.2 ⟨List.not_mem_nil, List.nodup_nil⟩⟩

/-- The keys, oldest first. -/
def keys (m : OrderedMap K V) : List K := m.entries.map (·.1)

variable [DecidableEq K]

/-- The value under a key. -/
def find? (m : OrderedMap K V) (key : K) : Option V :=
  (m.entries.find? fun entry => entry.1 = key).map (·.2)

/-- Whether there is a value under a key. -/
def contains (m : OrderedMap K V) (key : K) : Bool := m.entries.any fun entry => entry.1 = key

/-- A map contains exactly its keys. -/
theorem contains_iff {m : OrderedMap K V} {key : K} : m.contains key = true ↔ key ∈ m.keys := by
  simp [contains, keys]

/-- The entries with another value under a key that is there. -/
def replaced (m : OrderedMap K V) (key : K) (value : V) : List (K × V) :=
  m.entries.map fun entry => if entry.1 = key then (key, value) else entry

/-- Replacing a value keeps the keys. -/
theorem keys_replaced (m : OrderedMap K V) (key : K) (value : V) :
    (m.replaced key value).map (·.1) = m.keys := by
  rw [replaced, List.map_map, keys]
  refine List.map_congr_left fun entry _ => ?_
  by_cases he : entry.1 = key
  · simp [he]
  · simp [he]

/-- A new key may come last. -/
theorem nodup_appended {m : OrderedMap K V} {key : K} (h : ¬ m.contains key = true) (value : V) :
    ((m.entries ++ [(key, value)]).map (·.1)).Nodup := by
  rw [List.map_append, List.nodup_append]
  refine ⟨m.nodup, List.nodup_cons.2 ⟨List.not_mem_nil, List.nodup_nil⟩, ?_⟩
  intro a ha b hb
  obtain rfl := List.mem_singleton.1 hb
  rintro rfl
  exact h (contains_iff.2 ha)

/-- Puts a value under a key: in the key's place if it has one, else at the end. -/
def insert (m : OrderedMap K V) (key : K) (value : V) : OrderedMap K V :=
  if h : m.contains key then
    ⟨m.replaced key value, (m.keys_replaced key value).symm ▸ m.nodup⟩
  else
    ⟨m.entries ++ [(key, value)], nodup_appended h value⟩

/-- Drops a key. -/
def erase (m : OrderedMap K V) (key : K) : OrderedMap K V :=
  ⟨m.entries.filter fun entry => entry.1 ≠ key, m.nodup.sublist (List.filter_sublist.map _)⟩

/-- Puts the pairs one after the other. -/
def insertAll (m : OrderedMap K V) (pairs : List (K × V)) : OrderedMap K V :=
  pairs.foldl (fun m pair => m.insert pair.1 pair.2) m

/-- The map built from pairs. -/
def ofList (pairs : List (K × V)) : OrderedMap K V := empty.insertAll pairs

/-- Whether two maps hold the same keys with values that agree, in whatever order. -/
def same (agree : V → V → Bool) (a b : OrderedMap K V) : Bool :=
  a.entries.length == b.entries.length
    && a.entries.all fun (key, value) =>
      match b.find? key with
      | some other => agree value other
      | none => false

end OrderedMap

end GraphFold
