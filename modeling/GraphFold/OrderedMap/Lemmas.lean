/-
GraphFold.OrderedMap.Lemmas — what each operation on an ordered map does to its
keys and to the value under a key.

  §1 Keys    — putting a known key keeps the keys, putting a new one adds it at
               the end, erasing filters it out.
  §2 Entries — what is found under a key is the value of its one entry; the
               entries of a map give the map again.
  §3 Values  — the value under the key put is the one put; under any other key
               nothing changes.
-/
import GraphFold.OrderedMap

namespace GraphFold.OrderedMap

variable {K V : Type} [DecidableEq K]

/-! ## §1 Keys -/

theorem entries_insert_of_mem {m : OrderedMap K V} {key : K} (h : key ∈ m.keys) (value : V) :
    (m.insert key value).entries = m.replaced key value := by
  rw [insert, dif_pos (contains_iff.2 h)]

/-- A new key comes last, with its value. -/
theorem entries_insert_of_not_mem {m : OrderedMap K V} {key : K} (h : key ∉ m.keys) (value : V) :
    (m.insert key value).entries = m.entries ++ [(key, value)] := by
  rw [insert, dif_neg fun hc => h (contains_iff.1 hc)]

/-- Putting a value under a known key keeps the keys and their order. -/
theorem keys_insert_of_mem {m : OrderedMap K V} {key : K} (h : key ∈ m.keys) (value : V) :
    (m.insert key value).keys = m.keys := by
  rw [keys, entries_insert_of_mem h, keys_replaced]

/-- A new key comes last. -/
theorem keys_insert_of_not_mem {m : OrderedMap K V} {key : K} (h : key ∉ m.keys) (value : V) :
    (m.insert key value).keys = m.keys ++ [key] := by
  rw [keys, entries_insert_of_not_mem h]
  simp [keys]

/-- The keys after a value was put under one. -/
theorem mem_keys_insert {m : OrderedMap K V} {key other : K} {value : V} :
    other ∈ (m.insert key value).keys ↔ other = key ∨ other ∈ m.keys := by
  by_cases h : key ∈ m.keys
  · rw [keys_insert_of_mem h]
    constructor
    · exact Or.inr
    · rintro (rfl | ho)
      · exact h
      · exact ho
  · rw [keys_insert_of_not_mem h]
    simp [or_comm]

/-- Erasing takes the key out and keeps the order of the others. -/
theorem keys_erase (m : OrderedMap K V) (key : K) :
    (m.erase key).keys = m.keys.filter (· ≠ key) := by
  simp [erase, keys, List.filter_map, Function.comp_def]

/-- The keys after pairs were put. -/
theorem mem_keys_insertAll {m : OrderedMap K V} {pairs : List (K × V)} {key : K} :
    key ∈ (m.insertAll pairs).keys ↔ key ∈ m.keys ∨ key ∈ pairs.map (·.1) := by
  induction pairs generalizing m with
  | nil => simp [insertAll]
  | cons pair later ih =>
    rw [insertAll, List.foldl_cons, ← insertAll, ih, mem_keys_insert, List.map_cons,
      List.mem_cons, or_assoc, or_left_comm]

/-- The keys of a map built from pairs are the first parts of these. -/
theorem mem_keys_ofList {pairs : List (K × V)} {key : K} :
    key ∈ (ofList pairs).keys ↔ key ∈ pairs.map (·.1) :=
  mem_keys_insertAll.trans (or_iff_right List.not_mem_nil)

/-! ## §2 Entries -/

/-- A key has no value exactly when the map does not hold it. -/
theorem find?_eq_none_iff {m : OrderedMap K V} {key : K} : m.find? key = none ↔ key ∉ m.keys := by
  rw [find?, Option.map_eq_none_iff, List.find?_eq_none, keys, List.mem_map]
  constructor
  · rintro h ⟨entry, hentry, he⟩
    exact h entry hentry (decide_eq_true he)
  · intro h entry hentry he
    exact h ⟨entry, hentry, of_decide_eq_true he⟩

/-- What is found under a key is the value of an entry. -/
theorem mem_of_find? {m : OrderedMap K V} {key : K} {value : V} (h : m.find? key = some value) :
    (key, value) ∈ m.entries := by
  obtain ⟨entry, hentry, rfl⟩ := Option.map_eq_some_iff.1 h
  have hkey : entry.1 = key := by simpa using List.find?_some hentry
  rw [← hkey]
  exact List.mem_of_find?_eq_some hentry

/-- The value of an entry is found under its key. -/
theorem find?_of_mem {m : OrderedMap K V} {key : K} {value : V}
    (hmem : (key, value) ∈ m.entries) : m.find? key = some value := by
  obtain ⟨entries, hnodup⟩ := m
  simp only [find?] at hmem ⊢
  induction entries with
  | nil => cases hmem
  | cons entry later ih =>
    obtain ⟨hnew, hlater⟩ := List.nodup_cons.1 hnodup
    rcases List.mem_cons.1 hmem with rfl | hmem
    · simp
    · have hne : entry.1 ≠ key := by
        rintro rfl
        exact hnew (List.mem_map.2 ⟨_, hmem, rfl⟩)
      simpa [hne] using ih hlater hmem

/-- A map is what is found under its keys. -/
theorem find?_eq_some_iff {m : OrderedMap K V} {key : K} {value : V} :
    m.find? key = some value ↔ (key, value) ∈ m.entries :=
  ⟨mem_of_find?, find?_of_mem⟩

theorem mem_entries_of_mem_insert {m : OrderedMap K V} {key : K} {value : V} {entry : K × V}
    (h : entry ∈ (m.insert key value).entries) : entry = (key, value) ∨ entry ∈ m.entries := by
  by_cases hk : key ∈ m.keys
  · rw [entries_insert_of_mem hk] at h
    obtain ⟨old, hold, rfl⟩ := List.mem_map.1 h
    by_cases hold' : old.1 = key
    · exact .inl (if_pos hold')
    · rw [if_neg hold']
      exact .inr hold
  · rw [entries_insert_of_not_mem hk] at h
    rcases List.mem_append.1 h with h | h
    · exact .inr h
    · exact .inl (List.mem_singleton.1 h)

theorem ofList_append (pairs later : List (K × V)) :
    ofList (pairs ++ later) = (ofList pairs).insertAll later :=
  List.foldl_append

/-- The entries of a map built from pairs are among these. -/
theorem mem_of_mem_entries_ofList {pairs : List (K × V)} {entry : K × V}
    (h : entry ∈ (ofList pairs).entries) : entry ∈ pairs := by
  refine List.foldlRecOn (motive := fun m : OrderedMap K V => entry ∈ m.entries → entry ∈ pairs)
    pairs _ (fun h => by cases h) (fun m ih pair hpair h => ?_) h
  rcases mem_entries_of_mem_insert h with rfl | h
  · exact hpair
  · exact ih h

/-- Pairs with distinct new keys come last, as they are. -/
theorem entries_insertAll {m : OrderedMap K V} {pairs : List (K × V)}
    (h : ((m.entries ++ pairs).map (·.1)).Nodup) :
    (m.insertAll pairs).entries = m.entries ++ pairs := by
  induction pairs generalizing m with
  | nil => exact (List.append_nil _).symm
  | cons pair later ih =>
    have hnew : pair.1 ∉ m.keys := by
      rw [List.map_append, List.nodup_append] at h
      exact fun hmem => h.2.2 _ hmem _ (List.mem_cons_self ..) rfl
    have hentries := entries_insert_of_not_mem hnew pair.2
    rw [insertAll, List.foldl_cons, ← insertAll, ih, hentries, List.append_assoc]
    · rfl
    · rwa [hentries, List.append_assoc]

/-- Putting the entries of a map one after the other gives the map. -/
theorem ofList_entries (m : OrderedMap K V) : ofList m.entries = m :=
  OrderedMap.ext (entries_insertAll (m := empty) m.nodup)

/-! ## §3 Values -/

/-- A map of one entry has a value under one key. -/
@[simp] theorem find?_singleton (key other : K) (value : V) :
    (singleton key value).find? other = if key = other then some value else none := by
  by_cases h : key = other <;> simp [singleton, find?, h]

/-- The value put is found under its key. -/
@[simp] theorem find?_insert_self (m : OrderedMap K V) (key : K) (value : V) :
    (m.insert key value).find? key = some value := by
  refine find?_of_mem ?_
  by_cases h : key ∈ m.keys
  · rw [entries_insert_of_mem h]
    obtain ⟨entry, hentry, rfl⟩ := List.mem_map.1 h
    exact List.mem_map.2 ⟨entry, hentry, if_pos rfl⟩
  · rw [entries_insert_of_not_mem h]
    exact List.mem_append_right _ (List.mem_singleton.2 rfl)

/-- Another key has the entry it had. -/
theorem mem_entries_insert_of_ne {m : OrderedMap K V} {key other : K} {value value' : V}
    (hne : other ≠ key) :
    (other, value') ∈ (m.insert key value).entries ↔ (other, value') ∈ m.entries := by
  constructor
  · intro h
    rcases mem_entries_of_mem_insert h with heq | h
    · exact absurd (congrArg Prod.fst heq) hne
    · exact h
  · intro h
    by_cases hk : key ∈ m.keys
    · rw [entries_insert_of_mem hk]
      exact List.mem_map.2 ⟨_, h, if_neg hne⟩
    · rw [entries_insert_of_not_mem hk]
      exact List.mem_append_left _ h

/-- Putting a value under one key leaves what is found under another. -/
theorem find?_insert_of_ne (m : OrderedMap K V) {key other : K} (value : V) (hne : other ≠ key) :
    (m.insert key value).find? other = m.find? other := by
  ext value'
  rw [find?_eq_some_iff, find?_eq_some_iff, mem_entries_insert_of_ne hne]

/-- Nothing is found under a key that was erased. -/
@[simp] theorem find?_erase_self (m : OrderedMap K V) (key : K) : (m.erase key).find? key = none := by
  rw [find?_eq_none_iff, keys_erase]
  simp

/-- Erasing one key leaves what is found under another. -/
theorem find?_erase_of_ne (m : OrderedMap K V) {key other : K} (hne : other ≠ key) :
    (m.erase key).find? other = m.find? other := by
  ext value
  rw [find?_eq_some_iff, find?_eq_some_iff]
  simp [erase, hne]

/-- A map is the same as itself if its values agree with themselves. -/
theorem same_self {agree : V → V → Bool} (h : ∀ value, agree value value = true)
    (m : OrderedMap K V) : m.same agree m = true := by
  refine Bool.and_eq_true_iff.2 ⟨beq_self_eq_true _, List.all_eq_true.2 ?_⟩
  rintro ⟨key, value⟩ hentry
  simp only [find?_of_mem hentry]
  exact h value

end GraphFold.OrderedMap
