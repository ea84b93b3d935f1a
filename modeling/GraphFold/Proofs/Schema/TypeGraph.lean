/-
GraphFold.Proofs.Schema.TypeGraph — the graph of the types of a schema.

A type leads to the types of its fields. In a schema that was built from
definitions a name resolves to a type of that name, and the fields of an object
type carry its name (`WellNamed`), so the graph between names and the graph
between definitions are one.

  §1 Names       — what a name resolves to.
  §2 Types       — `Schema.Leads`, `Schema.Reaches`.
  §3 Definitions — types and fields as the nodes of a walk.
-/
import GraphFold.OrderedMap.Lemmas
import GraphFold.Proofs.Value.Codes
import GraphFold.Schema
import Mathlib.Logic.Relation

namespace GraphFold

/-- The name of the type a definition belongs to. -/
def Value.home : Value → String
  | .scalarType name => name
  | .objectType t => t.name
  | .field f => f.owner
  | _ => ""

namespace Schema

/-! ## §1 Names -/

/-- The type under a name has that name: a scalar type, or an object type with its fields. -/
def WellNamed (s : Schema) : Prop :=
  ∀ name type, s.types.find? name = some type →
    type = .scalarType name ∨ ∃ fields, type = .objectType (.ofFields name fields)

theorem WellNamed.insert {s : Schema} (h : s.WellNamed) {name : String} {type : Value}
    (htype : type = .scalarType name ∨ ∃ fields, type = .objectType (.ofFields name fields)) :
    WellNamed ⟨s.types.insert name type⟩ := by
  intro other found hfound
  by_cases heq : other = name
  · subst heq
    rw [OrderedMap.find?_insert_self] at hfound
    cases hfound
    exact htype
  · rw [OrderedMap.find?_insert_of_ne _ _ heq] at hfound
    exact h other found hfound

/-- The scalar types of a schema are well-named. -/
theorem wellNamed_scalars (scalars : List String) :
    WellNamed ⟨.ofList (scalars.map fun name => (name, .scalarType name))⟩ := by
  intro name type h
  have hentry := OrderedMap.mem_of_mem_entries_ofList (OrderedMap.mem_of_find? h)
  obtain ⟨scalar, _, heq⟩ := List.mem_map.1 hentry
  cases heq
  exact .inl rfl

theorem WellNamed.addObjects {s t : Schema}
    {objects : List (String × OrderedMap String String)} (h : s.WellNamed)
    (ht : addObjects s objects = .ok t) : t.WellNamed := by
  induction objects generalizing s with
  | nil =>
    cases ht
    exact h
  | cons object later ih =>
    obtain ⟨name, fields⟩ := object
    unfold Schema.addObjects at ht
    split at ht
    · cases ht
    · exact ih (h.insert (.inr ⟨fields, rfl⟩)) ht

theorem wellNamed_of_ofDefinitions? {objects : OrderedMap String (OrderedMap String String)}
    {scalars : List String} {s : Schema} (h : ofDefinitions? objects scalars = .ok s) :
    s.WellNamed :=
  (wellNamed_scalars scalars).addObjects h

/-- A name that resolves has the type that was put under it. -/
theorem find?_of_resolve {s : Schema} {name : String} {type : Value}
    (h : s.resolve name = .ok type) : s.types.find? name = some type := by
  unfold resolve at h
  split at h
  · cases h
  · cases h
  · rename_i type' hfound
    cases h
    exact hfound

theorem WellNamed.resolve {s : Schema} (hs : s.WellNamed) {name : String} {type : Value}
    (h : s.resolve name = .ok type) :
    type = .scalarType name ∨ ∃ fields, type = .objectType (.ofFields name fields) :=
  hs name type (find?_of_resolve h)

/-- The name of an object type that a name resolves to, and the owner of its fields. -/
theorem WellNamed.objectType {s : Schema} (hs : s.WellNamed) {name : String} {t : ObjectType}
    (h : s.resolve name = .ok (.objectType t)) :
    t.name = name ∧ ∀ f ∈ t.fields, f.owner = name := by
  rcases hs.resolve h with heq | ⟨fields, heq⟩
  · cases heq
  · cases heq
    refine ⟨rfl, fun f hf => ?_⟩
    obtain ⟨entry, _, rfl⟩ := List.mem_map.1 hf
    rfl

/-! ## §2 Types -/

/-- The field is one of the object type that owns it. -/
def HasField (s : Schema) (f : FieldDefinition) : Prop :=
  ∃ t, s.resolve f.owner = .ok (.objectType t) ∧ f ∈ t.fields

/-- A field of the first type has the second type. -/
def Leads (s : Schema) (a b : String) : Prop := ∃ f, s.HasField f ∧ f.owner = a ∧ f.typeName = b

/-- The second type is reached from the first through fields, or is the same. -/
def Reaches (s : Schema) : String → String → Prop := Relation.ReflTransGen s.Leads

/-- The same for fields that are not among these. -/
def LeadsWithout (s : Schema) (cut : List FieldDefinition) (a b : String) : Prop :=
  ∃ f, s.HasField f ∧ f ∉ cut ∧ f.owner = a ∧ f.typeName = b

/-- These names resolve, and the types of their fields are among them. -/
def closes (s : Schema) (names : List String) : Bool :=
  names.all fun name =>
    match s.resolve name with
    | .ok (.objectType t) => t.fields.all fun f => names.contains f.typeName
    | .ok _ => true
    | .error _ => false

/-- Whatever is reached from such a name resolves. -/
theorem exists_resolve_of_closes (s : Schema) (names : List String) {root : String}
    (h : s.closes names = true) (hroot : root ∈ names) :
    ∀ a, s.Reaches root a → ∃ type, s.resolve a = .ok type := by
  have hnames := List.all_eq_true.1 h
  have hmem : ∀ a, s.Reaches root a → a ∈ names := by
    intro a ha
    induction ha with
    | refl => exact hroot
    | tail _ hleads ih =>
      obtain ⟨f, ⟨t, ht, hf⟩, rfl, rfl⟩ := hleads
      have hfields := hnames _ ih
      rw [ht] at hfields
      exact List.contains_iff_mem.1 (List.all_eq_true.1 hfields f hf)
  intro a ha
  have hresolves := hnames a (hmem a ha)
  cases htype : s.resolve a with
  | ok type => exact ⟨type, rfl⟩
  | error e =>
    rw [htype] at hresolves
    cases hresolves

/-! ## §3 Definitions -/

/-- The children of a definition: the fields of an object type, the type of a field. -/
def kids (s : Schema) : Value → List Value
  | .objectType t => t.fields.map .field
  | .field f =>
    match s.resolve f.typeName with
    | .ok type => [type]
    | .error _ => []
  | _ => []

@[simp] theorem mem_kids_field {s : Schema} {f : FieldDefinition} {v : Value} :
    v ∈ s.kids (.field f) ↔ s.resolve f.typeName = .ok v := by
  unfold kids
  cases h : s.resolve f.typeName with
  | ok type => simp [h, eq_comm]
  | error e => simp [h]

@[simp] theorem mem_kids_objectType {s : Schema} {t : ObjectType} {v : Value} :
    v ∈ s.kids (.objectType t) ↔ ∃ f ∈ t.fields, .field f = v := List.mem_map

/-- The definitions that are reached from a type: types, and fields of types. -/
def IsNode (s : Schema) (root : String) : Value → Prop
  | .field f => s.HasField f ∧ s.Reaches root f.owner
  | type => ∃ name, s.Reaches root name ∧ s.resolve name = .ok type

/-- All types of a schema, each with its fields. -/
def definitions (s : Schema) : List Value :=
  s.types.entries.flatMap fun entry => entry.2 :: s.kids entry.2

variable {s : Schema} {root name : String} {type : Value}

theorem WellNamed.isDefinition (hs : s.WellNamed) (h : s.resolve name = .ok type) :
    type.IsDefinition := by
  rcases hs.resolve h with rfl | ⟨fields, rfl⟩ <;> trivial

/-- A type that is reached is a node. -/
theorem WellNamed.isNode (hs : s.WellNamed) (hname : s.Reaches root name)
    (h : s.resolve name = .ok type) : s.IsNode root type := by
  rcases hs.resolve h with rfl | ⟨fields, rfl⟩ <;> exact ⟨name, hname, h⟩

/-- A node is a field of a type that is reached, or a type that is reached. -/
theorem IsNode.cases {v : Value} (h : s.IsNode root v) :
    (∃ f, v = .field f ∧ s.HasField f ∧ s.Reaches root f.owner) ∨
      ∃ name, s.Reaches root name ∧ s.resolve name = .ok v := by
  cases v with
  | field f => exact .inl ⟨f, rfl, h⟩
  | _ => exact .inr h

theorem IsNode.isDefinition (hs : s.WellNamed) {v : Value} (h : s.IsNode root v) :
    v.IsDefinition := by
  rcases h.cases with ⟨f, rfl, _⟩ | ⟨name, _, hname⟩
  · trivial
  · exact hs.isDefinition hname

/-- Children of nodes are nodes. -/
theorem IsNode.of_mem_kids (hs : s.WellNamed) {v w : Value} (h : s.IsNode root v)
    (hw : w ∈ s.kids v) : s.IsNode root w := by
  rcases h.cases with ⟨f, rfl, hfield, hreach⟩ | ⟨name, hreach, hname⟩
  · exact hs.isNode (hreach.tail ⟨f, hfield, rfl, rfl⟩) (mem_kids_field.1 hw)
  · rcases hs.resolve hname with rfl | ⟨fields, rfl⟩
    · cases hw
    · obtain ⟨f, hf, rfl⟩ := mem_kids_objectType.1 hw
      have howner := (hs.objectType hname).2 f hf
      exact ⟨⟨_, by rw [howner]; exact hname, hf⟩, by rw [howner]; exact hreach⟩

/-- A type belongs to itself. -/
theorem WellNamed.home_eq (hs : s.WellNamed) (h : s.resolve name = .ok type) :
    type.home = name := by
  rcases hs.resolve h with rfl | ⟨fields, rfl⟩ <;> rfl

/-- Along children the types lead on. -/
theorem IsNode.reaches_home (hs : s.WellNamed) {v w : Value} (h : s.IsNode root v)
    (hw : w ∈ s.kids v) : s.Reaches v.home w.home := by
  rcases h.cases with ⟨f, rfl, hfield, _⟩ | ⟨name, _, hname⟩
  · have htype := mem_kids_field.1 hw
    rw [hs.home_eq htype]
    exact .single ⟨f, hfield, rfl, rfl⟩
  · rcases hs.resolve hname with rfl | ⟨fields, rfl⟩
    · cases hw
    · obtain ⟨f, hf, rfl⟩ := mem_kids_objectType.1 hw
      have howner : f.owner = name := (hs.objectType hname).2 f hf
      show s.Reaches name f.owner
      rw [howner]
      exact .refl

theorem IsNode.reaches_of_reflTransGen (hs : s.WellNamed) {v w : Value} (hv : s.IsNode root v)
    (h : Relation.ReflTransGen (fun a b => b ∈ s.kids a) v w) :
    s.IsNode root w ∧ s.Reaches v.home w.home := by
  induction h with
  | refl => exact ⟨hv, .refl⟩
  | tail _ hkid ih => exact ⟨ih.1.of_mem_kids hs hkid, ih.2.trans (ih.1.reaches_home hs hkid)⟩

/-- A type is not a field. -/
theorem WellNamed.ne_field (hs : s.WellNamed) (h : s.resolve name = .ok type)
    (f : FieldDefinition) : type ≠ .field f := by
  rcases hs.resolve h with rfl | ⟨fields, rfl⟩ <;> exact Value.noConfusion

/-- Only its owner has a field. -/
theorem IsNode.resolve_owner (hs : s.WellNamed) {v : Value} (hv : s.IsNode root v)
    {f : FieldDefinition} (hf : .field f ∈ s.kids v) : s.resolve f.owner = .ok v := by
  rcases hv.cases with ⟨f', rfl, _⟩ | ⟨name, _, hname⟩
  · exact absurd rfl (hs.ne_field (mem_kids_field.1 hf) f)
  · rcases hs.resolve hname with rfl | ⟨fields, rfl⟩
    · cases hf
    · obtain ⟨f', hf', heq⟩ := mem_kids_objectType.1 hf
      cases heq
      rw [(hs.objectType hname).2 f hf']
      exact hname

/-- A type that a name resolves to is one of the definitions, and so are its fields. -/
theorem mem_definitions (h : s.resolve name = .ok type) :
    type ∈ s.definitions ∧ ∀ v ∈ s.kids type, v ∈ s.definitions := by
  have hmem := OrderedMap.mem_of_find? (find?_of_resolve h)
  exact ⟨List.mem_flatMap.2 ⟨_, hmem, List.mem_cons_self ..⟩,
    fun v hv => List.mem_flatMap.2 ⟨_, hmem, List.mem_cons_of_mem _ hv⟩⟩

/-- There are only finitely many nodes. -/
theorem IsNode.mem_definitions {v : Value} (h : s.IsNode root v) : v ∈ s.definitions := by
  rcases h.cases with ⟨f, rfl, ⟨t, ht, hf⟩, _⟩ | ⟨name, _, hname⟩
  · exact (Schema.mem_definitions ht).2 _ (mem_kids_objectType.2 ⟨f, hf, rfl⟩)
  · exact (Schema.mem_definitions hname).1

end Schema

end GraphFold
