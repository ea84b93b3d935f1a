/-
GraphFold.Proofs.Schema.Definitions — a schema made of definitions.

Object types are added one by one to a schema that holds the scalar types and the
object types before. No object type is defined twice, so only a scalar type can
have taken its name: the first such name is reported, and without one each object
type comes last in its turn (`Schema.addObjects_append`). The types of the schema
have one name each; hence nothing in it occurs twice, neither a type nor a field,
and the definitions can be read back.

  §1 Building    — what is added, and what is reported.
  §2 Lookup      — the type under a name.
  §3 Nodes       — types and fields are told apart.
  §4 Back        — `Schema.objectDefinitions`.
  §5 Sessions    — the schema is kept, reported and found again.
  §6 Definitions — `Schema.definitions_one_to_one`.
-/
import GraphFold.Proofs.Schema.TypeGraph
import GraphFold.Session
import Mathlib.Data.List.Basic

namespace GraphFold.Schema

/-- Fields with their types, by object type. -/
abbrev ObjectDefinitions : Type := OrderedMap String (OrderedMap String String)

variable {s : Schema} {objects : ObjectDefinitions} {scalars : List String} {name : String}

/-! ## §1 Building -/

/-- The schema of these scalar types alone. -/
def ofScalars (scalars : List String) : Schema :=
  ⟨.ofList (scalars.map fun name => (name, .scalarType name))⟩

/-- An object type under its name. -/
def objectEntry (object : String × OrderedMap String String) : String × Value :=
  (object.1, .objectType (.ofFields object.1 object.2))

/-- The schema with these object types as well. -/
def extend (s : Schema) (objects : List (String × OrderedMap String String)) : Schema :=
  ⟨s.types.insertAll (objects.map objectEntry)⟩

theorem map_fst_objectEntry (objects : List (String × OrderedMap String String)) :
    (objects.map objectEntry).map (·.1) = objects.map (·.1) := by
  rw [List.map_map]
  rfl

theorem mem_keys_extend {objects : List (String × OrderedMap String String)} :
    name ∈ (s.extend objects).types.keys ↔ name ∈ s.types.keys ∨ name ∈ objects.map (·.1) := by
  rw [extend, OrderedMap.mem_keys_insertAll, map_fst_objectEntry]

/-- Object types of new names come behind the other types. -/
theorem entries_extend {objects : List (String × OrderedMap String String)}
    (hnew : ∀ object ∈ objects, object.1 ∉ s.types.keys) (hnodup : (objects.map (·.1)).Nodup) :
    (s.extend objects).types.entries = s.types.entries ++ objects.map objectEntry := by
  refine OrderedMap.entries_insertAll ?_
  rw [List.map_append, map_fst_objectEntry, List.nodup_append]
  refine ⟨s.types.nodup, hnodup, ?_⟩
  rintro name hmem _ hname rfl
  obtain ⟨object, hobject, rfl⟩ := List.mem_map.1 hname
  exact hnew object hobject hmem

theorem mem_keys_ofScalars : name ∈ (ofScalars scalars).types.keys ↔ name ∈ scalars := by
  rw [ofScalars, OrderedMap.mem_keys_ofList]
  simp

/-- A schema of scalar types holds nothing else. -/
theorem eq_of_mem_ofScalars {entry : String × Value}
    (h : entry ∈ (ofScalars scalars).types.entries) : entry.2 = .scalarType entry.1 := by
  obtain ⟨name, _, rfl⟩ := List.mem_map.1 (OrderedMap.mem_of_mem_entries_ofList h)
  rfl

/-- Object types of new names are added to the others, and what follows is added to these. -/
theorem addObjects_append {s : Schema} {earlier : List (String × OrderedMap String String)}
    (later : List (String × OrderedMap String String))
    (hnew : ∀ object ∈ earlier, object.1 ∉ s.types.keys) (hnodup : (earlier.map (·.1)).Nodup) :
    addObjects s (earlier ++ later) = addObjects (s.extend earlier) later := by
  -- The names to come are new to the types at the start and to each other, so they stay new.
  induction earlier generalizing s with
  | nil => rfl
  | cons object earlier ih =>
    obtain ⟨name, fields⟩ := object
    obtain ⟨hother, hearlier⟩ := List.nodup_cons.1 hnodup
    have hname : name ∉ s.types.keys := hnew _ (List.mem_cons_self ..)
    have hfree : ¬ s.types.contains name = true := fun h => hname (OrderedMap.contains_iff.1 h)
    have hnew' : ∀ object ∈ earlier, object.1 ∉ (s.extend [(name, fields)]).types.keys := by
      intro object hobject hmem
      rcases mem_keys_extend.1 hmem with hmem | hmem
      · exact hnew _ (List.mem_cons_of_mem _ hobject) hmem
      · exact hother (List.mem_map.2 ⟨object, hobject, List.mem_singleton.1 hmem⟩)
    rw [List.cons_append, addObjects, if_neg hfree]
    exact ih hnew' hearlier

/-- The first object type whose name is that of a scalar type is reported. -/
theorem ofDefinitions?_of_taken
    (h : objects.keys.find? (fun name => name ∈ scalars) = some name) :
    ofDefinitions? objects scalars = .error ⟨name⟩ := by
  rw [OrderedMap.keys, List.find?_map, Option.map_eq_some_iff] at h
  obtain ⟨⟨name, fields⟩, hfirst, rfl⟩ := h
  obtain ⟨htaken, earlier, later, hentries, hnew⟩ := List.find?_eq_some_iff_append.1 hfirst
  have hscalar : name ∈ (ofScalars scalars).types.keys :=
    mem_keys_ofScalars.2 (of_decide_eq_true htaken)
  have hnew' : ∀ object ∈ earlier, object.1 ∉ (ofScalars scalars).types.keys := by
    intro object hobject hmem
    simpa [mem_keys_ofScalars.1 hmem] using hnew object hobject
  have hnodup : (earlier.map (·.1)).Nodup := by
    have hnames := objects.nodup
    rw [hentries, List.map_append] at hnames
    exact (List.nodup_append.1 hnames).1
  have hcontains : ((ofScalars scalars).extend earlier).types.contains name = true :=
    OrderedMap.contains_iff.2 (mem_keys_extend.2 (.inl hscalar))
  show addObjects (ofScalars scalars) objects.entries = _
  rw [hentries, addObjects_append _ hnew' hnodup, addObjects, if_pos hcontains]

/-- No object type has a name that a scalar type has. -/
theorem not_mem_ofScalars (h : ∀ name ∈ objects.keys, name ∉ scalars) :
    ∀ object ∈ objects.entries, object.1 ∉ (ofScalars scalars).types.keys :=
  fun object hobject hmem => h _ (List.mem_map.2 ⟨object, hobject, rfl⟩) (mem_keys_ofScalars.1 hmem)

/-- Without one the object types join the scalar types. -/
theorem ofDefinitions?_of_new (h : ∀ name ∈ objects.keys, name ∉ scalars) :
    ofDefinitions? objects scalars = .ok ((ofScalars scalars).extend objects.entries) := by
  have hadded := addObjects_append [] (not_mem_ofScalars h) objects.nodup
  rw [List.append_nil] at hadded
  exact hadded

/-- A report is on the first such name, and there is none without one. -/
theorem ofDefinitions?_eq_error_iff {d : DuplicateType} :
    ofDefinitions? objects scalars = .error d ↔
      objects.keys.find? (fun name => name ∈ scalars) = some d.name := by
  cases hfirst : objects.keys.find? (fun name => name ∈ scalars) with
  | none =>
    have hnew : ∀ name ∈ objects.keys, name ∉ scalars := by
      simpa using List.find?_eq_none.1 hfirst
    rw [ofDefinitions?_of_new hnew]
    simp
  | some name =>
    obtain ⟨other⟩ := d
    rw [ofDefinitions?_of_taken hfirst]
    simp

/-! ## §2 Lookup -/

/-- The type of an entry is found under its name. -/
theorem resolve_of_mem {type : Value} (h : (name, type) ∈ s.types.entries) (htype : type ≠ .none) :
    s.resolve name = .ok type := by
  rw [resolve, OrderedMap.find?_of_mem h]
  cases type <;> first | rfl | exact absurd rfl htype

theorem resolve_of_not_mem (h : name ∉ s.types.keys) :
    s.resolve name = .error (.unknownType name) := by
  rw [resolve, OrderedMap.find?_eq_none_iff.2 h]

/-! ## §3 Nodes -/

/-- Only a definition is the same as a definition, and only itself. -/
theorem eq_of_same {v w : Value} (hv : v.IsDefinition) (h : v.same w = true) : v = w := by
  cases v <;> cases hv <;> cases w <;> simp_all [Value.same]

/-- Under distinct names there are types that are not the same. -/
theorem WellNamed.not_same_of_ne (hs : s.WellNamed) {a b : String} {v w : Value}
    (ha : s.resolve a = .ok v) (hb : s.resolve b = .ok w) (hne : a ≠ b) : v.same w = false := by
  refine Bool.eq_false_iff.2 fun h => hne ?_
  have hvw : v = w := eq_of_same (hs.isDefinition ha) h
  rw [← hs.home_eq ha, hvw, hs.home_eq hb]

/-- Fields with other owners or other names are not the same. -/
theorem WellNamed.field_not_same (hs : s.WellNamed) {a b : String} {t u : ObjectType}
    {f g : FieldDefinition} (ha : s.resolve a = .ok (.objectType t))
    (hb : s.resolve b = .ok (.objectType u)) (hf : f ∈ t.fields) (hg : g ∈ u.fields)
    (hne : (a, f.name) ≠ (b, g.name)) : (Value.field f).same (.field g) = false := by
  refine Bool.eq_false_iff.2 fun h => hne ?_
  obtain rfl : f = g := Value.field.inj (eq_of_same (v := .field f) trivial h)
  rw [← (hs.objectType ha).2 f hf, ← (hs.objectType hb).2 f hg]

/-- A type and its fields belong to the name it is kept under. -/
theorem WellNamed.home_of_mem (hs : s.WellNamed) {entry : String × Value} (hentry : entry ∈ s.types.entries) {v : Value}
    (hv : v ∈ entry.2 :: s.kids entry.2) : v.IsDefinition ∧ v.home = entry.1 := by
  obtain ⟨name, type⟩ := entry
  rcases hs name type (OrderedMap.find?_of_mem hentry) with rfl | ⟨fields, rfl⟩
  · obtain rfl := List.mem_singleton.1 hv
    exact ⟨trivial, rfl⟩
  · rcases List.mem_cons.1 hv with rfl | hv
    · exact ⟨trivial, rfl⟩
    · obtain ⟨f, hf, rfl⟩ := mem_kids_objectType.1 hv
      obtain ⟨field, _, rfl⟩ := List.mem_map.1 hf
      exact ⟨trivial, rfl⟩

/-- No two of the types of a schema and their fields are the same, if the fields of each type have
distinct names. -/
theorem WellNamed.pairwise_definitions (hs : s.WellNamed)
    (hfields : ∀ name t, (name, .objectType t) ∈ s.types.entries →
      (t.fields.map FieldDefinition.name).Nodup) :
    s.definitions.Pairwise fun v w => v.same w = false := by
  refine List.pairwise_flatMap.2 ⟨?_, ?_⟩
  · rintro ⟨name, type⟩ hentry
    rcases hs name type (OrderedMap.find?_of_mem hentry) with rfl | ⟨fields, rfl⟩
    · exact List.pairwise_singleton _ _
    · refine List.pairwise_cons.2 ⟨fun v hv => ?_, List.pairwise_map.2 ?_⟩
      · obtain ⟨f, _, rfl⟩ := mem_kids_objectType.1 hv
        rfl
      · refine (List.pairwise_map.1 (hfields name _ hentry)).imp fun {f g} hne => ?_
        refine Bool.eq_false_iff.2 fun h => hne ?_
        rw [Value.field.inj (eq_of_same (v := .field f) trivial h)]
  · refine (List.pairwise_map.1 s.types.nodup).imp_of_mem fun {a b} ha hb hne v hv w hw => ?_
    obtain ⟨hdefinition, hhome⟩ := hs.home_of_mem ha hv
    refine Bool.eq_false_iff.2 fun h => hne ?_
    rw [← hhome, eq_of_same hdefinition h, (hs.home_of_mem hb hw).2]

/-! ## §4 Back -/

/-- What defines the type of an entry, if it is an object type. -/
def objectDefinition? : String × Value → Option (String × OrderedMap String String)
  | (name, .objectType t) => some (name, .ofList (t.fields.map fun f => (f.name, f.typeName)))
  | _ => none

/-- The fields of all object types of a schema, with their types. -/
def objectDefinitions (s : Schema) : ObjectDefinitions :=
  .ofList (s.types.entries.filterMap objectDefinition?)

/-- An object type gives back what defines it. -/
theorem objectDefinition?_objectEntry (object : String × OrderedMap String String) :
    objectDefinition? (objectEntry object) = some object := by
  obtain ⟨name, fields⟩ := object
  have hfields : ((ObjectType.ofFields name fields).fields.map fun f => (f.name, f.typeName)) =
      fields.entries := by
    simp [ObjectType.ofFields, Function.comp_def]
  rw [objectEntry, objectDefinition?, hfields, OrderedMap.ofList_entries]

theorem objectDefinitions_extend (hnew : ∀ name ∈ objects.keys, name ∉ scalars) :
    ((ofScalars scalars).extend objects.entries).objectDefinitions = objects := by
  have hscalars : (ofScalars scalars).types.entries.filterMap objectDefinition? = [] := by
    refine List.filterMap_eq_nil_iff.2 fun entry hentry => ?_
    obtain ⟨name, type⟩ := entry
    obtain rfl : type = .scalarType name := eq_of_mem_ofScalars hentry
    rfl
  have hobjects : (objects.entries.map objectEntry).filterMap objectDefinition? =
      objects.entries := by
    rw [List.filterMap_map]
    exact (List.filterMap_congr fun object _ => objectDefinition?_objectEntry object).trans
      List.filterMap_some
  rw [objectDefinitions, entries_extend (not_mem_ofScalars hnew) objects.nodup,
    List.filterMap_append, hscalars, hobjects, List.nil_append, OrderedMap.ofList_entries]

/-! ## §5 Sessions -/

/-- The definitions as a session is given them. -/
def rows (objects : ObjectDefinitions) : List (String × List (String × String)) :=
  objects.entries.map fun object => (object.1, object.2.entries)

theorem ofList_rows (objects : ObjectDefinitions) :
    OrderedMap.ofList ((rows objects).map fun (type, fields) => (type, .ofList fields)) =
      objects := by
  have hentries : ((rows objects).map fun (type, fields) => (type, OrderedMap.ofList fields)) =
      objects.entries := by
    rw [rows, List.map_map]
    refine (List.map_congr_left fun object _ => ?_).trans (List.map_id _)
    exact Prod.ext rfl (OrderedMap.ofList_entries object.2)
  rw [hentries, OrderedMap.ofList_entries]

/-- The report on a schema: its names, each with its type and the fields of this. -/
def report (s : Schema) : Reply :=
  .types (s.types.entries.map fun entry =>
    (entry.1, entry.2.label, (s.kids entry.2).map Value.label))

theorem mapM_eq_ok {α β ε : Type} {f : α → Except ε β} {g : α → β} {items : List α}
    (h : ∀ a ∈ items, f a = .ok (g a)) : items.mapM f = .ok (items.map g) := by
  induction items with
  | nil => rfl
  | cons a later ih =>
    rw [List.mapM_cons, h a (List.mem_cons_self ..),
      ih fun b hb => h b (List.mem_cons_of_mem _ hb)]
    rfl

/-- A session keeps a schema whose types have their names, and reports it. -/
theorem WellNamed.keepSchema (hs : s.WellNamed) (σ : Session) (label : String) :
    σ.keepSchema label s = .ok (σ.add .schema label s, s.report) := by
  have hrows : σ.typeRows s = .ok (s.types.entries.map fun entry =>
      (entry.1, entry.2.label, (s.kids entry.2).map Value.label)) := by
    refine mapM_eq_ok fun entry hentry => ?_
    obtain ⟨name, type⟩ := entry
    rcases hs name type (OrderedMap.find?_of_mem hentry) with rfl | ⟨fields, rfl⟩
    · rfl
    · show Except.ok _ = _
      rw [kids, List.map_map]
      rfl
  rw [Session.keepSchema, hrows]
  rfl

/-- The schema is found under its label. -/
theorem typeOf_add (σ : Session) (label name : String) (s : Schema) :
    (σ.add .schema label s).scene.typeOf label (.text name) =
      (s.resolve name).mapError .schema := by
  have hkept : (σ.add .schema label s).scene.artefacts[label]? =
      some (.schema ⟨σ.scene.owners, label, s⟩) := by
    simp [Session.add, Scene.add, Scene.bind]
  rw [Scene.typeOf, Scene.schema, Scene.artefact, hkept]
  rfl

/-! ## §6 Definitions -/

/-- What a schema has under its names if it is made of definitions. -/
structure Renders (s : Schema) (objects : ObjectDefinitions) (scalars : List String) : Prop where
  scalar : ∀ name ∈ scalars, s.resolve name = .ok (.scalarType name)
  /-- An object type has its fields in the order in which they are declared. -/
  object : ∀ name fields, (name, fields) ∈ objects.entries →
    s.resolve name = .ok (.objectType
      ⟨name, fields.entries.map fun (field, target) => ⟨name, field, target⟩⟩)
  unknown : ∀ name, name ∉ scalars → name ∉ objects.keys →
    s.resolve name = .error (.unknownType name)
  /-- Distinct names have types that are not the same. -/
  types_apart : ∀ a b v w, s.resolve a = .ok v → s.resolve b = .ok w → a ≠ b → v.same w = false
  /-- Fields are told apart by their owners and names. -/
  fields_apart : ∀ a b t u, s.resolve a = .ok (.objectType t) → s.resolve b = .ok (.objectType u) →
    ∀ f ∈ t.fields, ∀ g ∈ u.fields, (a, f.name) ≠ (b, g.name) →
      (Value.field f).same (.field g) = false
  /-- No two nodes are the same, if one goes through all types, each with its fields. -/
  nodes_apart : s.definitions.Pairwise fun v w => v.same w = false
  /-- The definitions can be read back. -/
  objectDefinitions_eq : s.objectDefinitions = objects

theorem renders_extend (hnew : ∀ name ∈ objects.keys, name ∉ scalars) :
    ((ofScalars scalars).extend objects.entries).Renders objects scalars := by
  have hs := wellNamed_of_ofDefinitions? (ofDefinitions?_of_new hnew)
  have hentries := entries_extend (not_mem_ofScalars hnew) objects.nodup
  refine ⟨?scalar, ?object, ?unknown, fun a b v w => hs.not_same_of_ne,
    fun a b t u ha hb f hf g hg => hs.field_not_same ha hb hf hg, ?nodes,
    objectDefinitions_extend hnew⟩
  case scalar =>
    intro name hname
    obtain ⟨⟨name, type⟩, hentry, rfl⟩ := List.mem_map.1 (mem_keys_ofScalars.2 hname)
    obtain rfl : type = .scalarType name := eq_of_mem_ofScalars hentry
    exact resolve_of_mem (by rw [hentries]; exact List.mem_append_left _ hentry) Value.noConfusion
  case object =>
    intro name fields hobject
    have hentry := List.mem_map_of_mem (f := objectEntry) hobject
    exact resolve_of_mem (by rw [hentries]; exact List.mem_append_right _ hentry) Value.noConfusion
  case unknown =>
    intro name hscalar hobject
    refine resolve_of_not_mem fun hmem => ?_
    rw [mem_keys_extend, mem_keys_ofScalars] at hmem
    exact hmem.elim hscalar hobject
  case nodes =>
    refine hs.pairwise_definitions fun name t hentry => ?_
    rw [hentries] at hentry
    rcases List.mem_append.1 hentry with hentry | hentry
    · cases eq_of_mem_ofScalars hentry
    · obtain ⟨object, hobject, heq⟩ := List.mem_map.1 hentry
      cases heq
      simpa [ObjectType.ofFields, Function.comp_def] using object.2.nodup

/-- Definitions make a schema in which names and types are one to one, or are refused. -/
structure OneToOne (objects : ObjectDefinitions) (scalars : List String) : Prop where
  /-- They are refused exactly if an object type has the name of a scalar type; the first one is
  reported. -/
  error_iff : ∀ d, ofDefinitions? objects scalars = .error d ↔
    objects.keys.find? (fun name => name ∈ scalars) = some d.name
  /-- A session reports a wrong value then. -/
  refused : ∀ (σ : Session) (given : Option (List String)) (label name : String),
    given.getD standardScalars = scalars →
    objects.keys.find? (fun name => name ∈ scalars) = some name →
    σ.carryOut (.defineSchema (rows objects) given label) =
      .error (.plain .value ("type '" ++ name ++ "' is defined more than once"))
  /-- Else they make a schema. A session keeps it and looks names up in it; those that it does not
  have are reported as such. -/
  made : (∀ name ∈ objects.keys, name ∉ scalars) → ∃ s : Schema,
    ofDefinitions? objects scalars = .ok s ∧ s.Renders objects scalars ∧
    ∀ (σ : Session) (given : Option (List String)) (label : String),
      given.getD standardScalars = scalars →
      ∃ next, σ.carryOut (.defineSchema (rows objects) given label) = .ok (next, s.report) ∧
        ∀ name, next.scene.typeOf label (.text name) = (s.resolve name).mapError .schema

/-- The names of object types and scalar types and the types of the schema are one to one: each name
has its type, and no type or field of the schema occurs in it twice. -/
theorem definitions_one_to_one (objects : ObjectDefinitions) (scalars : List String) :
    OneToOne objects scalars where
  error_iff _ := ofDefinitions?_eq_error_iff
  refused σ given label name hgiven hfirst := by
    simp only [Session.carryOut, ofList_rows, hgiven, ofDefinitions?_of_taken hfirst]
    rfl
  made hnew := by
    have hmade := ofDefinitions?_of_new hnew
    refine ⟨_, hmade, renders_extend hnew, fun σ given label hgiven => ?_⟩
    have hkept := (wellNamed_of_ofDefinitions? hmade).keepSchema σ label
    refine ⟨_, ?_, fun name => typeOf_add σ label name _⟩
    simp only [Session.carryOut, ofList_rows, hgiven, hmade, hkept]

/-- Persons and posts. -/
def journal : ObjectDefinitions :=
  ⟨[("Person", ⟨[("name", "String"), ("friend", "Person"), ("post", "Post")], by decide⟩),
    ("Post", ⟨[("title", "String"), ("author", "Person")], by decide⟩)], by decide⟩

/-- Their definitions make a schema with the standard scalar types. With a scalar type named after a
post they are refused. -/
theorem definitions_one_to_one_journal :
    OneToOne journal standardScalars ∧ (∀ name ∈ journal.keys, name ∉ standardScalars) ∧
      OneToOne journal ["Post"] ∧
      journal.keys.find? (fun name => name ∈ ["Post"]) = some "Post" :=
  ⟨definitions_one_to_one journal _, by decide, definitions_one_to_one journal _, by decide⟩

end GraphFold.Schema
