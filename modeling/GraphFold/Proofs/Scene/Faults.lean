/-
GraphFold.Proofs.Scene.Faults — what the computations of a scene can fail with.

A scene may describe faults to be raised, and a fault may also come about by
itself. That a node cannot list its children is one that comes about in a single
place: neither reading a description nor a key nor a container nor an adapter
nor a child that is made only when it is asked for fails with it, unless the
scene says so (`Scene.Describes`).

  §1 Faults  — computations that never fail with a certain error.
  §2 Scenes  — what reading, keys and containers can fail with.
  §3 Lookups — what nodes list themselves, and adapters.
-/
import GraphFold.Scene.Children

namespace GraphFold

/-! ## §1 Faults -/

section Faults

variable {W E N α β : Type} {f : E}

/-- The computation never fails with this error, and what it gives has this property. -/
def Action.Gives (f : E) (P : α → Prop) (act : Action W E α) : Prop :=
  ∀ memory, (act.perform memory).1 ≠ .error f ∧ ∀ a, (act.perform memory).1 = .ok a → P a

/-- The computation never fails with this error. -/
def Action.Spares (f : E) (act : Action W E α) : Prop := act.Gives f fun _ => True

/-- Neither any of these children nor their end fails with this error. -/
structure Pulls.Spares (f : E) (pulls : Pulls W E N) : Prop where
  each : ∀ pull ∈ pulls.each, Action.Spares f pull
  ending : Action.Spares f pulls.ending

/-- Neither the listing nor anything in it fails with this error. -/
def Listing.Spares (f : E) (listing : Listing W E N) : Prop :=
  listing ≠ .error f ∧ ∀ pulls, listing = .ok pulls → pulls.Spares f

theorem Except.bind_ne_error {r : Except E α} {next : α → Except E β} (hr : r ≠ .error f)
    (hnext : ∀ a, next a ≠ .error f) : (r >>= next) ≠ .error f := by
  cases r with
  | error e => exact fun h => hr (by cases h; rfl)
  | ok a => exact hnext a

theorem Except.map_ne_error {r : Except E α} (g : α → β) (hr : r ≠ .error f) :
    r.map g ≠ .error f := by
  cases r with
  | error e => exact fun h => hr (by cases h; rfl)
  | ok a => exact nofun

theorem Except.mapM_ne_error {g : α → Except E β} (hg : ∀ a, g a ≠ .error f) (as : List α) :
    as.mapM g ≠ .error f := by
  induction as with
  | nil => exact nofun
  | cons a later ih =>
    rw [List.mapM_cons]
    exact Except.bind_ne_error (hg a) fun _ => Except.bind_ne_error ih fun _ => nofun

namespace Action.Gives

variable {act : Action W E α} {P : α → Prop} {Q : β → Prop}

theorem pure {a : α} (h : P a) : Gives f P (Pure.pure a : Action W E α) := by
  refine fun memory => ⟨nofun, fun b hb => ?_⟩
  cases hb
  exact h

theorem throw {e : E} (h : e ≠ f) : Gives f P (MonadExcept.throw e : Action W E α) := by
  refine fun memory => ⟨fun he => ?_, nofun⟩
  cases he
  exact h rfl

theorem ofExcept {r : Except E α} (h : r ≠ .error f) :
    Spares f (Action.ofExcept r : Action W E α) := by
  intro memory
  rw [Action.perform_ofExcept]
  exact ⟨h, fun _ _ => trivial⟩

theorem bind {next : α → Action W E β} (hact : act.Gives f P)
    (hnext : ∀ a, P a → (next a).Gives f Q) : (act >>= next).Gives f Q := by
  intro memory
  rw [Action.perform_bind]
  have hfirst := hact memory
  generalize act.perform memory = answered at hfirst ⊢
  rcases answered with ⟨e | a, left⟩
  · exact ⟨fun he => hfirst.1 (by cases he; rfl), nofun⟩
  · exact hnext a (hfirst.2 a rfl) left

/-- Where nothing is known of what the first part gives. -/
theorem bind_any {next : α → Action W E β} (hact : act.Spares f)
    (hnext : ∀ a, (next a).Gives f Q) : (act >>= next).Gives f Q :=
  hact.bind fun a _ => hnext a

end Action.Gives

namespace Listing.Spares

theorem error {e : E} (h : e ≠ f) : Listing.Spares f (.error e : Listing W E N) :=
  ⟨fun he => h (by cases he; rfl), nofun⟩

theorem ok {pulls : Pulls W E N} (h : pulls.Spares f) : Listing.Spares f (.ok pulls) :=
  ⟨nofun, fun _ hpulls => by cases hpulls; exact h⟩

end Listing.Spares

end Faults

/-! ## §2 Scenes -/

/-- Reading the description may come to this fault, because it says so. -/
inductive Description.Throws (f : Fault) : Description → Prop
  | raises : Throws f (.raises f)
  | tuple {items : List Description} {item : Description} (hitem : item ∈ items)
      (h : Throws f item) : Throws f (.tuple items)
  | list {items : List Description} {item : Description} (hitem : item ∈ items)
      (h : Throws f item) : Throws f (.list items)

/-- Somewhere in the scene, or in an adapter, this fault is described as one to be raised. -/
inductive Scene.Describes (scene : Scene) (registry : ValueRegistry) (f : Fault) : Prop
  | kid {id : String} {d : Described} {kid : Description} (hd : scene.objects[id]? = some d)
      (hkid : kid ∈ d.kids) (h : kid.Throws f)
  | container {id : String} {d : Described} (hd : scene.objects[id]? = some d)
      (h : d.container = .raises f)
  | key {id : String} {d : Described} {key : Description} (hd : scene.objects[id]? = some d)
      (hkey : d.key? = some key) (h : key.Throws f)
  | attribute {node : SyntaxRef} {entry : SyntaxEntry} {name : String} {held : Description}
      (hentry : scene.syntaxEntry? node = some entry) (hheld : entry.attribute? name = some held)
      (h : held.Throws f)
  | item {cls : NodeClass} {name : Value} {items : List Description} {item : Description}
      {container : Container}
      (hfind : registry.find? cls = some (some (.scripted name (.fixed items) container)))
      (hitem : item ∈ items) (h : item.Throws f)
  | adapter {cls : NodeClass} {name : Value} {source : AdapterSource}
      (hfind : registry.find? cls = some (some (.scripted name source (.raises f))))

namespace Scene

variable (scene : Scene) {cls : String}

theorem artefact_ne_incapable (name : String) : scene.artefact name ≠ .error (.incapable cls) := by
  unfold artefact
  split <;> exact nofun

theorem tree_ne_incapable (name : String) : scene.tree name ≠ .error (.incapable cls) := by
  refine Except.bind_ne_error (scene.artefact_ne_incapable name) fun a => ?_
  cases a <;> exact nofun

theorem schema_ne_incapable (name : String) : scene.schema name ≠ .error (.incapable cls) := by
  refine Except.bind_ne_error (scene.artefact_ne_incapable name) fun a => ?_
  cases a <;> exact nofun

theorem nodePosition?_ne_incapable (size : Nat) (index : Index.Numeral) :
    nodePosition? size index ≠ .error (.incapable cls) := by
  unfold nodePosition?
  split <;> exact nofun

theorem nodeAt_ne_incapable (owner : String) (index : Index.GivenNumeral) :
    scene.nodeAt owner index ≠ .error (.incapable cls) := by
  refine Except.bind_ne_error (scene.artefact_ne_incapable owner) fun a => ?_
  cases a with
  | tree t =>
    cases index with
    | error e => exact nofun
    | ok index => exact Except.map_ne_error _ (nodePosition?_ne_incapable _ index)
  | graph g =>
    cases index with
    | error e => exact nofun
    | ok index => exact Except.map_ne_error _ (nodePosition?_ne_incapable _ index)
  | schema s => exact nofun
  | state s => exact nofun

theorem typeOf_ne_incapable (schema : String) (name : Value) :
    scene.typeOf schema name ≠ .error (.incapable cls) := by
  refine Except.bind_ne_error (scene.schema_ne_incapable schema) fun s => ?_
  unfold Context.typeNamed
  dsimp only
  split
  · cases (Context.schema schema s).resolveType _ <;> exact nofun
  · split <;> exact nofun
  · cases (Context.schema schema s).resolveType _ <;> exact nofun

/-- Reading descriptions together fails only as reading one of them does. -/
theorem readAll_ne_error {f : Fault} {items : List Description}
    (h : ∀ item ∈ items, scene.read item ≠ .error f) : read.readAll scene items ≠ .error f := by
  induction items with
  | nil => exact nofun
  | cons item later ih =>
    rw [List.forall_mem_cons] at h
    exact Except.bind_ne_error h.1 fun _ => Except.bind_ne_error (ih h.2) fun _ => nofun

/-- Reading a description fails with such a fault only where it says so. -/
theorem read_ne_incapable (d : Description) :
    ¬ d.Throws (.incapable cls) → scene.read d ≠ .error (.incapable cls) := by
  refine Scene.read.induct
    (fun items => ∀ item ∈ items,
      ¬ item.Throws (.incapable cls) → scene.read item ≠ .error (.incapable cls))
    (fun d => ¬ d.Throws (.incapable cls) → scene.read d ≠ .error (.incapable cls))
    ?value ?tuple ?list ?ref ?node ?unchecked ?rootOf ?typeOf ?entry ?raises ?nil ?cons d
  case value => exact fun v _ => nofun
  case tuple =>
    intro items ih h
    have hitems := scene.readAll_ne_error fun item hitem =>
      ih item hitem fun ht => h (.tuple hitem ht)
    exact Except.bind_ne_error hitems fun _ => nofun
  case list =>
    intro items ih h
    have hitems := scene.readAll_ne_error fun item hitem =>
      ih item hitem fun ht => h (.list hitem ht)
    exact Except.bind_ne_error hitems fun _ => nofun
  case ref =>
    intro id _
    rw [read, lookup]
    split <;> exact nofun
  case node => exact fun owner index _ => scene.nodeAt_ne_incapable owner index
  case unchecked =>
    intro owner index _
    refine Except.bind_ne_error (scene.artefact_ne_incapable owner) fun a => ?_
    cases a <;> exact nofun
  case rootOf =>
    intro tree _
    refine Except.bind_ne_error (scene.tree_ne_incapable tree) fun t => ?_
    unfold Owner.rootNode?
    split <;> exact nofun
  case typeOf => exact fun schema name _ => scene.typeOf_ne_incapable schema name
  case entry =>
    intro module index _
    rw [read, moduleNode]
    split <;> exact nofun
  case raises =>
    intro fault h he
    rw [read] at he
    cases he
    exact h .raises
  case nil => exact nofun
  case cons => exact fun item later ihitem ihlater => List.forall_mem_cons.2 ⟨ihitem, ihlater⟩

theorem readAll_ne_incapable {items : List Description}
    (h : ∀ item ∈ items, ¬ item.Throws (.incapable cls)) :
    read.readAll scene items ≠ .error (.incapable cls) :=
  scene.readAll_ne_error fun item hitem => scene.read_ne_incapable item (h item hitem)

variable {scene} {registry : ValueRegistry}

theorem ofHashable_ne_incapable (v : Value) : key.ofHashable v ≠ .error (.incapable cls) := by
  unfold key.ofHashable
  split <;> exact nofun

theorem ofDescription_ne_incapable {d : Description} (h : ¬ d.Throws (.incapable cls))
    (node : Value) : key.ofDescription scene node d ≠ .error (.incapable cls) := by
  have hread := scene.read_ne_incapable d h
  unfold key.ofDescription
  split
  · exact nofun
  · exact ofHashable_ne_incapable node
  · rename_i fault hfault
    exact fun he => hread (by cases he; exact hfault)

/-- Nor does the key of a node. -/
theorem key_ne_incapable (h : ¬ scene.Describes registry (.incapable cls)) (node : Value) :
    scene.key node ≠ .error (.incapable cls) := by
  unfold key
  split
  · exact nofun
  · exact nofun
  · rename_i o
    split
    · split
      · rename_i d hd
        obtain ⟨described, hdescribed, hkey⟩ := Option.bind_eq_some_iff.1 hd
        exact ofDescription_ne_incapable (fun ht => h (.key hdescribed hkey ht)) _
      · exact nofun
    · exact ofHashable_ne_incapable _
  · rename_i n
    split
    · rename_i d hd
      obtain ⟨entry, hentry, hheld⟩ := Option.bind_eq_some_iff.1 hd
      exact ofDescription_ne_incapable (fun ht => h (.attribute hentry hheld ht)) _
    · exact ofHashable_ne_incapable _
  · exact ofHashable_ne_incapable _

theorem identity_ne_incapable (h : ¬ scene.Describes registry (.incapable cls)) (node : Value) :
    scene.identity node ≠ .error (.incapable cls) := by
  refine Except.bind_ne_error (key_ne_incapable h node) fun key => ?_
  split <;> exact nofun

theorem isSeen_ne_incapable (h : ¬ scene.Describes registry (.incapable cls)) (s : ValueState)
    (node : Value) : scene.isSeen s node ≠ .error (.incapable cls) :=
  Except.map_ne_error _ (identity_ne_incapable h node)

theorem record_spares {f : Fault} {entry : Unit → SceneAction TraceEntry}
    (h : (entry ()).Spares f) : (record entry).Spares f := by
  have hget : (get : SceneAction Memory).Spares f := fun _ => ⟨nofun, fun _ _ => trivial⟩
  refine .bind_any hget fun m => ?_
  split
  · exact .bind_any h fun e => fun _ => ⟨nofun, fun _ _ => trivial⟩
  · exact .pure trivial

theorem recordVisit_spares (h : ¬ scene.Describes registry (.incapable cls)) (node : Value)
    (s : ValueState) (entry : String → Bool → List String → TraceEntry) :
    (scene.recordVisit node s entry).Spares (.incapable cls) :=
  record_spares (.bind_any (.ofExcept (isSeen_ne_incapable h s node)) fun _ => .pure trivial)

theorem joinTexts_ne_incapable (index : Nat) (items : List Description) :
    joinTexts index items ≠ .error (.incapable cls) := by
  induction items generalizing index with
  | nil => exact nofun
  | cons item later ih =>
    unfold joinTexts
    split
    · exact Except.bind_ne_error (ih (index + 1)) fun _ => nofun
    · exact nofun

theorem ofValues_spares (f : Fault) (vs : List Value) : (ValueListing.ofValues vs).Spares f := by
  refine .ok ⟨fun pull hpull => ?_, .pure trivial⟩
  obtain ⟨v, _, rfl⟩ := List.mem_map.1 hpull
  exact .pure trivial

theorem items_spares (v : Value) : v.items.Spares (.incapable cls) := by
  cases v with
  | tuple | list | text | mapping => exact ofValues_spares _ _
  | _ => exact .error nofun

theorem lazyPulls_spares (stop : Option Nat) {kids : List Description}
    (hkids : ∀ kid ∈ kids, ¬ kid.Throws (.incapable cls)) (index : Nat) :
    ∀ pull ∈ scene.lazyPulls stop index kids, pull.Spares (.incapable cls) := by
  induction kids generalizing index with
  | nil => exact nofun
  | cons kid later ih =>
    rw [List.forall_mem_cons] at hkids
    unfold lazyPulls
    split
    · exact List.forall_mem_singleton.2 (.throw nofun)
    · refine List.forall_mem_cons.2 ⟨?_, ih hkids.2 (index + 1)⟩
      exact .bind_any (record_spares (.pure trivial)) fun _ =>
        .ofExcept (scene.read_ne_incapable kid hkids.1)

/-- Nor does a container, unless that is what it raises. -/
theorem contain_gives {kids : List Description} {container : Container}
    (hkids : ∀ kid ∈ kids, ¬ kid.Throws (.incapable cls))
    (hcontainer : container ≠ .raises (.incapable cls)) :
    (scene.contain kids container).Gives (.incapable cls) (Listing.Spares (.incapable cls)) := by
  have hread := Action.Gives.ofExcept (W := Memory) (scene.readAll_ne_incapable hkids)
  cases container with
  | raises fault => exact .throw fun h => hcontainer (congrArg _ h)
  | «lazy» stop => exact .pure (.ok ⟨lazyPulls_spares stop hkids 0, .pure trivial⟩)
  | nothing => exact .pure (items_spares .none)
  | number => exact .pure (items_spares (.int 7))
  | tuple | list => exact .bind_any hread fun vs => .pure (ofValues_spares _ vs)
  | joined =>
    exact .bind_any (.ofExcept (joinTexts_ne_incapable 0 kids)) fun t =>
      .pure (items_spares (.text t))

theorem fieldNames_ne_incapable {entry : SyntaxEntry}
    (h : ∀ name held, entry.attribute? name = some held → ¬ held.Throws (.incapable cls)) :
    scene.fieldNames entry ≠ .error (.incapable cls) := by
  have hname : ∀ v, fieldNames.name v ≠ .error (.incapable cls) := by
    intro v
    cases v <;> exact nofun
  unfold fieldNames
  split
  · exact nofun
  · rename_i held hheld
    refine Except.bind_ne_error (scene.read_ne_incapable held (h _ held hheld)) fun v => ?_
    split
    · exact Except.mapM_ne_error hname _
    · exact Except.mapM_ne_error hname _
    · exact nofun
    · exact nofun

theorem syntaxChildren_ne_incapable (h : ¬ scene.Describes registry (.incapable cls))
    (node : SyntaxRef) : scene.syntaxChildren node ≠ .error (.incapable cls) := by
  unfold syntaxChildren
  split
  · exact nofun
  · rename_i entry hentry
    have hheld : ∀ name held, entry.attribute? name = some held →
        ¬ held.Throws (.incapable cls) := fun _ _ hname ht => h (.attribute hentry hname ht)
    refine Except.bind_ne_error (fieldNames_ne_incapable hheld) fun names =>
      Except.bind_ne_error (readAll_ne_incapable scene fun held hmem => ?_) fun _ => nofun
    obtain ⟨name, _, hname⟩ := List.mem_filterMap.1 hmem
    exact hheld name held hname

/-! ## §3 Lookups -/

/-- What a node lists itself does not fail for want of a way to list children. -/
theorem ownChildren_gives (h : ¬ scene.Describes registry (.incapable cls)) (node : Value)
    (s : ValueState) :
    (scene.ownChildren node s).Gives (.incapable cls) (Listing.Spares (.incapable cls)) := by
  cases node with
  | object o =>
    dsimp only [ownChildren]
    split
    · refine .bind_any (recordVisit_spares h _ s _) fun _ => ?_
      split
      · rename_i d hd
        exact contain_gives (fun kid hkid ht => h (.kid hd hkid ht)) fun hc => h (.container hd hc)
      · exact .throw nofun
    all_goals exact .throw nofun
  | vertex name =>
    exact .bind_any (recordVisit_spares h _ s _) fun _ => .pure (ofValues_spares _ _)
  | treeNode t index =>
    refine .bind_any (.ofExcept ?_) fun _ => .pure (ofValues_spares _ _)
    unfold ArrayTree.childrenAt
    split
    · cases t.content.childIndices _ <;> exact nofun
    · exact nofun
  | graphNode g index =>
    dsimp only [ownChildren]
    split
    · rename_i graph _
      refine .bind_any (.ofExcept ?_) fun _ => .pure (ofValues_spares _ _)
      unfold CompressedGraph.successorsAt
      split
      · cases graph.successors _ <;> exact nofun
      · exact nofun
      · exact nofun
    · exact .throw nofun
  | scalarType name => exact .pure (ofValues_spares _ _)
  | objectType t => exact .pure (ofValues_spares _ _)
  | field f =>
    dsimp only [ownChildren]
    split
    · exact .pure (ofValues_spares _ _)
    · exact .throw nofun
  | syntaxNode n =>
    refine .bind_any (.ofExcept ?_) fun _ => .throw nofun
    unfold attributeOf
    dsimp only
    split
    · rename_i held hheld
      obtain ⟨entry, hentry, hattribute⟩ := Option.bind_eq_some_iff.1 hheld
      exact scene.read_ne_incapable held fun ht => h (.attribute hentry hattribute ht)
    · exact nofun
  | _ => exact .throw nofun

/-- Nor does a registered adapter. -/
theorem adapt_gives (h : ¬ scene.Describes registry (.incapable cls)) {registered : NodeClass}
    {adapter : Adapter} (hfind : registry.find? registered = some (some adapter)) (node : Value)
    (s : ValueState) :
    (scene.adapt node s adapter).Gives (.incapable cls) (Listing.Spares (.incapable cls)) := by
  cases adapter with
  | syntaxTree =>
    dsimp only [adapt]
    split
    · exact .bind_any (.ofExcept (syntaxChildren_ne_incapable h _)) fun _ =>
        .pure (ofValues_spares _ _)
    · exact .throw nofun
  | scripted name source container =>
    have hcontainer : container ≠ .raises (.incapable cls) := fun hc => h (.adapter (hc ▸ hfind))
    refine .bind_any (recordVisit_spares h node s _) fun _ => ?_
    cases source with
    | fixed items =>
      exact contain_gives (fun item hitem ht => h (.item hfind hitem ht)) hcontainer
    | neighbours => exact .pure (ofValues_spares _ _)
    | items => exact .pure (items_spares node)
    | kids =>
      dsimp only
      split
      · split
        · rename_i d hd
          exact contain_gives (fun kid hkid ht => h (.kid hd hkid ht)) hcontainer
        · exact .throw nofun
      · exact .throw nofun

end Scene

end GraphFold
