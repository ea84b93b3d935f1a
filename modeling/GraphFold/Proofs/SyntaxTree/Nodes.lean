/-
GraphFold.Proofs.SyntaxTree.Nodes — syntax nodes as the nodes of a walk.

With only syntax nodes registered, the children of a syntax node are those its
fields hold. They depend on where the node is and on nothing else, and there are
finitely many places with an entry, so from every node finitely many nodes are
reached. A node without a key in its attributes is its own key.

  §1 Graph   — `Scene.SyntaxLeads`, `Scene.SyntaxReaches`, finitely many nodes.
  §2 Keys    — `Scene.SameKey`, `Scene.KeysApart`.
  §3 Lookups — `Scene.Lists`, and the nodes of a walk.
-/
import GraphFold.OrderedMap.Lemmas
import GraphFold.Proofs.Value.Codes
import GraphFold.Proofs.Walk.Exploration
import GraphFold.Proofs.Walk.Termination
import GraphFold.Scene.Reduction
import Std.Data.HashMap.Lemmas

namespace GraphFold

namespace Scene

variable (scene : Scene) {root : SyntaxRef}

/-! ## §1 Graph -/

/-- The second node is a child of the first. -/
def SyntaxLeads (a b : SyntaxRef) : Prop :=
  ∃ kids, scene.syntaxChildren a = .ok kids ∧ .syntaxNode b ∈ kids

/-- The second node is reached from the first through children, or is the same. -/
def SyntaxReaches : SyntaxRef → SyntaxRef → Prop := Relation.ReflTransGen scene.SyntaxLeads

/-- The places of a scene that have an entry. -/
def places : List SyntaxPlace :=
  scene.listed.keys.map .listed ++
    scene.modules.keys.flatMap fun module =>
      (List.range (scene.modules[module]?.elim 0 Array.size)).map (.entry module)

theorem mem_places {node : SyntaxRef} {entry : SyntaxEntry}
    (h : scene.syntaxEntry? node = some entry) : node.place ∈ scene.places := by
  unfold syntaxEntry? at h
  rw [places, List.mem_append]
  split at h
  case h_1 id hplace =>
    rw [hplace]
    refine .inl (List.mem_map_of_mem (Std.HashMap.mem_keys.2 ?_))
    rw [Std.HashMap.mem_iff_isSome_getElem?, h]
    rfl
  case h_3 module index hplace =>
    rw [hplace]
    obtain ⟨entries, hentries, hentry⟩ := Option.bind_eq_some_iff.1 h
    refine .inr (List.mem_flatMap.2 ⟨module, Std.HashMap.mem_keys.2 ?_, ?_⟩)
    · rw [Std.HashMap.mem_iff_isSome_getElem?, hentries]
      rfl
    · rw [hentries]
      refine List.mem_map_of_mem (List.mem_range.2 ?_)
      exact (Array.getElem?_eq_some_iff.1 hentry).1
  all_goals cases h

/-- A node without an entry has no children. -/
theorem exists_entry_of_leads {a b : SyntaxRef} (h : scene.SyntaxLeads a b) :
    ∃ entry, scene.syntaxEntry? a = some entry := by
  obtain ⟨kids, hkids, hb⟩ := h
  cases hentry : scene.syntaxEntry? a with
  | some entry => exact ⟨entry, rfl⟩
  | none =>
    unfold syntaxChildren at hkids
    rw [hentry] at hkids
    cases hkids
    cases hb

/-- The syntax nodes among some values. -/
def syntaxNodesIn (values : List Value) : List SyntaxRef :=
  values.filterMap fun
    | .syntaxNode n => some n
    | _ => none

theorem mem_syntaxNodesIn {values : List Value} {node : SyntaxRef} :
    node ∈ syntaxNodesIn values ↔ .syntaxNode node ∈ values := by
  rw [syntaxNodesIn, List.mem_filterMap]
  constructor
  · rintro ⟨value, hvalue, hnode⟩
    cases value <;> cases hnode
    exact hvalue
  · exact fun h => ⟨_, h, rfl⟩

/-- Finitely many nodes are reached from a node. -/
theorem exists_list_of_syntaxReaches (root : SyntaxRef) :
    ∃ all : List SyntaxRef, ∀ node, scene.SyntaxReaches root node → node ∈ all := by
  refine ⟨root :: scene.places.flatMap fun place =>
    syntaxNodesIn ((scene.syntaxChildren ⟨place, "", none⟩).toOption.getD []), fun node h => ?_⟩
  cases h with
  | refl => exact List.mem_cons_self
  | @tail a _ _ hleads =>
    obtain ⟨entry, hentry⟩ := scene.exists_entry_of_leads hleads
    obtain ⟨kids, hkids, hnode⟩ := hleads
    -- Only the place of a node counts for its children.
    have hplace : scene.syntaxChildren ⟨a.place, "", none⟩ = .ok kids := hkids
    refine List.mem_cons_of_mem _ (List.mem_flatMap.2 ⟨a.place, scene.mem_places hentry, ?_⟩)
    rw [hplace]
    exact mem_syntaxNodesIn.2 hnode

/-! ## §2 Keys -/

/-- The two nodes have keys, and the keys are equal. -/
def SameKey (a b : SyntaxRef) : Prop :=
  ∃ k l, scene.identity (.syntaxNode a) = .ok k ∧ scene.identity (.syntaxNode b) = .ok l ∧
    compare k l = .eq

theorem SameKey.symm {scene : Scene} {a b : SyntaxRef} (h : scene.SameKey a b) :
    scene.SameKey b a := by
  obtain ⟨k, l, hk, hl, heq⟩ := h
  exact ⟨l, k, hl, hk, Std.OrientedCmp.eq_symm heq⟩

/-- Different nodes that are reached have different keys. -/
def KeysApart (root : SyntaxRef) : Prop :=
  ∀ a b, scene.SyntaxReaches root a → scene.SyntaxReaches root b → scene.SameKey a b → a = b

/-- A node has a key in its attributes. -/
def HasOwnKey (node : SyntaxRef) : Prop :=
  ∃ entry description, scene.syntaxEntry? node = some entry ∧
    entry.attribute? SyntaxEntry.keyAttribute = some description

/-- A node without one is its own key. -/
theorem identity_syntaxNode {node : SyntaxRef} (h : ¬ scene.HasOwnKey node) :
    scene.identity (.syntaxNode node) = .ok (.value (.syntaxNode node)) := by
  have hnone : (scene.syntaxEntry? node).bind (·.attribute? SyntaxEntry.keyAttribute) = none := by
    rw [Option.bind_eq_none_iff]
    intro entry hentry
    rw [Option.eq_none_iff_forall_ne_some]
    exact fun description hkey => h ⟨entry, description, hentry, hkey⟩
  simp only [identity, key, hnone]
  rfl

/-- So keys tell nodes apart if none of them has one. -/
theorem keysApart_of_unkeyed
    (h : ∀ node, scene.SyntaxReaches root node → ¬ scene.HasOwnKey node) : scene.KeysApart root := by
  rintro a b ha hb ⟨k, l, hk, hl, heq⟩
  rw [scene.identity_syntaxNode (h a ha)] at hk
  rw [scene.identity_syntaxNode (h b hb)] at hl
  cases hk
  cases hl
  exact Key.eq_of_compare_syntaxNode heq

/-- A node that has a key in its attributes goes by it, if it can be one. -/
theorem identity_syntaxNode_of_value {node : SyntaxRef} {entry : SyntaxEntry} {v : Value}
    (hentry : scene.syntaxEntry? node = some entry)
    (hkey : entry.attribute? SyntaxEntry.keyAttribute = some (.value v))
    (hhashable : v.unhashablePart? = none) :
    scene.identity (.syntaxNode node) = .ok (.value v) := by
  have hown : scene.key (.syntaxNode node) = .ok (.value v) := by
    simp only [key, hentry, Option.bind_some, hkey]
    rfl
  have hnone : (Key.value v).unhashablePart? = none := hhashable
  simp only [identity, hown, Bind.bind, Except.bind, hnone]
  rfl

/-! ## §3 Lookups -/

/-- A walk can take the node: it has a key, its class lies below the class of all syntax nodes, and
its children can be listed. -/
structure Takes (node : SyntaxRef) : Prop where
  keyed : ∃ key, scene.identity (.syntaxNode node) = .ok key
  below : SyntaxTree.rootClass ∈ SyntaxTree.lineage node.cls
  listed : ∃ kids, scene.syntaxChildren node = .ok kids

end Scene

/-- Only the class of all syntax nodes has an adapter. -/
theorem ValueRegistry.resolve_standard_eq_some_iff {order : List NodeClass} {adapter : Adapter} :
    ValueRegistry.standard.resolve order = some adapter ↔
      adapter = .syntaxTree ∧ syntaxRoot ∈ order := by
  induction order with
  | nil => simp [Registry.resolve]
  | cons cls later ih =>
    rw [Registry.resolve] at ih ⊢
    by_cases hroot : syntaxRoot = cls
    · have hfound : (ValueRegistry.standard.find? cls).join = some .syntaxTree := by
        rw [← hroot]
        rfl
      rw [List.findSome?_cons, hfound]
      simp [hroot, eq_comm]
    · have hnone : (ValueRegistry.standard.find? cls).join = none := by
        rw [ValueRegistry.standard, OrderedMap.find?_singleton, if_neg hroot]
        rfl
      rw [List.findSome?_cons, hnone]
      simpa [hroot] using ih

namespace Scene

variable (scene : Scene) {root node : SyntaxRef} {kids : List Value}

theorem mem_order_syntaxNode :
    syntaxRoot ∈ (Value.syntaxNode node).nodeClass.order ↔
      SyntaxTree.rootClass ∈ SyntaxTree.lineage node.cls := by
  simp [Value.nodeClass, NodeClass.order, syntaxRoot]

/-- The children of a node are listed at once. -/
theorem perform_children_syntaxNode (hbelow : SyntaxTree.rootClass ∈ SyntaxTree.lineage node.cls)
    (hkids : scene.syntaxChildren node = .ok kids) (s : ValueState) (memory : Memory) :
    (scene.children .standard (.syntaxNode node) s).perform memory =
      (.ok (.ok (.ofNodes kids)), memory) := by
  unfold children
  rw [ValueRegistry.resolve_standard_eq_some_iff.2 ⟨rfl, mem_order_syntaxNode.2 hbelow⟩]
  simp only [adapt, hkids]
  rfl

/-- Whatever is listed is the children. -/
theorem of_perform_children_syntaxNode {s : ValueState} {memory left : Memory}
    {pulls : Pulls Memory Fault Value}
    (h : (scene.children .standard (.syntaxNode node) s).perform memory = (.ok (.ok pulls), left)) :
    SyntaxTree.rootClass ∈ SyntaxTree.lineage node.cls ∧
      ∃ kids, scene.syntaxChildren node = .ok kids ∧ pulls = .ofNodes kids := by
  unfold children at h
  split at h
  · rename_i adapter hadapter
    obtain ⟨rfl, hmem⟩ := ValueRegistry.resolve_standard_eq_some_iff.1 hadapter
    refine ⟨mem_order_syntaxNode.1 hmem, ?_⟩
    cases hkids : scene.syntaxChildren node with
    | error e =>
      simp only [adapt, hkids] at h
      cases h
    | ok kids =>
      simp only [adapt, hkids] at h
      cases h
      exact ⟨kids, rfl, rfl⟩
  · cases h

/-- The children of a node are syntax nodes. -/
theorem exists_of_mem_syntaxChildren (hkids : scene.syntaxChildren node = .ok kids) {kid : Value}
    (hkid : kid ∈ kids) : ∃ n, Value.syntaxNode n = kid := by
  have hnodes : ∀ v : Value, syntaxChildren.isNode v = true → ∃ n, Value.syntaxNode n = v := by
    intro v hv
    cases v <;> first | exact ⟨_, rfl⟩ | cases hv
  have hfiltered : ∀ v : Value, kid ∈ syntaxChildren.nodesIn v → syntaxChildren.isNode kid = true := by
    intro v hv
    unfold syntaxChildren.nodesIn at hv
    split at hv <;> exact (List.mem_filter.1 hv).2
  unfold syntaxChildren at hkids
  split at hkids
  · cases hkids
    cases hkid
  · rename_i entry hentry
    cases hnames : scene.fieldNames entry with
    | error e =>
      rw [hnames] at hkids
      cases hkids
    | ok names =>
      have hread : (read.readAll scene (names.filterMap entry.attribute?)).map
          (List.flatMap syntaxChildren.nodesIn) = .ok kids := by
        rw [hnames] at hkids
        exact hkids
      cases hvalues : read.readAll scene (names.filterMap entry.attribute?) with
      | error e =>
        rw [hvalues] at hread
        cases hread
      | ok values =>
        rw [hvalues] at hread
        cases hread
        obtain ⟨value, -, hvalue⟩ := List.mem_flatMap.1 hkid
        exact hnodes kid (hfiltered value hvalue)

/-- The value is a syntax node that is reached from the root. -/
def IsReached (root : SyntaxRef) (v : Value) : Prop :=
  ∃ n, scene.SyntaxReaches root n ∧ Value.syntaxNode n = v

/-- The children of a value that is a syntax node; none where they cannot be listed. -/
def syntaxKids : Value → List Value
  | .syntaxNode n => (scene.syntaxChildren n).toOption.getD []
  | _ => []

theorem syntaxKids_of_ok (hkids : scene.syntaxChildren node = .ok kids) :
    scene.syntaxKids (.syntaxNode node) = kids := by
  rw [syntaxKids, hkids]
  rfl

/-- Children of reached nodes are reached. -/
theorem IsReached.of_mem_syntaxKids {scene : Scene} {v kid : Value} (hv : scene.IsReached root v)
    (hkid : kid ∈ scene.syntaxKids v) : scene.IsReached root kid := by
  obtain ⟨n, hn, rfl⟩ := hv
  cases hkids : scene.syntaxChildren n with
  | error e =>
    rw [syntaxKids, hkids] at hkid
    cases hkid
  | ok kids =>
    rw [scene.syntaxKids_of_ok hkids] at hkid
    obtain ⟨m, rfl⟩ := scene.exists_of_mem_syntaxChildren hkids hkid
    exact ⟨m, hn.tail ⟨kids, hkids, hkid⟩, rfl⟩

variable {A : Type} {limits : Limits} {evaluator : FoldOver A}
  {listener : Option (Listener Value Heard)}

/-- The nodes of a walk over syntax nodes, and their children. -/
theorem lists_syntaxNodes (root : SyntaxRef) :
    (scene.setting .standard limits evaluator listener).Lists (fun _ => True)
      (scene.IsReached root) scene.syntaxKids where
  lookup v s memory pulls left hv _ h := by
    obtain ⟨n, -, rfl⟩ := hv
    obtain ⟨-, kids, hkids, rfl⟩ := scene.of_perform_children_syntaxNode h
    rw [scene.syntaxKids_of_ok hkids]
    exact forall₂_yields_ofNodes kids
  isNode_of_mem _ _ hv hkid := hv.of_mem_syntaxKids hkid
  context _ _ _ _ _ _ _ _ _ _ := trivial

/-- There are finitely many keys of nodes that are reached. -/
theorem exists_keys (root : SyntaxRef) :
    ∃ keys : List Key, ∀ v own, scene.IsReached root v → scene.identity v = .ok own →
      ∃ key ∈ keys, compare own key = .eq := by
  obtain ⟨all, hall⟩ := scene.exists_list_of_syntaxReaches root
  refine ⟨all.filterMap fun n => (scene.identity (.syntaxNode n)).toOption, ?_⟩
  rintro _ own ⟨n, hn, rfl⟩ hown
  refine ⟨own, List.mem_filterMap.2 ⟨n, hall n hn, ?_⟩, Std.ReflCmp.compare_self⟩
  rw [hown]
  rfl

/-- A walk that goes on everywhere cannot fail over nodes that it can take. -/
theorem total_syntaxNodes (htakes : ∀ n, scene.SyntaxReaches root n → scene.Takes n)
    (hgoes : evaluator.GoesOn) (hlimit : limits.maxDepth = none) :
    (scene.setting .standard limits evaluator listener).Total (fun _ => True)
      (scene.IsReached root) where
  identity v hv := by
    obtain ⟨n, hn, rfl⟩ := hv
    exact (htakes n hn).keyed
  limit := hlimit
  answers v s value memory _ _ := by
    obtain ⟨folded, left, hcall⟩ := hgoes v s value memory
    exact ⟨_, left, s, hcall, rfl, trivial⟩
  lookup v s memory hv _ := by
    obtain ⟨n, hn, rfl⟩ := hv
    obtain ⟨kids, hkids⟩ := (htakes n hn).listed
    exact ⟨_, _, scene.perform_children_syntaxNode (htakes n hn).below hkids s memory,
      Setting.delivers_ofNodes kids⟩

end Scene

end GraphFold
