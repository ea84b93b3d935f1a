/-
GraphFold.Proofs.SyntaxTree.Modules — parsed modules, and the walks over them.

The nodes a parser makes of a source refer to each other by position. Each has a
class of syntax nodes, and attributes only for fields that its class declares,
so none of them is taken for a key or for fields of the node's own, and a node
that is shared has none at all. What a field holds can be read: a node of the
module, a value without nodes in it, or a list of these. So every node that is
reached from the root is one of the module that a walk can take, nodes are their
own keys, and a walk that goes on everywhere arrives at each of them once.

  §1 Fields  — the names a class declares.
  §2 Parsed  — `Census.ParsedModule`.
  §3 Nodes   — `Census.IsModuleNode`, and what is reached from the root.
  §4 Walks   — `Scene.exists_arrivals`.
-/
import GraphFold.Proofs.SyntaxTree.Counters
import GraphFold.Proofs.Walk.Arrivals

namespace GraphFold

/-! ## §1 Fields -/

namespace SyntaxTree

/-- The fields of families and of their members are under none of these names. -/
theorem reserved_not_mem_fields : ∀ f ∈ families, ∀ fields ∈ f.fields :: f.members.map Prod.snd,
    SyntaxEntry.keyAttribute ∉ fields ∧ SyntaxEntry.fieldsAttribute ∉ fields := by
  decide +kernel

/-- What a class declares is what a family or a member of one does, or nothing. -/
theorem declaredFields_cases (cls : String) : declaredFields cls = [] ∨
    ∃ f ∈ families, declaredFields cls ∈ f.fields :: f.members.map Prod.snd := by
  unfold declaredFields standing?
  by_cases hroot : cls = rootClass
  · rw [if_pos hroot]
    exact .inl rfl
  · rw [if_neg hroot]
    cases hfound : families.findSome? fun f =>
        if f.name = cls then some (Standing.family f) else (f.member? cls).map (.member f) with
    | none => exact .inl rfl
    | some standing =>
      obtain ⟨f, hf, hstanding⟩ := List.exists_of_findSome?_eq_some hfound
      refine .inr ⟨f, hf, ?_⟩
      split at hstanding
      · cases hstanding
        exact List.mem_cons_self
      · obtain ⟨fields, hmember, rfl⟩ := Option.map_eq_some_iff.1 hstanding
        obtain ⟨member, hfind, rfl⟩ := Option.map_eq_some_iff.1 hmember
        exact List.mem_cons_of_mem _ (List.mem_map_of_mem (List.mem_of_find?_eq_some hfind))

/-- So no class declares a field that would be taken for a key or for names of fields. -/
theorem reserved_not_mem_declaredFields (cls : String) :
    SyntaxEntry.keyAttribute ∉ declaredFields cls ∧
      SyntaxEntry.fieldsAttribute ∉ declaredFields cls := by
  rcases declaredFields_cases cls with hnone | ⟨f, hf, hfields⟩
  · simp [hnone]
  · exact reserved_not_mem_fields f hf _ hfields

/-- The name under which an attribute is kept is its own, or one that replaces an older one. -/
theorem attributeMeant_cases (cls name : String) : attributeMeant cls name = name ∨
    attributeMeant cls name ∈ olderNames.map fun entry => entry.2.2 := by
  unfold attributeMeant
  split
  · rename_i older hfind
    exact .inr (List.mem_map_of_mem (List.mem_of_find?_eq_some hfind))
  · exact .inl rfl

end SyntaxTree

/-- An entry has no attribute of a name that is new, and that none of its attributes has. -/
theorem SyntaxEntry.attribute?_eq_none {e : SyntaxEntry} {name : String}
    (hkept : name ∉ SyntaxTree.olderNames.map fun entry => entry.2.2)
    (hmeant : SyntaxTree.attributeMeant e.cls name = name)
    (hnone : ∀ a ∈ e.attributes, a.1 ≠ name) : e.attribute? name = none := by
  rw [attribute?, Option.map_eq_none_iff, List.find?_eq_none]
  intro a ha heq
  rw [beq_iff_eq, hmeant] at heq
  rcases SyntaxTree.attributeMeant_cases e.cls a.1 with hown | holder
  · exact hnone a (List.mem_reverse.1 ha) (hown.symm.trans heq)
  · exact hkept (heq ▸ holder)

/-! ## §2 Parsed -/

/-- A node of a module of this size, or a value with no syntax node in it. -/
def Description.isPart (module : String) (size : Nat) : Description → Bool
  | .entry name index => name == module && decide (index < size)
  | .value v => (Scene.syntaxChildren.nodesIn v).isEmpty
  | _ => false

/-- What a field of a node of the module holds: one of these, or a list of them. -/
def Description.isField (module : String) (size : Nat) : Description → Bool
  | .list items => items.all (isPart module size)
  | d => d.isPart module size

/-- A node of the module: its class is one of syntax nodes, and its attributes are fields that the
class declares. -/
structure SyntaxEntry.Parsed (module : String) (size : Nat) (e : SyntaxEntry) : Prop where
  below : SyntaxTree.rootClass ∈ SyntaxTree.lineage e.cls
  declared : ∀ a ∈ e.attributes, a.1 ∈ SyntaxTree.declaredFields e.cls
  fields : ∀ a ∈ e.attributes, a.2.isField module size = true

namespace SyntaxEntry.Parsed

variable {module : String} {size : Nat} {e : SyntaxEntry}

/-- A parsed node has no key of its own, -/
theorem attribute?_key (h : e.Parsed module size) : e.attribute? keyAttribute = none := by
  refine attribute?_eq_none (by decide +kernel) ?_ fun a ha heq =>
    (SyntaxTree.reserved_not_mem_declaredFields e.cls).1 (heq ▸ h.declared a ha)
  simp [SyntaxTree.attributeMeant, SyntaxTree.olderNames, keyAttribute]

/-- and no fields of its own. -/
theorem attribute?_fields (h : e.Parsed module size) : e.attribute? fieldsAttribute = none := by
  refine attribute?_eq_none (by decide +kernel) ?_ fun a ha heq =>
    (SyntaxTree.reserved_not_mem_declaredFields e.cls).2 (heq ▸ h.declared a ha)
  simp [SyntaxTree.attributeMeant, SyntaxTree.olderNames, fieldsAttribute]

/-- Whatever attribute it is asked for holds what a field does. -/
theorem isField_of_attribute? (h : e.Parsed module size) {name : String} {d : Description}
    (hd : e.attribute? name = some d) : d.isField module size = true := by
  obtain ⟨a, hfind, rfl⟩ := Option.map_eq_some_iff.1 hd
  exact h.fields a (List.mem_reverse.1 (List.mem_of_find?_eq_some hfind))

end SyntaxEntry.Parsed

namespace Census

/-- The nodes of a parsed module: a root, and all of them parsed. -/
structure ParsedModule (nodes : Array SyntaxEntry) : Prop where
  root : 0 < nodes.size
  nodes : ∀ e ∈ nodes, e.Parsed moduleName nodes.size

/-! ## §3 Nodes -/

/-- A node at a position of the module. -/
def IsModuleNode (nodes : Array SyntaxEntry) (node : SyntaxRef) : Prop :=
  ∃ index, (sceneOf nodes).moduleNode moduleName index = .ok (.syntaxNode node)

variable {nodes : Array SyntaxEntry} {node root : SyntaxRef}

theorem modules_sceneOf (nodes : Array SyntaxEntry) (module : String) :
    (sceneOf nodes).modules[module]? = if module = moduleName then some nodes else none := by
  have hinsert : (sceneOf nodes).modules[module]? =
      if moduleName == module then some nodes else (∅ : Std.HashMap String _)[module]? :=
    Std.HashMap.getElem?_insert
  rw [hinsert, Std.HashMap.getElem?_empty]
  simp only [beq_iff_eq, eq_comm (a := moduleName)]

/-- Only nodes of the module have an entry. -/
theorem mem_of_entry_eq {e : SyntaxEntry}
    (h : Scene.syntaxEntry? (sceneOf nodes) node = some e) : e ∈ nodes := by
  unfold Scene.syntaxEntry? at h
  split at h
  case h_1 =>
    rw [show (sceneOf nodes).listed = ∅ from rfl, Std.HashMap.getElem?_empty] at h
    cases h
  case h_3 module index _ =>
    rw [modules_sceneOf] at h
    split at h
    · exact Array.mem_of_getElem? h
    · cases h
  all_goals cases h

/-- The node at a position is that of the entry. -/
theorem moduleNode_sceneOf {index : Nat} {e : SyntaxEntry} (h : nodes[index]? = some e) :
    (sceneOf nodes).moduleNode moduleName index = .ok (.syntaxNode (e.toRef
      (if SyntaxTree.isShared e.cls then .shared e.cls else .entry moduleName index))) := by
  unfold Scene.moduleNode
  rw [modules_sceneOf, if_pos rfl, Option.bind_some, h]

theorem IsModuleNode.exists_entry (h : IsModuleNode nodes node) :
    ∃ e ∈ nodes, node.cls = e.cls := by
  obtain ⟨index, hindex⟩ := h
  unfold Scene.moduleNode at hindex
  rw [modules_sceneOf, if_pos rfl, Option.bind_some] at hindex
  split at hindex
  · rename_i e he
    cases hindex
    exact ⟨e, Array.mem_of_getElem? he, rfl⟩
  · cases hindex

/-- The value holds no syntax nodes but such of the module. -/
def HoldsModuleNodes (nodes : Array SyntaxEntry) (v : Value) : Prop :=
  ∀ node, .syntaxNode node ∈ Scene.syntaxChildren.nodesIn v → IsModuleNode nodes node

/-- What may stand in a list can be read: a node of the module, or a value with no node in it. -/
theorem exists_read_of_isPart {d : Description} (h : d.isPart moduleName nodes.size = true) :
    ∃ v, (sceneOf nodes).read d = .ok v ∧
      ((∃ node, v = .syntaxNode node ∧ IsModuleNode nodes node) ∨
        Scene.syntaxChildren.nodesIn v = []) := by
  cases d with
  | entry module index =>
    simp only [Description.isPart, Bool.and_eq_true, beq_iff_eq, decide_eq_true_eq] at h
    obtain ⟨rfl, hindex⟩ := h
    have hnode := moduleNode_sceneOf (Array.getElem?_eq_getElem hindex)
    exact ⟨_, hnode, .inl ⟨_, rfl, index, hnode⟩⟩
  | value v => exact ⟨v, rfl, .inr (List.isEmpty_iff.1 h)⟩
  | _ => cases h

theorem holdsModuleNodes_of_part {v : Value}
    (h : (∃ node, v = .syntaxNode node ∧ IsModuleNode nodes node) ∨
      Scene.syntaxChildren.nodesIn v = []) : HoldsModuleNodes nodes v := by
  intro node hnode
  rcases h with ⟨own, rfl, hown⟩ | hnone
  · cases List.mem_singleton.1 hnode
    exact hown
  · rw [hnone] at hnode
    cases hnode

/-- Descriptions that can be read one by one can be read together. -/
theorem exists_readAll {scene : Scene} {P : Value → Prop} {items : List Description}
    (h : ∀ d ∈ items, ∃ v, scene.read d = .ok v ∧ P v) :
    ∃ values, Scene.read.readAll scene items = .ok values ∧ ∀ v ∈ values, P v := by
  induction items with
  | nil => exact ⟨[], rfl, fun v hv => by cases hv⟩
  | cons d later ih =>
    obtain ⟨⟨v, hv, hP⟩, hlater⟩ := List.forall_mem_cons.1 h
    obtain ⟨values, hvalues, hPs⟩ := ih hlater
    refine ⟨v :: values, ?_, List.forall_mem_cons.2 ⟨hP, hPs⟩⟩
    rw [Scene.read.readAll, hv, hvalues]
    rfl

/-- So can what a field holds. -/
theorem exists_read_of_isField {d : Description} (h : d.isField moduleName nodes.size = true) :
    ∃ v, (sceneOf nodes).read d = .ok v ∧ HoldsModuleNodes nodes v := by
  by_cases hlist : ∃ items, d = .list items
  · obtain ⟨items, rfl⟩ := hlist
    obtain ⟨values, hvalues, hparts⟩ := exists_readAll fun item hitem =>
      exists_read_of_isPart (List.all_eq_true.1 h item hitem)
    refine ⟨.list values, ?_, fun node hnode => ?_⟩
    · rw [Scene.read, hvalues]
      rfl
    · obtain ⟨hmem, -⟩ := List.mem_filter.1 hnode
      exact holdsModuleNodes_of_part (hparts _ hmem) node List.mem_cons_self
  · have hpart : d.isPart moduleName nodes.size = true := by
      cases d with
      | list items => exact absurd ⟨items, rfl⟩ hlist
      | _ => exact h
    obtain ⟨v, hv, hnode⟩ := exists_read_of_isPart hpart
    exact ⟨v, hv, holdsModuleNodes_of_part hnode⟩

namespace ParsedModule

variable (h : ParsedModule nodes)

include h

theorem not_hasOwnKey (node : SyntaxRef) : ¬ (sceneOf nodes).HasOwnKey node := by
  rintro ⟨e, d, hentry, hkey⟩
  rw [(h.nodes e (mem_of_entry_eq hentry)).attribute?_key] at hkey
  cases hkey

/-- The children of every node can be listed, and are nodes of the module. -/
theorem exists_syntaxChildren (node : SyntaxRef) :
    ∃ kids, (sceneOf nodes).syntaxChildren node = .ok kids ∧
      ∀ kid, .syntaxNode kid ∈ kids → IsModuleNode nodes kid := by
  unfold Scene.syntaxChildren
  cases hentry : Scene.syntaxEntry? (sceneOf nodes) node with
  | none => exact ⟨[], rfl, fun kid hkid => by cases hkid⟩
  | some e =>
    have he := h.nodes e (mem_of_entry_eq hentry)
    have hnames : (sceneOf nodes).fieldNames e = .ok (SyntaxTree.declaredFields e.cls) := by
      unfold Scene.fieldNames
      rw [he.attribute?_fields]
    have hfields : ∀ d ∈ (SyntaxTree.declaredFields e.cls).filterMap e.attribute?,
        ∃ v, (sceneOf nodes).read d = .ok v ∧ HoldsModuleNodes nodes v := fun d hd => by
      obtain ⟨name, -, hname⟩ := List.mem_filterMap.1 hd
      exact exists_read_of_isField (he.isField_of_attribute? hname)
    obtain ⟨values, hvalues, hheld⟩ := exists_readAll hfields
    refine ⟨values.flatMap Scene.syntaxChildren.nodesIn, ?_, fun kid hkid => ?_⟩
    · simp only [hnames, hvalues, Bind.bind, Except.bind]
      rfl
    · obtain ⟨v, hv, hkid⟩ := List.mem_flatMap.1 hkid
      exact hheld v hv kid hkid

/-- The module has a root. -/
theorem exists_root : ∃ root,
    (sceneOf nodes).read (.entry moduleName 0) = .ok (.syntaxNode root) ∧
      IsModuleNode nodes root := by
  have hroot := moduleNode_sceneOf (Array.getElem?_eq_getElem h.root)
  exact ⟨_, hroot, 0, hroot⟩

/-- Whatever is reached from a node of the module is one, -/
theorem isModuleNode_of_reaches (hroot : IsModuleNode nodes root)
    (hnode : (sceneOf nodes).SyntaxReaches root node) : IsModuleNode nodes node := by
  induction hnode with
  | refl => exact hroot
  | @tail a b _ hleads _ =>
    obtain ⟨kids, hkids, hkid⟩ := hleads
    obtain ⟨listed, hlisted, hmodule⟩ := h.exists_syntaxChildren a
    rw [hkids] at hlisted
    cases hlisted
    exact hmodule b hkid

/-- and a walk can take it. -/
theorem takes (hroot : IsModuleNode nodes root)
    (hnode : (sceneOf nodes).SyntaxReaches root node) : (sceneOf nodes).Takes node := by
  obtain ⟨e, he, hcls⟩ := (h.isModuleNode_of_reaches hroot hnode).exists_entry
  obtain ⟨kids, hkids, -⟩ := h.exists_syntaxChildren node
  exact ⟨⟨_, (sceneOf nodes).identity_syntaxNode (h.not_hasOwnKey node)⟩,
    hcls ▸ (h.nodes e he).below, kids, hkids⟩

end ParsedModule

end Census

/-! ## §4 Walks -/

namespace Scene

variable (scene : Scene) {root : SyntaxRef}

/-- The children of a syntax node that are syntax nodes. -/
def nodesBelow (node : SyntaxRef) : List SyntaxRef :=
  syntaxNodesIn (scene.syntaxKids (.syntaxNode node))

theorem mem_nodesBelow {a b : SyntaxRef} : b ∈ scene.nodesBelow a ↔ scene.SyntaxLeads a b := by
  rw [nodesBelow, mem_syntaxNodesIn]
  constructor
  · intro hb
    cases hkids : scene.syntaxChildren a with
    | error e =>
      rw [syntaxKids, hkids] at hb
      cases hb
    | ok kids => exact ⟨kids, hkids, scene.syntaxKids_of_ok hkids ▸ hb⟩
  · rintro ⟨kids, hkids, hb⟩
    rwa [scene.syntaxKids_of_ok hkids]

/-- If they can be listed, they are all its children. -/
theorem map_nodesBelow {node : SyntaxRef} {kids : List Value}
    (hkids : scene.syntaxChildren node = .ok kids) :
    (scene.nodesBelow node).map .syntaxNode = kids := by
  have hnodes : ∀ kid ∈ kids, ∃ n, Value.syntaxNode n = kid := fun kid hkid =>
    scene.exists_of_mem_syntaxChildren hkids hkid
  rw [nodesBelow, scene.syntaxKids_of_ok hkids]
  clear hkids
  induction kids with
  | nil => rfl
  | cons kid later ih =>
    obtain ⟨⟨n, rfl⟩, hlater⟩ := List.forall_mem_cons.1 hnodes
    exact congrArg (.syntaxNode n :: ·) (ih hlater)

/-- The children of a node of a module are those its fields hold. -/
theorem nodesBelow_entry {nodes : Array SyntaxEntry} {index : Nat} {e : SyntaxEntry}
    {values : List Value} (hentry : nodes[index]? = some e)
    (hown : e.attribute? SyntaxEntry.fieldsAttribute = none)
    (hread : read.readAll (Census.sceneOf nodes)
      ((SyntaxTree.declaredFields e.cls).filterMap e.attribute?) = .ok values) :
    (Census.sceneOf nodes).nodesBelow (e.toRef (.entry Census.moduleName index)) =
      syntaxNodesIn (values.flatMap syntaxChildren.nodesIn) := by
  have hentry' : Scene.syntaxEntry? (Census.sceneOf nodes)
      (e.toRef (.entry Census.moduleName index)) = some e := by
    unfold syntaxEntry? SyntaxEntry.toRef
    dsimp only
    rw [Census.modules_sceneOf, if_pos rfl, Option.bind_some, hentry]
  have hkids : (Census.sceneOf nodes).syntaxChildren (e.toRef (.entry Census.moduleName index)) =
      .ok (values.flatMap syntaxChildren.nodesIn) := by
    unfold syntaxChildren
    simp only [hentry', fieldNames, hown, hread, Bind.bind, Except.bind]
    rfl
  rw [nodesBelow, syntaxKids_of_ok _ hkids]

/-- The nodes that are reached from a root. -/
abbrev Reached (root : SyntaxRef) : Type := { node : SyntaxRef // scene.SyntaxReaches root node }

/-- The children of a node that is reached, which are reached as well. -/
def reachedBelow (node : scene.Reached root) : List (scene.Reached root) :=
  (scene.nodesBelow node.1).attachWith (scene.SyntaxReaches root) fun _ hkid =>
    node.2.tail (scene.mem_nodesBelow.1 hkid)

theorem map_val_reachedBelow (node : scene.Reached root) :
    (scene.reachedBelow node).map Subtype.val = scene.nodesBelow node.1 :=
  List.attachWith_map_subtype_val ..

/-- Walks over nodes that can be taken and have no keys of their own unfold them. -/
theorem unfolds_reached (htakes : ∀ n, scene.SyntaxReaches root n → scene.Takes n)
    (hkeys : ∀ n, scene.SyntaxReaches root n → ¬ scene.HasOwnKey n) {A : Type} {limits : Limits}
    {evaluator : FoldOver A} {listener : Option (Listener Value Heard)}
    (hgoes : evaluator.GoesOn) (hlimit : limits.maxDepth = none) :
    (scene.setting .standard limits evaluator listener).Unfolds
      (fun node : scene.Reached root => .syntaxNode node.1)
      (fun node => .value (.syntaxNode node.1)) scene.reachedBelow where
  unlimited := hlimit
  goesOn := hgoes
  identity_eq node := scene.identity_syntaxNode (hkeys node.1 node.2)
  injective a b heq := Subtype.ext (Key.eq_of_compare_syntaxNode heq)
  children_eq node s memory := by
    obtain ⟨-, hbelow, kids, hkids⟩ := htakes node.1 node.2
    show (scene.children .standard (.syntaxNode node.1) s).perform memory = _
    rw [scene.perform_children_syntaxNode hbelow hkids, ← scene.map_nodesBelow hkids,
      ← map_val_reachedBelow, List.map_map]
    rfl

/-- A walk arrives at the nodes that are reached, and at no others. -/
theorem mem_arrivals {arrivals : List (SyntaxRef × List SyntaxRef)}
    (h : Arrivals scene.nodesBelow [] [] [root] arrivals) {node : SyntaxRef} :
    node ∈ arrivals.map Prod.fst ↔ scene.SyntaxReaches root node := by
  rw [h.mem_iff]
  simp only [mem_nodesBelow]
  rfl

/-- If all nodes that are reached can be taken and have no keys of their own, then there are first
arrivals at them, and walks that go on everywhere make these calls and come to their ends. -/
theorem exists_arrivals (htakes : ∀ n, scene.SyntaxReaches root n → scene.Takes n)
    (hkeys : ∀ n, scene.SyntaxReaches root n → ¬ scene.HasOwnKey n) :
    ∃ arrivals, Arrivals scene.nodesBelow [] [] [root] arrivals ∧
      ∀ {A : Type} (limits : Limits) (evaluator : FoldOver A)
        (listener : Option (Listener Value Heard)), limits.maxDepth = none → evaluator.GoesOn →
        ∀ (context : Context) (value : A) (memory : Memory) (heard : Heard), ∃ enough c,
          (∀ budget, enough ≤ budget → (scene.setting .standard limits evaluator listener).reduce
            budget (.syntaxNode root) context value memory heard = .finished c) ∧
          c.visited = arrivals.map fun v => (.syntaxNode v.1, v.2.map .syntaxNode) := by
  classical
  obtain ⟨all, hall⟩ := scene.exists_list_of_syntaxReaches root
  have hlisted : ∀ n : scene.Reached root, True →
      n ∈ all.toFinset.subtype (scene.SyntaxReaches root) := fun n _ =>
    Finset.mem_subtype.2 (List.mem_toFinset.2 (hall n.1 n.2))
  have hstart : scene.SyntaxReaches root root := .refl
  obtain ⟨arrivals, harrivals⟩ :
      ∃ arrivals, Arrivals scene.reachedBelow [] [] [⟨root, hstart⟩] arrivals :=
    Arrivals.exists_of_finset hlisted (fun _ _ _ _ => trivial) (Nat.le_refl _) fun _ _ => trivial
  refine ⟨_, harrivals.map Subtype.val_injective fun n => (scene.map_val_reachedBelow n).symm, ?_⟩
  intro A limits evaluator listener hlimit hgoes context value memory heard
  have hunfolds : (scene.setting .standard limits evaluator listener).Unfolds _ _ _ :=
    scene.unfolds_reached htakes hkeys hgoes hlimit
  obtain ⟨enough, c, hend, hvisited⟩ :=
    hunfolds.exists_reduce_arrivals harrivals context value memory heard
  refine ⟨enough, c, hend, hvisited.trans ?_⟩
  rw [List.map_map]
  refine List.map_congr_left fun v _ => ?_
  simp

end Scene

end GraphFold
