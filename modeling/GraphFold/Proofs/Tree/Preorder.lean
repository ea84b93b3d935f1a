/-
GraphFold.Proofs.Tree.Preorder — a walk over a tree in buffers is its preorder.

The walk reads the child buffers only, and knows of the parents only what it has
come through. Where the buffers describe one tree the two agree: a walk on which
every answer is to go on calls each node once, in preorder, and the path it has
come by is the chain of parents.

  §1 Nodes — keys and children of the nodes of a tree.
  §2 Walks — `Scene.walks_in_preorder`.
-/
import GraphFold.Proofs.Tree.Shape
import GraphFold.Proofs.Value.Codes
import GraphFold.Scene.Reduction

namespace GraphFold

/-! ## §1 Nodes -/

namespace Owner

/-- The node at an index of a tree. -/
def treeNode (t : Owner ArrayTree) (i : Nat) : Value := .treeNode t (.int i)

/-- Its key. -/
def treeKey (t : Owner ArrayTree) (i : Nat) : Key := .place .tree t.serial t.name (.int i)

variable {t : Owner ArrayTree}

theorem rootNode?_eq {root : Nat} (h : t.content.Consistent root) :
    t.rootNode? = .ok (t.treeNode root) := by
  rw [rootNode?, h.root?_eq]
  rfl

theorem identity_treeNode (scene : Scene) (i : Nat) :
    scene.identity (t.treeNode i) = .ok (t.treeKey i) := rfl

theorem treeKey_injective {i j : Nat} (h : compare (t.treeKey i) (t.treeKey j) = .eq) : i = j := by
  have hcode : ∀ k, (t.treeKey k).code = [13, (t.serial : Int), 1, (k : Int)] := fun k => rfl
  have hcodes := Key.compare_eq_iff.1 h
  rw [hcode, hcode] at hcodes
  exact Int.natCast_inj.1 (by simpa using hcodes)

theorem perform_children_treeNode {registry : ValueRegistry}
    (hregistry : registry.resolve NodeClass.treeNode.order = none) (ht : t.content.InRange)
    (scene : Scene) (i : Nat) (s : ValueState) (memory : Memory) :
    (scene.children registry (t.treeNode i) s).perform memory =
      (.ok (.ok (.ofNodes ((t.content.kids i).map t.treeNode))), memory) := by
  have hchildren : t.content.childrenAt (Value.int i).givenIndex =
      .ok ((t.content.kids i).map Int.ofNat) := by
    show (t.content.childIndices (.int i)).mapError Fault.pick = _
    rw [ht.childIndices_eq]
    rfl
  rw [scene.children_eq_own (t.treeNode i) s hregistry rfl]
  simp only [treeNode, Scene.ownChildren, hchildren, Action.perform_bind, Action.perform_ofExcept,
    Action.perform_pure, ValueListing.ofValues, List.map_map]
  rfl

end Owner

/-! ## §2 Walks -/

variable {A : Type}

/-- What a walk over a tree comes to that goes on at every node: each node is called once, in
preorder, under the chain of its parents, and nothing is skipped. -/
structure WalksPreorder (t : Owner ArrayTree) (root : Nat) (order : List Nat) (c : ValueConfig A) :
    Prop where
  preorder : t.content.Preorder root order
  all_once : order.Perm (List.range t.content.size)
  calls_eq : c.calls.map (fun call => call.node) = order.map t.treeNode
  evaluations_eq : c.evaluations = t.content.size
  events_eq : c.events.map (fun e => (e.kind, e.node)) =
    order.map fun i => (.descend, t.treeNode i)
  paths : ∀ call ∈ c.calls, ∃ i chain, call.node = t.treeNode i ∧ t.content.Lineage i chain ∧
    call.state.path = chain.reverse.map t.treeNode

/-- It is what the visits to the nodes come to. -/
theorem WalksPreorder.of_makes {t : Owner ArrayTree} {root : Nat} {visits : List (Nat × List Nat)}
    {node : Value} {context : Context} {value : A} {memory : Memory} {heard : Heard}
    {c : ValueConfig A} (hconsistent : t.content.Consistent root)
    (hvisits : Visits t.content.kids [] [root] visits)
    (hpreorder : t.content.Preorder root (visits.map Prod.fst))
    (hmakes : (Config.start node context value memory heard).Makes t.treeNode t.treeKey c visits)
    (hcount : c.evaluations = visits.length) :
    WalksPreorder t root (visits.map Prod.fst) c := by
  have hperm := hconsistent.perm_range hvisits
  have hvisited : c.visited = visits.map fun v => (t.treeNode v.1, v.2.map t.treeNode) :=
    hmakes.visited_eq
  have htold : c.told = visits.map fun v => (.descend, t.treeNode v.1) := hmakes.told_eq
  refine ⟨hpreorder, hperm, ?_, ?_, ?_, fun call hcall => ?_⟩
  · have hnodes := congrArg (List.map Prod.fst) hvisited
    rw [Config.visited, List.map_map, List.map_map] at hnodes
    rw [List.map_map]
    exact hnodes
  · have hlength := hperm.length_eq
    rw [List.length_map, List.length_range] at hlength
    rw [hcount, hlength]
  · rw [List.map_map]
    exact htold
  · have hmem : (call.node, call.state.ancestors) ∈ c.visited := List.mem_map_of_mem hcall
    rw [hvisited, List.mem_map] at hmem
    obtain ⟨⟨i, chain⟩, hv, heq⟩ := hmem
    simp only [Prod.mk.injEq] at heq
    refine ⟨i, chain, heq.1.symm, hconsistent.lineage_of_visits hvisits _ hv, ?_⟩
    rw [State.path, ← heq.2, List.map_reverse]

namespace Scene

/-- The nodes of a tree unfold as the tree does. -/
theorem unfolds_tree (scene : Scene) {registry : ValueRegistry} {limits : Limits}
    {evaluator : FoldOver A} (listener : Option (Listener Value Heard)) {t : Owner ArrayTree}
    (hregistry : registry.resolve NodeClass.treeNode.order = none)
    (hlimits : limits.maxDepth = none) (hgoesOn : evaluator.GoesOn) (ht : t.content.InRange) :
    (scene.setting registry limits evaluator listener).Unfolds t.treeNode t.treeKey
      t.content.kids where
  unlimited := hlimits
  goesOn := hgoesOn
  identity_eq := Owner.identity_treeNode scene
  injective _ _ := Owner.treeKey_injective
  children_eq := Owner.perform_children_treeNode hregistry ht scene

/-- Where the buffers of a tree describe one tree, a walk from its root that goes on at every node
comes to its end, and is the preorder of the tree. -/
theorem walks_in_preorder (scene : Scene) {registry : ValueRegistry} {limits : Limits}
    {evaluator : FoldOver A} (listener : Option (Listener Value Heard)) {t : Owner ArrayTree}
    {parent left right : Index.Given} {root : Nat}
    (hbuilt : ArrayTree.ofGiven? parent left right = .ok t.content)
    (hconsistent : t.content.Consistent root)
    (hregistry : registry.resolve NodeClass.treeNode.order = none)
    (hlimits : limits.maxDepth = none) (hgoesOn : evaluator.GoesOn) (context : Context) (value : A)
    (tracing : Bool) :
    ∃ start order enough c, t.rootNode? = .ok start ∧ WalksPreorder t root order c ∧
      ∀ budget, enough ≤ budget →
        scene.reduce registry limits evaluator listener budget ⟨start, context, value⟩ tracing =
          .finished c := by
  obtain ⟨visits, hvisits, hpreorder⟩ := hconsistent.exists_visits
  have hunfolds := scene.unfolds_tree listener hregistry hlimits hgoesOn
    (ArrayTree.inRange_of_ofGiven? hbuilt)
  obtain ⟨enough, c, hends, hmakes, hcount⟩ := hunfolds.exists_reduce hvisits
    (hconsistent.nodup_visits hvisits) context value (Memory.start tracing) Heard.nothing
  exact ⟨t.treeNode root, visits.map Prod.fst, enough, c, Owner.rootNode?_eq hconsistent,
    .of_makes hconsistent hvisits hpreorder hmakes hcount, hends⟩

end Scene

/-- Five nodes, of which the first two have children. -/
def ArrayTree.five : ArrayTree := ⟨.ofInts [-1, 0, 0, 1, 1], .ofInts [1, 3], .ofInts [2, 4]⟩

theorem ArrayTree.ofGiven?_five :
    ofGiven? (.ofInts [-1, 0, 0, 1, 1]) (.ofInts [1, 3]) (.ofInts [2, 4]) = .ok five := by
  decide +kernel

theorem ArrayTree.consistent_five : five.Consistent 0 where
  root_lt := by decide
  parentless := by decide
  parent_of_child i c h := by
    rw [← mem_kids] at h
    rcases Nat.lt_or_ge i five.left.size with hi | hi
    · exact (by decide : ∀ i < five.left.size, ∀ c ∈ five.kids i, five.parentEntry c = i) i hi c h
    · rw [(inRange_of_ofGiven? ofGiven?_five).kids_eq_nil hi] at h
      cases h
  listed_once := by decide
  reaches_root
    | 0, _ => .refl
    | 1, _ | 2, _ => .single (by decide)
    | 3, _ | 4, _ => .head (b := 1) (by decide) (.single (by decide))

theorem ArrayTree.preorder_five : five.Preorder 0 [0, 1, 3, 4, 2] := by
  have hleaf : ∀ i : Nat, i = 2 ∨ i = 3 ∨ i = 4 → five.Preorder i [i] := by
    rintro i (rfl | rfl | rfl) <;> exact .leaf (by decide) (by decide)
  have hone : five.Preorder 1 (1 :: ([3] ++ [4])) :=
    .node rfl (hleaf 3 (by decide)) (hleaf 4 (by decide))
  exact .node (i := 0) rfl hone (hleaf 2 (by decide))

/-- Counting the nodes of this tree calls them in the order 0, 1, 3, 4, 2. -/
theorem Scene.walks_in_preorder_five :
    ArrayTree.ofGiven? (.ofInts [-1, 0, 0, 1, 1]) (.ofInts [1, 3]) (.ofInts [2, 4]) =
        .ok ArrayTree.five ∧
      ArrayTree.five.Consistent 0 ∧
      ∃ c enough, WalksPreorder ⟨0, "five", .five⟩ 0 [0, 1, 3, 4, 2] c ∧
        ∀ budget, enough ≤ budget →
          Scene.empty.reduce .standard Policy.standard.limits
            (.ofFold (fun _ count => pure (count + 1)) none) none budget
            ⟨.treeNode ⟨0, "five", .five⟩ (.int 0), .plain .none, 0⟩ false = .finished c := by
  have hregistry : ValueRegistry.standard.resolve NodeClass.treeNode.order = none := rfl
  have hlimits : Policy.standard.limits.maxDepth = none := rfl
  have hgoesOn : (Evaluator.ofFold (fun _ count => pure (count + 1)) none : FoldOver Nat).GoesOn :=
    Evaluator.goesOn_ofFold fun _ count memory => ⟨count + 1, memory, rfl⟩
  obtain ⟨start, order, enough, c, hstart, hwalk, hends⟩ :=
    Scene.empty.walks_in_preorder none (t := ⟨0, "five", .five⟩) ArrayTree.ofGiven?_five
      ArrayTree.consistent_five hregistry hlimits hgoesOn (.plain .none) 0 false
  rw [hwalk.preorder.unique ArrayTree.preorder_five] at hwalk
  cases hstart.symm.trans (Owner.rootNode?_eq (t := ⟨0, "five", .five⟩) ArrayTree.consistent_five)
  exact ⟨ArrayTree.ofGiven?_five, ArrayTree.consistent_five, c, enough, hwalk, hends⟩

end GraphFold
