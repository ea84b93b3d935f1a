/-
GraphFold.Proofs.Graph.Layouts — a tree in buffers and the graph of its edges are
walked alike.

A tree keeps two child entries for each internal node, a graph all successors
in one row after the other. From the entries of a tree there are edges to its
children, and the graph made from these lists, for each node, the children in
their order: a missing child is no edge, a node without entries has an empty
row, and a child that is listed twice is listed twice again. So walks over the
two that go by the indices are renderings of one walk.

  §1 Edges  — `ArrayTree.edges`, and the graph made from them.
  §2 Nodes  — both kinds of nodes go by the same indices.
  §3 Walks  — `Scene.layouts_walk_alike`.
-/
import GraphFold.Proofs.Graph.Walks
import GraphFold.Proofs.Tree.Walks
import GraphFold.Proofs.Walk.Indexed

namespace GraphFold

open CompressedGraph (edgesOf ofEdges?)

/-! ## §1 Edges -/

/-- No graph of more nodes than the memory holds is made. -/
theorem CompressedGraph.size_le_of_ofEdges? {capacity : Capacity} {n : Nat}
    {edges : List (Int × Int)} {g : CompressedGraph}
    (h : ofEdges? capacity (.int n) edges = .ok g) : n ≤ capacity.nodes := by
  have hsize : (Index.Numeral.int n).toInt = n := rfl
  rw [ofEdges?, hsize] at h
  split at h
  · cases h
  split at h
  · cases h
  split at h
  · cases h
  split at h
  · cases h
  split at h
  · cases h
  · rename_i hle
    exact Nat.not_lt.1 hle

namespace ArrayTree

variable {t : ArrayTree} {g : CompressedGraph} {capacity : Capacity}

/-- The edges from the nodes of a tree to their children, in order. -/
def edges (t : ArrayTree) : List (Int × Int) := edgesOf (fun i => (t.kids i).map Int.ofNat) t.size

theorem length_kids_le (i : Nat) : (t.kids i).length ≤ 2 := by
  have hentry : ∀ e : Int, e.toNat?.toList.length ≤ 1 := by
    rintro (n | n) <;> simp [Int.toNat?]
  have hleft := hentry (t.leftEntry i)
  have hright := hentry (t.rightEntry i)
  rw [kids, List.length_append]
  omega

/-- A node has two children at most. -/
theorem length_edges_le : t.edges.length ≤ 2 * t.size := by
  have hrows : ∀ n, (edgesOf (fun i => (t.kids i).map Int.ofNat) n).length ≤ 2 * n := by
    intro n
    induction n with
    | zero => simp [edgesOf]
    | succ n ih =>
      have hrow := t.length_kids_le n
      rw [edgesOf, List.range_succ, List.flatMap_append, ← edgesOf]
      simp only [List.flatMap_singleton, List.length_append, List.length_map]
      omega
  exact hrows t.size

theorem length_edges_lt (hsize : t.size ≤ capacity.nodes) :
    t.edges.length < Index.powerOfTwo 63 := by
  have hmax := capacity.two_mul_nodes_lt
  have hedges := t.length_edges_le
  omega

theorem InRange.inside_edges (h : t.InRange) : CompressedGraph.Inside t.size t.edges := by
  intro e he
  obtain ⟨i, hi, c, hc, rfl⟩ := CompressedGraph.mem_edgesOf.1 he
  obtain ⟨j, hj, rfl⟩ := List.mem_map.1 hc
  have hkid := h.lt_size_of_mem_kids hj
  exact ⟨⟨Int.natCast_nonneg i, Int.ofNat_lt.2 hi⟩, Int.natCast_nonneg j, Int.ofNat_lt.2 hkid⟩

/-- The graph lists the children of the tree. -/
structure LaidOutAs (t : ArrayTree) (g : CompressedGraph) : Prop where
  wellFormed : g.WellFormed
  size_eq : g.size = t.size
  kids_eq : ∀ i < t.size, g.kids i = t.kids i

/-- The graph made from the edges lists the children. -/
theorem InRange.laidOutAs (h : t.InRange) (hsize : t.size ≤ capacity.nodes) :
    t.LaidOutAs (CompressedGraph.encoding t.size t.edges) := by
  have hcount := length_edges_lt hsize
  have hn : t.size < Index.powerOfTwo 63 := Nat.lt_of_le_of_lt hsize capacity.nodes_lt
  have hwell := CompressedGraph.wellFormed_encoding h.inside_edges hn hcount
  have hencodes := CompressedGraph.encodes_encoding h.inside_edges hn hcount
  refine ⟨hwell, hencodes.size_eq, fun i hi => ?_⟩
  have hleaving : CompressedGraph.leaving t.edges i =
      ((t.kids i).map Int.ofNat).map fun c => ((i : Int), c) := CompressedGraph.leaving_edgesOf hi
  -- The row of a node has the targets of the edges that leave it, which go to its children.
  have hrow := hencodes.successors i hi
  rw [hwell.successors_eq (hencodes.size_eq.symm ▸ hi), ← CompressedGraph.leaving, hleaving,
    Except.ok.injEq] at hrow
  rw [CompressedGraph.kids, hrow, List.map_map, List.map_map, List.map_map]
  exact List.map_id (t.kids i)

theorem InRange.ofEdges?_reportsFirst (h : t.InRange) (hsize : t.size ≤ capacity.nodes) :
    Index.ReportsFirst (CompressedGraph.encoding t.size t.edges)
      [(.noNodes, 1 ≤ (t.size : Int)), (.endpointRange (.int t.size),
        CompressedGraph.Inside t.size t.edges)]
      (ofEdges? capacity (.int t.size) t.edges) := by
  have hmost : (Index.Numeral.int t.size).toInt ≤ capacity.nodes := Int.ofNat_le.2 hsize
  have hmax := capacity.nodes_lt
  refine CompressedGraph.ofEdges?_reportsFirst hmost (length_edges_lt hsize) fun e he => ?_
  obtain ⟨⟨_, _⟩, _, _⟩ := h.inside_edges e he
  exact ⟨Index.holds_index_iff.2 (by omega), Index.holds_index_iff.2 (by omega)⟩

/-- If the tree has a node and fits the memory, there is a graph of its edges. -/
theorem InRange.exists_ofEdges? (h : t.InRange) (hpositive : 1 ≤ t.size)
    (hsize : t.size ≤ capacity.nodes) : ∃ g, ofEdges? capacity (.int t.size) t.edges = .ok g := by
  refine ⟨_, (h.ofEdges?_reportsFirst hsize).eq_ok_iff.2 ⟨rfl, ?_⟩⟩
  simp only [List.forall_mem_cons]
  exact ⟨Int.ofNat_le.2 hpositive, h.inside_edges, by simp⟩

/-- The graph that is made from the edges lists the children. -/
theorem InRange.laidOutAs_of_ofEdges? (h : t.InRange)
    (hmade : ofEdges? capacity (.int t.size) t.edges = .ok g) : t.LaidOutAs g := by
  have hsize := CompressedGraph.size_le_of_ofEdges? hmade
  obtain ⟨rfl, -⟩ := (h.ofEdges?_reportsFirst hsize).eq_ok_iff.1 hmade
  exact h.laidOutAs hsize

end ArrayTree

/-! ## §2 Nodes -/

/-- A natural number below the size is the position of a node. -/
theorem nodePosition?_natCast {size i : Nat} (hi : i < size) :
    nodePosition? size (.int i) = .ok (.int i) := by
  have hrange : 0 ≤ (Index.Numeral.int i).floor ∧ (Index.Numeral.int i).floor < size :=
    ⟨Int.natCast_nonneg i, Int.ofNat_lt.2 hi⟩
  rw [nodePosition?, if_pos hrange]
  rfl

namespace Owner

theorem graphKey_injective {g : Owner CompressedGraph} {i j : Nat}
    (h : compare (g.graphKey i) (g.graphKey j) = .eq) : i = j := by
  have hcode : ∀ k, (g.graphKey k).code = [14, (g.serial : Int), 1, (k : Int)] := fun k => rfl
  have hcodes := Key.compare_eq_iff.1 h
  rw [hcode, hcode] at hcodes
  exact Int.natCast_inj.1 (by simpa using hcodes)

theorem treeNode?_eq {t : Owner ArrayTree} {i : Nat} (hi : i < t.content.size) :
    t.treeNode? (.int i) = .ok (t.treeNode i) := by
  rw [treeNode?, nodePosition?_natCast hi]
  rfl

theorem graphNode?_eq {g : Owner CompressedGraph} {i : Nat} (hi : i < g.content.size) :
    g.graphNode? (.int i) = .ok (g.graphNode i) := by
  rw [graphNode?, nodePosition?_natCast hi]
  rfl

end Owner

namespace Scene

variable {A : Type} {registry : ValueRegistry} {limits : Limits} {evaluator : FoldOver A}
  {t : Owner ArrayTree} {g : Owner CompressedGraph} {rule : IndexRule Context A Value}

/-- A walk over the nodes of a tree goes by their indices, if its evaluator does. -/
theorem goesByIndex_tree (scene : Scene) (listener : Option (Listener Value Heard))
    (hregistry : registry.resolve NodeClass.treeNode.order = none) (ht : t.content.InRange)
    (hfollows : evaluator.Follows t.treeNode (· < t.content.size) rule) :
    (scene.setting registry limits evaluator listener).GoesByIndex t.treeNode t.treeKey
      (· < t.content.size) t.content.kids rule where
  closedOff := scene.closedOff_tree limits evaluator listener hregistry ht
  injective _ _ _ _ := Owner.treeKey_injective
  follows := hfollows

/-- So does a walk over the graph of the edges, with the children of the tree. -/
theorem goesByIndex_graph (scene : Scene) (listener : Option (Listener Value Heard))
    (hregistry : registry.resolve NodeClass.graphNode.order = none)
    (hg : t.content.LaidOutAs g.content)
    (hfollows : evaluator.Follows g.graphNode (· < t.content.size) rule) :
    (scene.setting registry limits evaluator listener).GoesByIndex g.graphNode g.graphKey
      (· < t.content.size) t.content.kids rule where
  closedOff := by
    have hclosed := scene.closedOff_graph limits evaluator listener hregistry hg.wellFormed
    rw [hg.size_eq] at hclosed
    refine ⟨hclosed.identity_eq, fun i s memory hi => ?_, fun i j hi hj => ?_⟩
    · rw [← hg.kids_eq i hi]
      exact hclosed.children_eq i s memory hi
    · rw [← hg.kids_eq i hi] at hj
      exact hclosed.inside_of_mem i j hi hj
  injective _ _ _ _ := Owner.graphKey_injective
  follows := hfollows

/-! ## §3 Walks -/

/-- From the children that are looked up in a tree there are edges, and of these a graph, if it fits
the memory. Walks over the two from the same index, under the same limits and by an evaluator that
goes by the indices, call the nodes of the same indices, report the same of them and come to the
same end; and they do come to an end. -/
theorem layouts_walk_alike (scene : Scene) (capacity : Capacity) {parent left right : Index.Given}
    (hbuilt : ArrayTree.ofGiven? parent left right = .ok t.content)
    (hpositive : 1 ≤ t.content.size)
    (htree : registry.resolve NodeClass.treeNode.order = none)
    (hgraph : registry.resolve NodeClass.graphNode.order = none) :
    ∃ rows : Nat → List Int,
      (∀ i < t.content.size, t.content.childIndices (.int i) = .ok (rows i)) ∧
      (t.content.size ≤ capacity.nodes →
        ∃ g, ofEdges? capacity (.int t.content.size) (edgesOf rows t.content.size) = .ok g) ∧
      ∀ g : Owner CompressedGraph,
        ofEdges? capacity (.int t.content.size) (edgesOf rows t.content.size) = .ok g.content →
        ∀ i < t.content.size,
          t.treeNode? (.int i) = .ok (t.treeNode i) ∧ g.graphNode? (.int i) = .ok (g.graphNode i) ∧
          ∀ (limits : Limits) (evaluator : FoldOver A) (rule : IndexRule Context A Value),
            evaluator.Follows t.treeNode (· < t.content.size) rule →
            evaluator.Follows g.graphNode (· < t.content.size) rule →
            ∀ (listener : Option (Listener Value Heard)) (context : Context) (value : A)
              (tracing : Bool),
              (∀ budget, Outcome.AgreeByIndex t.treeNode g.graphNode
                (scene.reduce registry limits evaluator listener budget
                  ⟨t.treeNode i, context, value⟩ tracing)
                (scene.reduce registry limits evaluator listener budget
                  ⟨g.graphNode i, context, value⟩ tracing)) ∧
              ∃ enough, ∀ budget, enough ≤ budget →
                (scene.reduce registry limits evaluator listener budget
                  ⟨t.treeNode i, context, value⟩ tracing).Ended ∧
                (scene.reduce registry limits evaluator listener budget
                  ⟨g.graphNode i, context, value⟩ tracing).Ended := by
  have hrange := ArrayTree.inRange_of_ofGiven? hbuilt
  refine ⟨fun i => (t.content.kids i).map Int.ofNat, fun i _ => hrange.childIndices_eq i,
    hrange.exists_ofEdges? hpositive, fun g hmade i hi => ?_⟩
  have hg : t.content.LaidOutAs g.content := hrange.laidOutAs_of_ofEdges? hmade
  refine ⟨Owner.treeNode?_eq hi, Owner.graphNode?_eq (hg.size_eq.symm ▸ hi),
    fun limits evaluator rule hfollows hfollows' listener context value tracing => ?_⟩
  have hall : ∀ j, j < t.content.size → j ∈ List.range t.content.size := fun j => List.mem_range.2
  exact (scene.goesByIndex_tree listener htree hrange hfollows).walks_agree
    (scene.goesByIndex_graph listener hgraph hg hfollows') rfl hall hi context value
    (Memory.start tracing) Heard.nothing

end Scene

/-- The index of a node in buffers. -/
def Value.place? : Value → Option Int
  | .treeNode _ (.int i) | .graphNode _ (.int i) => some i
  | _ => Option.none

/-- Lists the indices of the nodes. -/
def listPlaces : FoldOver (List (Option Int)) :=
  .ofFold (fun node found => pure (found ++ [node.place?])) none

/-- Walks from the last node of the knot and of the graph of its edges that list the indices. -/
theorem Scene.layouts_walk_alike_knot :
    ArrayTree.ofGiven? (.ofInts [-1, 0]) (.ofInts [1, 0]) (.ofInts [-1, 1]) = .ok ArrayTree.knot ∧
      1 ≤ ArrayTree.knot.size ∧
      ValueRegistry.standard.resolve NodeClass.treeNode.order = none ∧
      ValueRegistry.standard.resolve NodeClass.graphNode.order = none ∧
      ∃ g, ofEdges? ⟨2, by decide⟩ (.int 2) [(0, 1), (1, 0), (1, 1)] = .ok g ∧
        listPlaces.Follows (Owner.treeNode ⟨0, "tree", .knot⟩) (· < 2)
          (fun i _ context found => .descend (found ++ [some (i : Int)]) context) ∧
        listPlaces.Follows (Owner.graphNode ⟨1, "graph", g⟩) (· < 2)
          (fun i _ context found => .descend (found ++ [some (i : Int)]) context) ∧
        ∀ budget, Outcome.AgreeByIndex (Owner.treeNode ⟨0, "tree", .knot⟩)
          (Owner.graphNode ⟨1, "graph", g⟩)
          (Scene.empty.reduce .standard Policy.standard.limits listPlaces none budget
            ⟨.treeNode ⟨0, "tree", .knot⟩ (.int 1), .plain .none, []⟩ false)
          (Scene.empty.reduce .standard Policy.standard.limits listPlaces none budget
            ⟨.graphNode ⟨1, "graph", some g⟩ (.int 1), .plain .none, []⟩ false) := by
  have hbuilt : ArrayTree.ofGiven? (.ofInts [-1, 0]) (.ofInts [1, 0]) (.ofInts [-1, 1]) =
      .ok ArrayTree.knot := by decide +kernel
  have htree : ValueRegistry.standard.resolve NodeClass.treeNode.order = none := rfl
  have hgraph : ValueRegistry.standard.resolve NodeClass.graphNode.order = none := rfl
  obtain ⟨rows, hrows, hexists, hwalks⟩ := Scene.empty.layouts_walk_alike ⟨2, by decide⟩
    (t := ⟨0, "tree", .knot⟩) (A := List (Option Int)) hbuilt (by decide) htree hgraph
  have hfirst : rows 0 = [1] := by
    have hlisted : ArrayTree.knot.childIndices (.int 0) = .ok [1] := by decide +kernel
    exact Except.ok.inj ((hrows 0 (by decide)).symm.trans hlisted)
  have hsecond : rows 1 = [0, 1] := by
    have hlisted : ArrayTree.knot.childIndices (.int 1) = .ok [0, 1] := by decide +kernel
    exact Except.ok.inj ((hrows 1 (by decide)).symm.trans hlisted)
  have hedges : edgesOf rows ArrayTree.knot.size = [(0, 1), (1, 0), (1, 1)] := by
    have hsize : ArrayTree.knot.size = 2 := by decide
    simp [hsize, edgesOf, List.range_succ, hfirst, hsecond]
  obtain ⟨g, hmade⟩ := hexists (by decide)
  have hfollows : listPlaces.Follows (Owner.treeNode ⟨0, "tree", .knot⟩) (· < 2)
      (fun i _ context found => .descend (found ++ [some (i : Int)]) context) :=
    Evaluator.follows_ofFold fun _ _ => rfl
  have hfollows' : listPlaces.Follows (Owner.graphNode ⟨1, "graph", g⟩) (· < 2)
      (fun i _ context found => .descend (found ++ [some (i : Int)]) context) :=
    Evaluator.follows_ofFold fun _ _ => rfl
  obtain ⟨-, -, hwalk⟩ := hwalks ⟨1, "graph", g⟩ hmade 1 (by decide)
  rw [hedges] at hmade
  exact ⟨hbuilt, by decide, htree, hgraph, g, hmade, hfollows, hfollows',
    (hwalk _ _ _ hfollows hfollows' none (.plain .none) [] false).1⟩

end GraphFold
