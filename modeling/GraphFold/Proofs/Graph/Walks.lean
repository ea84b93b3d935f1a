/-
GraphFold.Proofs.Graph.Walks — a walk over a graph in buffers stays in it.

The offsets of a well-formed graph climb from 0 to the number of targets. So
they cut the targets into rows, one for each node, and every position of the
targets lies in the row of one node, the last one whose offset is not beyond it.
The entries of the rows are nodes again: from a node of the graph a walk arrives
at nodes of the graph only, whatever its evaluator answers.

  §1 Rows  — `CompressedGraph.Tiles`.
  §2 Nodes — keys and successors of the nodes of a graph.
  §3 Walks — `Scene.walks_in_graph`.
-/
import GraphFold.Proofs.Graph.Edges
import GraphFold.Proofs.Walk.Confinement
import GraphFold.Scene.Reduction
import Mathlib.Data.Nat.Find

namespace GraphFold

/-! ## §1 Rows -/

namespace CompressedGraph

open Index (Buffer Given)

variable {g : CompressedGraph} {i j k : Nat}

/-- A graph that is made is well formed, if its offsets are in order. -/
theorem wellFormed_of_ofGiven? {offsets targets : Given} (h : ofGiven? offsets targets = .ok g)
    (hclimbs : g.offsets.toInts.IsChain (· ≤ ·)) : g.WellFormed := by
  unfold ofGiven? at h
  split at h
  · rename_i offsets targets _ _
    cases hbuilt : ofBuffers? offsets targets with
    | error e =>
      rw [hbuilt] at h
      cases h
    | ok made =>
      rw [hbuilt] at h
      cases h
      obtain ⟨rfl, hall⟩ := (ofBuffers?_reportsFirst offsets targets).eq_ok_iff.1 hbuilt
      simp only [conditions, List.forall_mem_cons] at hall
      obtain ⟨hsize, hfirst, hlast, -, htargets, -⟩ := hall
      refine ⟨hfirst, hlast, hclimbs, fun t ht => ?_⟩
      have hnode := htargets t ht
      have hnodes : (size ⟨offsets, targets⟩ : Int) = offsets.size - 1 := Int.ofNat_sub hsize
      rw [hnodes]
      exact hnode
  · cases h

/-- The rows are those of the nodes, one after the other, and the reads for them are in range. -/
structure Tiles (g : CompressedGraph) (rows : Nat → List Int) : Prop where
  successors_eq : ∀ i < g.size, g.successors (.int i) = .ok (rows i)
  /-- Between the offset of a node and the next, which are read for it, all positions are among
  the targets. -/
  reads : ∀ i < g.size, g.offsets.toInts[i]? = some (g.offset i : Int) ∧
    g.offsets.toInts[i + 1]? = some (g.offset (i + 1) : Int) ∧
    g.offset i ≤ g.offset (i + 1) ∧ g.offset (i + 1) ≤ g.edgeCount
  targets_eq : (List.range g.size).flatMap rows = g.targets.toInts
  count_eq : (List.range g.size).foldr (fun i rest => (rows i).length + rest) 0 = g.edgeCount
  nodes : ∀ i < g.size, ∀ t ∈ rows i, 0 ≤ t ∧ t < g.size
  /-- A position belongs to one node, and holds an entry of its row. -/
  owner : ∀ k < g.edgeCount,
    ∃! i, i < g.size ∧ g.offset i ≤ k ∧ k < g.offset (i + 1) ∧
      (rows i)[k - g.offset i]? = g.targets.toInts[k]?

/-- A position between the offset of a node and the next holds an entry of its row. -/
theorem getElem?_row (hlow : g.offset i ≤ k) (hhigh : k < g.offset (i + 1)) :
    (g.row i)[k - g.offset i]? = g.targets.toInts[k]? := by
  rw [row, List.getElem?_drop, Nat.add_sub_cancel' hlow, List.getElem?_take_of_lt hhigh]

namespace WellFormed

theorem offset_le_offset (h : g.WellFormed) (hij : i ≤ j) (hj : j ≤ g.size) :
    g.offset i ≤ g.offset j := by
  induction j with
  | zero => rw [Nat.le_zero.1 hij]
  | succ j ih =>
    rcases Nat.le_succ_iff.1 hij with hle | rfl
    · exact (ih hle (Nat.le_of_succ_le hj)).trans (h.offset_le_succ hj)
    · exact Nat.le_refl _

/-- The entries of a row are targets, and so they are nodes. -/
theorem mem_row (h : g.WellFormed) {t : Int} (ht : t ∈ g.row i) : 0 ≤ t ∧ t < g.size :=
  h.targets t (List.mem_of_mem_take (List.mem_of_mem_drop ht))

theorem length_row (h : g.WellFormed) (hi : i < g.size) :
    (g.row i).length = g.offset (i + 1) - g.offset i := by
  have hle : g.offset (i + 1) ≤ g.targets.size := h.offset_le hi
  rw [row, List.length_drop, List.length_take, Buffer.length_toInts, Nat.min_eq_left hle]

/-- The rows from a node on have as many entries as there are positions from its offset on. -/
theorem foldr_length_row (h : g.WellFormed) (hk : k ≤ g.size) (rest : Nat) :
    (List.range k).foldr (fun i rest => (g.row i).length + rest) rest = g.offset k + rest := by
  induction k generalizing rest with
  | zero => simp [h.offset_zero]
  | succ k ih =>
    have hle := h.offset_le_succ (Nat.lt_of_succ_le hk)
    rw [List.range_succ, List.foldr_append, ih (Nat.le_of_succ_le hk), List.foldr_cons,
      List.foldr_nil, h.length_row (Nat.lt_of_succ_le hk)]
    omega

/-- Every position lies between the offset of one node and the next: that of the last node whose
offset is not beyond it. -/
theorem existsUnique_owner (h : g.WellFormed) (hk : k < g.edgeCount) :
    ∃! i, i < g.size ∧ g.offset i ≤ k ∧ k < g.offset (i + 1) := by
  obtain ⟨last, hlast⟩ : ∃ last, last = Nat.findGreatest (fun i => g.offset i ≤ k) g.size :=
    ⟨_, rfl⟩
  have hzero : g.offset 0 ≤ k := by
    rw [h.offset_zero]
    exact Nat.zero_le k
  have hlow : g.offset last ≤ k := by
    rw [hlast]
    exact Nat.findGreatest_spec (P := fun i => g.offset i ≤ k) (Nat.zero_le g.size) hzero
  have hlater : ∀ i, last < i → i ≤ g.size → k < g.offset i := fun i hi hle =>
    Nat.lt_of_not_le
      (Nat.findGreatest_is_greatest (P := fun i => g.offset i ≤ k) (hlast ▸ hi) hle)
  have hle : last ≤ g.size := hlast ▸ Nat.findGreatest_le g.size
  have hlt : last < g.size := by
    refine Nat.lt_of_le_of_ne hle fun heq => ?_
    rw [heq, h.offset_size] at hlow
    omega
  refine ⟨last, ⟨hlt, hlow, hlater (last + 1) (Nat.lt_succ_self last) hlt⟩, ?_⟩
  rintro i ⟨hi, hbelow, habove⟩
  refine Nat.le_antisymm (Nat.le_of_not_lt fun hgt => ?_) (Nat.le_of_not_lt fun hgt => ?_)
  · have hbeyond := hlater i hgt (Nat.le_of_lt hi)
    omega
  · have hmono := h.offset_le_offset (Nat.succ_le_of_lt hgt) hle
    rw [Nat.succ_eq_add_one] at hmono
    omega

theorem tiles (h : g.WellFormed) : g.Tiles g.row where
  successors_eq i hi := h.successors_eq hi
  reads i hi := ⟨h.getElem?_offsets (Nat.le_of_lt hi), h.getElem?_offsets (Nat.succ_le_of_lt hi),
    h.offset_le_succ hi, h.offset_le (Nat.succ_le_of_lt hi)⟩
  targets_eq := by
    rw [h.flatMap_row (Nat.le_refl _), h.offset_size, edgeCount, ← Buffer.length_toInts,
      List.take_length]
  count_eq := by rw [h.foldr_length_row (Nat.le_refl _), h.offset_size, Nat.add_zero]
  nodes i _ t ht := h.mem_row ht
  owner k hk := by
    obtain ⟨i, ⟨hi, hlow, hhigh⟩, hunique⟩ := h.existsUnique_owner hk
    exact ⟨i, ⟨hi, hlow, hhigh, getElem?_row hlow hhigh⟩,
      fun j hj => hunique j ⟨hj.1, hj.2.1, hj.2.2.1⟩⟩

end WellFormed

/-- The successors of a node, as nodes. -/
def kids (g : CompressedGraph) (i : Nat) : List Nat := (g.row i).map Int.toNat

theorem WellFormed.map_kids (h : g.WellFormed) (i : Nat) : (g.kids i).map Int.ofNat = g.row i := by
  rw [kids, List.map_map]
  refine (List.map_congr_left fun t ht => ?_).trans (List.map_id (g.row i))
  exact Int.toNat_of_nonneg (h.mem_row ht).1

theorem WellFormed.lt_size_of_mem_kids (h : g.WellFormed) (hj : j ∈ g.kids i) : j < g.size := by
  obtain ⟨t, ht, rfl⟩ := List.mem_map.1 hj
  have hnode := h.mem_row ht
  omega

end CompressedGraph

/-! ## §2 Nodes -/

namespace Owner

/-- The node at an index of a graph. -/
def graphNode (g : Owner CompressedGraph) (i : Nat) : Value :=
  .graphNode (g.holding (some g.content)) (.int i)

/-- Its key. -/
def graphKey (g : Owner CompressedGraph) (i : Nat) : Key := .place .graph g.serial g.name (.int i)

variable {g : Owner CompressedGraph}

/-- An index that exists is that of a node of the graph. -/
theorem exists_of_graphNode? {index : Index.Numeral} {start : Value}
    (h : g.graphNode? index = .ok start) : ∃ i < g.content.size, start = g.graphNode i := by
  unfold graphNode? at h
  cases hposition : nodePosition? g.content.size index with
  | error e =>
    rw [hposition] at h
    cases h
  | ok k =>
    obtain ⟨i, hi, rfl⟩ := exists_of_nodePosition? hposition
    rw [hposition] at h
    cases h
    exact ⟨i, hi, rfl⟩

theorem perform_children_graphNode {registry : ValueRegistry}
    (hregistry : registry.resolve NodeClass.graphNode.order = none) (hg : g.content.WellFormed)
    (scene : Scene) {i : Nat} (hi : i < g.content.size) (s : ValueState) (memory : Memory) :
    (scene.children registry (g.graphNode i) s).perform memory =
      (.ok (.ok (.ofNodes ((g.content.kids i).map g.graphNode))), memory) := by
  have hsuccessors : g.content.successorsAt (Value.int i).givenIndex =
      .ok ((g.content.kids i).map Int.ofNat) := by
    show (g.content.successors (.int i)).mapError Fault.pick = _
    rw [hg.successors_eq hi, hg.map_kids]
    rfl
  rw [scene.children_eq_own (g.graphNode i) s hregistry rfl]
  simp only [graphNode, holding, Scene.ownChildren, hsuccessors, Action.perform_bind,
    Action.perform_ofExcept, Action.perform_pure, ValueListing.ofValues, List.map_map]
  rfl

end Owner

/-! ## §3 Walks -/

namespace Scene

variable {A : Type}

/-- The nodes of a well-formed graph list nodes of the graph only. -/
theorem closedOff_graph (scene : Scene) {registry : ValueRegistry} (limits : Limits)
    (evaluator : FoldOver A) (listener : Option (Listener Value Heard)) {g : Owner CompressedGraph}
    (hregistry : registry.resolve NodeClass.graphNode.order = none) (hg : g.content.WellFormed) :
    (scene.setting registry limits evaluator listener).ClosedOff g.graphNode g.graphKey
      (· < g.content.size) g.content.kids where
  identity_eq _ _ := rfl
  children_eq _ s memory hi := Owner.perform_children_graphNode hregistry hg scene hi s memory
  inside_of_mem _ _ _ hj := hg.lt_size_of_mem_kids hj

/-- Buffers that are accepted, with offsets in order, are decoded without loss: the rows of the
nodes are the targets, and each position is in one of them. And a walk from a node stays among the
nodes of the graph: each lookup is that of one of them, is in range and succeeds, and only the
evaluator can raise. -/
theorem walks_in_graph (scene : Scene) {registry : ValueRegistry} {g : Owner CompressedGraph}
    {offsets targets : Index.Given}
    (hbuilt : CompressedGraph.ofGiven? offsets targets = .ok g.content)
    (hclimbs : g.content.offsets.toInts.IsChain (· ≤ ·))
    (hregistry : registry.resolve NodeClass.graphNode.order = none) :
    g.content.Tiles g.content.row ∧
      ∀ index start, g.graphNode? index = .ok start →
        ∀ (limits : Limits) (evaluator : FoldOver A) (listener : Option (Listener Value Heard))
          (budget : Nat) (context : Context) (value : A) (tracing : Bool),
          StaysWithin g.graphNode (· < g.content.size) g.content.kids
            (scene.reduce registry limits evaluator listener budget ⟨start, context, value⟩
              tracing) := by
  have hg := CompressedGraph.wellFormed_of_ofGiven? hbuilt hclimbs
  refine ⟨hg.tiles, fun index start hstart limits evaluator listener budget context value tracing =>
    ?_⟩
  obtain ⟨i, hi, rfl⟩ := Owner.exists_of_graphNode? hstart
  exact (scene.closedOff_graph limits evaluator listener hregistry hg).staysWithin hi budget context
    value (Memory.start tracing) Heard.nothing

end Scene

/-- Three nodes, of which the first one lists itself and the second one nothing. -/
def CompressedGraph.looped : CompressedGraph := ⟨.ofInts [0, 2, 2, 3], .ofInts [0, 1, 0]⟩

/-- A walk over this graph from its last node. -/
theorem Scene.walks_in_graph_looped :
    CompressedGraph.ofGiven? (.ofInts [0, 2, 2, 3]) (.ofInts [0, 1, 0]) =
        .ok CompressedGraph.looped ∧
      CompressedGraph.looped.offsets.toInts.IsChain (· ≤ ·) ∧
      ValueRegistry.standard.resolve NodeClass.graphNode.order = none ∧
      CompressedGraph.looped.Tiles CompressedGraph.looped.row ∧
      StaysWithin (Owner.graphNode ⟨0, "looped", .looped⟩) (· < 3) CompressedGraph.looped.kids
        (Scene.empty.reduce .standard Policy.standard.limits
          (.ofFold (fun _ count => pure (count + 1)) none : FoldOver Nat) none 20
          ⟨.graphNode ⟨0, "looped", some .looped⟩ (.int 2), .plain .none, 0⟩ false) := by
  have hbuilt : CompressedGraph.ofGiven? (.ofInts [0, 2, 2, 3]) (.ofInts [0, 1, 0]) =
      .ok CompressedGraph.looped := by decide +kernel
  have hclimbs : CompressedGraph.looped.offsets.toInts.IsChain (· ≤ ·) := by decide
  have hregistry : ValueRegistry.standard.resolve NodeClass.graphNode.order = none := rfl
  obtain ⟨htiles, hwalks⟩ :=
    Scene.empty.walks_in_graph (g := ⟨0, "looped", .looped⟩) hbuilt hclimbs hregistry
  exact ⟨hbuilt, hclimbs, hregistry, htiles, hwalks (.int 2) _ rfl ..⟩

end GraphFold
