/-
GraphFold.Proofs.Tree.Walks — trees are accepted exactly if walks stay in them.

Building a tree checks the range of every entry and nothing else: parents and
children may contradict each other, and the child entries may form cycles. This
much is enough for walks. A lookup reads the two child entries of an internal
node, which are there, or nothing; and what it lists are nodes of the tree. If
the evaluator keeps keys, each of them is called at most once.

  §1 Buffers  — which buffers are accepted, and what is reported of others.
  §2 Children — `ArrayTree.ReadsChildren`.
  §3 Walks    — `Scene.walks_in_tree`.
-/
import GraphFold.Proofs.Tree.Preorder
import GraphFold.Proofs.Walk.Confinement
import GraphFold.Session

namespace GraphFold

/-! ## §1 Buffers -/

namespace ArrayTree

open Index (Buffer Given ReportsFirst)

/-- The buffers meet all conditions. -/
structure Accepted (parent left right : Buffer) : Prop where
  internal_le : left.size ≤ parent.size
  parents : ∀ p ∈ parent.toInts, -1 ≤ p ∧ p < parent.size
  lefts : ∀ c ∈ left.toInts, c < parent.size
  rights : ∀ c ∈ right.toInts, c < parent.size

theorem accepted_iff {parent left right : Buffer} :
    Accepted parent left right ↔ ∀ c ∈ conditions parent left right, c.2 := by
  simp only [conditions, List.forall_mem_cons]
  constructor
  · rintro ⟨hinternal, hparents, hlefts, hrights⟩
    exact ⟨hinternal, hparents, hlefts, hrights, fun c hc => by cases hc⟩
  · rintro ⟨hinternal, hparents, hlefts, hrights, -⟩
    exact ⟨hinternal, hparents, hlefts, hrights⟩

section Handed

variable {parent left right : Given} {parents lefts rights : Buffer}

theorem ofGiven?_eq (hparent : parent.buffer? = some parents) (hleft : left.buffer? = some lefts)
    (hright : right.buffer? = some rights) (hlength : lefts.size = rights.size) :
    ofGiven? parent left right = (ofBuffers? parents lefts rights).mapError .tree := by
  unfold ofGiven?
  rw [hparent, hleft, hright]
  exact if_pos hlength

/-- Buffers that are handed over make a tree exactly if they meet all conditions, and otherwise the
first one that fails is reported as a wrong value. -/
theorem ofGiven?_reportsFirst (hparent : parent.buffer? = some parents)
    (hleft : left.buffer? = some lefts) (hright : right.buffer? = some rights)
    (hlength : lefts.size = rights.size) :
    ReportsFirst ⟨parents, lefts, rights⟩
      ((conditions parents lefts rights).map fun c => (TreeBuildError.tree c.1, c.2))
      (ofGiven? parent left right) := by
  rw [ofGiven?_eq hparent hleft hright hlength]
  exact (ofBuffers?_reportsFirst parents lefts rights).mapError TreeBuildError.tree

theorem exists_ofGiven?_eq_ok_iff (hparent : parent.buffer? = some parents)
    (hleft : left.buffer? = some lefts) (hright : right.buffer? = some rights)
    (hlength : lefts.size = rights.size) :
    (∃ t, ofGiven? parent left right = .ok t) ↔ Accepted parents lefts rights := by
  have hreports := ofGiven?_reportsFirst hparent hleft hright hlength
  have hall : (∀ c ∈ (conditions parents lefts rights).map fun c => (TreeBuildError.tree c.1, c.2),
      c.2) ↔ Accepted parents lefts rights := by
    rw [accepted_iff, List.forall_mem_map]
  constructor
  · rintro ⟨t, ht⟩
    exact hall.1 (hreports.eq_ok_iff.1 ht).2
  · intro haccepted
    exact ⟨_, hreports.eq_ok_iff.2 ⟨rfl, hall.2 haccepted⟩⟩

theorem report_of_ofGiven? (hparent : parent.buffer? = some parents)
    (hleft : left.buffer? = some lefts) (hright : right.buffer? = some rights)
    (hlength : lefts.size = rights.size) {e : TreeBuildError}
    (h : ofGiven? parent left right = .error e) :
    ∃ reason : ArrayTreeError, e.report = .plain .value reason.message := by
  obtain ⟨_, hmem, -⟩ :=
    (ofGiven?_reportsFirst hparent hleft hright hlength).mem_of_error h
  obtain ⟨c, -, hc⟩ := List.mem_map.1 hmem
  cases hc
  exact ⟨c.1, rfl⟩

end Handed

/-! ## §2 Children -/

/-- How children are looked up: an internal node has an entry in both child buffers, and its
children are those of the two that are not negative, left before right; other nodes have none. The
children are nodes. -/
structure ReadsChildren (t : ArrayTree) : Prop where
  internal : ∀ i < t.internalCount, ∃ l r, t.left.toInts[i]? = some l ∧
    t.right.toInts[i]? = some r ∧ t.childIndices (.int i) = .ok ([l, r].filter (0 ≤ ·))
  leaf : ∀ i : Nat, t.internalCount ≤ i → t.childIndices (.int i) = .ok []
  listed : ∀ i : Nat, t.childIndices (.int i) = .ok ((t.kids i).map Int.ofNat)
  nodes : ∀ i, ∀ c ∈ t.kids i, c < t.size

variable {t : ArrayTree}

theorem InRange.lt_size_of_mem_kids (h : t.InRange) {i c : Nat} (hc : c ∈ t.kids i) :
    c < t.size := by
  have hmem : ∀ {entries : List Int}, entries[i]?.getD (-1) = (c : Int) → (c : Int) ∈ entries :=
    fun hentry => List.mem_of_getElem? (getElem?_of_entry hentry)
  rcases mem_kids.1 hc with hleft | hright
  · exact Int.ofNat_lt.1 (h.lefts c (hmem hleft))
  · exact Int.ofNat_lt.1 (h.rights c (hmem hright))

theorem InRange.readsChildren (h : t.InRange) : t.ReadsChildren where
  internal i hi := by
    obtain ⟨l, hl⟩ : ∃ l, t.left.toInts[i]? = some l :=
      ⟨_, List.getElem?_eq_getElem (by rw [Index.Buffer.length_toInts]; exact hi)⟩
    obtain ⟨r, hr⟩ : ∃ r, t.right.toInts[i]? = some r :=
      ⟨_, List.getElem?_eq_getElem (by rw [Index.Buffer.length_toInts, ← h.sameLength]; exact hi)⟩
    refine ⟨l, r, hl, hr, ?_⟩
    have hkept : ∀ e : Int, e.toNat?.toList.map Int.ofNat = [e].filter (0 ≤ ·) := by
      rintro (n | n) <;> rfl
    rw [h.childIndices_eq, kids, leftEntry, rightEntry, hl, hr, List.map_append, Option.getD_some,
      Option.getD_some, hkept, hkept, ← List.filter_append]
    rfl
  leaf i hi := by rw [h.childIndices_eq, h.kids_eq_nil hi, List.map_nil]
  listed := h.childIndices_eq
  nodes i c hc := h.lt_size_of_mem_kids hc

end ArrayTree

/-! ## §3 Walks -/

/-- An index that exists is that of a node of the tree. -/
theorem Owner.exists_of_treeNode? {t : Owner ArrayTree} {index : Index.Numeral} {start : Value}
    (h : t.treeNode? index = .ok start) : ∃ i < t.content.size, start = t.treeNode i := by
  unfold treeNode? at h
  cases hposition : nodePosition? t.content.size index with
  | error e =>
    rw [hposition] at h
    cases h
  | ok k =>
    obtain ⟨i, hi, rfl⟩ := exists_of_nodePosition? hposition
    rw [hposition] at h
    cases h
    exact ⟨i, hi, rfl⟩

namespace Scene

variable {A : Type}

/-- The nodes of a tree list nodes of the tree only. -/
theorem closedOff_tree (scene : Scene) {registry : ValueRegistry} (limits : Limits)
    (evaluator : FoldOver A) (listener : Option (Listener Value Heard)) {t : Owner ArrayTree}
    (hregistry : registry.resolve NodeClass.treeNode.order = none) (ht : t.content.InRange) :
    (scene.setting registry limits evaluator listener).ClosedOff t.treeNode t.treeKey
      (· < t.content.size) t.content.kids where
  identity_eq i _ := Owner.identity_treeNode scene i
  children_eq i s memory _ := Owner.perform_children_treeNode hregistry ht scene i s memory
  inside_of_mem _ _ _ hc := ht.lt_size_of_mem_kids hc

/-- Buffers make a tree exactly if their entries are in range, and else the first condition that
fails is reported as a wrong value. In a tree, the children of a node are the entries that are not
negative; and a walk from a node stays among the nodes: each lookup is that of one of them and
succeeds, and only the evaluator can raise. If it keeps keys, the walk makes at most as many calls
as there are nodes and comes to an end, also where the child entries form cycles. -/
theorem walks_in_tree (scene : Scene) {registry : ValueRegistry}
    {parent left right : Index.Given} {parents lefts rights : Index.Buffer}
    (hparent : parent.buffer? = some parents) (hleft : left.buffer? = some lefts)
    (hright : right.buffer? = some rights) (hlength : lefts.size = rights.size)
    (hregistry : registry.resolve NodeClass.treeNode.order = none) :
    Index.ReportsFirst ⟨parents, lefts, rights⟩
        ((ArrayTree.conditions parents lefts rights).map fun c => (TreeBuildError.tree c.1, c.2))
        (ArrayTree.ofGiven? parent left right) ∧
      ((∃ t, ArrayTree.ofGiven? parent left right = .ok t) ↔
        ArrayTree.Accepted parents lefts rights) ∧
      (∀ e, ArrayTree.ofGiven? parent left right = .error e →
        ∃ reason : ArrayTreeError, e.report = .plain .value reason.message) ∧
      ∀ t : Owner ArrayTree, ArrayTree.ofGiven? parent left right = .ok t.content →
        t.content.ReadsChildren ∧
        ∀ index start, t.treeNode? index = .ok start →
          ∀ (limits : Limits) (evaluator : FoldOver A) (listener : Option (Listener Value Heard))
            (context : Context) (value : A) (tracing : Bool),
            (∀ budget, StaysWithin t.treeNode (· < t.content.size) t.content.kids
              (scene.reduce registry limits evaluator listener budget ⟨start, context, value⟩
                tracing)) ∧
            (evaluator.KeepsSeen →
              (∀ budget, (scene.reduce registry limits evaluator listener budget
                ⟨start, context, value⟩ tracing).config.calls.length ≤ t.content.size) ∧
              ∃ enough, (scene.reduce registry limits evaluator listener enough
                ⟨start, context, value⟩ tracing).Ended) := by
  refine ⟨ArrayTree.ofGiven?_reportsFirst hparent hleft hright hlength,
    ArrayTree.exists_ofGiven?_eq_ok_iff hparent hleft hright hlength,
    fun e he => ArrayTree.report_of_ofGiven? hparent hleft hright hlength he, fun t ht => ?_⟩
  have hrange := ArrayTree.inRange_of_ofGiven? ht
  refine ⟨hrange.readsChildren,
    fun index start hstart limits evaluator listener context value tracing => ?_⟩
  obtain ⟨i, hi, rfl⟩ := Owner.exists_of_treeNode? hstart
  have hclosed := scene.closedOff_tree limits evaluator listener hregistry hrange
  have hall : ∀ j, j < t.content.size → j ∈ List.range t.content.size := fun j => List.mem_range.2
  refine ⟨fun budget => hclosed.staysWithin hi budget context value (Memory.start tracing)
    Heard.nothing, fun hkeeps => ⟨fun budget => ?_, ?_⟩⟩
  · have hbound := hclosed.length_calls_le hkeeps (List.range t.content.size) hall hi budget context
      value (Memory.start tracing) Heard.nothing
    rwa [List.length_range] at hbound
  · exact hclosed.exists_ended hkeeps (List.range t.content.size) hall hi context value
      (Memory.start tracing) Heard.nothing

end Scene

/-- Two nodes, of which the first lists the second, and the second lists both. -/
def ArrayTree.knot : ArrayTree := ⟨.ofInts [-1, 0], .ofInts [1, 0], .ofInts [-1, 1]⟩

/-- The buffers of this tree are accepted, and counting its nodes ends after at most two calls. -/
theorem Scene.walks_in_tree_knot :
    (Index.Given.ofInts [-1, 0]).buffer? = some ArrayTree.knot.parent ∧
      (Index.Given.ofInts [1, 0]).buffer? = some ArrayTree.knot.left ∧
      (Index.Given.ofInts [-1, 1]).buffer? = some ArrayTree.knot.right ∧
      ValueRegistry.standard.resolve NodeClass.treeNode.order = none ∧
      ArrayTree.knot.ReadsChildren ∧
      ∃ enough, ∀ o, o = Scene.empty.reduce .standard Policy.standard.limits
          (.ofFold (fun _ count => pure (count + 1)) none : FoldOver Nat) none enough
          ⟨.treeNode ⟨0, "knot", .knot⟩ (.int 1), .plain .none, 0⟩ false →
        o.Ended ∧ o.config.calls.length ≤ 2 ∧
          StaysWithin (Owner.treeNode ⟨0, "knot", .knot⟩) (· < 2) ArrayTree.knot.kids o := by
  have hparent : (Index.Given.ofInts [-1, 0]).buffer? = some ArrayTree.knot.parent := by
    decide +kernel
  have hleft : (Index.Given.ofInts [1, 0]).buffer? = some ArrayTree.knot.left := by decide +kernel
  have hright : (Index.Given.ofInts [-1, 1]).buffer? = some ArrayTree.knot.right := by
    decide +kernel
  have hregistry : ValueRegistry.standard.resolve NodeClass.treeNode.order = none := rfl
  have hbuilt : ArrayTree.ofGiven? (.ofInts [-1, 0]) (.ofInts [1, 0]) (.ofInts [-1, 1]) =
      .ok ArrayTree.knot := by decide +kernel
  obtain ⟨-, -, -, hwalks⟩ := Scene.empty.walks_in_tree hparent hleft hright rfl hregistry
  obtain ⟨hreads, hwalks⟩ := hwalks ⟨0, "knot", .knot⟩ hbuilt
  obtain ⟨hstays, hends⟩ := hwalks (.int 1) _ rfl Policy.standard.limits
    (.ofFold (fun _ count => pure (count + 1)) none) none (.plain .none) 0 false
  obtain ⟨hcalls, enough, hended⟩ := hends Evaluator.keepsSeen_ofFold
  refine ⟨hparent, hleft, hright, hregistry, hreads, enough, ?_⟩
  rintro _ rfl
  exact ⟨hended, hcalls enough, hstays enough⟩

end GraphFold
