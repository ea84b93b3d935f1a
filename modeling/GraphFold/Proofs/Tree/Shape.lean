/-
GraphFold.Proofs.Tree.Shape — buffers that describe one tree.

Building a tree checks that its entries are in range, and nothing else. If
parents and children agree as well and every node but the root is somebody's
child, the buffers describe one tree. Nothing in them says that going down from
node to child comes to an end. That follows from going up: a child has one more
ancestor than its parent, and the ancestors of a node are bounded in number.

  §1 Entries   — what the buffers say of a node, `ArrayTree.InRange`.
  §2 Agreement — `ArrayTree.Consistent`.
  §3 Lineages  — `ArrayTree.Lineage`, the chain of parents of a node.
  §4 Preorder  — `ArrayTree.Preorder`, and that it lists every node once.
-/
import GraphFold.ArrayTree.Build
import GraphFold.Proofs.Index.Entries
import GraphFold.Proofs.Walk.Preorder
import Mathlib.Data.Finset.Lattice.Fold
import Mathlib.Data.Fintype.Basic
import Mathlib.Logic.Relation

namespace GraphFold.ArrayTree

open Index (Buffer Given Numeral ReportsFirst)

/-! ## §1 Entries -/

/-- The conditions on buffers, each with the error that reports it. -/
def conditions (parent left right : Buffer) : List (ArrayTreeError × Prop) :=
  [(.tooManyChildren, left.size ≤ parent.size),
    (.parentRange parent.size, ∀ p ∈ parent.toInts, -1 ≤ p ∧ p < parent.size),
    (.leftRange parent.size, ∀ c ∈ left.toInts, c < parent.size),
    (.rightRange parent.size, ∀ c ∈ right.toInts, c < parent.size)]

/-- Buffers that meet all conditions make a tree, and for others the first one that fails is
reported. -/
theorem ofBuffers?_reportsFirst (parent left right : Buffer) :
    ReportsFirst ⟨parent, left, right⟩ (conditions parent left right)
      (ofBuffers? parent left right) := by
  unfold ofBuffers? conditions
  have hchildren : ∀ b : Buffer, (b.any fun c => parent.size ≤ c.toInt) = true ↔
      ¬ ∀ c ∈ b.toInts, c < parent.size := fun b => by
    simpa using Buffer.any_eq_true_iff (b := b) (p := fun c => parent.size ≤ c)
  refine .ite (by omega) fun _ => .ite ?_ fun _ => .ite (hchildren left) fun _ =>
    .ite (hchildren right) fun _ => rfl
  simpa using Buffer.any_eq_true_iff (b := parent)
    (p := fun p => p < -1 || parent.size ≤ p)

/-- The buffers are as building a tree leaves them. -/
structure InRange (t : ArrayTree) : Prop where
  sameLength : t.left.size = t.right.size
  internal_le : t.left.size ≤ t.size
  parents : ∀ p ∈ t.parent.toInts, -1 ≤ p ∧ p < t.size
  lefts : ∀ c ∈ t.left.toInts, c < t.size
  rights : ∀ c ∈ t.right.toInts, c < t.size

theorem inRange_of_ofGiven? {parent left right : Given} {t : ArrayTree}
    (h : ofGiven? parent left right = .ok t) : t.InRange := by
  unfold ofGiven? at h
  split at h
  · rename_i parent left right _ _ _
    split at h
    · rename_i hlength
      cases hbuilt : ofBuffers? parent left right with
      | error e =>
        rw [hbuilt] at h
        cases h
      | ok made =>
        rw [hbuilt] at h
        cases h
        obtain ⟨rfl, hall⟩ := (ofBuffers?_reportsFirst parent left right).eq_ok_iff.1 hbuilt
        simp only [conditions, List.forall_mem_cons] at hall
        obtain ⟨hinternal, hparents, hlefts, hrights, _⟩ := hall
        exact ⟨hlength, hinternal, hparents, hlefts, hrights⟩
    · cases h
  · cases h

variable {t : ArrayTree}

/-- What the parent buffer says of a node. -/
def parentEntry (t : ArrayTree) (i : Nat) : Int := t.parent.toInts[i]?.getD (-1)

/-- What the left child buffer says of a node; where it says nothing there is no child. -/
def leftEntry (t : ArrayTree) (i : Nat) : Int := t.left.toInts[i]?.getD (-1)

/-- The same for the right child buffer. -/
def rightEntry (t : ArrayTree) (i : Nat) : Int := t.right.toInts[i]?.getD (-1)

/-- The children of a node, left before right. -/
def kids (t : ArrayTree) (i : Nat) : List Nat :=
  (t.leftEntry i).toNat?.toList ++ (t.rightEntry i).toNat?.toList

theorem mem_kids {i c : Nat} : c ∈ t.kids i ↔ t.leftEntry i = c ∨ t.rightEntry i = c := by
  rw [kids, List.mem_append, Option.mem_toList, Option.mem_toList, Int.mem_toNat?, Int.mem_toNat?]

/-- An entry that is not negative is in the buffer. -/
theorem getElem?_of_entry {entries : List Int} {i c : Nat}
    (h : entries[i]?.getD (-1) = (c : Int)) : entries[i]? = some (c : Int) := by
  cases hentry : entries[i]? with
  | none =>
    rw [hentry] at h
    cases h
  | some x =>
    rw [hentry] at h
    exact congrArg some h

/-- A node beyond the child buffers has no children. -/
theorem InRange.kids_eq_nil (h : t.InRange) {i : Nat} (hi : t.left.size ≤ i) : t.kids i = [] := by
  have hleft : t.left.toInts[i]? = none := List.getElem?_eq_none (by simpa using hi)
  have hright : t.right.toInts[i]? = none :=
    List.getElem?_eq_none (by simpa [← h.sameLength] using hi)
  rw [kids, leftEntry, rightEntry, hleft, hright]
  rfl

/-- The children that are looked up at a node are its children. -/
theorem InRange.childIndices_eq (h : t.InRange) (i : Nat) :
    t.childIndices (.int i) = .ok ((t.kids i).map Int.ofNat) := by
  have hkept : ∀ e : Int, [e].filter (0 ≤ ·) = e.toNat?.toList.map Int.ofNat := by
    rintro (n | n) <;> rfl
  have hfloor : (Numeral.int i).floor = i := rfl
  unfold childIndices
  rw [hfloor, internalCount]
  by_cases hi : t.left.size ≤ i
  · rw [if_pos (by omega), h.kids_eq_nil hi]
    rfl
  · obtain ⟨l, hl⟩ : ∃ l, t.left.toInts[i]? = some l :=
      ⟨_, List.getElem?_eq_getElem (by simpa using hi)⟩
    obtain ⟨r, hr⟩ : ∃ r, t.right.toInts[i]? = some r :=
      ⟨_, List.getElem?_eq_getElem (by simpa [← h.sameLength] using hi)⟩
    rw [if_neg (by omega), kids, leftEntry, rightEntry, hl, hr, List.map_append,
      Option.getD_some, Option.getD_some, ← hkept, ← hkept, ← List.filter_append]
    simp only [Buffer.pick?, Buffer.entry?_natCast hl, Buffer.entry?_natCast hr]
    rfl

/-! ## §2 Agreement -/

/-- The buffers describe one tree with this root. -/
structure Consistent (t : ArrayTree) (root : Nat) : Prop where
  root_lt : root < t.size
  /-- The root has a negative parent entry, and no other node has. -/
  parentless : ∀ i < t.size, t.parentEntry i < 0 ↔ i = root
  /-- The parent of a child is the node whose child it is. -/
  parent_of_child : ∀ i c : Nat, t.leftEntry i = c ∨ t.rightEntry i = c → t.parentEntry c = i
  /-- Every other node is in one place of the child buffers. -/
  listed_once : ∀ c < t.size, c ≠ root → (t.left.toInts ++ t.right.toInts).count (c : Int) = 1
  /-- Going from parent to parent leads to the root. -/
  reaches_root : ∀ i < t.size,
    Relation.ReflTransGen (fun j p : Nat => t.parentEntry j = p) i root

/-- A node with a parent entry is one of the nodes. -/
theorem lt_size_of_parentEntry {i p : Nat} (h : t.parentEntry i = p) : i < t.size := by
  have hentry := (List.getElem?_eq_some_iff.1 (getElem?_of_entry h)).1
  rwa [Buffer.length_toInts] at hentry

namespace Consistent

variable {root : Nat}

/-- The root is the first node without a parent, for it is the only one. -/
theorem root?_eq (h : t.Consistent root) : t.root? = some root := by
  have hentry : ∀ i (hi : i < t.parent.size), t.parentEntry i = t.parent[i].toInt := fun i hi => by
    rw [parentEntry, Buffer.getElem?_toInts, Array.getElem?_eq_getElem hi]
    rfl
  have hroot : root < t.parent.size := h.root_lt
  refine Array.findIdx?_eq_some_iff_getElem.2 ⟨hroot, ?_, fun j hj => ?_⟩
  · rw [decide_eq_true_eq, ← hentry root hroot]
    exact (h.parentless root hroot).2 rfl
  · rw [decide_eq_true_eq, ← hentry j (hj.trans hroot), h.parentless j (hj.trans hroot)]
    exact Nat.ne_of_lt hj

theorem parentEntry_of_mem_kids (h : t.Consistent root) {i c : Nat} (hc : c ∈ t.kids i) :
    t.parentEntry c = i :=
  h.parent_of_child i c (mem_kids.1 hc)

/-- A node whose parent entry is a node is not the root. -/
theorem ne_root_of_parentEntry (h : t.Consistent root) {i p : Nat} (hp : t.parentEntry i = p) :
    i ≠ root := by
  intro hroot
  have hnegative := (h.parentless i (lt_size_of_parentEntry hp)).2 hroot
  omega

/-- A node is among the children of its parent. -/
theorem mem_kids_of_parentEntry (h : t.Consistent root) {i p : Nat} (hp : t.parentEntry i = p) :
    i ∈ t.kids p := by
  have hcount := h.listed_once i (lt_size_of_parentEntry hp) (h.ne_root_of_parentEntry hp)
  have hlisted : (i : Int) ∈ t.left.toInts ++ t.right.toInts := by
    rw [← List.count_pos_iff, hcount]
    exact Nat.one_pos
  obtain ⟨j, hj⟩ : ∃ j, i ∈ t.kids j := by
    rcases List.mem_append.1 hlisted with hmem | hmem
    · obtain ⟨j, hj⟩ := List.mem_iff_getElem?.1 hmem
      exact ⟨j, mem_kids.2 (.inl (by rw [leftEntry, hj]; rfl))⟩
    · obtain ⟨j, hj⟩ := List.mem_iff_getElem?.1 hmem
      exact ⟨j, mem_kids.2 (.inr (by rw [rightEntry, hj]; rfl))⟩
  have hparent := h.parentEntry_of_mem_kids hj
  rw [hp, Int.natCast_inj] at hparent
  rwa [hparent]

/-- The two children of a node differ. -/
theorem nodup_kids (h : t.Consistent root) (i : Nat) : (t.kids i).Nodup := by
  rw [kids, List.nodup_append]
  refine ⟨Option.toList_nodup _, Option.toList_nodup _, ?_⟩
  rintro c hleft d hright rfl
  rw [Option.mem_toList, Int.mem_toNat?] at hleft hright
  have hparent := h.parent_of_child i c (.inl hleft)
  have hcount := h.listed_once c (lt_size_of_parentEntry hparent)
    (h.ne_root_of_parentEntry hparent)
  have hpositive : ∀ {entries : List Int}, entries[i]? = some (c : Int) →
      0 < entries.count (c : Int) := fun hentry =>
    List.count_pos_iff.2 (List.mem_of_getElem? hentry)
  have hinLeft := hpositive (getElem?_of_entry hleft)
  have hinRight := hpositive (getElem?_of_entry hright)
  rw [List.count_append] at hcount
  omega

end Consistent

/-! ## §3 Lineages -/

/-- The ancestors of a node, nearest first, are the chain of parents from it. -/
inductive Lineage (t : ArrayTree) : Nat → List Nat → Prop
  | root {i : Nat} (hlt : i < t.size) (hparent : t.parentEntry i < 0) : Lineage t i []
  | child {i p : Nat} {above : List Nat} (hparent : t.parentEntry i = p)
      (habove : Lineage t p above) : Lineage t i (p :: above)

namespace Lineage

variable {i : Nat} {above : List Nat}

theorem lt_size (h : t.Lineage i above) : i < t.size := by
  cases h with
  | root hlt _ => exact hlt
  | child hparent _ => exact lt_size_of_parentEntry hparent

theorem unique {other : List Nat} (h : t.Lineage i above) (hother : t.Lineage i other) :
    above = other := by
  induction h generalizing other with
  | root _ hparent =>
    cases hother with
    | root => rfl
    | child hparent' _ => omega
  | child hparent _ ih =>
    cases hother with
    | root _ hparent' => omega
    | child hparent' habove' =>
      rw [hparent, Int.natCast_inj] at hparent'
      subst hparent'
      rw [ih habove']

end Lineage

namespace Consistent

variable {root : Nat}

theorem lineage_of_mem_kids (h : t.Consistent root) {i c : Nat} {above : List Nat}
    (hi : t.Lineage i above) (hc : c ∈ t.kids i) : t.Lineage c (i :: above) :=
  .child (h.parentEntry_of_mem_kids hc) hi

theorem lineage_root (h : t.Consistent root) : t.Lineage root [] :=
  .root h.root_lt ((h.parentless root h.root_lt).2 rfl)

theorem exists_lineage (h : t.Consistent root) {i : Nat} (hi : i < t.size) :
    ∃ above, t.Lineage i above := by
  have hreaches := h.reaches_root i hi
  clear hi
  induction hreaches using Relation.ReflTransGen.head_induction_on with
  | refl => exact ⟨[], h.lineage_root⟩
  | head hparent _ ih =>
    obtain ⟨above, habove⟩ := ih
    exact ⟨_ :: above, .child hparent habove⟩

/-- The ancestors of a node are bounded in number. -/
theorem exists_bound (h : t.Consistent root) :
    ∃ most, ∀ i above, t.Lineage i above → above.length ≤ most := by
  choose line hline using fun i : Fin t.size => h.exists_lineage i.2
  refine ⟨Finset.univ.sup fun i => (line i).length, fun i above hi => ?_⟩
  rw [hi.unique (hline ⟨i, hi.lt_size⟩)]
  exact Finset.le_sup (f := fun i => (line i).length) (Finset.mem_univ _)

end Consistent

/-! ## §4 Preorder -/

/-- The nodes at and below a child entry in preorder: the node, those of its left subtree, those of
its right subtree. -/
inductive Preorder (t : ArrayTree) : Int → List Nat → Prop
  | absent {entry : Int} (hentry : entry < 0) : Preorder t entry []
  | node {entry : Int} {i : Nat} {lefts rights : List Nat} (hentry : entry = i)
      (hleft : Preorder t (t.leftEntry i) lefts) (hright : Preorder t (t.rightEntry i) rights) :
      Preorder t entry (i :: (lefts ++ rights))

theorem Preorder.leaf {i : Nat} (hleft : t.leftEntry i < 0) (hright : t.rightEntry i < 0) :
    t.Preorder i [i] :=
  .node rfl (.absent hleft) (.absent hright)

/-- There is one preorder only. -/
theorem Preorder.unique {entry : Int} {order other : List Nat} (h : t.Preorder entry order)
    (hother : t.Preorder entry other) : order = other := by
  induction h generalizing other with
  | absent hentry =>
    cases hother with
    | absent => rfl
    | node hentry' _ _ => omega
  | node hentry _ _ ihleft ihright =>
    cases hother with
    | absent hentry' => omega
    | node hentry' hleft' hright' =>
      rw [hentry, Int.natCast_inj] at hentry'
      subst hentry'
      rw [ihleft hleft', ihright hright']

namespace Consistent

variable {root : Nat} {visits : List (Nat × List Nat)}

/-- The visits at and below a node are in preorder. There are such visits, since no lineage is
longer than `most`. -/
theorem exists_visits_of_lineage (h : t.Consistent root) {most : Nat}
    (hmost : ∀ i above, t.Lineage i above → above.length ≤ most) (k : Nat) :
    ∀ {i : Nat} {above : List Nat}, t.Lineage i above → most < above.length + k →
      ∃ visits, Visits t.kids above [i] visits ∧ t.Preorder i (visits.map Prod.fst) := by
  induction k with
  | zero =>
    intro i above hi hk
    have hle := hmost i above hi
    omega
  | succ k ih =>
    intro i above hi hk
    have hside : ∀ entry : Int, (∀ c : Nat, entry = c → c ∈ t.kids i) →
        ∃ visits, Visits t.kids (i :: above) entry.toNat?.toList visits ∧
          t.Preorder entry (visits.map Prod.fst) := by
      rintro (c | n) hentry
      · refine ih (h.lineage_of_mem_kids hi (hentry c rfl)) ?_
        rw [List.length_cons]
        omega
      · exact ⟨[], .nil _, .absent (Int.negSucc_lt_zero n)⟩
    obtain ⟨lefts, hlefts, hleft⟩ := hside (t.leftEntry i) fun c hc => mem_kids.2 (.inl hc)
    obtain ⟨rights, hrights, hright⟩ := hside (t.rightEntry i) fun c hc => mem_kids.2 (.inr hc)
    refine ⟨_, .cons i (hlefts.append hrights) (.nil above), ?_⟩
    rw [List.append_nil, List.map_cons, List.map_append]
    exact .node rfl hleft hright

theorem exists_visits (h : t.Consistent root) :
    ∃ visits, Visits t.kids [] [root] visits ∧ t.Preorder root (visits.map Prod.fst) := by
  obtain ⟨most, hmost⟩ := h.exists_bound
  refine h.exists_visits_of_lineage hmost (most + 1) h.lineage_root ?_
  omega

/-- Every node is visited under its ancestors. -/
theorem lineage_of_visits (h : t.Consistent root) (hvisits : Visits t.kids [] [root] visits) :
    ∀ v ∈ visits, t.Lineage v.1 v.2 :=
  hvisits.forall_mem (List.forall_mem_singleton.2 h.lineage_root)
    fun _ _ hi _ hc => h.lineage_of_mem_kids hi hc

/-- No node is visited twice, for it has one line of ancestors only. -/
theorem nodup_visits (h : t.Consistent root) (hvisits : Visits t.kids [] [root] visits) :
    (visits.map Prod.fst).Nodup :=
  hvisits.nodup (fun _ _ _ ha hb => ha.unique hb)
    (fun i _ hi => ⟨h.nodup_kids i, fun _ hc => h.lineage_of_mem_kids hi hc⟩)
    (List.forall_mem_singleton.2 h.lineage_root) (List.nodup_singleton root)

/-- Every node is visited, for its ancestors are. -/
theorem mem_visits (h : t.Consistent root) (hvisits : Visits t.kids [] [root] visits) {i : Nat}
    {above : List Nat} (hi : t.Lineage i above) : (i, above) ∈ visits := by
  induction hi with
  | root hlt hparent =>
    exact hvisits.mem_of_root (List.mem_singleton.2 ((h.parentless _ hlt).1 hparent))
  | child hparent _ ih => exact hvisits.mem_of_kid ih (h.mem_kids_of_parentEntry hparent)

/-- So the visits are to all nodes, each of them once. -/
theorem perm_range (h : t.Consistent root) (hvisits : Visits t.kids [] [root] visits) :
    (visits.map Prod.fst).Perm (List.range t.size) := by
  refine (List.perm_ext_iff_of_nodup (h.nodup_visits hvisits) List.nodup_range).2 fun i => ?_
  rw [List.mem_range, List.mem_map]
  constructor
  · rintro ⟨v, hv, rfl⟩
    exact (h.lineage_of_visits hvisits v hv).lt_size
  · intro hi
    obtain ⟨above, habove⟩ := h.exists_lineage hi
    exact ⟨(i, above), h.mem_visits hvisits habove, rfl⟩

end Consistent

end GraphFold.ArrayTree
