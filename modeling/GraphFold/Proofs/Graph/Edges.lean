/-
GraphFold.Proofs.Graph.Edges — the graph of a list of edges keeps them all.

The offset of a node is the number of edges with a smaller source. In the list
sorted by sources these edges come first, so between the offset of a node and
the next there are the edges of that node; and since sorting is stable, they
are in the order in which they were listed.

A well-formed graph is known from its successors: the targets are the rows of
successors one after the other, and the offsets are the lengths of the rows so
far. So from the edges it lists the same graph is made again.

  §1 Lists    — prefixes of sorted lists.
  §2 Offsets  — degrees and their running sums.
  §3 Rows     — the successors in a well-formed graph.
  §4 Building — `CompressedGraph.ofEdges?_encodes`.
-/
import GraphFold.Proofs.Graph.Buffers

namespace GraphFold.CompressedGraph

open Index (Buffer Numeral ReportsFirst)

/-! ## §1 Lists -/

section Lists

variable {α : Type} {p : α → Bool} {l : List α}

/-- If a property passes from an entry to those before it, the entries with it come first. -/
theorem filter_append_filter_not (h : l.Pairwise fun x y => p y = true → p x = true) :
    l.filter p ++ l.filter (fun x => !p x) = l := by
  induction l with
  | nil => rfl
  | cons a l ih =>
    obtain ⟨ha, hl⟩ := List.pairwise_cons.1 h
    cases hp : p a with
    | true => simp [hp, ih hl]
    | false =>
      have hnone : ∀ x ∈ l, p x = false := fun x hx =>
        Bool.eq_false_iff.2 fun hpx => by simp [ha x hx hpx] at hp
      have hfilter : l.filter p = [] := by simpa [List.filter_eq_nil_iff] using hnone
      have hothers : l.filter (fun x => !p x) = l := by simpa [List.filter_eq_self] using hnone
      simp [hp, hfilter, hothers]

theorem take_countP (h : l.Pairwise fun x y => p y = true → p x = true) :
    l.take (l.countP p) = l.filter p := by
  conv => lhs; arg 2; rw [← filter_append_filter_not h]
  rw [List.countP_eq_length_filter, List.take_left]

theorem drop_countP (h : l.Pairwise fun x y => p y = true → p x = true) :
    l.drop (l.countP p) = l.filter fun x => !p x := by
  conv => lhs; arg 2; rw [← filter_append_filter_not h]
  rw [List.countP_eq_length_filter, List.drop_left]

end Lists

/-- The edges that leave a node. -/
def leaving (edges : List (Int × Int)) (i : Nat) : List (Int × Int) :=
  edges.filter (·.1 = (i : Int))

/-- The number of edges that leave a node. -/
def degree (edges : List (Int × Int)) (i : Nat) : Nat := edges.countP (·.1 = (i : Int))

/-- The number of edges that leave a node below the given one. -/
def before (edges : List (Int × Int)) (i : Nat) : Nat := edges.countP (·.1 < (i : Int))

/-- In a list sorted by sources, the edges of a node lie between the number of those before it and
the number of those before the next. -/
theorem drop_take_before {sorted : List (Int × Int)}
    (h : sorted.Pairwise fun a b => a.1 ≤ b.1) (i : Nat) :
    (sorted.take (before sorted (i + 1))).drop (before sorted i) = leaving sorted i := by
  have hbelow : ∀ (k : Nat) (xs : List (Int × Int)), xs.Pairwise (fun a b => a.1 ≤ b.1) →
      xs.Pairwise fun a b => decide (b.1 < (k : Int)) = true → decide (a.1 < (k : Int)) = true :=
    fun k xs hxs => hxs.imp fun hle hlt =>
      decide_eq_true (Int.lt_of_le_of_lt hle (of_decide_eq_true hlt))
  have hfront := take_countP (hbelow (i + 1) sorted h)
  have hcount : before sorted i =
      (sorted.filter (·.1 < ((i + 1 : Nat) : Int))).countP (·.1 < (i : Int)) := by
    rw [before, List.countP_filter]
    refine List.countP_congr fun e _ => ?_
    simp only [Bool.and_eq_true, decide_eq_true_eq]
    omega
  rw [hcount, before, hfront, drop_countP (hbelow i _ (h.filter _)), List.filter_filter, leaving]
  refine List.filter_congr fun e _ => ?_
  rw [Bool.eq_iff_iff]
  simp only [Bool.and_eq_true, Bool.not_eq_true', decide_eq_true_eq, decide_eq_false_iff_not]
  omega

/-- The edges sorted by their sources. -/
def sortedEdges (edges : List (Int × Int)) : List (Int × Int) :=
  edges.mergeSort fun a b => a.1 ≤ b.1

theorem sortedEdges_perm (edges : List (Int × Int)) : (sortedEdges edges).Perm edges :=
  List.mergeSort_perm edges _

theorem pairwise_sortedEdges (edges : List (Int × Int)) :
    (sortedEdges edges).Pairwise fun a b => a.1 ≤ b.1 := by
  have hsorted : (sortedEdges edges).Pairwise fun a b => decide (a.1 ≤ b.1) = true :=
    List.pairwise_mergeSort
      (fun a b c hab hbc => by simp only [decide_eq_true_eq] at *; omega)
      (fun a b => by simp only [Bool.or_eq_true, decide_eq_true_eq]; omega) edges
  exact hsorted.imp of_decide_eq_true

/-- Sorting keeps the edges of a node in order. -/
theorem leaving_sortedEdges (edges : List (Int × Int)) (i : Nat) :
    leaving (sortedEdges edges) i = leaving edges i := by
  have hequal : (leaving edges i).Pairwise fun a b => decide (a.1 ≤ b.1) = true := by
    refine List.pairwise_of_forall_mem_list fun a ha b hb => ?_
    have hsource := List.mem_filter.1 ha
    have hsource' := List.mem_filter.1 hb
    simp only [decide_eq_true_eq] at *
    omega
  have hkept : List.Sublist (leaving edges i) (sortedEdges edges) :=
    List.sublist_mergeSort
      (fun a b c hab hbc => by simp only [decide_eq_true_eq] at *; omega)
      (fun a b => by simp only [Bool.or_eq_true, decide_eq_true_eq]; omega)
      hequal List.filter_sublist
  have hleaving : List.Sublist (leaving edges i) (leaving (sortedEdges edges) i) := by
    have hfiltered := hkept.filter (·.1 = (i : Int))
    simpa only [leaving, List.filter_filter, Bool.and_self] using hfiltered
  exact (hleaving.eq_of_length
    ((sortedEdges_perm edges).filter _).length_eq.symm).symm

/-! ## §2 Offsets -/

theorem degree_cons (e : Int × Int) (edges : List (Int × Int)) (i : Nat) :
    degree (e :: edges) i = degree edges i + if e.1 = (i : Int) then 1 else 0 := by
  simp [degree, List.countP_cons]

/-- Counting the sources adds to each entry the number of edges that leave its position. -/
theorem getElem?_foldl_modify {edges : List (Int × Int)} (h : ∀ e ∈ edges, 0 ≤ e.1)
    (counts : Array Nat) (i : Nat) :
    (edges.foldl (fun counts edge => counts.modify edge.1.toNat (· + 1)) counts)[i]? =
      counts[i]?.map (· + degree edges i) := by
  induction edges generalizing counts with
  | nil => simp [degree]
  | cons e edges ih =>
    obtain ⟨he, hedges⟩ := List.forall_mem_cons.1 h
    rw [List.foldl_cons, ih hedges, Array.getElem?_modify, degree_cons]
    have hsource : e.1.toNat = i ↔ e.1 = (i : Int) := by omega
    by_cases hi : e.1 = (i : Int)
    · rw [if_pos (hsource.2 hi), Option.map_map, if_pos hi]
      refine congrArg (Option.map · _) (funext fun count => ?_)
      simp only [Function.comp]
      omega
    · rw [if_neg (mt hsource.1 hi), if_neg hi, Nat.add_zero]

theorem toList_outDegrees {edges : List (Int × Int)} {n : Nat} (h : ∀ e ∈ edges, 0 ≤ e.1) :
    (outDegrees n edges).toList = (List.range n).map (degree edges) := by
  refine List.ext_getElem? fun i => ?_
  rw [Array.getElem?_toList, outDegrees, getElem?_foldl_modify h]
  by_cases hi : i < n
  · simp [hi]
  · simp [hi]

theorem before_zero {edges : List (Int × Int)} (h : ∀ e ∈ edges, 0 ≤ e.1) : before edges 0 = 0 :=
  List.countP_eq_zero.2 fun e he => by
    have hsource := h e he
    simpa using hsource

theorem before_succ (edges : List (Int × Int)) (i : Nat) :
    before edges (i + 1) = before edges i + degree edges i := by
  induction edges with
  | nil => rfl
  | cons e edges ih =>
    rw [degree_cons]
    simp only [before, List.countP_cons, decide_eq_true_eq] at *
    split <;> split <;> split <;> omega

/-- The number of edges before the end is that of all. -/
theorem before_eq_length {edges : List (Int × Int)} {n : Nat} (h : ∀ e ∈ edges, e.1 < n) :
    before edges n = edges.length :=
  List.countP_eq_length.2 fun e he => decide_eq_true (h e he)

/-- The running sums of the degrees are the numbers of edges before each node. -/
theorem runningSums_outDegrees {edges : List (Int × Int)} {n : Nat} (h : ∀ e ∈ edges, 0 ≤ e.1) :
    runningSums (outDegrees n edges).toList = (List.range (n + 1)).map (before edges) := by
  have hsum : ∀ i, ((List.range i).map (degree edges)).foldl (· + ·) 0 = before edges i := by
    intro i
    induction i with
    | zero => exact (before_zero h).symm
    | succ i ih =>
      rw [List.range_succ, List.map_append, List.foldl_append, ih, before_succ]
      rfl
  refine List.ext_getElem? fun i => ?_
  rw [runningSums, List.getElem?_scanl, toList_outDegrees h, List.length_map, List.length_range,
    ← List.map_take, List.take_range, hsum]
  by_cases hi : i ≤ n
  · simp [hi, Nat.lt_succ_of_le hi]
  · rw [if_neg hi, List.getElem?_eq_none (by simp; omega)]

/-! ## §3 Rows -/

/-- Where the successors of a node start among the targets. -/
def offset (g : CompressedGraph) (i : Nat) : Nat := (g.offsets.toInts[i]?.getD 0).toNat

/-- The targets from the offset of a node to the next. -/
def row (g : CompressedGraph) (i : Nat) : List Int :=
  (g.targets.toInts.take (g.offset (i + 1))).drop (g.offset i)

namespace WellFormed

variable {g g' : CompressedGraph} {i k : Nat}

theorem size_offsets (h : g.WellFormed) : g.offsets.size = g.size + 1 := by
  obtain ⟨rest, hrest⟩ := List.head?_eq_some_iff.1 h.first
  have hlength := Buffer.length_toInts g.offsets
  rw [hrest, List.length_cons] at hlength
  rw [size]
  omega

theorem getElem?_offsets (h : g.WellFormed) (hi : i ≤ g.size) :
    g.offsets.toInts[i]? = some (g.offset i : Int) := by
  have hlt : i < g.offsets.toInts.length := by
    rw [Buffer.length_toInts, h.size_offsets]
    omega
  have hentry := List.getElem?_eq_getElem hlt
  have hlow := (bounds_of_isChain_le h.climbs h.first h.last _ (List.getElem_mem hlt)).1
  rw [offset, hentry, Option.getD_some, Int.toNat_of_nonneg hlow]

theorem offset_zero (h : g.WellFormed) : g.offset 0 = 0 := by
  rw [offset, ← List.head?_eq_getElem?, h.first]
  rfl

theorem offset_size (h : g.WellFormed) : g.offset g.size = g.edgeCount := by
  have hlast := h.last
  rw [List.getLast?_eq_getElem?, Buffer.length_toInts] at hlast
  rw [offset, size, hlast, Option.getD_some, Int.toNat_natCast]

theorem offset_le_succ (h : g.WellFormed) (hi : i < g.size) : g.offset i ≤ g.offset (i + 1) := by
  obtain ⟨hlt, hentry⟩ := List.getElem?_eq_some_iff.1 (h.getElem?_offsets (Nat.le_of_lt hi))
  obtain ⟨hlt', hnext⟩ := List.getElem?_eq_some_iff.1 (h.getElem?_offsets (Nat.succ_le_of_lt hi))
  have hle := List.isChain_iff_getElem.1 h.climbs i hlt'
  rw [hentry, hnext] at hle
  exact Int.ofNat_le.1 hle

theorem offset_le (h : g.WellFormed) (hi : i ≤ g.size) : g.offset i ≤ g.edgeCount := by
  have hentry := List.mem_of_getElem? (h.getElem?_offsets hi)
  exact Int.ofNat_le.1 (bounds_of_isChain_le h.climbs h.first h.last _ hentry).2

/-- The successors of a node are its row. -/
theorem successors_eq (h : g.WellFormed) (hi : i < g.size) :
    g.successors (.int i) = .ok (g.row i) := by
  have hstart : g.offsets.pick? (.int i) = .ok (g.offset i : Int) :=
    Buffer.entry?_natCast (h.getElem?_offsets (Nat.le_of_lt hi))
  have hstop : g.offsets.entry? ((Numeral.int i).toInt + 1) = .ok (g.offset (i + 1) : Int) :=
    Buffer.entry?_natCast (h.getElem?_offsets (Nat.succ_le_of_lt hi))
  have hslice : (Index.slice g.targets (g.offset i) (g.offset (i + 1))).toList =
      (g.targets.toList.take (g.offset (i + 1))).drop (g.offset i) :=
    Index.toList_slice (h.offset_le (Nat.succ_le_of_lt hi))
  rw [successors, hstart, hstop]
  simp only [bind, Except.bind, pure, Except.pure, hslice, row, Buffer.toInts, List.map_drop,
    List.map_take]

/-- The rows one after the other are the targets. -/
theorem flatMap_row (h : g.WellFormed) (hk : k ≤ g.size) :
    (List.range k).flatMap g.row = g.targets.toInts.take (g.offset k) := by
  induction k with
  | zero => rw [h.offset_zero]; rfl
  | succ k ih =>
    have hle := h.offset_le_succ (Nat.lt_of_succ_le hk)
    have hsplit := List.take_append_drop (g.offset k) (g.targets.toInts.take (g.offset (k + 1)))
    rw [List.take_take, Nat.min_eq_left hle] at hsplit
    rw [List.range_succ, List.flatMap_append, ih (Nat.le_of_succ_le hk), List.flatMap_singleton,
      row, hsplit]

/-- An offset is the length of the rows before. -/
theorem length_flatMap_row (h : g.WellFormed) (hk : k ≤ g.size) :
    ((List.range k).flatMap g.row).length = g.offset k := by
  rw [h.flatMap_row hk, List.length_take, Buffer.length_toInts]
  exact Nat.min_eq_left (h.offset_le hk)

/-- A well-formed graph is known from its successors. -/
theorem eq_of_row_eq (h : g.WellFormed) (h' : g'.WellFormed) (hsize : g.size = g'.size)
    (hrows : ∀ i < g.size, g.row i = g'.row i) : g = g' := by
  have hflat : ∀ k ≤ g.size, (List.range k).flatMap g.row = (List.range k).flatMap g'.row :=
    fun k hk => List.flatMap_congr fun i hi =>
      hrows i (Nat.lt_of_lt_of_le (List.mem_range.1 hi) hk)
  have hoffset : ∀ k ≤ g.size, g.offset k = g'.offset k := fun k hk => by
    rw [← h.length_flatMap_row hk, hflat k hk, h'.length_flatMap_row (hsize ▸ hk)]
  have hoffsets : g.offsets = g'.offsets := by
    refine Buffer.toInts_inj (List.ext_getElem? fun k => ?_)
    by_cases hk : k ≤ g.size
    · rw [h.getElem?_offsets hk, h'.getElem?_offsets (hsize ▸ hk), hoffset k hk]
    · rw [List.getElem?_eq_none, List.getElem?_eq_none]
      · rw [Buffer.length_toInts, h'.size_offsets]
        omega
      · rw [Buffer.length_toInts, h.size_offsets]
        omega
  have htargets : ∀ {g : CompressedGraph}, g.WellFormed →
      g.targets.toInts = (List.range g.size).flatMap g.row := fun hg => by
    rw [hg.flatMap_row (Nat.le_refl _), hg.offset_size, edgeCount, ← Buffer.length_toInts,
      List.take_length]
  have htargets' : g.targets = g'.targets := by
    refine Buffer.toInts_inj ?_
    rw [htargets h, htargets h', ← hsize, hflat g.size (Nat.le_refl _)]
  cases g
  cases g'
  rw [mk.injEq]
  exact ⟨hoffsets, htargets'⟩

end WellFormed

/-- The edges to the entries of the rows, for the nodes below the given one in turn. -/
def edgesOf (rows : Nat → List Int) (n : Nat) : List (Int × Int) :=
  (List.range n).flatMap fun i => (rows i).map fun t => ((i : Int), t)

theorem mem_edgesOf {rows : Nat → List Int} {n : Nat} {e : Int × Int} :
    e ∈ edgesOf rows n ↔ ∃ i < n, ∃ t ∈ rows i, ((i : Int), t) = e := by
  simp only [edgesOf, List.mem_flatMap, List.mem_range, List.mem_map]

/-- Of these edges, those that leave a node are those of its row. -/
theorem leaving_edgesOf {rows : Nat → List Int} {n i : Nat} (hi : i < n) :
    leaving (edgesOf rows n) i = (rows i).map fun t => ((i : Int), t) := by
  have hrow : ∀ k : Nat, ((rows k).map fun t => ((k : Int), t)).filter (·.1 = (i : Int)) =
      if k = i then (rows i).map fun t => ((i : Int), t) else [] := fun k => by
    split
    case isTrue hk =>
      subst hk
      exact List.filter_eq_self.2 fun e he => by
        obtain ⟨t, -, rfl⟩ := List.mem_map.1 he
        exact decide_eq_true rfl
    case isFalse hk =>
      refine List.filter_eq_nil_iff.2 fun e he => ?_
      obtain ⟨t, -, rfl⟩ := List.mem_map.1 he
      simp only [decide_eq_true_eq]
      omega
  have hbelow : ∀ k ≤ i, leaving (edgesOf rows k) i = [] := fun k hk =>
    List.filter_eq_nil_iff.2 fun e he => by
      obtain ⟨j, hj, t, -, rfl⟩ := mem_edgesOf.1 he
      simp only [decide_eq_true_eq]
      omega
  induction n with
  | zero => exact absurd hi (Nat.not_lt_zero i)
  | succ n ih =>
    have hsplit : leaving (edgesOf rows (n + 1)) i = leaving (edgesOf rows n) i ++
        if n = i then (rows i).map fun t => ((i : Int), t) else [] := by
      rw [← hrow, leaving, edgesOf, List.range_succ, List.flatMap_append, List.flatMap_singleton,
        List.filter_append]
      rfl
    rcases Nat.lt_or_eq_of_le (Nat.le_of_lt_succ hi) with hlt | rfl
    · rw [hsplit, ih hlt, if_neg (Nat.ne_of_gt hlt), List.append_nil]
    · rw [hsplit, hbelow i (Nat.le_refl i), if_pos rfl, List.nil_append]

/-! ## §4 Building -/

/-- The graph has this many nodes and holds these edges: there is an entry for each, the offset of a
node is the number of edges with a smaller source, and the successors of a node are the targets of
its edges as they were listed. -/
structure Encodes (g : CompressedGraph) (n : Nat) (edges : List (Int × Int)) : Prop where
  size_eq : g.size = n
  edgeCount_eq : g.edgeCount = edges.length
  offsets : ∀ i ≤ n, g.offsets.toInts[i]? = some (edges.countP (·.1 < (i : Int)) : Int)
  successors : ∀ i < n, g.successors (.int i) =
    .ok ((edges.filter (·.1 = (i : Int))).map (·.2))

/-- The buffers made from edges between nodes. -/
def encoding (n : Nat) (edges : List (Int × Int)) : CompressedGraph :=
  ⟨Buffer.ofInts ((runningSums (outDegrees n edges).toList).map Int.ofNat),
    Buffer.ofInts ((sortedEdges edges).map (·.2))⟩

section Encoding

variable {n : Nat} {edges : List (Int × Int)}

/-- All endpoints are nodes. -/
def Inside (n : Int) (edges : List (Int × Int)) : Prop :=
  ∀ e ∈ edges, (0 ≤ e.1 ∧ e.1 < n) ∧ 0 ≤ e.2 ∧ e.2 < n

theorem toInts_offsets_encoding (hinside : Inside n edges)
    (hcount : edges.length < Index.powerOfTwo 63) :
    (encoding n edges).offsets.toInts =
      (List.range (n + 1)).map fun i => (before edges i : Int) := by
  have hsources : ∀ e ∈ edges, 0 ≤ e.1 := fun e he => (hinside e he).1.1
  rw [encoding, Buffer.toInts_ofInts, runningSums_outDegrees hsources, List.map_map]
  · rfl
  · rw [runningSums_outDegrees hsources, List.map_map]
    intro x hx
    obtain ⟨i, -, rfl⟩ := List.mem_map.1 hx
    have hle : before edges i ≤ edges.length := List.countP_le_length
    refine Index.holds_index_iff.2 ⟨?_, ?_⟩
    · simp only [Function.comp, Int.ofNat_eq_natCast]
      omega
    · simp only [Function.comp, Int.ofNat_eq_natCast]
      omega

theorem toInts_targets_encoding (hinside : Inside n edges) (hn : n < Index.powerOfTwo 63) :
    (encoding n edges).targets.toInts = (sortedEdges edges).map (·.2) := by
  refine Buffer.toInts_ofInts fun x hx => ?_
  obtain ⟨e, he, rfl⟩ := List.mem_map.1 hx
  have htarget := (hinside e ((sortedEdges_perm edges).mem_iff.1 he)).2
  exact Index.holds_index_iff.2 (by omega)

/-- The buffers are well formed. -/
theorem wellFormed_encoding (hinside : Inside n edges) (hn : n < Index.powerOfTwo 63)
    (hcount : edges.length < Index.powerOfTwo 63) : (encoding n edges).WellFormed := by
  have hoffsets := toInts_offsets_encoding hinside hcount
  have htargets := toInts_targets_encoding hinside hn
  have hsize : (encoding n edges).offsets.size = n + 1 := by
    rw [← Buffer.length_toInts, hoffsets, List.length_map, List.length_range]
  have hedges : (encoding n edges).targets.size = edges.length := by
    rw [← Buffer.length_toInts, htargets, List.length_map, (sortedEdges_perm edges).length_eq]
  constructor
  case first =>
    rw [hoffsets, List.range_succ_eq_map, List.map_cons, List.head?_cons,
      before_zero fun e he => (hinside e he).1.1]
    rfl
  case last =>
    rw [hoffsets, List.range_succ, List.map_append, List.map_singleton, List.getLast?_concat,
      before_eq_length fun e he => (hinside e he).1.2, edgeCount, hedges]
  case climbs =>
    rw [hoffsets, List.isChain_iff_getElem]
    intro i hi
    simp only [List.getElem_map, List.getElem_range, before_succ]
    omega
  case targets =>
    rw [htargets, CompressedGraph.size, hsize]
    intro t ht
    obtain ⟨e, he, rfl⟩ := List.mem_map.1 ht
    exact (hinside e ((sortedEdges_perm edges).mem_iff.1 he)).2

/-- They hold the edges. -/
theorem encodes_encoding (hinside : Inside n edges) (hn : n < Index.powerOfTwo 63)
    (hcount : edges.length < Index.powerOfTwo 63) : (encoding n edges).Encodes n edges := by
  have hwell := wellFormed_encoding hinside hn hcount
  have hoffsets := toInts_offsets_encoding hinside hcount
  have htargets := toInts_targets_encoding hinside hn
  have hsize : (encoding n edges).size = n := by
    rw [CompressedGraph.size, ← Buffer.length_toInts, hoffsets, List.length_map, List.length_range]
    rfl
  have hentry : ∀ i ≤ n, (encoding n edges).offsets.toInts[i]? = some (before edges i : Int) :=
    fun i hi => by
      rw [hoffsets, List.getElem?_map, List.getElem?_range (Nat.lt_succ_of_le hi)]
      rfl
  have hoffset : ∀ i ≤ n, (encoding n edges).offset i = before edges i := fun i hi => by
    rw [offset, hentry i hi]
    rfl
  constructor
  case size_eq => exact hsize
  case edgeCount_eq =>
    rw [edgeCount, ← Buffer.length_toInts, htargets, List.length_map,
      (sortedEdges_perm edges).length_eq]
  case offsets => exact hentry
  case successors =>
    intro i hi
    have hsorted : ∀ k, before (sortedEdges edges) k = before edges k :=
      fun k => (sortedEdges_perm edges).countP_eq _
    rw [hwell.successors_eq (hsize.symm ▸ hi), row, hoffset i (Nat.le_of_lt hi), hoffset (i + 1) hi,
      htargets, ← hsorted, ← hsorted, ← List.map_take, ← List.map_drop,
      drop_take_before (pairwise_sortedEdges edges), leaving_sortedEdges, leaving]

end Encoding

/-- The edges between nodes are encoded, and no others are. -/
theorem ofEdges?_reportsFirst {capacity : Capacity} {size : Numeral} {edges : List (Int × Int)}
    (hsize : size.toInt ≤ capacity.nodes) (hcount : edges.length < Index.powerOfTwo 63)
    (hfits : ∀ e ∈ edges, Index.Dtype.index.holds e.1 = true ∧ Index.Dtype.index.holds e.2 = true) :
    ReportsFirst (encoding size.toInt.toNat edges)
      [(.noNodes, 1 ≤ size.toInt), (.endpointRange size, Inside size.toInt edges)]
      (ofEdges? capacity size edges) := by
  have hmax := capacity.nodes_lt
  have hends : ∀ p : Int → Bool, (edges.flatMap fun e => [e.1, e.2]).any p = true ↔
      ¬ ∀ e ∈ edges, p e.1 = false ∧ p e.2 = false := fun p => by
    rw [← Bool.not_eq_false, List.any_eq_false, not_iff_not]
    simp only [List.mem_flatMap, List.mem_cons, List.not_mem_nil, or_false, Bool.not_eq_true]
    exact ⟨fun h e he => ⟨h _ ⟨e, he, .inl rfl⟩, h _ ⟨e, he, .inr rfl⟩⟩,
      by rintro h _ ⟨e, he, rfl | rfl⟩; exacts [(h e he).1, (h e he).2]⟩
  rw [ofEdges?]
  refine .ite Int.not_le.symm fun hpositive => ?_
  rw [if_neg (by rw [hends, not_not]; simpa using hfits)]
  refine .ite ?_ fun hinside => ?_
  · rw [hends, not_iff_not]
    refine forall₂_congr fun e _ => ?_
    simp only [Bool.or_eq_false_iff, decide_eq_false_iff_not]
    omega
  · have hn : size.toInt.toNat ≤ capacity.nodes := Int.toNat_le.2 hsize
    have hinside' : Inside size.toInt.toNat edges := by
      rwa [Int.toNat_of_nonneg (by omega)]
    have hholds : Index.Dtype.index.holds size.toInt = true :=
      Index.holds_index_iff.2 (by omega)
    rw [if_neg (by rw [hholds]; exact Bool.false_ne_true.symm), if_neg (Nat.not_lt.2 hn)]
    exact (wellFormed_encoding hinside' (by omega) hcount).ofBuffers?_eq

namespace WellFormed

variable {g : CompressedGraph}

/-- The edges a well-formed graph lists are between its nodes. -/
theorem inside_edgesOf (h : g.WellFormed) : Inside g.size (edgesOf g.row g.size) := by
  intro e he
  obtain ⟨i, hi, t, ht, rfl⟩ := mem_edgesOf.1 he
  have htarget := h.targets t (List.mem_of_mem_take (List.mem_of_mem_drop ht))
  exact ⟨⟨Int.natCast_nonneg i, Int.ofNat_lt.2 hi⟩, htarget⟩

/-- There are as many as targets. -/
theorem length_edgesOf (h : g.WellFormed) : (edgesOf g.row g.size).length = g.edgeCount := by
  have htargets : (edgesOf g.row g.size).map (·.2) = (List.range g.size).flatMap g.row := by
    rw [edgesOf, List.map_flatMap]
    refine List.flatMap_congr fun i _ => ?_
    rw [List.map_map]
    exact List.map_id _
  rw [← List.length_map, htargets, h.length_flatMap_row (Nat.le_refl _), h.offset_size]

theorem edgeCount_lt (h : g.WellFormed) : g.edgeCount < Index.powerOfTwo 63 := by
  obtain ⟨last, -, hlast⟩ := List.mem_map.1 (List.mem_of_getLast? h.last)
  have hbound := (Index.toInt_bounds last).2
  omega

/-- The same graph is made from them. -/
theorem ofEdges?_eq {capacity : Capacity} (h : g.WellFormed) (hpositive : 1 ≤ g.size)
    (hsize : g.size ≤ capacity.nodes) :
    ofEdges? capacity (.int g.size) (edgesOf g.row g.size) = .ok g := by
  have hinside := h.inside_edgesOf
  have hcount : (edgesOf g.row g.size).length < Index.powerOfTwo 63 :=
    h.length_edgesOf ▸ h.edgeCount_lt
  have hn : g.size < Index.powerOfTwo 63 := Nat.lt_of_le_of_lt hsize capacity.nodes_lt
  have hfits : ∀ e ∈ edgesOf g.row g.size,
      Index.Dtype.index.holds e.1 = true ∧ Index.Dtype.index.holds e.2 = true := fun e he => by
    obtain ⟨⟨_, _⟩, _, _⟩ := hinside e he
    exact ⟨Index.holds_index_iff.2 (by omega), Index.holds_index_iff.2 (by omega)⟩
  have hencodes := encodes_encoding hinside hn hcount
  have hsame : encoding g.size (edgesOf g.row g.size) = g := by
    refine (wellFormed_encoding hinside hn hcount).eq_of_row_eq h hencodes.size_eq fun i hi => ?_
    have hi' : i < g.size := hencodes.size_eq ▸ hi
    have hrow := hencodes.successors i hi'
    rw [(wellFormed_encoding hinside hn hcount).successors_eq hi, Except.ok.injEq] at hrow
    rw [hrow, ← leaving, leaving_edgesOf hi', List.map_map]
    exact List.map_id _
  have hmost : (Numeral.int g.size).toInt ≤ capacity.nodes := Int.ofNat_le.2 hsize
  have hreports := ofEdges?_reportsFirst hmost hcount hfits
  refine hreports.eq_ok_iff.2 ⟨hsame.symm, ?_⟩
  simp only [List.forall_mem_cons]
  exact ⟨Int.ofNat_le.2 hpositive, hinside, by simp⟩

end WellFormed

/-- Making a graph from edges loses nothing. The number of nodes is refused if it is not positive,
and the edges if an endpoint is not a node, as a wrong value each time; otherwise there is a graph
that holds them. And every well-formed graph is made again from the edges to the successors of its
nodes. There are at most as many nodes as fit the memory; endpoints and the number of edges fit 64
bits. -/
theorem ofEdges?_lossless (capacity : Capacity) :
    (∀ (size : Numeral) (edges : List (Int × Int)), size.toInt ≤ capacity.nodes →
      edges.length < Index.powerOfTwo 63 →
      (∀ e ∈ edges, Index.Dtype.index.holds e.1 = true ∧ Index.Dtype.index.holds e.2 = true) →
      ((size.toInt < 1 ∨ ¬ Inside size.toInt edges) ↔
        ∃ error message, ofEdges? capacity size edges = .error error ∧
          (GraphBuildError.graph error).report = .plain .value message) ∧
      (1 ≤ size.toInt ∧ Inside size.toInt edges →
        ∃ g, ofEdges? capacity size edges = .ok g ∧ g.WellFormed ∧ g.Encodes size.toInt.toNat edges)) ∧
    ∀ g : CompressedGraph, g.WellFormed → 1 ≤ g.size → g.size ≤ capacity.nodes →
      ∃ rows : Nat → List Int, (∀ i < g.size, g.successors (.int i) = .ok (rows i)) ∧
        ofEdges? capacity (.int g.size) (edgesOf rows g.size) = .ok g := by
  have hmax := capacity.nodes_lt
  constructor
  · intro size edges hsize hcount hfits
    rcases ofEdges?_reportsFirst hsize hcount hfits with
      ⟨hpositive, ⟨hinside, hmade⟩ | ⟨houtside, hfailed⟩⟩ | ⟨hnone, hfailed⟩
    · have hn : size.toInt.toNat < Index.powerOfTwo 63 := by omega
      have hinside' : Inside size.toInt.toNat edges := by
        rwa [Int.toNat_of_nonneg (by omega)]
      refine ⟨⟨fun hbad => ?_, ?_⟩, fun _ => ⟨_, hmade, wellFormed_encoding hinside' hn hcount,
        encodes_encoding hinside' hn hcount⟩⟩
      · exact hbad.elim (fun h => absurd hpositive (Int.not_le.2 h)) (absurd hinside)
      · rintro ⟨error, message, hfailed, -⟩
        cases hmade.symm.trans hfailed
    · exact ⟨⟨fun _ => ⟨_, _, hfailed, rfl⟩, fun _ => .inr houtside⟩,
        fun h => absurd h.2 houtside⟩
    · exact ⟨⟨fun _ => ⟨_, _, hfailed, rfl⟩, fun _ => .inl (Int.not_le.1 hnone)⟩,
        fun h => absurd h.1 hnone⟩
  · intro g h hpositive hsize
    exact ⟨g.row, fun i hi => h.successors_eq hi, h.ofEdges?_eq hpositive hsize⟩

/-- Three nodes with a repeated edge and a self-loop; the last one has no successors. The edges are
taken in sorted by their sources. -/
theorem ofEdges?_lossless_loop :
    ∃ g, ofEdges? ⟨3, by decide⟩ (.int 3) [(1, 0), (0, 2), (1, 1), (0, 2)] = .ok g ∧
      g.Encodes 3 [(1, 0), (0, 2), (1, 1), (0, 2)] ∧
      ∃ rows, (∀ i : Nat, i < 3 → g.successors (.int i) = .ok (rows i)) ∧
        ofEdges? ⟨3, by decide⟩ (.int 3) (edgesOf rows 3) = .ok g := by
  have hedges := (ofEdges?_lossless ⟨3, by decide⟩).1 (.int 3) [(1, 0), (0, 2), (1, 1), (0, 2)] (by decide)
    (by decide) (by decide)
  obtain ⟨g, hmade, hwell, hencodes⟩ := hedges.2 ⟨by decide, by unfold Inside; decide⟩
  have hsize : g.size = 3 := hencodes.size_eq
  obtain ⟨rows, hrows, hagain⟩ := (ofEdges?_lossless ⟨3, by decide⟩).2 g hwell
    (by rw [hsize]; decide) (by rw [hsize])
  rw [hsize] at hrows hagain
  exact ⟨g, hmade, hencodes, rows, hrows, hagain⟩

end GraphFold.CompressedGraph
