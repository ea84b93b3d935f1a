/-
GraphFold.Proofs.Walk.Arrivals — where a walk arrives first.

A walk that goes on everywhere calls a node where it arrives at it first, and
skips it wherever it comes back to it. `Arrivals` spells these places out, with
the nodes seen before in place of a stack: a new node with its ancestors, then
the first arrivals below it, then those at its later siblings. A node with
several parents has the ancestors by which it was met first, however deep it
lies otherwise. So a limit on the depth is exceeded exactly if one of these
lines of ancestors is longer.

  §1 Arrivals — `Arrivals`, and that there is one list of them.
  §2 Reached  — every node that is reached is arrived at once.
  §3 Walks    — `Setting.Unfolds.exists_reduce_arrivals`.
  §4 Limits   — `Setting.limited_of_finished`.
-/
import GraphFold.Proofs.Walk.DepthLimit
import GraphFold.Proofs.Walk.Preorder
import Mathlib.Data.Finset.Card

namespace GraphFold

variable {I J N K S A V E W L : Type}

/-! ## §1 Arrivals -/

/-- The first arrivals at some nodes with the same ancestors, nearest first, and at all nodes below
them, by a depth-first search that has seen some nodes before. -/
inductive Arrivals (kids : I → List I) :
    List I → List I → List I → List (I × List I) → Prop
  | nil (seen above : List I) : Arrivals kids seen above [] []
  | again {seen above later : List I} {rest : List (I × List I)} (i : I) (hseen : i ∈ seen)
      (hrest : Arrivals kids seen above later rest) : Arrivals kids seen above (i :: later) rest
  | first {seen above later : List I} {own rest : List (I × List I)} (i : I) (hnew : i ∉ seen)
      (hown : Arrivals kids (i :: seen) (i :: above) (kids i) own)
      (hrest : Arrivals kids (own.map Prod.fst ++ i :: seen) above later rest) :
      Arrivals kids seen above (i :: later) ((i, above) :: (own ++ rest))

namespace Arrivals

variable {kids : I → List I} {seen above roots : List I} {arrivals : List (I × List I)}

/-- The same with the children of the new node given. -/
theorem first_of_kids {later below : List I} {own rest : List (I × List I)} {i : I}
    (hnew : i ∉ seen) (hkids : kids i = below)
    (hown : Arrivals kids (i :: seen) (i :: above) below own)
    (hrest : Arrivals kids (own.map Prod.fst ++ i :: seen) above later rest) :
    Arrivals kids seen above (i :: later) ((i, above) :: (own ++ rest)) :=
  .first i hnew (hkids ▸ hown) hrest

/-- The search comes to one list of arrivals. -/
theorem unique {others : List (I × List I)} (h : Arrivals kids seen above roots arrivals)
    (h' : Arrivals kids seen above roots others) : arrivals = others := by
  induction h generalizing others with
  | nil => cases h'; rfl
  | again i hseen _ ih =>
    cases h' with
    | again _ _ hrest => exact ih hrest
    | first _ hnew => exact absurd hseen hnew
  | first i hnew _ _ ihown ihrest =>
    cases h' with
    | again _ hseen => exact absurd hseen hnew
    | first _ _ hown hrest =>
      cases ihown hown
      rw [ihrest hrest]

/-- There is one if all nodes that can be met are among finitely many. -/
theorem exists_of_finset [DecidableEq I] {P : I → Prop} {all : Finset I}
    (hall : ∀ i, P i → i ∈ all) (hkids : ∀ i, P i → ∀ j ∈ kids i, P j) {n : Nat}
    (hcard : (all \ seen.toFinset).card ≤ n) (hroots : ∀ i ∈ roots, P i) :
    ∃ arrivals, Arrivals kids seen above roots arrivals := by
  -- Fewer nodes are left below a new one, and none comes back at its later siblings.
  have hless : ∀ (i : I) (old new : List I), P i → i ∉ old → i ∈ new → old ⊆ new →
      (all \ new.toFinset).card < (all \ old.toFinset).card := by
    intro i old new hi hold hnew hsub
    refine Finset.card_lt_card (Finset.ssubset_iff_of_subset ?_ |>.2 ⟨i, ?_, ?_⟩)
    · exact Finset.sdiff_subset_sdiff (Finset.Subset.refl all) fun j hj =>
        List.mem_toFinset.2 (hsub (List.mem_toFinset.1 hj))
    · simp [hall i hi, hold]
    · simp [hnew]
  induction n using Nat.strong_induction_on generalizing seen above roots with
  | _ n ihn =>
    induction roots generalizing seen with
    | nil => exact ⟨[], .nil seen above⟩
    | cons i later ih =>
      obtain ⟨hi, hlater⟩ := List.forall_mem_cons.1 hroots
      by_cases hseen : i ∈ seen
      · obtain ⟨rest, hrest⟩ := ih hcard hlater
        exact ⟨rest, .again i hseen hrest⟩
      · have hbelow := hless i seen (i :: seen) hi hseen List.mem_cons_self
          (List.subset_cons_self i seen)
        obtain ⟨own, hown⟩ : ∃ own, Arrivals kids (i :: seen) (i :: above) (kids i) own :=
          ihn _ (Nat.lt_of_lt_of_le hbelow hcard) (Nat.le_refl _) (hkids i hi)
        have hafter := hless i seen (own.map Prod.fst ++ i :: seen) hi hseen (by simp)
          (fun j hj => by simp [hj])
        obtain ⟨rest, hrest⟩ := ih (Nat.le_trans (Nat.le_of_lt hafter) hcard) hlater
        exact ⟨_, .first i hseen hown hrest⟩

/-- What holds of the roots, and of the children of a node if it holds of the node, holds at every
arrival. -/
theorem forall_mem {P : I → List I → Prop} (h : Arrivals kids seen above roots arrivals)
    (hroots : ∀ i ∈ roots, P i above)
    (hkids : ∀ i up, P i up → ∀ j ∈ kids i, P j (i :: up)) : ∀ v ∈ arrivals, P v.1 v.2 := by
  induction h with
  | nil => exact fun v hv => by cases hv
  | again i _ _ ih => exact ih (List.forall_mem_cons.1 hroots).2
  | first i _ _ _ ihown ihrest =>
    obtain ⟨hi, hlater⟩ := List.forall_mem_cons.1 hroots
    rw [List.forall_mem_cons, List.forall_mem_append]
    exact ⟨hi, ihown fun j hj => hkids i _ hi j hj, ihrest hlater⟩

/-- A function that takes the children of every node to those of its image takes arrivals to
arrivals, if it tells the nodes apart. -/
theorem map {kids' : J → List J} {f : I → J} (hf : f.Injective)
    (hkids : ∀ i, kids' (f i) = (kids i).map f) (h : Arrivals kids seen above roots arrivals) :
    Arrivals kids' (seen.map f) (above.map f) (roots.map f)
      (arrivals.map fun v => (f v.1, v.2.map f)) := by
  induction h with
  | nil => exact .nil _ _
  | again i hseen _ ih => exact .again _ (List.mem_map_of_mem hseen) ih
  | @first seen above later own rest i hnew _ _ ihown ihrest =>
    have hnew' : f i ∉ seen.map f := by rwa [List.mem_map_of_injective hf]
    have hfst : (own.map fun v => (f v.1, v.2.map f)).map Prod.fst = (own.map Prod.fst).map f := by
      rw [List.map_map, List.map_map]
      rfl
    rw [List.map_cons, List.map_cons, List.map_append]
    refine .first _ hnew' (hkids i ▸ ihown) ?_
    rw [hfst, ← List.map_cons, ← List.map_append]
    exact ihrest

/-! ## §2 Reached -/

/-- No node is arrived at twice, and none that was seen before. -/
theorem nodup (h : Arrivals kids seen above roots arrivals) :
    (arrivals.map Prod.fst).Nodup ∧ ∀ i ∈ arrivals.map Prod.fst, i ∉ seen := by
  induction h with
  | nil => exact ⟨List.nodup_nil, fun i hi => by cases hi⟩
  | again _ _ _ ih => exact ih
  | @first seen _ _ own rest i hnew _ _ ihown ihrest =>
    obtain ⟨hownNodup, hownNew⟩ := ihown
    obtain ⟨hrestNodup, hrestNew⟩ := ihrest
    simp only [List.mem_append, List.mem_cons, not_or] at hownNew hrestNew
    rw [List.map_cons, List.map_append]
    refine ⟨List.nodup_cons.2 ⟨?_, List.nodup_append.2 ⟨hownNodup, hrestNodup, ?_⟩⟩, ?_⟩
    · rw [List.mem_append]
      rintro (hi | hi)
      · exact (hownNew i hi).1 rfl
      · exact (hrestNew i hi).2.1 rfl
    · rintro j hj _ hj' rfl
      exact (hrestNew j hj').1 hj
    · rw [List.forall_mem_cons, List.forall_mem_append]
      exact ⟨hnew, fun j hj => (hownNew j hj).2, fun j hj => (hrestNew j hj).2.2⟩

/-- The roots are arrived at, if they were not seen before, -/
theorem mem_of_root (h : Arrivals kids seen above roots arrivals) {i : I} (hi : i ∈ roots) :
    i ∈ seen ∨ i ∈ arrivals.map Prod.fst := by
  induction h with
  | nil => cases hi
  | again j hseen _ ih =>
    rcases List.mem_cons.1 hi with rfl | hlater
    · exact .inl hseen
    · exact ih hlater
  | first j _ _ _ _ ihrest =>
    rw [List.map_cons, List.map_append, List.mem_cons, List.mem_append]
    rcases List.mem_cons.1 hi with rfl | hlater
    · exact .inr (.inl rfl)
    · rcases ihrest hlater with hmet | hmet
      · rw [List.mem_append, List.mem_cons] at hmet
        grind
      · exact .inr (.inr (.inr hmet))

/-- and so are the children of nodes that are. -/
theorem mem_of_kid (h : Arrivals kids seen above roots arrivals) {i j : I}
    (hi : i ∈ arrivals.map Prod.fst) (hj : j ∈ kids i) :
    j ∈ seen ∨ j ∈ arrivals.map Prod.fst := by
  induction h with
  | nil => cases hi
  | again _ _ _ ih => exact ih hi
  | @first seen above later own rest k _ hown _ ihown ihrest =>
    rw [List.map_cons, List.map_append, List.mem_cons, List.mem_append] at hi ⊢
    have hmet : j ∈ k :: seen ∨ j ∈ own.map Prod.fst ∨ j ∈ rest.map Prod.fst := by
      rcases hi with rfl | hi | hi
      · exact (hown.mem_of_root hj).imp_right .inl
      · exact (ihown hi).imp_right .inl
      · rcases ihrest hi with hmet | hmet
        · exact (List.mem_append.1 hmet).symm.imp_right .inl
        · exact .inr (.inr hmet)
    rw [List.mem_cons] at hmet
    grind

/-- From one root, all nodes that are reached are arrived at, and no others. -/
theorem mem_iff {root : I} (h : Arrivals kids [] [] [root] arrivals) {i : I} :
    i ∈ arrivals.map Prod.fst ↔ Relation.ReflTransGen (fun a b => b ∈ kids a) root i := by
  constructor
  · intro hi
    obtain ⟨v, hv, rfl⟩ := List.mem_map.1 hi
    refine h.forall_mem (P := fun i _ => Relation.ReflTransGen (fun a b => b ∈ kids a) root i)
      ?_ (fun a _ ha b hb => ha.tail hb) v hv
    rintro i hroot
    rw [List.mem_singleton.1 hroot]
  · intro hi
    have hmet : ∀ j, j ∈ [] ∨ j ∈ arrivals.map Prod.fst → j ∈ arrivals.map Prod.fst :=
      fun j hj => hj.resolve_left List.not_mem_nil
    induction hi with
    | refl => exact hmet _ (h.mem_of_root (List.mem_singleton_self root))
    | tail _ hkid ih => exact hmet _ (h.mem_of_kid ih hkid)

end Arrivals

/-! ## §3 Walks -/

variable [Ord K]

/-- Of a family of nodes, exactly these have been seen. -/
def Config.Knows (key : I → K) (c : Config N K S A V E W L) (seen : List I) : Prop :=
  ∀ i, c.state.isSeen (key i) = true ↔ i ∈ seen

theorem Config.Knows.isSeen_eq_false {key : I → K} {c : Config N K S A V E W L} {seen : List I}
    (h : c.Knows key seen) {i : I} (hi : i ∉ seen) : c.state.isSeen (key i) = false := by
  rw [← Bool.not_eq_true, h i]
  exact hi

namespace Setting.Unfolds

variable {g : Setting N K S A V E W L} {node : I → N} {key : I → K} {kids : I → List I}
  {c : Config N K S A V E W L} {seen above roots : List I} {own arrivals : List (I × List I)}

/-- A node that was seen is skipped. -/
theorem exists_passage_of_seen (hg : g.Unfolds node key kids) {i : I}
    (hpending : c.pending = some (node i)) (hseen : c.state.isSeen (key i) = true) :
    ∃ d, g.Passage c d ∧ d.state = c.state ∧ d.visited = c.visited := by
  have hstep := (step_of_pending hpending).trans (arrive_of_seen (hg.identity_eq i) hseen)
  exact ⟨_, .settled (node i) hpending hstep (by simp), by simp, by simp [Config.visited]⟩

variable [Std.TransOrd K]

/-- If the walk makes the first arrivals below a new node as it comes to them, it makes those at and
below the node. -/
theorem exists_passage_of_new (hg : g.Unfolds node key kids) {i : I}
    (hpending : c.pending = some (node i)) (habove : c.state.ancestors = above.map node)
    (hknows : c.Knows key seen) (hnew : i ∉ seen)
    (hown : ∀ d : Config N K S A V E W L,
      d.Expects node (i :: above) (kids i) (above.map node) c.frames → d.Knows key (i :: seen) →
      ∃ e, g.Passage d e ∧ e.visited = d.visited ++ own.map (fun v => (node v.1, v.2.map node)) ∧
        e.Knows key (own.map Prod.fst ++ i :: seen)) :
    ∃ e, g.Passage c e ∧
      e.visited = c.visited ++ ((i, above) :: own).map (fun v => (node v.1, v.2.map node)) ∧
      e.Knows key (own.map Prod.fst ++ i :: seen) := by
  obtain ⟨d, hstep, hexpects, hcalled⟩ :=
    hg.exists_step hpending habove (hknows.isSeen_eq_false hnew)
  have hknowsNew : d.Knows key (i :: seen) := fun j => by
    rw [hcalled.seen_iff, hknows j, List.map_singleton, List.mem_singleton, List.mem_cons, or_comm]
  obtain ⟨e, hpassage, hvisited, hknowsOwn⟩ := hown d hexpects hknowsNew
  refine ⟨_, .nested (node i) _ _ _ hpending hstep hexpects.frames_eq hpassage rfl, ?_, hknowsOwn⟩
  rw [hcalled.visited_eq, List.append_assoc] at hvisited
  exact hvisited

/-- The walk makes the first arrivals at and below the nodes it expects. -/
theorem exists_passage_arrivals (hg : g.Unfolds node key kids)
    (h : Arrivals kids seen above roots arrivals) {put : List N} {outer : List (Frame N E W)}
    (hc : c.Expects node above roots put outer) (hknows : c.Knows key seen) :
    ∃ d, g.Passage c d ∧
      d.visited = c.visited ++ arrivals.map (fun v => (node v.1, v.2.map node)) ∧
      d.Knows key (arrivals.map Prod.fst ++ seen) := by
  induction h generalizing c put outer with
  | nil seen above => exact ⟨c, .done put _ outer hc.pending_eq hc.frames_eq, by simp, hknows⟩
  | again i hseen _ ih =>
    obtain ⟨d, hpending, hstate, hjournal, hnext⟩ := hc.exists_next (g := g)
    obtain ⟨e, hpassage, hkept, hvisited⟩ :=
      hg.exists_passage_of_seen hpending (hstate ▸ (hknows i).2 hseen)
    obtain ⟨hafter, hjoin⟩ := hnext e hpassage
    obtain ⟨f, hrest, hrestVisited, hrestKnows⟩ := ih hafter fun j => by
      rw [hkept, hstate, hknows j]
    exact ⟨f, hjoin f hrest, by rw [hrestVisited, hvisited, Config.visited_of_journal hjournal],
      hrestKnows⟩
  | first i hnew _ _ ihown ihrest =>
    obtain ⟨d, hpending, hstate, hjournal, hnext⟩ := hc.exists_next (g := g)
    obtain ⟨e, hpassage, hvisited, hknowsOwn⟩ := hg.exists_passage_of_new hpending
      (hstate ▸ hc.ancestors_eq) (fun j => by rw [hstate, hknows j]) hnew
      fun d' hexpects hknows' => ihown hexpects hknows'
    obtain ⟨hafter, hjoin⟩ := hnext e hpassage
    obtain ⟨f, hrest, hrestVisited, hrestKnows⟩ := ihrest hafter hknowsOwn
    refine ⟨f, hjoin f hrest, ?_, fun j => ?_⟩
    · rw [hrestVisited, hvisited, Config.visited_of_journal hjournal, List.append_assoc,
        ← List.map_append]
      rfl
    · rw [hrestKnows j]
      simp only [List.map_cons, List.map_append, List.mem_append, List.mem_cons]
      grind

/-- A walk from a root calls the nodes where it arrives first, and comes to its end. -/
theorem exists_reduce_arrivals (hg : g.Unfolds node key kids) {root : I}
    (h : Arrivals kids [] [] [root] arrivals) (context : S) (value : A) (memory : W) (heard : L) :
    ∃ enough d, (∀ budget, enough ≤ budget →
        g.reduce budget (node root) context value memory heard = .finished d) ∧
      d.visited = arrivals.map fun v => (node v.1, v.2.map node) := by
  cases h with
  | again _ hseen => cases hseen
  | @first _ _ _ own rest _ hnew hown hrest =>
    obtain rfl : rest = [] := by cases hrest; rfl
    obtain ⟨start, hstart⟩ : ∃ start : Config N K S A V E W L,
        start = .start (node root) context value memory heard := ⟨_, rfl⟩
    have hknows : start.Knows key [] := fun i => by
      rw [hstart, show (Config.start (node root) context value memory heard :
        Config N K S A V E W L).state.isSeen (key i) = false from State.isSeen_new context (key i)]
      simp
    have habove : start.state.ancestors = ([] : List I).map node := by rw [hstart]; rfl
    obtain ⟨d, hpassage, hvisited, -⟩ := hg.exists_passage_of_new (by rw [hstart]; rfl) habove
      hknows hnew fun d hexpects hknows' => hg.exists_passage_arrivals hown hexpects hknows'
    subst hstart
    obtain ⟨enough, hend, -⟩ := hpassage.exists_reduce
    refine ⟨enough, d, hend, ?_⟩
    rw [hvisited, List.append_nil]
    rfl

end Setting.Unfolds

/-! ## §4 Limits -/

namespace Setting

variable {g : Setting N K S A V E W L} {limit : Int} {c : Config N K S A V E W L}

/-- A limit is exceeded where the walk without one makes a call of a node with more ancestors. -/
theorem exceeds_iff_makesOne : g.Exceeds limit c ↔
    (g.withMaxDepth none).MakesOne (fun call => limit < call.state.depth) c := by
  constructor
  · rintro ⟨node, key, hpending, hkey, hseen, hdeep⟩
    refine ⟨⟨node, c.state, c.value, ((g.evaluator node c.state c.value).perform c.memory).1⟩,
      ⟨⟨hpending, rfl, rfl, key, hkey, hseen⟩, fun _ hlimit => ?_, _, rfl⟩, hdeep⟩
    cases hlimit
  · rintro ⟨call, ⟨⟨hpending, hstate, -, key, hkey, hseen⟩, -⟩, hdeep⟩
    exact ⟨call.node, key, hpending, hkey, hseen, hstate ▸ hdeep⟩

/-- If a walk without a limit comes to its end, a limit gives it up exactly if it has called a node
with more ancestors, and no later than it would end. -/
theorem limited_of_finished {d n : Nat} {root : N} {context : S} {value : A} {memory : W}
    {heard : L} {c : Config N K S A V E W L}
    (hend : (g.withMaxDepth none).reduce n root context value memory heard = .finished c) :
    ((∃ v ∈ c.visited, d < v.2.length) → ∃ node path last, path.length = d + 1 ∧
      ∀ budget, n ≤ budget →
        (g.withMaxDepth (some d)).reduce budget root context value memory heard =
          .failed (.tooDeep d node path) last) ∧
    ((∀ v ∈ c.visited, v.2.length ≤ d) →
      (g.withMaxDepth (some d)).reduce n root context value memory heard = .finished c) := by
  have hcalls : ((g.withMaxDepth none).run n
      (.start root context value memory heard)).config.calls = c.calls := by
    rw [← reduce, hend]
    rfl
  have hnever : (g.withMaxDepth none).NotBefore
      ((g.withMaxDepth none).MakesOne fun call => (d : Int) < call.state.depth)
      (.start root context value memory heard) n ↔
        ∀ call ∈ c.calls, ¬ (d : Int) < call.state.depth := by
    rw [notBefore_makesOne_iff rfl, hcalls]
  constructor
  · rintro ⟨v, hv, hdeep⟩
    obtain ⟨call, hcall, rfl⟩ := List.mem_map.1 hv
    obtain ⟨_, _, -, hfirst⟩ := (notBefore_or_firstAt _ _ n).resolve_left fun h =>
      hnever.1 h call hcall (Int.ofNat_lt.2 hdeep)
    obtain ⟨m, _, node, last, -, -, -, -, hsame, hcut, hlength, -⟩ :=
      exists_cut hfirst.run_eq (exceeds_iff_makesOne.2 hfirst.holds)
    -- Else the walk under the limit would have come to the end before it is given up.
    have hlt : m < n := by
      by_contra hnot
      have hfinished := (hsame n (Nat.not_lt.1 hnot)).trans hend
      have hfailed := (g.withMaxDepth (some d)).run_of_le
        (Nat.le_succ_of_le (Nat.not_lt.1 hnot)) (hfinished ▸ Outcome.ended_finished c)
      rw [← reduce, ← reduce, hfinished, hcut _ (Nat.lt_succ_self m)] at hfailed
      cases hfailed
    exact ⟨node, _, last, hlength, fun budget hle => hcut budget (Nat.lt_of_lt_of_le hlt hle)⟩
  · intro hshallow
    have hnone := hnever.2 fun call hcall => Int.not_lt.2 <|
      Int.ofNat_le.2 (hshallow (call.node, call.state.ancestors) (List.mem_map_of_mem hcall))
    rw [reduce_withMaxDepth fun k e hk he hexceeds =>
      hnone k e hk he (exceeds_iff_makesOne.1 hexceeds)]
    exact hend

end Setting

end GraphFold
