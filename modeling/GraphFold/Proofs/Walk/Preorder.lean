/-
GraphFold.Proofs.Walk.Preorder — a walk over a tree calls its nodes in preorder.

Where every node goes on and none is met twice, the children of a node are
opened right after its call, and its frame is dropped when all nodes below it
have been called. `Visits` spells this order out: a node with its ancestors,
then the visits below it, then those of its later siblings. One induction over
the visits follows the stack of a walk.

  §1 Visits   — nodes in preorder, each with its ancestors.
  §2 Settings — `Setting.Unfolds`, where every node goes on to its children.
  §3 Records  — what the journal says of the visits.
  §4 Walks    — `Setting.Unfolds.exists_passage`, `exists_reduce`.
-/
import GraphFold.Proofs.Walk.Passage
import GraphFold.Proofs.Walk.SingleVisit
import Mathlib.Data.List.Nodup

namespace GraphFold

variable {I N K S A V E W L : Type}

/-! ## §1 Visits -/

/-- The visits to some nodes with the same ancestors, nearest first, and to all nodes below them. -/
inductive Visits (kids : I → List I) : List I → List I → List (I × List I) → Prop
  | nil (above : List I) : Visits kids above [] []
  | cons {above later : List I} {own rest : List (I × List I)} (i : I)
      (hown : Visits kids (i :: above) (kids i) own) (hrest : Visits kids above later rest) :
      Visits kids above (i :: later) ((i, above) :: (own ++ rest))

namespace Visits

variable {kids : I → List I} {above roots : List I} {visits : List (I × List I)}

theorem append {later : List I} {rest : List (I × List I)} (h : Visits kids above roots visits)
    (hrest : Visits kids above later rest) :
    Visits kids above (roots ++ later) (visits ++ rest) := by
  induction h with
  | nil above => exact hrest
  | cons i hown _ _ ih =>
    rw [List.cons_append, List.cons_append, List.append_assoc]
    exact .cons i hown (ih hrest)

/-- What holds of the roots, and of the children of a node if it holds of the node, holds of every
visit. -/
theorem forall_mem {P : I → List I → Prop} (h : Visits kids above roots visits)
    (hroots : ∀ i ∈ roots, P i above)
    (hkids : ∀ i up, P i up → ∀ j ∈ kids i, P j (i :: up)) : ∀ v ∈ visits, P v.1 v.2 := by
  induction h with
  | nil above => exact fun v hv => by cases hv
  | cons i _ _ ihown ihrest =>
    obtain ⟨hi, hlater⟩ := List.forall_mem_cons.1 hroots
    rw [List.forall_mem_cons, List.forall_mem_append]
    exact ⟨hi, ihown fun j hj => hkids i _ hi j hj, ihrest hlater⟩

/-- Roots are visited, -/
theorem mem_of_root (h : Visits kids above roots visits) {i : I} (hi : i ∈ roots) :
    (i, above) ∈ visits := by
  induction h with
  | nil above => cases hi
  | cons j _ _ _ ihrest =>
    rcases List.mem_cons.1 hi with rfl | hlater
    · exact List.mem_cons_self
    · exact List.mem_cons_of_mem _ (List.mem_append_right _ (ihrest hlater))

/-- and so are the children of nodes that are. -/
theorem mem_of_kid (h : Visits kids above roots visits) {i j : I} {up : List I}
    (hi : (i, up) ∈ visits) (hj : j ∈ kids i) : (j, i :: up) ∈ visits := by
  induction h with
  | nil above => cases hi
  | cons root hown _ ihown ihrest =>
    rcases List.mem_cons.1 hi with hroot | hbelow
    · cases hroot
      exact List.mem_cons_of_mem _ (List.mem_append_left _ (hown.mem_of_root hj))
    · rcases List.mem_append.1 hbelow with hmem | hmem
      · exact List.mem_cons_of_mem _ (List.mem_append_left _ (ihown hmem))
      · exact List.mem_cons_of_mem _ (List.mem_append_right _ (ihrest hmem))

/-- Every visit is at or below one of the roots. -/
theorem exists_suffix (h : Visits kids above roots visits) :
    ∀ v ∈ visits, ∃ j ∈ roots, j :: above <:+ v.1 :: v.2 := by
  refine h.forall_mem (P := fun i up => ∃ j ∈ roots, j :: above <:+ i :: up)
    (fun i hi => ⟨i, hi, List.suffix_refl _⟩) ?_
  rintro i up ⟨j, hj, hsuffix⟩ k _
  exact ⟨j, hj, hsuffix.trans (List.suffix_cons ..)⟩

/-- Two nodes with the same ancestors that lie on one line are one node. -/
theorem eq_of_suffix {i j : I} {line : List I} (hi : i :: above <:+ line)
    (hj : j :: above <:+ line) : i = j := by
  have hsuffix := List.suffix_of_suffix_length_le hi hj (by simp)
  exact (List.cons.inj (hsuffix.eq_of_length (by simp))).1

/-- If a node has one line of ancestors only, and no node is listed twice among siblings, then no
node is visited twice. -/
theorem nodup {Line : I → List I → Prop} (hunique : ∀ i a b, Line i a → Line i b → a = b)
    (hkids : ∀ i up, Line i up → (kids i).Nodup ∧ ∀ j ∈ kids i, Line j (i :: up))
    (h : Visits kids above roots visits) (hroots : ∀ i ∈ roots, Line i above)
    (hnodup : roots.Nodup) : (visits.map Prod.fst).Nodup := by
  induction h with
  | nil above => exact List.nodup_nil
  | @cons above later own rest i hown hrest ihown ihrest =>
    obtain ⟨hi, hlater⟩ := List.forall_mem_cons.1 hroots
    obtain ⟨hnew, hdistinct⟩ := List.nodup_cons.1 hnodup
    obtain ⟨hkidsNodup, hline⟩ := hkids i above hi
    have hlines : ∀ v ∈ own, Line v.1 v.2 := hown.forall_mem hline fun j up hj => (hkids j up hj).2
    have hlines' : ∀ v ∈ rest, Line v.1 v.2 :=
      hrest.forall_mem hlater fun j up hj => (hkids j up hj).2
    have hself : ∀ v ∈ own, i ≠ v.1 := by
      rintro ⟨_, up⟩ hv rfl
      obtain ⟨j, -, hsuffix⟩ := hown.exists_suffix _ hv
      have hlength := hsuffix.length_le
      rw [hunique _ _ _ (hlines _ hv) hi] at hlength
      simp only [List.length_cons] at hlength
      omega
    -- A node below `i` cannot lie below one of the later siblings as well.
    have hapart : ∀ v ∈ rest, ∀ up, i :: above <:+ v.1 :: up → ¬ Line v.1 up := by
      rintro ⟨x, up'⟩ hv up hsuffix hup
      obtain ⟨j, hj, hsuffix'⟩ := hrest.exists_suffix _ hv
      rw [hunique _ _ _ (hlines' _ hv) hup] at hsuffix'
      rw [eq_of_suffix hsuffix hsuffix'] at hnew
      exact hnew hj
    rw [List.map_cons, List.map_append, ← List.cons_append, List.nodup_append, List.nodup_cons]
    refine ⟨⟨?_, ihown hline hkidsNodup⟩, ihrest hlater hdistinct, ?_⟩
    · rw [List.mem_map]
      rintro ⟨v, hv, heq⟩
      exact hself v hv heq.symm
    · simp only [List.forall_mem_cons, List.forall_mem_map]
      refine ⟨?_, ?_⟩
      · rintro ⟨x, up⟩ hv rfl
        exact hapart _ hv above (List.suffix_refl _) hi
      · rintro ⟨x, up⟩ hv ⟨y, up'⟩ hw rfl
        obtain ⟨j, -, hsuffix⟩ := hown.exists_suffix _ hv
        exact hapart _ hw up ((List.suffix_cons ..).trans hsuffix) (hlines _ hv)

end Visits

/-! ## §2 Settings -/

variable [Ord K]

/-- Every answer is to go on, from the state as it was given. -/
def Evaluator.GoesOn (evaluator : Evaluator N K S A V E W) : Prop :=
  ∀ node s value memory, ∃ folded left,
    (evaluator node s value).perform memory = (.ok (.proceed folded (.ok s)), left)

/-- A fold goes on if it prunes nothing and none of its steps fails. -/
theorem Evaluator.goesOn_ofFold {fold : N → A → Action W E A}
    (hfold : ∀ node value memory, ∃ folded left,
      (fold node value).perform memory = (.ok folded, left)) :
    (ofFold fold none : Evaluator N K S A V E W).GoesOn := by
  intro node s value memory
  obtain ⟨folded, left, hstep⟩ := hfold node value memory
  refine ⟨folded, left, ?_⟩
  simp only [ofFold, Action.perform_bind, hstep, Action.perform_pure]

namespace Setting

/-- The nodes of a family have keys of their own and list their children, and the walk goes on at
every one of them. -/
structure Unfolds (g : Setting N K S A V E W L) (node : I → N) (key : I → K)
    (kids : I → List I) : Prop where
  unlimited : g.limits.maxDepth = none
  goesOn : g.evaluator.GoesOn
  identity_eq : ∀ i, g.identity (node i) = .ok (key i)
  injective : ∀ i j, compare (key i) (key j) = .eq → i = j
  children_eq : ∀ i s memory, (g.children (node i) s).perform memory =
    (.ok (.ok (.ofNodes ((kids i).map node))), memory)

end Setting

/-! ## §3 Records -/

namespace Config

/-- The nodes of the calls so far, each with its ancestors, nearest first. -/
def visited (c : Config N K S A V E W L) : List (N × List N) :=
  c.calls.map fun call => (call.node, call.state.ancestors)

theorem visited_of_journal {c d : Config N K S A V E W L} (h : c.journal = d.journal) :
    c.visited = d.visited := by
  rw [visited, calls, h]
  rfl

/-- The kinds of the events so far, each with its node. -/
def told (c : Config N K S A V E W L) : List (EventKind × N) :=
  c.events.map fun e => (e.kind, e.node)

theorem told_of_journal {c d : Config N K S A V E W L} (h : c.journal = d.journal) :
    c.told = d.told := by
  rw [told, events_of_journal h, told]

theorem report_told (c : Config N K S A V E W L) (listener : Option (Listener N L))
    (kind : EventKind) (node : N) (depth : Nat) :
    (c.report listener kind node depth).told = c.told ++ [(kind, node)] := by
  rw [told, report_events, List.map_append, told]
  rfl

/-- From one point to the other these visits are made, and nothing else is reported or marked. -/
structure Makes (node : I → N) (key : I → K) (c d : Config N K S A V E W L)
    (visits : List (I × List I)) : Prop where
  visited_eq : d.visited = c.visited ++ visits.map fun v => (node v.1, v.2.map node)
  told_eq : d.told = c.told ++ visits.map fun v => (.descend, node v.1)
  seen_iff : ∀ i, d.state.isSeen (key i) = true ↔
    c.state.isSeen (key i) = true ∨ i ∈ visits.map Prod.fst

/-- The walk is about to visit these nodes, which are all that is left of the innermost frame. -/
structure Expects (node : I → N) (c : Config N K S A V E W L) (above roots : List I)
    (put : List N) (outer : List (Frame N E W)) : Prop where
  pending_eq : c.pending = none
  frames_eq : c.frames = ⟨put, (roots.map node).map pure, pure ()⟩ :: outer
  ancestors_eq : c.state.ancestors = above.map node

variable {node : I → N} {key : I → K} {c d e : Config N K S A V E W L}
  {first later : List (I × List I)}

/-- Visits are told by the state and the journal. -/
theorem Makes.of_same (hstate : d.state = c.state) (hjournal : d.journal = c.journal)
    (h : d.Makes node key e first) : c.Makes node key e first where
  visited_eq := by rw [h.visited_eq, visited_of_journal hjournal]
  told_eq := by rw [h.told_eq, told_of_journal hjournal]
  seen_iff i := by rw [h.seen_iff, hstate]

/-- The first of the nodes that are expected comes next, and the others after whatever passage
starts there. -/
theorem Expects.exists_next {g : Setting N K S A V E W L} {above later : List I} {i : I}
    {put : List N} {outer : List (Frame N E W)}
    (hc : c.Expects node above (i :: later) put outer) :
    ∃ d : Config N K S A V E W L, d.pending = some (node i) ∧ d.state = c.state ∧
      d.journal = c.journal ∧ ∀ e, g.Passage d e →
        e.Expects node above later put outer ∧ ∀ f, g.Passage e f → g.Passage c f := by
  obtain ⟨d, hd⟩ : ∃ d, d = { c with
    pending := some (node i), frames := ⟨put, (later.map node).map pure, pure ()⟩ :: outer } :=
    ⟨_, rfl⟩
  refine ⟨d, by rw [hd], by rw [hd], by rw [hd], fun e hpassage => ⟨⟨?_, ?_, ?_⟩, ?_⟩⟩
  · exact hpassage.pending_eq_none
  · rw [hpassage.frames_eq, hd]
    rfl
  · rw [hpassage.ancestors_eq, hd]
    exact hc.ancestors_eq
  · intro f hrest
    exact .next put _ _ _ outer (node i) hc.pending_eq hc.frames_eq (by rw [hd]; rfl) (by rw [hd])
      hpassage hrest

theorem Makes.refl : c.Makes node key c [] := ⟨by simp, by simp, by simp⟩

theorem Makes.trans (h : c.Makes node key d first) (hlater : d.Makes node key e later) :
    c.Makes node key e (first ++ later) where
  visited_eq := by
    rw [hlater.visited_eq, h.visited_eq, List.map_append, List.append_assoc]
  told_eq := by rw [hlater.told_eq, h.told_eq, List.map_append, List.append_assoc]
  seen_iff i := by rw [hlater.seen_iff, h.seen_iff, List.map_append, List.mem_append, or_assoc]

/-- A node that is not among the visits is as new after them as before. -/
theorem Makes.isSeen_eq_false (h : c.Makes node key d first) {i : I}
    (hseen : c.state.isSeen (key i) = false) (hi : i ∉ first.map Prod.fst) :
    d.state.isSeen (key i) = false := by
  rw [← Bool.not_eq_true, h.seen_iff, hseen]
  exact fun hor => hi (hor.resolve_left Bool.false_ne_true)

end Config

/-! ## §4 Walks -/

namespace Setting.Unfolds

variable [Std.TransOrd K] {g : Setting N K S A V E W L} {node : I → N} {key : I → K}
  {kids : I → List I} {c : Config N K S A V E W L} {above roots : List I}
  {visits : List (I × List I)}

/-- A new node is called, and its children are expected next. -/
theorem exists_step (hg : g.Unfolds node key kids) {i : I} (hpending : c.pending = some (node i))
    (habove : c.state.ancestors = above.map node) (hnew : c.state.isSeen (key i) = false) :
    ∃ d, g.step c = .running d ∧ d.Expects node (i :: above) (kids i) (above.map node) c.frames ∧
      c.Makes node key d [(i, above)] := by
  obtain ⟨folded, left, hcall⟩ := hg.goesOn (node i) c.state c.value c.memory
  have hadmits : g.limits.Admits c.frames.length := fun limit hlimit => by
    rw [hg.unlimited] at hlimit
    cases hlimit
  have hopened := arrive_of_opened (hg.identity_eq i) hnew hadmits hcall
    (hg.children_eq i ((c.state.mark (key i)).withAncestors c.state.ancestors) left)
  refine ⟨_, (step_of_pending hpending).trans hopened, ⟨?_, ?_, ?_⟩, ?_, ?_, ?_⟩
  · simp
  · simp [Pulls.ofNodes, habove]
  · simp [State.push, State.withAncestors, habove]
  · simp [Config.visited, habove]
  · exact (Config.told_of_journal rfl).trans (Config.report_told ..)
  · intro j
    have hkey : compare (key i) (key j) = .eq ↔ i = j :=
      ⟨hg.injective i j, fun h => by rw [h]; exact Std.ReflCmp.compare_self⟩
    rw [List.map_singleton, List.mem_singleton]
    simp only [State.isSeen_push, State.isSeen_withAncestors, State.isSeen_mark, Bool.or_eq_true,
      beq_iff_eq, hkey]
    rw [or_comm, eq_comm (a := i)]

/-- If the walk makes the visits below a new node as it comes to them, it makes those at and below
the node. -/
theorem exists_passage_of_pending (hg : g.Unfolds node key kids) {i : I}
    (hpending : c.pending = some (node i)) (habove : c.state.ancestors = above.map node)
    (hnodup : (i :: visits.map Prod.fst).Nodup)
    (hnew : ∀ j ∈ i :: visits.map Prod.fst, c.state.isSeen (key j) = false)
    (hown : ∀ d : Config N K S A V E W L,
      d.Expects node (i :: above) (kids i) (above.map node) c.frames →
      (∀ j ∈ visits.map Prod.fst, d.state.isSeen (key j) = false) →
      ∃ e, g.Passage d e ∧ d.Makes node key e visits) :
    ∃ e, g.Passage c e ∧ c.Makes node key e ((i, above) :: visits) := by
  obtain ⟨hi, hbelow⟩ := List.forall_mem_cons.1 hnew
  obtain ⟨d, hstep, hexpects, hcalled⟩ := hg.exists_step hpending habove hi
  have hstillNew : ∀ j ∈ visits.map Prod.fst, d.state.isSeen (key j) = false := fun j hj => by
    refine hcalled.isSeen_eq_false (hbelow j hj) fun hji => ?_
    rw [List.map_singleton, List.mem_singleton] at hji
    rw [hji] at hj
    exact (List.nodup_cons.1 hnodup).1 hj
  obtain ⟨e, hpassage, hmakes⟩ := hown d hexpects hstillNew
  have hall := hcalled.trans hmakes
  exact ⟨_, .nested (node i) _ _ _ hpending hstep hexpects.frames_eq hpassage rfl,
    hall.visited_eq, hall.told_eq, hall.seen_iff⟩

/-- The walk makes the visits it expects, if none of the nodes is met twice. -/
theorem exists_passage (hg : g.Unfolds node key kids) (h : Visits kids above roots visits)
    {put : List N} {outer : List (Frame N E W)} (hc : c.Expects node above roots put outer)
    (hnodup : (visits.map Prod.fst).Nodup)
    (hnew : ∀ i ∈ visits.map Prod.fst, c.state.isSeen (key i) = false) :
    ∃ d, g.Passage c d ∧ c.Makes node key d visits := by
  induction h generalizing c put outer with
  | nil above => exact ⟨c, .done put _ outer hc.pending_eq hc.frames_eq, .refl⟩
  | @cons above later own rest i hown hrest ihown ihrest =>
    rw [List.map_cons, List.map_append, ← List.cons_append] at hnodup hnew
    obtain ⟨hfirst, hlater, hapart⟩ := List.nodup_append.1 hnodup
    rw [List.forall_mem_append] at hnew
    obtain ⟨hnewFirst, hnewRest⟩ := hnew
    obtain ⟨d, hpending, hstate, hjournal, hnext⟩ := hc.exists_next (g := g)
    obtain ⟨e, hpassage, hmakes⟩ := hg.exists_passage_of_pending hpending
      (hstate ▸ hc.ancestors_eq) hfirst (hstate ▸ hnewFirst) fun d' hexpects hbelow =>
        ihown hexpects hfirst.of_cons hbelow
    obtain ⟨hafter, hjoin⟩ := hnext e hpassage
    obtain ⟨f, hrestPassage, hrestMakes⟩ := ihrest hafter hlater fun j hj =>
      hmakes.isSeen_eq_false (hstate ▸ hnewRest j hj) fun hmem => hapart j hmem j hj rfl
    exact ⟨f, hjoin f hrestPassage, (hmakes.trans hrestMakes).of_same hstate hjournal⟩

/-- A walk from the root of a tree whose nodes are all told apart visits it in preorder, and comes
to its end. -/
theorem exists_reduce (hg : g.Unfolds node key kids) {root : I}
    (h : Visits kids [] [root] visits) (hnodup : (visits.map Prod.fst).Nodup) (context : S)
    (value : A) (memory : W) (heard : L) :
    ∃ enough d, (∀ budget, enough ≤ budget →
        g.reduce budget (node root) context value memory heard = .finished d) ∧
      (Config.start (node root) context value memory heard).Makes node key d visits ∧
      d.evaluations = visits.length := by
  cases h with
  | @cons _ _ own rest _ hown hrest =>
    obtain rfl : rest = [] := by cases hrest; rfl
    rw [List.append_nil] at hnodup ⊢
    obtain ⟨start, hstart⟩ : ∃ start : Config N K S A V E W L,
        start = .start (node root) context value memory heard := ⟨_, rfl⟩
    have habove : start.state.ancestors = ([] : List I).map node := by rw [hstart]; rfl
    have hnew : ∀ i, start.state.isSeen (key i) = false := fun i => by
      rw [hstart]
      exact State.isSeen_new context (key i)
    obtain ⟨d, hpassage, hmakes⟩ := hg.exists_passage_of_pending (by rw [hstart]; rfl) habove hnodup
      (fun i _ => hnew i) fun d hexpects hbelow =>
        hg.exists_passage hown hexpects hnodup.of_cons hbelow
    subst hstart
    obtain ⟨enough, hend, n, hn⟩ := hpassage.exists_reduce
    refine ⟨enough, d, hend, hmakes, ?_⟩
    have hlength := congrArg List.length hmakes.visited_eq
    rw [Config.visited, List.length_map] at hlength
    rw [evaluations_eq_length_calls hn, hlength]
    simp [Config.visited, Config.start, Config.calls, Entry.calls]

end Setting.Unfolds

end GraphFold
