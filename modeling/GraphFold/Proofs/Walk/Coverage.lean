/-
GraphFold.Proofs.Walk.Coverage — no child of an opened node is lost.

A node waits if it is pending, or if a pull in some frame is for it. A node is
MET at a point of a walk if it waits there or its key has been seen. As long as
the evaluator keeps keys, a node that is met stays met (`Met.step`); and at the
end of a walk nothing waits any more.

  §1 Listings — which children a lookup lists.
  §2 Waiting  — `Config.Awaits`, `Setting.Met`.
  §3 Nodes    — what holds of every node that waits.
  §4 Covered  — the children of every opened node are met.
-/
import GraphFold.Proofs.Walk.SingleVisit
import Mathlib.Data.List.Forall2
import Mathlib.Logic.Relation

namespace GraphFold

variable {N K S A V E W L : Type} [Ord K]

/-! ## §1 Listings -/

/-- If the pull gives a child, it is this one. -/
def Yields (pull : Pull W E N) (kid : N) : Prop :=
  ∀ memory child left, pull.perform memory = (.ok child, left) → child = kid

/-- If the pull gives a child, the child has the property. -/
def Gives (P : N → Prop) (pull : Pull W E N) : Prop :=
  ∀ memory child left, pull.perform memory = (.ok child, left) → P child

theorem exists_pull_of_mem {pulls : List (Pull W E N)} {kids : List N}
    (h : List.Forall₂ Yields pulls kids) {kid : N} (hkid : kid ∈ kids) :
    ∃ pull ∈ pulls, Yields pull kid := by
  obtain ⟨i, hi, rfl⟩ := List.getElem_of_mem hkid
  exact ⟨_, List.getElem_mem (h.length_eq ▸ hi), h.get _ hi⟩

theorem exists_kid_of_mem {pulls : List (Pull W E N)} {kids : List N}
    (h : List.Forall₂ Yields pulls kids) {pull : Pull W E N} (hpull : pull ∈ pulls) :
    ∃ kid ∈ kids, Yields pull kid := by
  obtain ⟨i, hi, rfl⟩ := List.getElem_of_mem hpull
  exact ⟨_, List.getElem_mem (h.length_eq ▸ hi), h.get hi _⟩

/-- Children that are there already are what their pulls give. -/
theorem forall₂_yields_ofNodes (kids : List N) :
    List.Forall₂ Yields (Pulls.ofNodes kids : Pulls W E N).each kids := by
  rw [Pulls.ofNodes, List.forall₂_map_left_iff, List.forall₂_same]
  intro kid _ memory child left h
  cases h
  rfl

/-- At the nodes and in the contexts of a walk every lookup that succeeds lists these children,
whatever the rest of the state. Children of nodes are nodes, and the evaluator leads from none of
the contexts to another. -/
structure Setting.Lists (g : Setting N K S A V E W L) (inContext : S → Prop) (isNode : N → Prop)
    (kids : N → List N) : Prop where
  lookup : ∀ node s memory pulls left, isNode node → inContext s.context →
    (g.children node s).perform memory = (.ok (.ok pulls), left) →
    List.Forall₂ Yields pulls.each (kids node)
  isNode_of_mem : ∀ node kid, isNode node → kid ∈ kids node → isNode kid
  context : ∀ node s value memory answer left given,
    (g.evaluator node s value).perform memory = (.ok answer, left) → answer.state? = some given →
    inContext s.context → inContext given.context

/-! ## §2 Waiting -/

/-- The node is pending, or a pull still to come is for it. -/
def Config.Awaits (c : Config N K S A V E W L) (x : N) : Prop :=
  c.pending = some x ∨ ∃ frame ∈ c.frames, ∃ pull ∈ frame.pulls.each, Yields pull x

namespace Setting

variable (g : Setting N K S A V E W L)

/-- The key of the node has been seen. -/
def Seen (s : State N K S) (x : N) : Prop := ∃ key, g.identity x = .ok key ∧ s.isSeen key = true

/-- The node waits, or its key has been seen. -/
def Met (c : Config N K S A V E W L) (x : N) : Prop := c.Awaits x ∨ g.Seen c.state x

variable {g}

/-- If the evaluator keeps keys, a step does. -/
theorem isSeen_of_step [Std.TransOrd K] (hkeeps : g.evaluator.KeepsSeen)
    {c d : Config N K S A V E W L} (h : g.step c = .running d) {key : K}
    (hkey : c.state.isSeen key = true) : d.state.isSeen key = true := by
  rcases called_of_step h with ⟨_, _, hseen⟩ | ⟨node, own, answer, given, hcalled⟩
  · rw [State.isSeen, hseen]
    exact hkey
  · obtain ⟨memory, hcall⟩ := hcalled.perform_eq
    rw [State.isSeen, hcalled.seen_eq, ← State.isSeen, State.isSeen_mark,
      hkeeps _ _ _ _ _ _ _ hcall hcalled.state?_eq key hkey, Bool.or_true]

theorem Seen.step [Std.TransOrd K] (hkeeps : g.evaluator.KeepsSeen)
    {c d : Config N K S A V E W L} (h : g.step c = .running d) {x : N} (hx : g.Seen c.state x) :
    g.Seen d.state x := by
  obtain ⟨key, hkey, hseen⟩ := hx
  exact ⟨key, hkey, isSeen_of_step hkeeps h hseen⟩

theorem Seen.run [Std.TransOrd K] (hkeeps : g.evaluator.KeepsSeen) {n : Nat}
    {c d : Config N K S A V E W L} (h : g.run n c = .unfinished d) {x : N}
    (hx : g.Seen c.state x) : g.Seen d.state x :=
  g.invariant_of_run (P := fun c => g.Seen c.state x) (fun _ _ hc h => hc.step hkeeps h) hx h

/-- A node that was handled has been seen. -/
theorem Arrival.seen [Std.TransOrd K] {node : N} {c d : Config N K S A V E W L}
    (h : g.Arrival node c (.running d)) : g.Seen d.state node := by
  cases h with
  | skipped key hkey hseen => exact ⟨key, hkey, by simpa using hseen⟩
  | pruned key value given memory hkey => exact ⟨key, hkey, by simp⟩
  | opened key value given memory pulls left hkey => exact ⟨key, hkey, by simp⟩

/-- A node that waits still waits after a step, or has been seen. -/
theorem met_of_awaits [Std.TransOrd K] {c d : Config N K S A V E W L} (h : g.step c = .running d)
    {x : N} (hx : c.Awaits x) : g.Met d x := by
  have hmove := g.move c
  rw [h] at hmove
  cases hmove with
  | handle node p hpending harrival =>
    rcases hx with hx | ⟨frame, hframe, hpull⟩
    · rw [hpending] at hx
      cases hx
      exact .inr harrival.seen
    · refine .inl (.inr ⟨frame, ?_, hpull⟩)
      rcases harrival.ancestors_eq with ⟨hframes, _⟩ | ⟨pulls, hframes, _⟩
      · rw [hframes]
        exact hframe
      · rw [hframes]
        exact List.mem_cons_of_mem _ hframe
  | pull above pull later ending outer child left hnone hframes hperform =>
    rcases hx with hx | ⟨frame, hframe, pull', hpull', hyields⟩
    · rw [hnone] at hx
      cases hx
    · rw [hframes] at hframe
      rcases List.mem_cons.1 hframe with rfl | hframe
      · rcases List.mem_cons.1 hpull' with rfl | hlater
        · exact .inl (.inl (congrArg some (hyields _ _ _ hperform)))
        · exact .inl (.inr ⟨⟨above, later, ending⟩, List.mem_cons_self .., pull', hlater, hyields⟩)
      · exact .inl (.inr ⟨frame, List.mem_cons_of_mem _ hframe, pull', hpull', hyields⟩)
  | drop above ending outer left hnone hframes =>
    rcases hx with hx | ⟨frame, hframe, pull', hpull', hyields⟩
    · rw [hnone] at hx
      cases hx
    · rw [hframes] at hframe
      rcases List.mem_cons.1 hframe with rfl | hframe
      · cases hpull'
      · exact .inl (.inr ⟨frame, hframe, pull', hpull', hyields⟩)

/-- A node that is met stays met. -/
theorem Met.step [Std.TransOrd K] (hkeeps : g.evaluator.KeepsSeen)
    {c d : Config N K S A V E W L} (h : g.step c = .running d) {x : N} (hx : g.Met c x) :
    g.Met d x := by
  rcases hx with hx | hx
  · exact met_of_awaits h hx
  · exact .inr (hx.step hkeeps h)

/-- At the end of a walk what was met has been seen. -/
theorem Met.seen {c : Config N K S A V E W L} {x : N} (hx : g.Met c x) (hpending : c.pending = none)
    (hframes : c.frames = []) : g.Seen c.state x := by
  rcases hx with (hx | ⟨frame, hframe, _⟩) | hx
  · rw [hpending] at hx
    cases hx
  · rw [hframes] at hframe
    cases hframe
  · exact hx

/-! ## §3 Nodes -/

/-- What is left of every listing has the property. -/
def FramesAll (Q : Pulls W E N → Prop) (c : Config N K S A V E W L) : Prop :=
  ∀ frame ∈ c.frames, Q frame.pulls

/-- So has what is left of the innermost one. -/
theorem FramesAll.top {Q : Pulls W E N → Prop} {c : Config N K S A V E W L} {frame : Frame N E W}
    {outer : List (Frame N E W)} (hc : FramesAll Q c) (hframes : c.frames = frame :: outer) :
    Q frame.pulls := by
  rw [FramesAll, hframes, List.forall_mem_cons] at hc
  exact hc.1

/-- A property of what is left of the listings is kept by a step, if it is kept where the next child
is asked for, and the listing of a node that is opened has it. -/
theorem FramesAll.step {Q : Pulls W E N → Prop} {c d : Config N K S A V E W L}
    (h : g.step c = .running d) (hc : FramesAll Q c)
    (hlater : ∀ pull later ending, Q ⟨pull :: later, ending⟩ → Q ⟨later, ending⟩)
    (hopened : ∀ node above pulls, c.pending = some node →
      d.frames = ⟨above, pulls⟩ :: c.frames → Q pulls) :
    FramesAll Q d := by
  have hmove := g.move c
  rw [h] at hmove
  cases hmove with
  | handle node p hpending harrival =>
    rcases harrival.ancestors_eq with ⟨hframes, _⟩ | ⟨pulls, hframes, _⟩
    · rw [FramesAll, hframes]
      exact hc
    · rw [FramesAll, hframes]
      exact List.forall_mem_cons.2 ⟨hopened node _ pulls hpending hframes, hc⟩
  | pull above pull later ending outer child left hnone hframes hperform =>
    rw [FramesAll, hframes, List.forall_mem_cons] at hc
    exact List.forall_mem_cons.2 ⟨hlater pull later ending hc.1, hc.2⟩
  | drop above ending outer left hnone hframes =>
    rw [FramesAll, hframes, List.forall_mem_cons] at hc
    exact hc.2

/-- Every pull still to come has the property. -/
def PullsAll (Q : Pull W E N → Prop) : Config N K S A V E W L → Prop :=
  FramesAll fun pulls => ∀ pull ∈ pulls.each, Q pull

/-- So has the next one. -/
theorem PullsAll.next {Q : Pull W E N → Prop} {c : Config N K S A V E W L} {above : List N}
    {pull : Pull W E N} {later : List (Pull W E N)} {ending : Action W E Unit}
    {outer : List (Frame N E W)} (hc : PullsAll Q c)
    (hframes : c.frames = ⟨above, pull :: later, ending⟩ :: outer) : Q pull :=
  FramesAll.top hc hframes pull (List.mem_cons_self ..)

/-- A property of the pulls to come is kept by a step, if those of a node that is opened have it. -/
theorem PullsAll.step {Q : Pull W E N → Prop} {c d : Config N K S A V E W L}
    (h : g.step c = .running d) (hc : PullsAll Q c)
    (hopened : ∀ node above pulls, c.pending = some node →
      d.frames = ⟨above, pulls⟩ :: c.frames → ∀ pull ∈ pulls.each, Q pull) :
    PullsAll Q d :=
  FramesAll.step h hc
    (fun _ _ _ hall pull hpull => hall pull (List.mem_cons_of_mem _ hpull)) hopened

/-- Whatever waits has the property. -/
structure Holds (P : N → Prop) (c : Config N K S A V E W L) : Prop where
  pending : ∀ x, c.pending = some x → P x
  pulls : PullsAll (Gives P) c

/-- A property of whatever waits is kept by a step, if the children of a node that is opened have
it. -/
theorem Holds.step {P : N → Prop} {c d : Config N K S A V E W L} (h : g.step c = .running d)
    (hc : Holds P c)
    (hopened : ∀ node above pulls, c.pending = some node →
      d.frames = ⟨above, pulls⟩ :: c.frames → ∀ pull ∈ pulls.each, Gives P pull) :
    Holds P d := by
  refine ⟨?_, hc.pulls.step h hopened⟩
  have hmove := g.move c
  rw [h] at hmove
  intro x hx
  cases hmove with
  | handle node p hpending harrival =>
    rw [harrival.pending_eq_none] at hx
    cases hx
  | pull above pull later ending outer child left hnone hframes hperform =>
    cases hx
    exact hc.pulls.next hframes _ _ _ hperform
  | drop => exact hc.pending x hx

/-- The walk is in one of its contexts, and only nodes wait. -/
structure Within (inContext : S → Prop) (isNode : N → Prop) (c : Config N K S A V E W L) :
    Prop where
  context : inContext c.state.context
  waits : Holds isNode c

variable {inContext : S → Prop} {isNode : N → Prop} {kids : N → List N}

/-- The children that come next when a node is opened. -/
theorem forall₂_of_frames (hlists : g.Lists inContext isNode kids) {c d : Config N K S A V E W L}
    (hc : Within inContext isNode c) (h : g.step c = .running d) {node : N} {above : List N}
    {pulls : Pulls W E N} (hpending : c.pending = some node)
    (hframes : d.frames = ⟨above, pulls⟩ :: c.frames) :
    List.Forall₂ Yields pulls.each (kids node) := by
  obtain ⟨_, _, _, _, _, _, _, hcall, hlookup, _⟩ := listed_of_opened h hpending hframes
  have hgiven := hlists.context _ _ _ _ _ _ _ hcall rfl hc.context
  refine hlists.lookup _ _ _ _ _ (hc.waits.pending node hpending) ?_ hlookup
  exact hgiven

theorem Within.step (hlists : g.Lists inContext isNode kids) {c d : Config N K S A V E W L}
    (hc : Within inContext isNode c) (h : g.step c = .running d) : Within inContext isNode d := by
  constructor
  · have hmove := g.move c
    rw [h] at hmove
    cases hmove with
    | handle node p hpending harrival =>
      cases harrival with
      | skipped => simpa using hc.context
      | pruned key value given memory hkey hseen hlimit hcall =>
        simpa using hlists.context _ _ _ _ _ _ _ hcall rfl hc.context
      | opened key value given memory pulls left hkey hseen hlimit hcall hlookup =>
        simpa using hlists.context _ _ _ _ _ _ _ hcall rfl hc.context
    | pull => exact hc.context
    | drop => exact hc.context
  · refine hc.waits.step h ?_
    intro node above pulls hpending hframes pull hpull memory child left hperform
    obtain ⟨kid, hkid, hyields⟩ :=
      exists_kid_of_mem (forall₂_of_frames hlists hc h hpending hframes) hpull
    rw [hyields _ _ _ hperform]
    exact hlists.isNode_of_mem node kid (hc.waits.pending node hpending) hkid

/-! ## §4 Covered -/

/-- The children of every node whose call proceeded are met. -/
def Covered (g : Setting N K S A V E W L) (kids : N → List N) (c : Config N K S A V E W L) : Prop :=
  ∀ call ∈ c.calls, call.Proceeds → ∀ kid ∈ kids call.node, g.Met c kid

/-- A step that makes a call that proceeds opens a frame. -/
theorem frames_of_called {c d : Config N K S A V E W L} (h : g.step c = .running d) {node : N}
    {key : K} {value : A} {state : Except V _} {given : State N K S}
    (hcalled : g.Called c d node key (.proceed value state) given) :
    ∃ above pulls, d.frames = ⟨above, pulls⟩ :: c.frames := by
  have harrival := arrival_of_step hcalled.pending_eq h
  have hcalls := hcalled.calls_eq
  cases harrival with
  | skipped => simp at hcalls
  | pruned => simp at hcalls
  | opened => exact ⟨_, _, rfl⟩

theorem Covered.step [Std.TransOrd K] (hlists : g.Lists inContext isNode kids)
    (hkeeps : g.evaluator.KeepsSeen) {c d : Config N K S A V E W L}
    (hc : Within inContext isNode c) (h : g.step c = .running d) (hcovered : g.Covered kids c) :
    g.Covered kids d := by
  refine forall_calls_of_step h ?_ ?_
  · intro call hcall hproceeds kid hkid
    exact (hcovered call hcall hproceeds kid hkid).step hkeeps h
  · rintro node key answer given hcalled ⟨value, state, hanswer⟩ kid hkid
    cases hanswer
    obtain ⟨above, pulls, hframes⟩ := frames_of_called h hcalled
    have hpulls := forall₂_of_frames hlists hc h hcalled.pending_eq hframes
    obtain ⟨pull, hpull, hyields⟩ := exists_pull_of_mem hpulls hkid
    refine .inl (.inr ⟨⟨above, pulls⟩, ?_, pull, hpull, hyields⟩)
    rw [hframes]
    exact List.mem_cons_self ..

end Setting

end GraphFold
