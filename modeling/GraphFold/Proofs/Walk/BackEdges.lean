/-
GraphFold.Proofs.Walk.BackEdges — a walk that never goes back to its own path
leaves no cycle.

The nodes evaluated at any point are those on the path to the node at hand and
those that are done with. If no opened node has a child on its own path, every
child of a node that is done with is done with, and was so before: a child that
was skipped had been evaluated, and is not on the path. So what hangs below such
a node is well-founded, if the nodes that were pruned are cut off.

  §1 Trails   — the path of a node leads to it from the root.
  §2 Traced   — the ancestors, the frames and the calls agree.
  §3 Points   — what a walk gets to.
  §4 Done     — `Setting.acc_of_reduce_finished`.
-/
import GraphFold.Proofs.Walk.Coverage
import GraphFold.Proofs.Walk.Refinement

namespace GraphFold

variable {N K S A V E W L : Type} [Ord K]

/-! ## §1 Trails -/

/-- A path from the root along children, the last node first. -/
inductive Trail (kids : N → List N) (root : N) : List N → Prop
  | root : Trail kids root [root]
  | child {a b : N} {above : List N} (htrail : Trail kids root (b :: above)) (hkid : a ∈ kids b) :
      Trail kids root (a :: b :: above)

namespace Trail

variable {kids : N → List N} {root : N} {trail : List N}

/-- Every node of a trail is its root, or a child of another node of it. -/
theorem eq_root_or_mem_kids (h : Trail kids root trail) {x : N} (hx : x ∈ trail) :
    x = root ∨ ∃ p ∈ trail, x ∈ kids p := by
  induction h with
  | root => exact .inl (List.mem_singleton.1 hx)
  | @child a b above htrail hkid ih =>
    rcases List.mem_cons.1 hx with rfl | hx
    · exact .inr ⟨b, List.mem_cons_of_mem _ (List.mem_cons_self ..), hkid⟩
    · rcases ih hx with hroot | ⟨p, hp, hkid'⟩
      · exact .inl hroot
      · exact .inr ⟨p, List.mem_cons_of_mem _ hp, hkid'⟩

/-- What holds of the root and passes to children holds along a trail. -/
theorem forall_mem {P : N → Prop} (hroot : P root) (hkids : ∀ a b, P b → a ∈ kids b → P a)
    (h : Trail kids root trail) : ∀ x ∈ trail, P x := by
  induction h with
  | root => exact fun x hx => by rw [List.mem_singleton.1 hx]; exact hroot
  | @child a b above htrail hkid ih =>
    intro x hx
    rcases List.mem_cons.1 hx with rfl | hx
    · exact hkids _ b (ih b (List.mem_cons_self ..)) hkid
    · exact ih x hx

/-- Every node of a trail but the last has a child. -/
theorem exists_mem_kids {x : N} {above : List N} (h : Trail kids root (x :: above)) :
    ∀ a ∈ above, ∃ kid, kid ∈ kids a := by
  generalize htrail : x :: above = trail at h
  induction h generalizing x above with
  | root =>
    cases htrail
    exact fun a ha => by cases ha
  | @child y b rest _ hkid ih =>
    cases htrail
    intro a ha
    rcases List.mem_cons.1 ha with rfl | ha
    · exact ⟨_, hkid⟩
    · exact ih rfl a ha

/-- What lies above the last node of a trail is a trail, or nothing. -/
theorem tail {x a : N} {above : List N} (h : Trail kids root (x :: above)) (ha : a ∈ above) :
    Trail kids root above := by
  cases h with
  | root => cases ha
  | child htrail _ => exact htrail

/-- The last node of a trail is reached from every node of it. -/
theorem reaches {x : N} {above : List N} (h : Trail kids root (x :: above)) :
    ∀ a ∈ x :: above, Relation.ReflTransGen (fun a b => b ∈ kids a) a x := by
  generalize htrail : x :: above = trail at h
  induction h generalizing x above with
  | root =>
    cases htrail
    exact fun a ha => by rw [List.mem_singleton.1 ha]
  | @child y b rest _ hkid ih =>
    cases htrail
    intro a ha
    rcases List.mem_cons.1 ha with rfl | ha
    · exact .refl
    · exact (ih rfl a ha).tail hkid

end Trail

/-! ## §2 Traced -/

/-- Each frame holds children of its ancestor, and the ancestors above that. -/
inductive Stack (kids : N → List N) : List N → List (Frame N E W) → Prop
  | nil : Stack kids [] []
  | cons {a : N} {above : List N} {pulls : Pulls W E N} {outer : List (Frame N E W)}
      (houter : Stack kids above outer) (hpulls : ∀ pull ∈ pulls.each, Gives (· ∈ kids a) pull) :
      Stack kids (a :: above) (⟨above, pulls⟩ :: outer)

theorem Stack.of_cons {kids : N → List N} {ancestors above : List N} {pulls : Pulls W E N}
    {outer : List (Frame N E W)} (h : Stack kids ancestors (⟨above, pulls⟩ :: outer)) :
    ∃ a, ancestors = a :: above ∧ Stack kids above outer ∧
      ∀ pull ∈ pulls.each, Gives (· ∈ kids a) pull := by
  cases h with
  | cons houter hpulls => exact ⟨_, rfl, houter, hpulls⟩

namespace Setting

/-- At a point of a walk from the root, the ancestors, the frames and the calls agree. -/
structure Traced (g : Setting N K S A V E W L) (kids : N → List N) (root : N)
    (c : Config N K S A V E W L) : Prop where
  stack : Stack kids c.state.ancestors c.frames
  trail : ∀ a above, c.state.ancestors = a :: above → Trail kids root (a :: above)
  pending : ∀ x, c.pending = some x → Trail kids root (x :: c.state.ancestors)
  seen : ∀ a ∈ c.state.ancestors, g.Seen c.state a
  calls : ∀ call ∈ c.calls, Trail kids root (call.node :: call.state.ancestors) ∧
    ∀ a ∈ call.state.ancestors, g.Seen call.state a

variable {g : Setting N K S A V E W L} {inContext : S → Prop} {isNode : N → Prop}
  {kids : N → List N} {root : N}

theorem traced_start (context : S) (value : A) (memory : W) (heard : L) :
    g.Traced kids root (.start root context value memory heard) where
  stack := .nil
  trail _ _ h := by cases h
  pending x hx := by cases hx; exact .root
  seen _ ha := by cases ha
  calls _ hcall := by cases hcall

theorem Traced.step [Std.TransOrd K] (hlists : g.Lists inContext isNode kids)
    (hkeeps : g.evaluator.KeepsSeen) {c d : Config N K S A V E W L}
    (hwithin : Within inContext isNode c) (hc : g.Traced kids root c)
    (h : g.step c = .running d) : g.Traced kids root d := by
  have hseen : ∀ a ∈ c.state.ancestors, g.Seen d.state a :=
    fun a ha => (hc.seen a ha).step hkeeps h
  have hcalls : ∀ call ∈ d.calls, Trail kids root (call.node :: call.state.ancestors) ∧
      ∀ a ∈ call.state.ancestors, g.Seen call.state a :=
    forall_calls_of_step h hc.calls fun node key answer given hcalled =>
      ⟨hc.pending node hcalled.pending_eq, hc.seen⟩
  have hmove := g.move c
  rw [h] at hmove
  cases hmove with
  | handle node p hpending harrival =>
    have hnone : ∀ x, d.pending = some x → Trail kids root (x :: d.state.ancestors) := by
      intro x hx
      rw [harrival.pending_eq_none] at hx
      cases hx
    rcases harrival.ancestors_eq with ⟨hframes, hancestors⟩ | ⟨pulls, hframes, hancestors⟩
    · refine ⟨?_, ?_, hnone, ?_, hcalls⟩
      · rw [hancestors, hframes]
        exact hc.stack
      · rw [hancestors]
        exact hc.trail
      · rw [hancestors]
        exact hseen
    · refine ⟨?_, ?_, hnone, ?_, hcalls⟩
      · rw [hancestors, hframes]
        refine .cons hc.stack fun pull hpull memory child left hperform => ?_
        obtain ⟨kid, hkid, hyields⟩ :=
          exists_kid_of_mem (forall₂_of_frames hlists hwithin h hpending hframes) hpull
        rw [hyields _ _ _ hperform]
        exact hkid
      · rw [hancestors]
        intro a above heq
        rw [← heq]
        exact hc.pending node hpending
      · rw [hancestors]
        intro a ha
        rcases List.mem_cons.1 ha with rfl | ha
        · exact harrival.seen
        · exact hseen a ha
  | pull above pull later ending outer child left hnone hframes hperform =>
    have hstack := hc.stack
    rw [hframes] at hstack
    obtain ⟨a, hancestors, houter, hpulls⟩ := hstack.of_cons
    refine ⟨?_, hc.trail, ?_, hc.seen, hcalls⟩
    · show Stack kids c.state.ancestors _
      rw [hancestors]
      exact .cons houter fun pull' hpull' => hpulls pull' (List.mem_cons_of_mem _ hpull')
    · intro x hx
      cases hx
      show Trail kids root (child :: c.state.ancestors)
      rw [hancestors]
      exact .child (hc.trail a above hancestors)
        (hpulls pull (List.mem_cons_self ..) _ _ _ hperform)
  | drop above ending outer left hnone hframes =>
    have hstack := hc.stack
    rw [hframes] at hstack
    obtain ⟨a, hancestors, houter, _⟩ := hstack.of_cons
    refine ⟨houter, ?_, ?_, ?_, hcalls⟩
    · intro b rest heq
      obtain rfl : above = b :: rest := heq
      exact (hc.trail a _ hancestors).tail (List.mem_cons_self ..)
    · intro x hx
      have hx' : c.pending = some x := hx
      rw [hnone] at hx'
      cases hx'
    · intro b hb
      exact hc.seen b (by rw [hancestors]; exact List.mem_cons_of_mem _ hb)

/-! ## §3 Points -/

/-- The evaluator leaves the seen set as it was given, and the nodes of the walk are told apart by
their keys. -/
structure Plain (g : Setting N K S A V E W L) (inContext : S → Prop) (isNode : N → Prop)
    (kids : N → List N) : Prop where
  lists : g.Lists inContext isNode kids
  keeps : g.evaluator.KeepsSeen
  adds : g.evaluator.AddsNone
  keyed : ∀ a b, isNode a → isNode b → g.SameKey a b → a = b

/-- A walk from the root gets to this point. -/
def GetsTo (g : Setting N K S A V E W L) (root : N) (context : S) (value : A) (memory : W)
    (heard : L) (c : Config N K S A V E W L) : Prop :=
  ∃ n, g.run n (.start root context value memory heard) = .unfinished c

variable {context : S} {value : A} {memory : W} {heard : L} {c d : Config N K S A V E W L}

theorem GetsTo.run (hc : g.GetsTo root context value memory heard c) {n : Nat}
    (h : g.run n c = .unfinished d) : g.GetsTo root context value memory heard d := by
  obtain ⟨m, hm⟩ := hc
  exact ⟨m + n, by rw [g.run_add_of_unfinished hm, h]⟩

theorem GetsTo.step (hc : g.GetsTo root context value memory heard c)
    (h : g.step c = .running d) : g.GetsTo root context value memory heard d :=
  hc.run (n := 1) (by rw [g.run_succ_of_running h, g.run_zero])

theorem GetsTo.within (hlists : g.Lists inContext isNode kids) (hroot : isNode root)
    (hcontext : inContext context) (hc : g.GetsTo root context value memory heard c) :
    Within inContext isNode c := by
  obtain ⟨n, hn⟩ := hc
  refine g.invariant_of_run (P := Within inContext isNode) (fun _ _ hc h => hc.step hlists h) ?_ hn
  exact ⟨hcontext, fun x hx => by cases hx; exact hroot, fun _ hframe => by cases hframe⟩

section Keyed

variable [Std.TransOrd K]

theorem GetsTo.traced (hg : g.Plain inContext isNode kids) (hroot : isNode root)
    (hcontext : inContext context) (hc : g.GetsTo root context value memory heard c) :
    g.Traced kids root c := by
  obtain ⟨n, hn⟩ := hc
  refine (g.invariant_of_run (P := fun c => Within inContext isNode c ∧ g.Traced kids root c)
    ?_ ⟨GetsTo.within hg.lists hroot hcontext ⟨0, rfl⟩, traced_start context value memory heard⟩
    hn).2
  rintro c d ⟨hwithin, htraced⟩ h
  exact ⟨hwithin.step hg.lists h, htraced.step hg.lists hg.keeps hwithin h⟩

theorem GetsTo.isNode_of_mem_calls (hg : g.Plain inContext isNode kids) (hroot : isNode root)
    (hcontext : inContext context) (hc : g.GetsTo root context value memory heard c)
    {call : Call N K S A V E} (hcall : call ∈ c.calls) : isNode call.node :=
  ((hc.traced hg hroot hcontext).calls call hcall).1.forall_mem hroot
    (fun _ _ hb hkid => hg.lists.isNode_of_mem _ _ hb hkid) _ (List.mem_cons_self ..)

/-- The root and the children of every opened node are met. -/
theorem GetsTo.met (hg : g.Plain inContext isNode kids) (hroot : isNode root)
    (hcontext : inContext context) (hc : g.GetsTo root context value memory heard c) :
    g.Met c root ∧ g.Covered kids c := by
  obtain ⟨n, hn⟩ := hc
  refine (g.invariant_of_run (P := fun c => Within inContext isNode c ∧ g.Met c root ∧
    g.Covered kids c) ?_ ⟨GetsTo.within hg.lists hroot hcontext ⟨0, rfl⟩, .inl (.inl rfl),
      fun _ hcall => by cases hcall⟩ hn).2
  rintro c d ⟨hwithin, hmet, hcovered⟩ h
  exact ⟨hwithin.step hg.lists h, hmet.step hg.keeps h,
    hcovered.step hg.lists hg.keeps hwithin h⟩

/-- What had been seen when a call was made stays seen. -/
theorem GetsTo.seen_of_call (hg : g.Plain inContext isNode kids)
    (hc : g.GetsTo root context value memory heard c) {call : Call N K S A V E}
    (hcall : call ∈ c.calls) {x : N} (hx : g.Seen call.state x) : g.Seen c.state x := by
  obtain ⟨n, hn⟩ := hc
  obtain ⟨entry, hentry, he⟩ := mem_calls.1 hcall
  obtain ⟨key, hkey, hseen⟩ := hx
  exact ⟨key, hkey, (remembers_of_run hg.keeps hn).isSeen entry hentry key
    (.inl ⟨call.state, state?_of_call? he, hseen⟩)⟩

/-- A node that has been seen has been called. -/
theorem GetsTo.exists_call (hg : g.Plain inContext isNode kids) (hroot : isNode root)
    (hcontext : inContext context) (hc : g.GetsTo root context value memory heard c) {x : N}
    (hx : isNode x) (hseen : g.Seen c.state x) : ∃ call ∈ c.calls, call.node = x := by
  obtain ⟨key, hkey, hseen⟩ := hseen
  obtain ⟨n, hn⟩ := hc
  obtain ⟨k, hk, heq⟩ := exists_key_of_isSeen hg.adds hn key hseen
  obtain ⟨call, hcall, hid⟩ := mem_keys.1 hk
  have hnode := GetsTo.isNode_of_mem_calls hg hroot hcontext ⟨n, hn⟩ hcall
  exact ⟨call, hcall, hg.keyed _ _ hnode hx ⟨k, key, hid, hkey, heq⟩⟩

end Keyed

/-! ## §4 Done -/

/-- Below a node that is kept come its children. -/
def Below (kids : N → List N) (kept : N → Prop) (b a : N) : Prop := kept a ∧ b ∈ kids a

/-- No opened node has a child on its own path, and a node that was pruned is not kept. -/
structure NoBackEdge (kids : N → List N) (kept : N → Prop) (calls : List (Call N K S A V E)) :
    Prop where
  opened : ∀ call ∈ calls, call.Proceeds → ∀ kid ∈ kids call.node,
    kid ∉ call.node :: call.state.ancestors
  pruned : ∀ call ∈ calls, ¬ call.Proceeds → ¬ kept call.node

/-- The node is pending, or the next pulls are for it. -/
def AtHand (c : Config N K S A V E W L) (x : N) : Prop :=
  c.pending = some x ∨ ∃ frame outer, c.frames = frame :: outer ∧ c.pending = none ∧
    ∃ pull ∈ frame.pulls.each, Yields pull x

/-- Whatever was evaluated and is off the path is well-founded. -/
def OffPathAcc (kids : N → List N) (kept : N → Prop) (calls : List (Call N K S A V E))
    (ancestors : List N) : Prop :=
  ∀ call ∈ calls, call.node ∉ ancestors → Acc (Below kids kept) call.node

theorem AtHand.eq_of_pending {x node : N} (hx : AtHand c x) (hpending : c.pending = some node) :
    x = node := by
  rcases hx with hx | ⟨_, _, _, hnone, _⟩
  · rw [hpending] at hx
    cases hx
    rfl
  · rw [hpending] at hnone
    cases hnone

theorem AtHand.exists_pull {x : N} {frame : Frame N E W} {outer : List (Frame N E W)}
    (hx : AtHand c x) (hpending : c.pending = none) (hframes : c.frames = frame :: outer) :
    ∃ pull ∈ frame.pulls.each, Yields pull x := by
  rcases hx with hx | ⟨frame', outer', hframes', _, hpull⟩
  · rw [hpending] at hx
    cases hx
  · rw [hframes] at hframes'
    cases hframes'
    exact hpull

variable {kept : N → Prop} {calls : List (Call N K S A V E)}

/-- Nothing hangs below a node that was pruned. -/
theorem offPathAcc_of_settled (hback : NoBackEdge kids kept calls) {node : N}
    (hpending : c.pending = some node) (hstep : g.step c = .running d)
    (hframes : d.frames = c.frames) (hcalls : ∀ call ∈ d.calls, call ∈ calls)
    (hacc : OffPathAcc kids kept c.calls c.state.ancestors) :
    OffPathAcc kids kept d.calls c.state.ancestors := by
  rcases calls_of_settled hstep hpending hframes with hsame | ⟨new, hnew, hnode, hpruned⟩
  · rw [hsame]
    exact hacc
  · intro call hcall hoff
    have hmem := hcalls call hcall
    rw [hnew] at hcall
    rcases List.mem_append.1 hcall with hold | hlast
    · exact hacc call hold hoff
    · rw [List.mem_singleton.1 hlast] at hmem ⊢
      exact .intro _ fun b hb => absurd hb.1 (hback.pruned new hmem hpruned)

/-- A node that was opened is on the path of its children. -/
theorem offPathAcc_of_opened {node : N} {above : List N} {pulls : Pulls W E N}
    (hpending : c.pending = some node) (hstep : g.step c = .running d)
    (hframes : d.frames = ⟨above, pulls⟩ :: c.frames)
    (hacc : OffPathAcc kids kept c.calls c.state.ancestors) :
    OffPathAcc kids kept d.calls (node :: c.state.ancestors) := by
  obtain ⟨new, hnew, hnode, _⟩ := calls_of_opened hstep hpending hframes
  intro call hcall hoff
  rw [List.mem_cons, not_or] at hoff
  rw [hnew] at hcall
  rcases List.mem_append.1 hcall with hold | hlast
  · exact hacc call hold hoff.2
  · rw [List.mem_singleton.1 hlast] at hoff
    exact absurd hnode hoff.1

variable [Std.TransOrd K]

/-- When the children of an opened node are folded, they have all been seen and none of them is on
its path, so the node is well-founded if they are. -/
theorem offPathAcc_of_nested (hg : g.Plain inContext isNode kids) (hroot : isNode root)
    (hcontext : inContext context) (hback : NoBackEdge kids kept calls)
    (hc : g.GetsTo root context value memory heard c) {node : N} {above : List N}
    {pulls : Pulls W E N} (hpending : c.pending = some node)
    (hstep : g.step c = .running d) (hframes : d.frames = ⟨above, pulls⟩ :: c.frames) {n : Nat}
    {e : Config N K S A V E W L} (hn : g.run n d = .unfinished e)
    (hcalls : ∀ call ∈ e.calls, call ∈ calls) (hkids : ∀ x, AtHand d x → g.Seen e.state x)
    (hacc : OffPathAcc kids kept e.calls (node :: c.state.ancestors)) :
    OffPathAcc kids kept e.calls c.state.ancestors := by
  have hwithin := hc.within hg.lists hroot hcontext
  have he := (hc.step hstep).run hn
  obtain ⟨new, hnew, hnode, hstate, hproceeds⟩ := calls_of_opened hstep hpending hframes
  have hmem : new ∈ e.calls := by
    refine (calls_prefix_of_run hn).subset ?_
    rw [hnew]
    exact List.mem_append_right _ (List.mem_singleton_self _)
  intro call hcall hoff
  by_cases hsame : call.node = node
  · rw [hsame]
    refine .intro _ fun b hb => ?_
    have hseen : g.Seen e.state b := by
      obtain ⟨pull, hpull, hyields⟩ := exists_pull_of_mem
        (forall₂_of_frames hg.lists hwithin hstep hpending hframes) hb.2
      have hnone := (arrival_of_step hpending hstep).pending_eq_none
      exact hkids b (.inr ⟨_, _, hframes, hnone, pull, hpull, hyields⟩)
    obtain ⟨other, hother, rfl⟩ := he.exists_call hg hroot hcontext
      (hg.lists.isNode_of_mem _ _ (hwithin.waits.pending node hpending) hb.2) hseen
    refine hacc other hother ?_
    rw [← hstate, ← hnode]
    exact hback.opened new (hcalls new hmem) hproceeds other.node (by rw [hnode]; exact hb.2)
  · refine hacc call hcall ?_
    rw [List.mem_cons, not_or]
    exact ⟨hsame, hoff⟩

/-- A passage sees what was at hand, and whatever is evaluated and off the path is well-founded
after it if it was before. -/
theorem acc_of_passage (hg : g.Plain inContext isNode kids) (hroot : isNode root)
    (hcontext : inContext context) (hback : NoBackEdge kids kept calls)
    {e : Config N K S A V E W L} (h : g.Passage c e)
    (hc : g.GetsTo root context value memory heard c) (hcalls : ∀ call ∈ e.calls, call ∈ calls)
    (hacc : OffPathAcc kids kept c.calls c.state.ancestors) :
    (∀ x, AtHand c x → g.Seen e.state x) ∧
      OffPathAcc kids kept e.calls c.state.ancestors := by
  induction h with
  | @settled c d node hpending hstep hframes =>
    refine ⟨fun x hx => ?_, offPathAcc_of_settled hback hpending hstep hframes hcalls hacc⟩
    rw [hx.eq_of_pending hpending]
    exact (arrival_of_step hpending hstep).seen
  | @nested c d e node above pulls left hpending hstep hframes inner hending ih =>
    obtain ⟨n, hn⟩ := inner.exists_run
    have harrival := arrival_of_step hpending hstep
    have hancestors : d.state.ancestors = node :: c.state.ancestors := by
      rcases harrival.ancestors_eq with ⟨hsame, _⟩ | ⟨_, _, hpushed⟩
      · have := congrArg List.length (hframes.symm.trans hsame)
        simp at this
      · exact hpushed
    rw [hancestors] at ih
    obtain ⟨hkids, hdone⟩ := ih (hc.step hstep) hcalls
      (offPathAcc_of_opened hpending hstep hframes hacc)
    have hall := offPathAcc_of_nested hg hroot hcontext hback hc hpending hstep hframes hn hcalls
      hkids hdone
    refine ⟨fun x hx => ?_, hall⟩
    rw [hx.eq_of_pending hpending]
    exact harrival.seen.run hg.keeps hn
  | @done c above ending outer hpending hframes =>
    refine ⟨fun x hx => ?_, hacc⟩
    obtain ⟨pull, hpull, _⟩ := hx.exists_pull hpending hframes
    cases hpull
  | @next c d e f above pull later ending outer child hpending hframes hpull hd first rest ihfirst
      ihrest =>
    have hstep : g.step c = .running d := running_of_pull hpending hframes hpull hd
    have hstate : d.state = c.state := by rw [hd]
    have hsame : d.calls = c.calls := by rw [hd]; rfl
    obtain ⟨n, hn⟩ := first.exists_run
    obtain ⟨m, hm⟩ := rest.exists_run
    have hbegins := calls_prefix_of_run hm
    rw [hstate, hsame] at ihfirst
    rw [first.ancestors_eq, hstate] at ihrest
    obtain ⟨hchild, hfirst⟩ := ihfirst (hc.step hstep)
      (fun call hcall => hcalls call (hbegins.subset hcall)) hacc
    obtain ⟨hlater, hrest⟩ := ihrest ((hc.step hstep).run hn) hcalls hfirst
    refine ⟨fun x hx => ?_, hrest⟩
    obtain ⟨pull', hpull', hyields⟩ := hx.exists_pull hpending hframes
    rcases List.mem_cons.1 hpull' with rfl | hpull'
    · rw [← hyields _ _ _ hpull]
      exact (hchild child (.inl (by rw [hd]))).run hg.keeps hm
    · refine hlater x (.inr ⟨⟨above, later, ending⟩, outer, ?_, first.pending_eq_none, pull', hpull',
        hyields⟩)
      rw [first.frames_eq, hd]
      rfl

/-- At the end of a walk everything that was evaluated is well-founded, with the nodes that were
pruned cut off. -/
theorem acc_of_reduce_finished (hg : g.Plain inContext isNode kids) (hroot : isNode root)
    (hcontext : inContext context) {budget : Nat}
    (hrun : g.reduce budget root context value memory heard = .finished c)
    (hback : NoBackEdge kids kept c.calls) :
    ∀ call ∈ c.calls, Acc (Below kids kept) call.node := by
  have hpassage : g.Passage (.start root context value memory heard) c :=
    passage_of_run_finished rfl rfl rfl hrun
  intro call hcall
  refine (acc_of_passage hg hroot hcontext hback hpassage ⟨0, rfl⟩ (fun _ h => h) ?_).2 call
    hcall (fun ha => by cases ha)
  intro other hother
  cases hother

end Setting

end GraphFold
