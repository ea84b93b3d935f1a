/-
GraphFold.Proofs.Walk.Exploration — what a walk has explored that goes on
everywhere.

Let the evaluator go on at every node, from the state as it was given. At the end
of a walk, then, the nodes that were called have pairwise different keys; the
root has the key of one of them, and so has every child of one of them.

  §1 Evaluators — what going on everywhere means for the seen set.
  §2 Explored   — `Setting.Explores`.
  §3 Walks      — `Setting.explores_of_reduce_finished`.
-/
import GraphFold.Proofs.Walk.Coverage
import GraphFold.Proofs.Walk.Preorder

namespace GraphFold

variable {N K S A V E W L : Type} [Ord K]

/-! ## §1 Evaluators -/

namespace Evaluator.GoesOn

variable {evaluator : Evaluator N K S A V E W}

/-- An evaluator that goes on everywhere hands the state back as it was given, -/
theorem state?_eq (h : evaluator.GoesOn) {node : N} {state given : State N K S} {value : A}
    {memory left : W} {answer : Answer N K S A V}
    (hcall : (evaluator node state value).perform memory = (.ok answer, left))
    (hgiven : answer.state? = some given) : given = state := by
  obtain ⟨folded, left', hgoes⟩ := h node state value memory
  rw [hgoes] at hcall
  cases hcall
  exact (Option.some.inj hgiven).symm

/-- and so it keeps the keys, -/
theorem keepsSeen (h : evaluator.GoesOn) : evaluator.KeepsSeen := by
  intro node state value memory answer left given hcall hgiven key hkey
  rw [h.state?_eq hcall hgiven]
  exact hkey

/-- and adds none. -/
theorem addsNone (h : evaluator.GoesOn) : evaluator.AddsNone := by
  intro node state value memory answer left given hcall hgiven key hkey
  rw [h.state?_eq hcall hgiven] at hkey
  exact hkey

end Evaluator.GoesOn

namespace Setting

variable {g : Setting N K S A V E W L} {inContext : S → Prop} {isNode : N → Prop}
  {kids : N → List N} {root : N} {context : S} {value : A} {memory : W} {heard : L}
  {c d : Config N K S A V E W L}

/-! ## §2 Explored -/

/-- These nodes have pairwise different keys, and every child of one of them has the key of one of
them, and so has the root. The children of each of them were listed. -/
structure Explores (g : Setting N K S A V E W L) (inContext : S → Prop) (isNode : N → Prop)
    (kids : N → List N) (root : N) (nodes : List N) : Prop where
  isNode : ∀ a ∈ nodes, isNode a
  keyed : ∀ a ∈ nodes, ∃ key, g.identity a = .ok key
  apart : nodes.Pairwise fun a b => ¬ g.SameKey a b
  root : ∃ a ∈ nodes, g.SameKey a root
  closed : ∀ a ∈ nodes, ∀ kid ∈ kids a, ∃ b ∈ nodes, g.SameKey b kid
  listed : ∀ a ∈ nodes, ∃ s memory pulls left, inContext s.context ∧
    (g.children a s).perform memory = (.ok (.ok pulls), left)

/-! ## §3 Walks -/

/-- The children of every node whose call proceeded were listed. -/
def ListsCalled (g : Setting N K S A V E W L) (inContext : S → Prop)
    (c : Config N K S A V E W L) : Prop :=
  ∀ call ∈ c.calls, call.Proceeds → ∃ s memory pulls left, inContext s.context ∧
    (g.children call.node s).perform memory = (.ok (.ok pulls), left)

theorem ListsCalled.step (hlists : g.Lists inContext isNode kids) (hc : Within inContext isNode c)
    (h : g.step c = .running d) (hcalled : g.ListsCalled inContext c) :
    g.ListsCalled inContext d := by
  refine forall_calls_of_step h hcalled ?_
  rintro node key answer given hnew ⟨next, state, hanswer⟩
  cases hanswer
  obtain ⟨above, pulls, hframes⟩ := frames_of_called h hnew
  obtain ⟨key', next', given', left, last, _, _, hcall, hlookup, _⟩ :=
    listed_of_opened h hnew.pending_eq hframes
  have hgiven : inContext given'.context := hlists.context _ _ _ _ _ _ _ hcall rfl hc.context
  exact ⟨(given'.mark key').withAncestors c.state.ancestors, left, pulls, last, hgiven, hlookup⟩

variable [Std.TransOrd K]

/-- Whatever has been seen has the key of a node that was called, if the evaluator adds no keys. -/
theorem exists_sameKey_of_seen (hadds : g.evaluator.AddsNone) {n : Nat}
    (hn : g.run n (.start root context value memory heard) = .unfinished c) {x : N}
    (hx : g.Seen c.state x) : ∃ a ∈ c.calls.map Call.node, g.SameKey a x := by
  obtain ⟨key, hkey, hseen⟩ := hx
  obtain ⟨k, hk, heq⟩ := exists_key_of_isSeen hadds hn key hseen
  obtain ⟨call, hcall, hown⟩ := mem_keys.1 hk
  exact ⟨call.node, List.mem_map_of_mem hcall, k, key, hown, hkey, heq⟩

/-- A walk that goes on everywhere and comes to its end has explored the nodes it called. -/
theorem explores_of_reduce_finished (hlists : g.Lists inContext isNode kids)
    (hgoes : g.evaluator.GoesOn) (hroot : isNode root) (hcontext : inContext context) {n : Nat}
    (h : g.reduce n root context value memory heard = .finished c) :
    g.Explores inContext isNode kids root (c.calls.map Call.node) := by
  have hkeeps := hgoes.keepsSeen
  have hadds := hgoes.addsNone
  obtain ⟨m, hm, hpending, hframes⟩ := g.exists_of_run_finished h
  -- Only nodes are called, the walk goes on at each of them, and nothing that is met is lost.
  have hinvariant : Within inContext isNode c ∧ g.Met c root ∧ g.Covered kids c ∧
      g.ListsCalled inContext c ∧ ∀ call ∈ c.calls, isNode call.node ∧ call.Proceeds := by
    refine g.invariant_of_run (P := fun c => Within inContext isNode c ∧ g.Met c root ∧
      g.Covered kids c ∧ g.ListsCalled inContext c ∧
        ∀ call ∈ c.calls, isNode call.node ∧ call.Proceeds) ?_ ?_ hm
    · rintro c d ⟨hwithin, hmet, hcovered, hlisted, hcalls⟩ hstep
      refine ⟨hwithin.step hlists hstep, hmet.step hkeeps hstep,
        hcovered.step hlists hkeeps hwithin hstep, hlisted.step hlists hwithin hstep,
        forall_calls_of_step hstep hcalls fun node key answer given hnew => ?_⟩
      obtain ⟨left, hanswer⟩ := hnew.perform_eq
      obtain ⟨next, left', hgoes⟩ := hgoes node c.state c.value c.memory
      rw [hgoes] at hanswer
      cases hanswer
      exact ⟨hwithin.waits.pending node hnew.pending_eq, next, _, rfl⟩
    · have hnone : ∀ call, call ∉ (.start root context value memory heard :
          Config N K S A V E W L).calls := fun call => List.not_mem_nil
      refine ⟨⟨hcontext, ?_, fun _ hframe => (by cases hframe)⟩, .inl (.inl rfl),
        fun call hcall => absurd hcall (hnone call), fun call hcall => absurd hcall (hnone call),
        fun call hcall => absurd hcall (hnone call)⟩
      intro x hx
      cases hx
      exact hroot
  obtain ⟨-, hmet, hcovered, hlisted, hcalls⟩ := hinvariant
  have hfresh := fresh_reduce (g := g) n root context value memory heard
  rw [h] at hfresh
  refine ⟨?_, ?_, ?_, ?_, ?_, ?_⟩
  · exact List.forall_mem_map.2 fun call hcall => (hcalls call hcall).1
  · refine List.forall_mem_map.2 fun call hcall => ?_
    obtain ⟨key, hkey, -⟩ := hfresh call hcall
    exact ⟨key, hkey⟩
  · exact List.pairwise_map.2 ((remembers_of_run hkeeps hm).pairwise_calls hfresh)
  · exact exists_sameKey_of_seen hadds hm (hmet.seen hpending hframes)
  · refine List.forall_mem_map.2 fun call hcall kid hkid => ?_
    have hkid' := hcovered call hcall (hcalls call hcall).2 kid hkid
    exact exists_sameKey_of_seen hadds hm (hkid'.seen hpending hframes)
  · exact List.forall_mem_map.2 fun call hcall => hlisted call hcall (hcalls call hcall).2

end Setting

end GraphFold
