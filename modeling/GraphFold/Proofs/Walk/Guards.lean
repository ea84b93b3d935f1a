/-
GraphFold.Proofs.Walk.Guards — a check in front of an evaluator cuts a walk off,
and changes nothing before.

The check sees what the evaluator is about to see: the node, and the state as it
is then. So the walk with the check and the walk without it take the same steps
up to the first call that the check rejects (`step_guarded`). There the one ends,
and whatever the evaluator would have answered plays no part; the other goes on.

  §1 Steps — where the check matters.
  §2 Walks — `Setting.guard_cuts`.
-/
import GraphFold.Proofs.Walk.Agreement
import GraphFold.Proofs.Walk.Path

namespace GraphFold

variable {N K S A V E W L : Type} [Ord K]

namespace Setting

/-! ## §1 Steps -/

/-- The same setting with a check in front of its evaluator. -/
def guarded (g : Setting N K S A V E W L) (check : N → State N K S → Option V) :
    Setting N K S A V E W L :=
  g.withEvaluator (g.evaluator.guard fun node s => pure (check node s))

/-- The check has a reason to reject the call. -/
def RejectedBy (check : N → State N K S → Option V) (call : Call N K S A V E) : Prop :=
  check call.node call.state ≠ none

variable {g : Setting N K S A V E W L} {check : N → State N K S → Option V}
  {c : Config N K S A V E W L}

/-- Where the check has nothing to say, the evaluator is asked. -/
theorem evaluator_guarded_of_none {node : N} {s : State N K S} (value : A)
    (h : check node s = none) :
    (g.guarded check).evaluator node s value = g.evaluator node s value := by
  simp [guarded, withEvaluator, Evaluator.guard, h]

/-- Where it has a reason, that is the answer, and the evaluator is not asked. -/
theorem evaluator_guarded_of_some {node : N} {s : State N K S} {reason : V} (value : A)
    (h : check node s = some reason) :
    (g.guarded check).evaluator node s value = pure (.fail reason) := by
  simp [guarded, withEvaluator, Evaluator.guard, h]

/-- Where no call is rejected, the step is the one without the check. -/
theorem step_guarded (h : ¬ g.MakesOne (RejectedBy check) c) :
    (g.guarded check).step c = g.step c := by
  refine step_eq_of_evaluate rfl rfl rfl fun node key hpending hkey hseen hdepth => ?_
  have hnone : check node c.state = none := by
    rcases hcall : (g.evaluator node c.state c.value).perform c.memory with ⟨answer, left⟩
    by_contra hsome
    exact h ⟨⟨node, c.state, c.value, answer⟩,
      ⟨⟨hpending, rfl, rfl, key, hkey, hseen⟩, hdepth, left, hcall⟩, hsome⟩
  unfold evaluate
  rw [evaluator_guarded_of_none c.value hnone]
  rfl

/-- Where a call is rejected, the walk with the check ends: with this reason, and with what the
evaluator might have written left unwritten. -/
theorem step_of_rejected {call : Call N K S A V E} {reason : V} (hmakes : g.Makes c call)
    (hreason : check call.node call.state = some reason) :
    ∃ last, (g.guarded check).step c =
        .failed (.rejected reason call.node call.state.path) last ∧
      last.calls = c.calls ++ [⟨call.node, call.state, call.value, .ok (.fail reason)⟩] ∧
      last.lookups = c.lookups ∧ last.memory = c.memory ∧
      last.events = c.events ++ [⟨.fail, c.frames.length, call.node, c.evaluations + 1⟩] := by
  obtain ⟨key, hkey, hseen⟩ := hmakes.fresh
  have hcall : ((g.guarded check).evaluator call.node c.state c.value).perform c.memory =
      (.ok (.fail reason), c.memory) := by
    rw [evaluator_guarded_of_some c.value (hmakes.state_eq ▸ hreason)]
    rfl
  rw [hmakes.state_eq, hmakes.value_eq]
  refine ⟨_, (step_of_pending hmakes.pending_eq).trans
    (arrive_of_rejected (g := g.guarded check) hkey hseen hmakes.admits hcall), ?_⟩
  refine ⟨by simp, by simp, by simp, ?_⟩
  rw [Config.report_events]
  rfl

/-- What an evaluator answers where the check rejects does not matter. -/
theorem guarded_withEvaluator {other : Evaluator N K S A V E W}
    (h : ∀ node s, check node s = none → other node s = g.evaluator node s) :
    (g.withEvaluator other).guarded check = g.guarded check := by
  have hsame : ((g.withEvaluator other).guarded check).evaluator =
      (g.guarded check).evaluator := by
    funext node s value
    cases hreason : check node s with
    | none =>
      rw [evaluator_guarded_of_none value hreason, evaluator_guarded_of_none value hreason]
      exact congrFun (h node s hreason) value
    | some reason =>
      rw [evaluator_guarded_of_some value hreason, evaluator_guarded_of_some value hreason]
  exact congrArg g.withEvaluator hsame

/-! ## §2 Walks -/

/-- Compare the walk with a check in front of the evaluator to the walk without it. If the check has
nothing to say about the node and the state of any call of the latter, the two are the same.
Otherwise take the first of these calls that it rejects. Up to there the two are the same, and there
the walk with the check ends for the reason it was given, with the node and the path of that call:
the evaluator is not asked and writes nothing, no children are looked up, and the only event is that
of the end. So it does not matter at all what the evaluator answers where the check rejects. -/
theorem guard_cuts (g : Setting N K S A V E W L) (check : N → State N K S → Option V)
    (budget : Nat) (root : N) (context : S) (value : A) (memory : W) (heard : L) :
    ((∀ call ∈ (g.reduce budget root context value memory heard).config.calls,
        check call.node call.state = none) →
      (g.guarded check).reduce budget root context value memory heard =
        g.reduce budget root context value memory heard) ∧
    (∀ i call reason,
      (g.reduce budget root context value memory heard).config.calls[i]? = some call →
      check call.node call.state = some reason →
      (∀ earlier ∈ (g.reduce budget root context value memory heard).config.calls.take i,
        check earlier.node earlier.state = none) →
      ∃ n c last, n < budget ∧ g.reduce n root context value memory heard = .unfinished c ∧
        c.pending = some call.node ∧ c.state = call.state ∧ c.value = call.value ∧
        c.calls = (g.reduce budget root context value memory heard).config.calls.take i ∧
        (∀ m, m ≤ n → (g.guarded check).reduce m root context value memory heard =
          g.reduce m root context value memory heard) ∧
        (∀ m, n < m → (g.guarded check).reduce m root context value memory heard =
          .failed (.rejected reason call.node call.state.path) last) ∧
        last.calls = c.calls ++ [⟨call.node, call.state, call.value, .ok (.fail reason)⟩] ∧
        last.lookups = c.lookups ∧ last.memory = c.memory ∧
        last.events = c.events ++ [⟨.fail, call.state.depth, call.node, i + 1⟩]) ∧
    ∀ other : Evaluator N K S A V E W,
      (∀ node s, check node s = none → other node s = g.evaluator node s) →
      ((g.withEvaluator other).guarded check).reduce budget root context value memory heard =
        (g.guarded check).reduce budget root context value memory heard := by
  have hstep : ∀ k d, g.run k (.start root context value memory heard) = .unfinished d →
      ¬ g.MakesOne (RejectedBy check) d → (g.guarded check).step d = g.step d :=
    fun _ _ _ hnone => step_guarded hnone
  refine ⟨fun hnone => ?_, fun i call reason hi hreason hearlier => ?_, fun other hother => ?_⟩
  · have hnever : g.NotBefore (g.MakesOne (RejectedBy check))
        (.start root context value memory heard) budget :=
      (notBefore_makesOne_iff rfl).2 fun call hcall hsome => hsome (hnone call hcall)
    exact run_eq_of_notBefore hstep hnever (Nat.le_refl budget)
  · obtain ⟨n, c, hlt, hc, hmakes, hcalls, hlength⟩ := exists_makes rfl i call hi
    have hnever : g.NotBefore (g.MakesOne (RejectedBy check))
        (.start root context value memory heard) n := by
      refine (notBefore_makesOne_iff rfl).2 fun earlier hmem hsome => hsome (hearlier earlier ?_)
      rw [hc] at hmem
      exact hcalls ▸ hmem
    have hfirst : g.FirstAt (g.MakesOne (RejectedBy check))
        (.start root context value memory heard) n c :=
      ⟨hc, ⟨call, hmakes, fun hnone => by rw [hreason] at hnone; cases hnone⟩, hnever⟩
    obtain ⟨last, hlast, hlastCalls, hlookups, hmemory, hevents⟩ := step_of_rejected hmakes hreason
    refine ⟨n, c, last, hlt, hc, hmakes.pending_eq, hmakes.state_eq.symm, hmakes.value_eq.symm,
      hcalls, fun m hm => run_eq_of_notBefore hstep hnever hm,
      fun m hm => hfirst.run_eq_failed hstep hlast hm, hlastCalls, hlookups, hmemory, ?_⟩
    obtain ⟨levels, hdescent⟩ := exists_descent hc
    rw [hevents, evaluations_eq_length_calls hc, hlength, hmakes.state_eq,
      hdescent.located.depth_eq]
  · rw [guarded_withEvaluator hother]

/-- Node 2 is a child of the root and of node 1. -/
def shared : Nat → List Nat
  | 0 => [1, 2]
  | 1 => [2]
  | _ => []

/-- Node 2 is rejected below node 1. -/
def rejectBelow (node : Nat) (s : State Nat Nat Unit) : Option Unit :=
  if node = 2 ∧ s.path = [0, 1] then some () else none

/-- That is where the walk first comes to it, so there it is given up; were the root's children in
the other order, nothing would be rejected. -/
theorem guard_cuts_shared :
    (∃ n last, (∀ budget, n < budget →
        ((counting shared fun _ => false).guarded rejectBelow).reduce budget 0 () 0 () () =
          .failed (.rejected () 2 [0, 1]) last) ∧
      last.calls.map Call.node = [0, 1, 2] ∧ last.lookups.map Lookup.node = [0, 1] ∧
      last.events.map (fun e => (e.kind, e.depth, e.node)) =
        [(.descend, 0, 0), (.descend, 1, 1), (.fail, 2, 2)]) ∧
    ((counting (List.reverse ∘ shared) fun _ => false).guarded rejectBelow).reduce 20 0 () 0 () () =
      (counting (List.reverse ∘ shared) fun _ => false).reduce 20 0 () 0 () () := by
  constructor
  · obtain ⟨call, hcall, hnode, hpath, hrejected, hearlier⟩ : ∃ call,
        ((counting shared fun _ => false).reduce 20 0 () 0 () ()).config.calls[2]? = some call ∧
        call.node = 2 ∧ call.state.path = [0, 1] ∧ rejectBelow call.node call.state = some () ∧
        ∀ earlier ∈ ((counting shared fun _ => false).reduce 20 0 () 0 () ()).config.calls.take 2,
          rejectBelow earlier.node earlier.state = none :=
      ⟨_, rfl, rfl, rfl, rfl, List.forall_mem_cons.2 ⟨rfl, List.forall_mem_singleton.2 rfl⟩⟩
    obtain ⟨n, _, last, hlt, -, -, -, -, -, -, hend, -⟩ :=
      (guard_cuts (counting shared fun _ => false) rejectBelow 20 0 () 0 () ()).2.1 2 call ()
        hcall hrejected hearlier
    rw [hnode, hpath] at hend
    obtain rfl : _ = last := congrArg Outcome.config (hend 20 hlt)
    exact ⟨n, _, hend, rfl, rfl, rfl⟩
  · exact (guard_cuts (counting (List.reverse ∘ shared) fun _ => false) rejectBelow 20 0 () 0 ()
      ()).1 (by decide)

end Setting

end GraphFold
