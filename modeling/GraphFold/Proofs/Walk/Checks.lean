/-
GraphFold.Proofs.Walk.Checks — checking the answers changes nothing but how a
malformed one is reported.

With the check, a malformed answer is found before anything is done with it.
Without the check, each of the branches that act on answers comes to a part that
is missing before it has any effect. So both walks end at the first malformed
answer and at the same point (`step_of_malformed`), and take the same steps up to
there (`step_withCheck`).

  §1 Answers — `Answer.Malformed`.
  §2 Steps   — where the check matters.
  §3 Walks   — `Setting.StopsAt`, `Setting.check_withCheck`.
  §4 Reports — `Scene.check_changes_report_only`.
-/
import GraphFold.Proofs.Walk.Journal
import GraphFold.Scene.Reduction

namespace GraphFold

variable {N K S A V E W L : Type} [Ord K]

/-! ## §1 Answers -/

/-- What is no instruction, or an instruction that carries no state. -/
inductive Answer.Malformed : Answer N K S A V → Prop
  | stray (given : V) : Malformed (.stray given)
  | proceed (value : A) (given : V) : Malformed (.proceed value (.error given))
  | prune (value : A) (given : V) : Malformed (.prune value (.error given))

/-- The call was given a malformed answer. -/
def Call.Malformed (call : Call N K S A V E) : Prop :=
  ∃ answer, call.answer = .ok answer ∧ answer.Malformed

namespace Setting

/-- Only malformed answers are refused, with the check and without it. -/
theorem refusal?_eq_none_of_not_malformed (g : Setting N K S A V E W L) {node : N}
    {answer : Answer N K S A V} (h : ¬ answer.Malformed) : g.refusal? node answer = none := by
  refine g.refusal?_eq_none_iff.2 ?_
  cases answer with
  | proceed value given =>
    cases given with
    | error given => exact absurd (.proceed value given) h
    | ok given => exact .inl ⟨value, given, rfl⟩
  | prune value given =>
    cases given with
    | error given => exact absurd (.prune value given) h
    | ok given => exact .inr (.inl ⟨value, given, rfl⟩)
  | fail reason => exact .inr (.inr ⟨reason, rfl⟩)
  | stray given => exact absurd (.stray given) h

/-! ## §2 Steps -/

/-- The same setting with or without the check. -/
def withCheck (g : Setting N K S A V E W L) (checked : Bool) : Setting N K S A V E W L :=
  { g with limits := { g.limits with checked := checked } }

variable {g : Setting N K S A V E W L} {c : Config N K S A V E W L}

/-- Where no answer is malformed, the step is the one without the check. -/
theorem step_withCheck (h : ¬ (g.withCheck false).MakesOne Call.Malformed c) :
    (g.withCheck true).step c = (g.withCheck false).step c := by
  refine step_eq_of_evaluate rfl rfl rfl fun node key hpending hkey hseen hdepth => ?_
  unfold evaluate
  dsimp only [withCheck]
  rcases hcall : (g.evaluator node c.state c.value).perform c.memory with ⟨e | answer, left⟩
  · rfl
  · have hwell : ¬ answer.Malformed := fun hmalformed =>
      h ⟨⟨node, c.state, c.value, .ok answer⟩,
        ⟨⟨hpending, rfl, rfl, key, hkey, hseen⟩, hdepth, left, hcall⟩, answer, rfl, hmalformed⟩
    dsimp only
    rw [respond_of_refusal_eq_none _ (refusal?_eq_none_of_not_malformed _ hwell),
      respond_of_refusal_eq_none _ (refusal?_eq_none_of_not_malformed _ hwell)]
    rfl

/-- A walk stops at the call of the pending node, whose answer is the first that is malformed:
nothing else has happened since the node was arrived at. -/
structure StopsAt (c last : Config N K S A V E W L) (call : Call N K S A V E)
    (answer : Answer N K S A V) : Prop where
  pending_eq : c.pending = some call.node
  answer_eq : call.answer = .ok answer
  malformed : answer.Malformed
  wellFormed : ∀ earlier ∈ c.calls, ¬ earlier.Malformed
  calls_eq : last.calls = c.calls ++ [call]
  lookups_eq : last.lookups = c.lookups
  events_eq : last.events = c.events
  heard_eq : last.heard = c.heard
  state_eq : last.state = c.state
  value_eq : last.value = c.value

/-- Where an answer is malformed, both walks stop, each for a reason of its own. -/
theorem step_of_malformed {call : Call N K S A V E} {answer : Answer N K S A V}
    (hmakes : (g.withCheck false).Makes c call) (hanswer : call.answer = .ok answer)
    (hmalformed : answer.Malformed) (hearlier : ∀ earlier ∈ c.calls, ¬ earlier.Malformed) :
    ∃ last fault slip, StopsAt c last call answer ∧ answer.fault? call.node = some fault ∧
      answer.slip? = some slip ∧ (g.withCheck true).step c = .failed fault last ∧
      (g.withCheck false).step c = .failed slip last := by
  obtain ⟨fault, hfault⟩ : ∃ fault : Failure N V E, answer.fault? call.node = some fault := by
    cases hmalformed <;> exact ⟨_, rfl⟩
  obtain ⟨slip, hslip⟩ : ∃ slip : Failure N V E, answer.slip? = some slip := by
    cases hmalformed <;> exact ⟨_, rfl⟩
  obtain ⟨⟨hpending, hstate, hvalue, key, hkey, hseen⟩, hdepth, left, hleft⟩ := hmakes
  rw [hanswer] at hleft
  refine ⟨_, fault, slip, ?_, hfault, hslip,
    (step_of_pending hpending).trans
      (arrive_of_refused (g := g.withCheck true) hkey hseen hdepth hleft hfault),
    (step_of_pending hpending).trans
      (arrive_of_refused (g := g.withCheck false) hkey hseen hdepth hleft hslip)⟩
  refine ⟨hpending, hanswer, hmalformed, hearlier, ?_, ?_, rfl, rfl, rfl, rfl⟩
  · rw [← hstate, ← hvalue, ← hanswer]
    simp
  · simp

/-! ## §3 Walks -/

/-- The walks with the check and without it are the same and no answer is malformed; or both stop at
the first answer that is. -/
theorem check_withCheck (g : Setting N K S A V E W L) (budget : Nat) (root : N) (context : S)
    (value : A) (memory : W) (heard : L) :
    ((g.withCheck true).reduce budget root context value memory heard =
        (g.withCheck false).reduce budget root context value memory heard ∧
      ∀ call ∈ ((g.withCheck false).reduce budget root context value memory heard).config.calls,
        ¬ call.Malformed) ∨
    ∃ n c last call answer fault slip, n < budget ∧
      (g.withCheck true).reduce n root context value memory heard = .unfinished c ∧
      (g.withCheck false).reduce n root context value memory heard = .unfinished c ∧
      StopsAt c last call answer ∧ answer.fault? call.node = some fault ∧
      answer.slip? = some slip ∧
      (g.withCheck true).reduce budget root context value memory heard = .failed fault last ∧
      (g.withCheck false).reduce budget root context value memory heard = .failed slip last := by
  have hstep : ∀ k d, (g.withCheck false).run k (.start root context value memory heard) =
      .unfinished d → ¬ (g.withCheck false).MakesOne Call.Malformed d →
      (g.withCheck true).step d = (g.withCheck false).step d := fun _ _ _ h => step_withCheck h
  rcases notBefore_or_firstAt (g := g.withCheck false) ((g.withCheck false).MakesOne Call.Malformed)
    (.start root context value memory heard) budget with hnever | ⟨n, c, hlt, hfirst⟩
  · exact .inl ⟨run_eq_of_notBefore hstep hnever (Nat.le_refl budget),
      (notBefore_makesOne_iff rfl).1 hnever⟩
  · obtain ⟨call, hmakes, answer, hanswer, hmalformed⟩ := hfirst.holds
    have hearlier := (notBefore_makesOne_iff rfl).1 hfirst.notBefore
    rw [hfirst.run_eq] at hearlier
    obtain ⟨last, fault, slip, hstops, hfault, hslip, hchecked, hunchecked⟩ :=
      step_of_malformed hmakes hanswer hmalformed hearlier
    exact .inr ⟨n, c, last, call, answer, fault, slip, hlt,
      (run_eq_of_notBefore hstep hfirst.notBefore (Nat.le_refl n)).trans hfirst.run_eq,
      hfirst.run_eq, hstops, hfault, hslip, hfirst.run_eq_failed hstep hchecked hlt,
      hfirst.run_eq_failed (fun _ _ _ _ => rfl) hunchecked hlt⟩

end Setting

/-! ## §4 Reports -/

/-- The same policy with or without the check. -/
def Policy.withCheck (p : Policy) (checked : Bool) : Policy := { p with checked := .truth checked }

namespace Scene

/-- The reports on a malformed answer about a node, with the check and without it. A value that has
no operation to mark keys lacks it when it stands for a state. -/
inductive Reports (scene : Scene) (node : Value) :
    Answer Value Key Context A Value → ErrorReport → ErrorReport → Prop
  | stray (given : Value) :
    Reports scene node (.stray given)
      (.plain .type
        ("evaluator must return Continue, Prune or Fail; got " ++ given.className ++ " for node " ++
          node.exact))
      (.plain .type ("unsupported instruction " ++ given.className))
  | proceed (value : A) (given : Value) (unchecked : ErrorReport)
      (h : scene.attributeOf given "mark_seen" = .error .lacking → unchecked = .silent .lacking) :
    Reports scene node (.proceed value (.error given))
      (.plain .type ("Continue.state must be a TraversalState; got " ++ given.className)) unchecked
  | prune (value : A) (given : Value) (unchecked : ErrorReport)
      (h : scene.attributeOf given "mark_seen" = .error .lacking → unchecked = .silent .lacking) :
    Reports scene node (.prune value (.error given))
      (.plain .type ("Prune.state must be a TraversalState; got " ++ given.className)) unchecked

/-- What is reported of a malformed answer. -/
theorem reports_of_malformed (scene : Scene) (checked unchecked : Regime) {node : Value}
    {answer : Answer Value Key Context A Value} {fault slip : ValueFailure}
    (hmalformed : answer.Malformed) (hfault : answer.fault? node = some fault)
    (hslip : answer.slip? = some slip) :
    scene.Reports node answer (scene.report checked fault) (scene.report unchecked slip) := by
  have hlacks : ∀ given, scene.attributeOf given "mark_seen" = .error .lacking →
      ErrorReport.ofFault (scene.strayOperation given "mark_seen") = .silent .lacking := by
    intro given hnone
    rw [strayOperation, hnone]
    rfl
  cases hmalformed with
  | stray given =>
    cases hfault
    cases hslip
    exact .stray given
  | proceed value given =>
    cases hfault
    cases hslip
    exact .proceed value given _ (hlacks given)
  | prune value given =>
    cases hfault
    cases hslip
    exact .prune value given _ (hlacks given)

/-- Whether a policy has the answers checked does not change what a walk does. With the check and
without it the same calls are made, the same children are looked up, and the same events are
reported. If no answer is malformed, the walks also end in the same way, and report the same.
Otherwise both stop at the call that is given the first malformed answer, without an event of its
node, and only the reports differ: one is about the answer or what it carries in the place of a
state; the other says that there is no such instruction, or that an operation is lacking. So no
malformed answer is ever accepted. -/
theorem check_changes_report_only (scene : Scene) (registry : ValueRegistry) (p : Policy)
    (evaluator : FoldOver A) (listener : Option (Listener Value Heard)) (budget : Nat)
    (start : Start A) (tracing : Bool) :
    (∃ o : ValueOutcome A,
      scene.reduceUnder registry (p.withCheck true).regime evaluator listener budget start tracing =
        o ∧
      scene.reduceUnder registry (p.withCheck false).regime evaluator listener budget start
        tracing = o ∧
      (∀ call ∈ o.config.calls, ¬ call.Malformed) ∧
      ∀ f, scene.report (p.withCheck true).regime f = scene.report (p.withCheck false).regime f) ∨
    ∃ (n : Nat) (c last : ValueConfig A) (call : Call Value Key Context A Value Fault)
      (answer : Answer Value Key Context A Value) (fault slip : ValueFailure), n < budget ∧
      (∀ checked, scene.reduceUnder registry (p.withCheck checked).regime evaluator listener n start
        tracing = .unfinished c) ∧
      Setting.StopsAt c last call answer ∧
      scene.reduceUnder registry (p.withCheck true).regime evaluator listener budget start
        tracing = .failed fault last ∧
      scene.reduceUnder registry (p.withCheck false).regime evaluator listener budget start
        tracing = .failed slip last ∧
      scene.Reports call.node answer (scene.report (p.withCheck true).regime fault)
        (scene.report (p.withCheck false).regime slip) := by
  -- Under the regime of a policy, whether answers are checked is a part of the limits only.
  have hwalk : ∀ checked budget,
      scene.reduceUnder registry (p.withCheck checked).regime evaluator listener budget start
          tracing =
        ((scene.setting registry p.limits evaluator listener).withCheck checked).reduce budget
          start.root start.context start.value (Memory.start tracing) Heard.nothing :=
    fun _ _ => rfl
  simp only [hwalk]
  rcases (scene.setting registry p.limits evaluator listener).check_withCheck budget start.root
    start.context start.value (Memory.start tracing) Heard.nothing with ⟨hsame, hnone⟩ |
      ⟨n, c, last, call, answer, fault, slip, hlt, hchecked, hunchecked, hstops, hfault, hslip,
        htrue, hfalse⟩
  · exact .inl ⟨_, hsame, rfl, hnone, fun f => by cases f <;> rfl⟩
  · refine .inr ⟨n, c, last, call, answer, fault, slip, hlt, fun checked => ?_, hstops, htrue,
      hfalse, reports_of_malformed scene _ _ hstops.malformed hfault hslip⟩
    cases checked with
    | true => exact hchecked
    | false => exact hunchecked

end Scene

end GraphFold
