/-
GraphFold.Proofs.Walk.Refinement — a walk is its fold by recursion.

The walk keeps a stack; the fold by recursion keeps none. `Follows` says that a
walk goes where a fold goes from the same account. The proof is an induction on
the fuel, and under it on the children still to come; each case is one step of
the walk, by the way in which it handles the node it arrived at.

  §1 Parts     — what the parts of a fold do to an account.
  §2 Nodes     — the fold of one node, by the way it is handled.
  §3 Walks     — `Setting.follows`.
  §4 Ends      — both end in the same way, or neither ends.
-/
import GraphFold.Proofs.Walk.Passage
import GraphFold.Walk.Recursive

namespace GraphFold

variable {N K S A V E W L : Type} [Ord K]

/-! ## §1 Parts -/

namespace Folding

variable (a : Account N K S A V E W L)

@[simp] theorem perform_get : Action.perform (get : Folding N K S A V E W L _) a = (.ok a, a) :=
  rfl

@[simp] theorem perform_modify (f : Account N K S A V E W L → Account N K S A V E W L) :
    Action.perform (modify f : Folding N K S A V E W L Unit) a = (.ok (), f a) := rfl

@[simp] theorem perform_giveUp {α : Type} (failure : Failure N V E) :
    Action.perform (giveUp failure : Folding N K S A V E W L α) a =
      (.error (.failed failure), a) := rfl

@[simp] theorem perform_ofHost_ok {α : Type} (x : α) :
    Action.perform (ofHost (.ok x) : Folding N K S A V E W L α) a = (.ok x, a) := rfl

@[simp] theorem perform_ofHost_error {α : Type} (e : E) :
    Action.perform (ofHost (.error e) : Folding N K S A V E W L α) a =
      (.error (.failed (.raised e)), a) := rfl

@[simp] theorem perform_host {α : Type} (act : Action W E α) :
    Action.perform (host act : Folding N K S A V E W L _) a =
      (.ok (act.perform a.memory).1, { a with memory := (act.perform a.memory).2 }) := rfl

@[simp] theorem perform_note (entry : Entry N K S A V E) :
    Action.perform (note entry : Folding N K S A V E W L Unit) a =
      (.ok (), { a with journal := entry :: a.journal }) := rfl

@[simp] theorem perform_carryOn (value : A) (state : State N K S) :
    Action.perform (carryOn value state : Folding N K S A V E W L Unit) a =
      (.ok (), { a with value := value, state := state }) := rfl

@[simp] theorem perform_enter (change : State N K S → State N K S) :
    Action.perform (enter change : Folding N K S A V E W L Unit) a =
      (.ok (), { a with state := change a.state }) := rfl

end Folding

/-- The point of a walk with this account. -/
def Account.toConfig (a : Account N K S A V E W L) (pending : Option N)
    (frames : List (Frame N E W)) : Config N K S A V E W L :=
  ⟨pending, frames, a.state, a.value, a.evaluations, a.memory, a.heard, a.journal⟩

@[simp] theorem Account.account_toConfig (a : Account N K S A V E W L) (pending : Option N)
    (frames : List (Frame N E W)) : (a.toConfig pending frames).account = a := rfl

/-- A point of a walk is made of its account, what is pending, and its frames. -/
theorem Config.toConfig_account (c : Config N K S A V E W L) :
    c.account.toConfig c.pending c.frames = c := rfl

namespace Setting

variable (g : Setting N K S A V E W L)

open Folding

/-- A fold announces what a walk reports. -/
theorem perform_announce (pending : Option N) (frames : List (Frame N E W))
    (a : Account N K S A V E W L) (kind : EventKind) (node : N) (depth : Nat) :
    (g.announce kind node depth).perform a =
      (.ok (), ((a.toConfig pending frames).report g.listener kind node depth).account) := by
  unfold announce Config.report Config.note
  simp only [Action.perform_bind, perform_get, perform_note]
  cases g.listener with
  | none => rfl
  | some hear =>
    rcases hhear : hear ⟨kind, depth, node, a.evaluations⟩ a.heard with ⟨_ | _, heard⟩ <;>
      simp [Account.toConfig, Config.account, hhear, Action.perform_bind]

/-- Asking an evaluator that fails. -/
theorem perform_ask_of_error {node : N} {a : Account N K S A V E W L} {e : E} {memory : W}
    (hcall : (g.evaluator node a.state a.value).perform a.memory = (.error e, memory)) :
    (g.ask node).perform a =
      (.error (.failed (.raised e)),
        { a with
          memory := memory
          journal := .called node a.state a.value (.error e) :: a.journal }) := by
  simp [ask, Action.perform_bind, hcall]

/-- Asking an evaluator that answers: under check, a malformed answer fails at once. -/
theorem perform_ask_of_ok {node : N} {a : Account N K S A V E W L} {answer : Answer N K S A V}
    {memory : W}
    (hcall : (g.evaluator node a.state a.value).perform a.memory = (.ok answer, memory)) :
    (g.ask node).perform a =
      ((match if g.limits.checked then answer.fault? node else none with
        | some failure => .error (.failed failure)
        | none => .ok answer),
        { a with
          memory := memory, evaluations := a.evaluations + 1
          journal := .called node a.state a.value (.ok answer) :: a.journal }) := by
  simp only [ask, Action.perform_bind, perform_get, perform_host, hcall, perform_note,
    perform_ofHost_ok, perform_modify]
  cases hchecked : g.limits.checked with
  | false => simp
  | true =>
    rcases answer with ⟨value, _ | given⟩ | ⟨value, _ | given⟩ | _ | _ <;> simp [Answer.fault?]

/-! ## §2 Nodes -/

/-- The fold of a node that is new and within the limits asks the evaluator. -/
theorem foldNode_of_new {node : N} {key : K} {c : Config N K S A V E W L} (fuel : Nat)
    (hdepth : c.state.depth = c.frames.length) (hkey : g.identity node = .ok key)
    (hseen : c.state.isSeen key = false) (hlimit : g.limits.Admits c.frames.length) :
    (g.foldNode (fuel + 1) node).perform c.account =
      (do g.heed (g.foldNode fuel) node key c.state (← g.ask node) :
        Folding N K S A V E W L Unit).perform
        { c.account with journal := .arrived node c.state :: c.journal } := by
  simp only [foldNode, Action.perform_bind, perform_get, perform_note, hkey, perform_ofHost_ok,
    Config.account, hseen, Bool.false_eq_true, if_false]
  cases hmax : g.limits.maxDepth with
  | none => simp [Action.perform_bind]
  | some limit =>
    have hle := hlimit limit hmax
    rw [← hdepth] at hle
    simp [Action.perform_bind, Int.not_lt.2 hle]

/-- A malformed answer fails the fold, at the check or when it is acted on. -/
theorem perform_ask_heed_of_refusal {node : N} {key : K} {s : State N K S}
    {a : Account N K S A V E W L} {answer : Answer N K S A V} {f : Failure N V E} {memory : W}
    (visit : N → Folding N K S A V E W L Unit)
    (hcall : (g.evaluator node a.state a.value).perform a.memory = (.ok answer, memory))
    (hrefused : g.refusal? node answer = some f) :
    (do g.heed visit node key s (← g.ask node) : Folding N K S A V E W L Unit).perform a =
      (.error (.failed f),
        { a with
          memory := memory, evaluations := a.evaluations + 1
          journal := .called node a.state a.value (.ok answer) :: a.journal }) := by
  rw [Action.perform_bind, g.perform_ask_of_ok hcall]
  unfold refusal? at hrefused
  cases hchecked : g.limits.checked with
  | true =>
    simp only [hchecked, if_true] at hrefused
    simp [hrefused]
  | false =>
    simp only [hchecked, Bool.false_eq_true, if_false] at hrefused
    rcases answer with ⟨value, given | given⟩ | ⟨value, given | given⟩ | reason | given <;>
      simp [Answer.slip?] at hrefused <;> subst hrefused <;> simp [heed]

/-- A well-formed answer is acted on. -/
theorem perform_ask_heed_of_ok {node : N} {key : K} {s : State N K S}
    {a : Account N K S A V E W L} {answer : Answer N K S A V} {memory : W}
    (visit : N → Folding N K S A V E W L Unit)
    (hcall : (g.evaluator node a.state a.value).perform a.memory = (.ok answer, memory))
    (hok : g.refusal? node answer = none) :
    (do g.heed visit node key s (← g.ask node) : Folding N K S A V E W L Unit).perform a =
      (g.heed visit node key s answer).perform
        { a with
          memory := memory, evaluations := a.evaluations + 1
          journal := .called node a.state a.value (.ok answer) :: a.journal } := by
  have hfault : (if g.limits.checked then answer.fault? (E := E) node else none) = none := by
    rcases g.refusal?_eq_none_iff.1 hok with ⟨_, _, rfl⟩ | ⟨_, _, rfl⟩ | ⟨_, rfl⟩ <;>
      simp [Answer.fault?]
  rw [Action.perform_bind, g.perform_ask_of_ok hcall, hfault]

/-- A fold fails at a node where a walk does. -/
theorem foldNode_of_failed {node : N} {c d : Config N K S A V E W L} {f : Failure N V E}
    (fuel : Nat) (hdepth : c.state.depth = c.frames.length)
    (h : g.Arrival node c (.failed f d)) :
    (g.foldNode (fuel + 1) node).perform c.account = (.error (.failed f), d.account) := by
  cases h with
  | unkeyed e hkey =>
    simp [foldNode, Action.perform_bind, hkey, Config.account]
  | tooDeep key limit hkey hseen hlimit hdeep =>
    simp only [foldNode, Action.perform_bind, perform_get, perform_note, hkey, perform_ofHost_ok,
      Config.account, hseen, hlimit, hdepth, hdeep, Bool.false_eq_true, if_false, if_true,
      g.perform_announce none c.frames, perform_giveUp]
    rfl
  | raised key e memory hkey hseen hlimit hcall =>
    rw [g.foldNode_of_new fuel hdepth hkey hseen hlimit, Action.perform_bind,
      g.perform_ask_of_error hcall]
    rfl
  | refused key answer f memory hkey hseen hlimit hcall hrefused =>
    rw [g.foldNode_of_new fuel hdepth hkey hseen hlimit,
      g.perform_ask_heed_of_refusal _ hcall hrefused]
    rfl
  | rejected key reason memory hkey hseen hlimit hcall =>
    rw [g.foldNode_of_new fuel hdepth hkey hseen hlimit,
      g.perform_ask_heed_of_ok _ hcall (g.refusal?_eq_none_iff.2 (.inr (.inr ⟨_, rfl⟩)))]
    simp only [heed, hdepth, Action.perform_bind, g.perform_announce none c.frames, perform_giveUp]
    rfl
  | unlisted key value given memory e left hkey hseen hlimit hcall hlookup =>
    rw [g.foldNode_of_new fuel hdepth hkey hseen hlimit,
      g.perform_ask_heed_of_ok _ hcall (g.refusal?_eq_none_iff.2 (.inl ⟨_, _, rfl⟩))]
    simp only [heed, lookUp, Action.perform_bind, perform_carryOn, perform_get, perform_host,
      hlookup, perform_note, perform_giveUp]
    rfl
  | notListed key value given memory e left hkey hseen hlimit hcall hlookup =>
    rw [g.foldNode_of_new fuel hdepth hkey hseen hlimit,
      g.perform_ask_heed_of_ok _ hcall (g.refusal?_eq_none_iff.2 (.inl ⟨_, _, rfl⟩))]
    simp only [heed, lookUp, Action.perform_bind, perform_carryOn, perform_get, perform_host,
      hlookup, perform_note, hdepth, g.perform_announce none c.frames, perform_giveUp]
    rfl

/-- A node whose children are left out is folded in one step. -/
theorem foldNode_of_settled {node : N} {c d : Config N K S A V E W L} (fuel : Nat)
    (hdepth : c.state.depth = c.frames.length) (h : g.Arrival node c (.running d))
    (hframes : d.frames = c.frames) :
    (g.foldNode (fuel + 1) node).perform c.account = (.ok (), d.account) := by
  cases h with
  | skipped key hkey hseen =>
    simp only [foldNode, Action.perform_bind, perform_get, perform_note, hkey, perform_ofHost_ok,
      Config.account, hseen, if_true, hdepth, g.perform_announce none c.frames]
    rfl
  | pruned key value given memory hkey hseen hlimit hcall =>
    rw [g.foldNode_of_new fuel hdepth hkey hseen hlimit,
      g.perform_ask_heed_of_ok _ hcall (g.refusal?_eq_none_iff.2 (.inr (.inl ⟨_, _, rfl⟩)))]
    simp only [heed, hdepth, Action.perform_bind, perform_carryOn, g.perform_announce none c.frames]
    rfl
  | opened => simp at hframes

/-- A node whose children come next is folded by folding them, ending their listing, and then
putting its ancestors back. -/
theorem foldNode_of_nested {node : N} {c d : Config N K S A V E W L} {above : List N}
    {pulls : Pulls W E N} (fuel : Nat) (hdepth : c.state.depth = c.frames.length)
    (h : g.Arrival node c (.running d)) (hframes : d.frames = ⟨above, pulls⟩ :: c.frames) :
    (g.foldNode (fuel + 1) node).perform c.account =
      (do
        foldChildren (g.foldNode fuel) pulls.each
        ofHost (← host pulls.ending)
        enter (·.withAncestors above) : Folding N K S A V E W L Unit).perform d.account := by
  cases h with
  | skipped key hkey hseen => simp at hframes
  | pruned key value given memory hkey hseen hlimit hcall => simp at hframes
  | opened key value given memory pulls' left hkey hseen hlimit hcall hlookup =>
    simp only [List.cons.injEq, Frame.mk.injEq, and_true] at hframes
    obtain ⟨rfl, rfl⟩ := hframes
    rw [g.foldNode_of_new fuel hdepth hkey hseen hlimit,
      g.perform_ask_heed_of_ok _ hcall (g.refusal?_eq_none_iff.2 (.inl ⟨_, _, rfl⟩))]
    simp only [heed, lookUp, Action.perform_bind, perform_carryOn, perform_get, perform_host,
      hlookup, perform_note, hdepth, g.perform_announce none c.frames, perform_enter,
      Action.perform_pure]
    simp only [Config.account, Account.toConfig, Config.report_state]

/-! ## §3 Walks -/

/-- A walk at `c` goes where a fold went: to the account the fold came to, with these frames left;
or into the failure that gave the fold up; or, if the fuel ran out, on for as many steps. -/
def Follows (fuel : Nat) (c : Config N K S A V E W L) (frames : List (Frame N E W)) :
    Except (Stop N V E) Unit × Account N K S A V E W L → Prop
  | (.ok (), a) => g.Passage c (a.toConfig none frames)
  | (.error (.failed f), a) => ∃ n d, g.run n c = .failed f d ∧ d.account = a
  | (.error .exhausted, _) => ∃ n d, fuel ≤ n ∧ g.run n c = .unfinished d

variable {g}

/-- A fold that ends early is followed from any earlier point, on more fuel by as many steps as lie
between. -/
theorem Follows.of_run {fuel fuel' n : Nat} {c d : Config N K S A V E W L}
    {frames frames' : List (Frame N E W)} {stop : Stop N V E} {a : Account N K S A V E W L}
    (h : g.Follows fuel d frames' (.error stop, a)) (hrun : g.run n c = .unfinished d)
    (hfuel : fuel' ≤ fuel + n) : g.Follows fuel' c frames (.error stop, a) := by
  cases stop with
  | failed f =>
    obtain ⟨m, e, hm, he⟩ := h
    exact ⟨n + m, e, by rw [g.run_add_of_unfinished hrun, hm], he⟩
  | exhausted =>
    obtain ⟨m, e, hle, hm⟩ := h
    exact ⟨n + m, e, by omega, by rw [g.run_add_of_unfinished hrun, hm]⟩

/-- If a walk follows the fold of every node that is pending, it follows the fold of the children
of the innermost frame. -/
theorem follows_foldChildren {fuel : Nat}
    (hnode : ∀ (node : N) (c : Config N K S A V E W L), c.pending = some node →
      c.state.depth = c.frames.length →
      g.Follows fuel c c.frames ((g.foldNode fuel node).perform c.account))
    (pulls : List (Pull W E N)) {c : Config N K S A V E W L} {above : List N}
    {ending : Action W E Unit} {outer : List (Frame N E W)} (hpending : c.pending = none)
    (hframes : c.frames = ⟨above, pulls, ending⟩ :: outer)
    (hdepth : c.state.depth = outer.length + 1) :
    g.Follows fuel c (⟨above, [], ending⟩ :: outer)
      ((foldChildren (g.foldNode fuel) pulls).perform c.account) := by
  induction pulls generalizing c with
  | nil =>
    have hc : c.account.toConfig none (⟨above, [], ending⟩ :: outer) = c := by
      rw [← hpending, ← hframes, Config.toConfig_account]
    show g.Passage c (c.account.toConfig none (⟨above, [], ending⟩ :: outer))
    rw [hc]
    exact .done above ending outer hpending hframes
  | cons pull later ih =>
    simp only [foldChildren, Action.perform_bind, perform_host]
    rcases hpull : pull.perform c.memory with ⟨e | child, memory⟩
    · have hstep : g.step c = .failed (.raised e) { c with memory := memory } :=
        step_of_pullRaised hpending hframes hpull
      simp only [Config.account, hpull, perform_ofHost_error]
      exact ⟨1, _, g.run_succ_of_failed hstep 0, rfl⟩
    · let d : Config N K S A V E W L :=
        { c with pending := some child, frames := ⟨above, later, ending⟩ :: outer, memory := memory }
      have hstep : g.step c = .running d := step_of_pull hpending hframes hpull
      have hrun : g.run 1 c = .unfinished d := by rw [g.run_succ_of_running hstep, g.run_zero]
      have hfirst := hnode child d rfl hdepth
      simp only [Config.account, hpull, perform_ofHost_ok]
      have haccount : (⟨c.state, c.value, c.evaluations, memory, c.heard, c.journal⟩ :
          Account N K S A V E W L) = d.account := rfl
      rw [haccount]
      rcases hvisit : (g.foldNode fuel child).perform d.account with ⟨stop | ⟨⟩, a⟩
      · rw [hvisit] at hfirst
        exact hfirst.of_run hrun (Nat.le_add_right ..)
      · rw [hvisit] at hfirst
        have hancestors : a.state.depth = outer.length + 1 := by
          have := Passage.ancestors_eq hfirst
          rw [← hdepth]
          exact congrArg List.length this
        have hrest := ih (c := a.toConfig none (⟨above, later, ending⟩ :: outer)) rfl rfl hancestors
        simp only [Account.account_toConfig] at hrest ⊢
        obtain ⟨n, hn⟩ := Passage.exists_run hfirst
        rcases hlater : (foldChildren (g.foldNode fuel) later).perform a with ⟨stop | ⟨⟩, b⟩
        · rw [hlater] at hrest
          exact hrest.of_run (by rw [g.run_add_of_unfinished hrun, hn]) (Nat.le_add_right ..)
        · rw [hlater] at hrest
          exact .next above pull later ending outer child hpending hframes hpull rfl hfirst hrest

/-- If a walk follows the fold of the children of a node that is opened, it follows the fold of the
node, to the end of the listing. -/
theorem follows_foldNode_of_nested {fuel : Nat} {node : N} {c d : Config N K S A V E W L}
    {above : List N} {pulls : Pulls W E N} (hpending : c.pending = some node)
    (hdepth : c.state.depth = c.frames.length) (hstep : g.step c = .running d)
    (hframes : d.frames = ⟨above, pulls⟩ :: c.frames)
    (hchildren : g.Follows fuel d (⟨above, [], pulls.ending⟩ :: c.frames)
      ((foldChildren (g.foldNode fuel) pulls.each).perform d.account)) :
    g.Follows (fuel + 1) c c.frames ((g.foldNode (fuel + 1) node).perform c.account) := by
  rw [g.foldNode_of_nested fuel hdepth (arrival_of_step hpending hstep) hframes, Action.perform_bind]
  rcases hfold : (foldChildren (g.foldNode fuel) pulls.each).perform d.account with ⟨stop | ⟨⟩, a⟩
  · rw [hfold] at hchildren
    have hrun : g.run 1 c = .unfinished d := by rw [g.run_succ_of_running hstep, g.run_zero]
    exact hchildren.of_run hrun (Nat.le_refl _)
  · rw [hfold] at hchildren
    simp only [Action.perform_bind, perform_host]
    rcases hending : pulls.ending.perform a.memory with ⟨e | ⟨⟩, memory⟩
    · -- The children are folded; the walk fails where it drops their frame.
      obtain ⟨n, hn⟩ := Passage.exists_run hchildren
      have hfails := step_of_dropRaised (g := g)
        (c := a.toConfig none (⟨above, [], pulls.ending⟩ :: c.frames)) rfl rfl hending
      have hrun := g.run_succ_of_failed hfails 0
      rw [← g.run_add_of_unfinished hn, ← g.run_succ_of_running hstep] at hrun
      exact ⟨_, _, hrun, rfl⟩
    · exact .nested node above pulls memory hpending hstep hframes hchildren hending

/-- A walk follows the fold of the node it arrived at. -/
theorem follows_foldNode (fuel : Nat) (node : N) (c : Config N K S A V E W L)
    (hpending : c.pending = some node) (hdepth : c.state.depth = c.frames.length) :
    g.Follows fuel c c.frames ((g.foldNode fuel node).perform c.account) := by
  induction fuel generalizing node c with
  | zero => exact ⟨0, c, Nat.le_refl 0, rfl⟩
  | succ fuel ih =>
    have hmove := g.move c
    cases hstep : g.step c with
    | finished d =>
      rw [hstep] at hmove
      cases hmove with
      | handle node' p hpending' harrival => cases harrival
      | finish hnone => rw [hpending] at hnone; cases hnone
    | failed f d =>
      rw [hstep] at hmove
      cases hmove with
      | handle node' p hpending' harrival =>
        rw [hpending] at hpending'
        cases hpending'
        rw [g.foldNode_of_failed fuel hdepth harrival]
        exact ⟨1, d, g.run_succ_of_failed hstep 0, rfl⟩
      | pullRaised _ _ _ _ _ _ _ hnone => rw [hpending] at hnone; cases hnone
      | dropRaised _ _ _ _ _ hnone => rw [hpending] at hnone; cases hnone
    | running d =>
      have harrival := arrival_of_step hpending hstep
      have hd := harrival.pending_eq_none
      rcases harrival.ancestors_eq with ⟨hframes, _⟩ | ⟨pulls, hframes, hancestors⟩
      · rw [g.foldNode_of_settled fuel hdepth harrival hframes]
        have hsettled : d.account.toConfig none c.frames = d := by
          rw [← hd, ← hframes, Config.toConfig_account]
        show g.Passage c (d.account.toConfig none c.frames)
        rw [hsettled]
        exact .settled node hpending hstep hframes
      · have hdeeper : d.state.depth = c.frames.length + 1 := by
          rw [State.depth, hancestors, ← hdepth]
          rfl
        exact follows_foldNode_of_nested hpending hdepth hstep hframes
          (follows_foldChildren ih pulls.each hd hframes hdeeper)

/-- A walk that finishes from a point at which only one node is at hand is one passage. -/
theorem passage_of_run_finished {n : Nat} {node : N} {c e : Config N K S A V E W L}
    (hpending : c.pending = some node) (hframes : c.frames = []) (hdepth : c.state.depth = 0)
    (h : g.run n c = .finished e) : g.Passage c e := by
  have hended : (g.run n c).Ended := by rw [h]; exact Outcome.ended_finished e
  have hfollows : g.Follows n c c.frames ((g.foldNode n node).perform c.account) :=
    follows_foldNode n node c hpending (by rw [hdepth, hframes]; rfl)
  rcases hfold : (g.foldNode n node).perform c.account with ⟨(f | _) | ⟨⟩, a⟩
  · rw [hfold] at hfollows
    obtain ⟨m, d, hm, _⟩ := hfollows
    have hsame := g.run_unique hended (m := m) (by rw [hm]; exact Outcome.ended_failed f d)
    rw [h, hm] at hsame
    cases hsame
  · rw [hfold] at hfollows
    obtain ⟨m, d, hle, hm⟩ := hfollows
    rw [g.run_of_le hle hended, h] at hm
    cases hm
  · rw [hfold, hframes] at hfollows
    obtain ⟨m, hm⟩ := Passage.exists_run hfollows
    have hend : g.run (m + 1) c = .finished (a.toConfig none []) := by
      rw [g.run_add_of_unfinished hm, g.run_succ_of_finished rfl]
    cases g.finished_unique h hend
    exact hfollows

end Setting

/-! ## §4 Ends -/

/-- How a walk ended, and with which account; nothing if its budget ran out. -/
def Outcome.ending? : Outcome N K S A V E W L →
    Option (Except (Failure N V E) Unit × Account N K S A V E W L)
  | .finished c => some (.ok (), c.account)
  | .failed f c => some (.error f, c.account)
  | .unfinished _ => none

/-- How a fold ended, and with which account; nothing if its fuel ran out. -/
def Folding.ending? : Except (Stop N V E) Unit × Account N K S A V E W L →
    Option (Except (Failure N V E) Unit × Account N K S A V E W L)
  | (.ok (), a) => some (.ok (), a)
  | (.error (.failed f), a) => some (.error f, a)
  | (.error .exhausted, _) => none

theorem Outcome.ending?_eq_some {o : Outcome N K S A V E W L} {a : Account N K S A V E W L}
    {r : Except (Failure N V E) Unit} :
    o.ending? = some (r, a) ↔
      (∃ c, r = .ok () ∧ o = .finished c ∧ c.account = a) ∨
        ∃ f c, r = .error f ∧ o = .failed f c ∧ c.account = a := by
  cases o <;> grind [ending?]

theorem Folding.ending?_eq_some {o : Except (Stop N V E) Unit × Account N K S A V E W L}
    {a : Account N K S A V E W L} {r : Except (Failure N V E) Unit} :
    ending? o = some (r, a) ↔
      (r = .ok () ∧ o = (.ok (), a)) ∨ ∃ f, r = .error f ∧ o = (.error (.failed f), a) := by
  rcases o with ⟨(f | _) | ⟨⟩, b⟩ <;> grind [ending?]

theorem Folding.ending?_eq_none {o : Except (Stop N V E) Unit × Account N K S A V E W L} :
    ending? o = none ↔ o.1 = .error .exhausted := by
  rcases o with ⟨(f | _) | ⟨⟩, b⟩ <;> simp [ending?]

theorem Outcome.ending?_eq_none {o : Outcome N K S A V E W L} :
    o.ending? = none ↔ ∃ c, o = .unfinished c := by
  cases o <;> simp [ending?]

/-- A walk that ended has an ending. -/
theorem Outcome.Ended.of_ending? {o : Outcome N K S A V E W L}
    {r : Except (Failure N V E) Unit × Account N K S A V E W L} (h : o.ending? = some r) :
    o.Ended := by
  intro c hc
  rw [hc] at h
  cases h

namespace Setting

variable (g : Setting N K S A V E W L) (root : N) (context : S) (value : A) (memory : W)
  (heard : L)

/-- A walk from a root follows its fold. -/
theorem follows_foldFrom (fuel : Nat) :
    g.Follows fuel (Config.start root context value memory heard) []
      (g.foldFrom fuel root context value memory heard) :=
  follows_foldNode fuel root (Config.start root context value memory heard) rfl rfl

variable {g root context value memory heard}

/-- Where a fold ends, the walk ends in the same way. -/
theorem exists_ending?_reduce {fuel : Nat}
    {r : Except (Failure N V E) Unit × Account N K S A V E W L}
    (h : Folding.ending? (g.foldFrom fuel root context value memory heard) = some r) :
    ∃ budget, (g.reduce budget root context value memory heard).ending? = some r := by
  have hfollows := g.follows_foldFrom root context value memory heard fuel
  rcases hfold : g.foldFrom fuel root context value memory heard with ⟨(f | _) | ⟨⟩, a⟩
  · rw [hfold] at h hfollows
    obtain ⟨n, d, hn, hd⟩ := hfollows
    refine ⟨n, ?_⟩
    rw [← h, reduce, hn, ← hd]
    rfl
  · rw [hfold] at h
    cases h
  · rw [hfold] at h hfollows
    obtain ⟨n, hn⟩ := Passage.exists_run hfollows
    have hend : g.step (a.toConfig none []) = .finished (a.toConfig none []) := rfl
    refine ⟨n + 1, ?_⟩
    rw [← h, reduce, g.run_add_of_unfinished hn, g.run_succ_of_finished hend]
    rfl

/-- Where the fuel of a fold runs out, so does a budget of the same size. -/
theorem exists_foldFrom_ending? {budget : Nat}
    (h : (g.reduce budget root context value memory heard).Ended) :
    ∃ r, Folding.ending? (g.foldFrom budget root context value memory heard) = some r := by
  have hfollows := g.follows_foldFrom root context value memory heard budget
  rcases hfold : g.foldFrom budget root context value memory heard with ⟨(f | _) | ⟨⟩, a⟩
  · exact ⟨_, rfl⟩
  · rw [hfold] at hfollows
    obtain ⟨n, d, hle, hn⟩ := hfollows
    rw [g.run_of_le hle h] at hn
    exact absurd hn (h d)
  · exact ⟨_, rfl⟩

/-- A walk that ends is the fold on as much fuel as it had budget. -/
theorem ending?_foldFrom {budget : Nat}
    {r : Except (Failure N V E) Unit × Account N K S A V E W L}
    (h : (g.reduce budget root context value memory heard).ending? = some r) :
    Folding.ending? (g.foldFrom budget root context value memory heard) = some r := by
  have hended := Outcome.Ended.of_ending? h
  obtain ⟨r', hr'⟩ := exists_foldFrom_ending? hended
  obtain ⟨n, hn⟩ := exists_ending?_reduce hr'
  have hsame : g.reduce budget root context value memory heard =
      g.reduce n root context value memory heard :=
    g.run_unique hended (Outcome.Ended.of_ending? hn)
  rw [hsame, hn] at h
  rw [hr', h]

variable (g root context value memory heard) in
/-- The walk and the fold have the same ending, if they have one. -/
theorem exists_ending?_iff (r : Except (Failure N V E) Unit × Account N K S A V E W L) :
    (∃ fuel, Folding.ending? (g.foldFrom fuel root context value memory heard) = some r) ↔
      ∃ budget, (g.reduce budget root context value memory heard).ending? = some r := by
  constructor
  · rintro ⟨fuel, h⟩
    exact exists_ending?_reduce h
  · rintro ⟨budget, h⟩
    exact ⟨budget, ending?_foldFrom h⟩

/-- The walk refines the fold by recursion. One comes to its end exactly if the other does, one is
given up exactly if the other is, for the same reason, and both leave the same state, value, count,
memories and journal; one of them goes on for ever exactly if the other does. -/
theorem reduce_refines_foldFrom (g : Setting N K S A V E W L) (root : N) (context : S) (value : A)
    (memory : W) (heard : L) :
    (∀ a, (∃ fuel, g.foldFrom fuel root context value memory heard = (.ok (), a)) ↔
      ∃ budget c, g.reduce budget root context value memory heard = .finished c ∧
        c.account = a) ∧
    (∀ f a, (∃ fuel, g.foldFrom fuel root context value memory heard = (.error (.failed f), a)) ↔
      ∃ budget c, g.reduce budget root context value memory heard = .failed f c ∧
        c.account = a) ∧
    ((∀ fuel, (g.foldFrom fuel root context value memory heard).1 = .error .exhausted) ↔
      ∀ budget, ∃ c, g.reduce budget root context value memory heard = .unfinished c) := by
  have hends := fun r => g.exists_ending?_iff root context value memory heard r
  refine ⟨fun a => ?_, fun f a => ?_, ?_⟩
  · simpa [Folding.ending?_eq_some, Outcome.ending?_eq_some] using hends (.ok (), a)
  · simpa [Folding.ending?_eq_some, Outcome.ending?_eq_some] using hends (.error f, a)
  · constructor
    · intro hfold budget
      rw [← Outcome.ending?_eq_none, Option.eq_none_iff_forall_ne_some]
      intro r hr
      obtain ⟨fuel, hfuel⟩ := (hends r).2 ⟨budget, hr⟩
      rw [Folding.ending?_eq_none.2 (hfold fuel)] at hfuel
      cases hfuel
    · intro hwalk fuel
      rw [← Folding.ending?_eq_none, Option.eq_none_iff_forall_ne_some]
      intro r hr
      obtain ⟨budget, hbudget⟩ := (hends r).1 ⟨fuel, hr⟩
      rw [Outcome.ending?_eq_none.2 (hwalk budget)] at hbudget
      cases hbudget

end Setting

end GraphFold
