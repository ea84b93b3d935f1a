/-
GraphFold.Proofs.Walk.Indexed — walks over nodes that stand for indices.

Nodes of different make may stand for the same indices: places in one buffer or
in another. If the evaluator goes by the indices alone, each such walk is a
rendering of one walk over the bare indices (`Setting.ofRule`): at every point
its nodes are those of the indices there, and its keys tell them apart as the
indices do. Steps keep this (`GoesByIndex.step`), so whole walks do, and two of them
over the same indices come to the same.

  §1 Rules   — `Ruling`, and evaluators that go by the indices.
  §2 Points  — `Config.Renders`.
  §3 Steps   — a step of one walk renders the step of the other.
  §4 Walks   — `GoesByIndex.reduce`.
  §5 Layouts — `Outcome.AgreeByIndex`, two renderings of one walk.
-/
import GraphFold.Proofs.Walk.Confinement

namespace GraphFold

variable {N K S A V E W L : Type} [Ord K]

/-! ## §1 Rules -/

/-- What is decided about an index: a value and a context to go on with, below the index or past
it, or a reason to give up. -/
inductive Ruling (S A V : Type) where
  | descend (value : A) (context : S)
  | prune (value : A) (context : S)
  | fail (reason : V)

/-- Decides about an index, given the indices above it, the context and the value. -/
abbrev IndexRule (S A V : Type) : Type := Nat → List Nat → S → A → Ruling S A V

namespace Ruling

/-- The answer with just this decision in it. -/
def answer (s : State N K S) : Ruling S A V → Answer N K S A V
  | descend value context => .proceed value (.ok (s.withContext context))
  | prune value context => .prune value (.ok (s.withContext context))
  | fail reason => .fail reason

/-- Answers with this decision: their states have the context, and have seen what the state asked
about has. The ancestors in them may be any. -/
inductive Gives (s : State N K S) : Ruling S A V → Answer N K S A V → Prop
  | descend (value : A) (given : State N K S) (hseen : given.seen = s.seen) :
      Gives s (.descend value given.context) (.proceed value (.ok given))
  | prune (value : A) (given : State N K S) (hseen : given.seen = s.seen) :
      Gives s (.prune value given.context) (.prune value (.ok given))
  | fail (reason : V) : Gives s (.fail reason) (.fail reason)

end Ruling

/-- Asked about the node of an index under the nodes of indices, the evaluator answers what the rule
decides about the indices. -/
def Evaluator.Follows (evaluator : Evaluator N K S A V E W) (node : Nat → N) (inside : Nat → Prop)
    (rule : IndexRule S A V) : Prop :=
  ∀ i path s value memory, inside i → (∀ j ∈ path, inside j) → s.path = path.map node →
    ∃ answer left, (evaluator (node i) s value).perform memory = (.ok answer, left) ∧
      (rule i path s.context value).Gives s answer

/-- A fold whose steps go by the indices follows them, and goes on below every index. -/
theorem Evaluator.follows_ofFold {node : Nat → N} {inside : Nat → Prop} {step : N → A → A}
    {stepAt : Nat → A → A} (h : ∀ i, inside i → step (node i) = stepAt i) :
    (ofFold (fun x value => pure (step x value)) none : Evaluator N K S A V E W).Follows node inside
      fun i _ context value => .descend (stepAt i value) context := by
  intro i path s value memory hi hpath hs
  refine ⟨.proceed (step (node i) value) (.ok s), memory, rfl, ?_⟩
  rw [h i hi]
  exact .descend _ s rfl

/-- The walk over the bare indices. -/
def Setting.ofRule (kids : Nat → List Nat) (rule : IndexRule S A V) (limits : Limits) :
    Setting Nat Nat S A V Unit Unit Unit where
  identity := .ok
  children i _ := pure (.ok (.ofNodes (kids i)))
  evaluator i s value := pure ((rule i s.path s.context value).answer s)
  limits := limits
  listener := none

/-- The event of the node in place of its index. -/
def Event.ofIndex (node : Nat → N) (e : Event Nat) : Event N :=
  ⟨e.kind, e.depth, node e.node, e.evaluations⟩

/-! ## §2 Points -/

section Points

variable (node : Nat → N) (key : Nat → K) (inside : Nat → Prop)

/-- The state has nodes where the other has indices. -/
structure State.Renders (s : State N K S) (t : State Nat Nat S) : Prop where
  ancestors_eq : s.ancestors = t.ancestors.map node
  context_eq : s.context = t.context
  isSeen_eq : ∀ i, inside i → s.isSeen (key i) = t.isSeen i
  inside_of_mem : ∀ i ∈ t.ancestors, inside i

/-- The frame has nodes where the other has indices. -/
inductive Frame.Renders : Frame N E W → Frame Nat Unit Unit → Prop
  | mk (above kids : List Nat) (habove : ∀ i ∈ above, inside i) (hkids : ∀ i ∈ kids, inside i) :
      Renders ⟨above.map node, (kids.map node).map pure, pure ()⟩
        ⟨above, kids.map pure, pure ()⟩

/-- The point has nodes where the other has indices. -/
structure Config.Renders (c : Config N K S A V E W L)
    (d : Config Nat Nat S A V Unit Unit Unit) : Prop where
  pending_eq : c.pending = d.pending.map node
  inside_of_pending : ∀ i, d.pending = some i → inside i
  frames : List.Forall₂ (Frame.Renders node inside) c.frames d.frames
  state : State.Renders node key inside c.state d.state
  value_eq : c.value = d.value
  evaluations_eq : c.evaluations = d.evaluations
  calls_eq : c.calls.map Call.node = d.calls.map fun call => node call.node
  events_eq : c.events = d.events.map (Event.ofIndex node)

/-- The failure is of a node where the other is of an index. -/
inductive Failure.Renders : Failure N V E → Failure Nat V Unit → Prop
  | rejected (reason : V) (i : Nat) (path : List Nat) :
      Renders (.rejected reason (node i) (path.map node)) (.rejected reason i path)
  | tooDeep (limit : Int) (i : Nat) (path : List Nat) :
      Renders (.tooDeep limit (node i) (path.map node)) (.tooDeep limit i path)

/-- The same of a step. -/
inductive Progress.Renders :
    Progress N K S A V E W L → Progress Nat Nat S A V Unit Unit Unit → Prop
  | running {c : Config N K S A V E W L} {d : Config Nat Nat S A V Unit Unit Unit}
      (h : Config.Renders node key inside c d) : Renders (.running c) (.running d)
  | finished {c : Config N K S A V E W L} {d : Config Nat Nat S A V Unit Unit Unit}
      (h : Config.Renders node key inside c d) : Renders (.finished c) (.finished d)
  | failed {f : Failure N V E} {f' : Failure Nat V Unit} {c : Config N K S A V E W L}
      {d : Config Nat Nat S A V Unit Unit Unit} (hf : Failure.Renders node f f')
      (h : Config.Renders node key inside c d) : Renders (.failed f c) (.failed f' d)

/-- The same of a run. -/
inductive Outcome.Renders :
    Outcome N K S A V E W L → Outcome Nat Nat S A V Unit Unit Unit → Prop
  | finished {c : Config N K S A V E W L} {d : Config Nat Nat S A V Unit Unit Unit}
      (h : Config.Renders node key inside c d) : Renders (.finished c) (.finished d)
  | failed {f : Failure N V E} {f' : Failure Nat V Unit} {c : Config N K S A V E W L}
      {d : Config Nat Nat S A V Unit Unit Unit} (hf : Failure.Renders node f f')
      (h : Config.Renders node key inside c d) : Renders (.failed f c) (.failed f' d)
  | unfinished {c : Config N K S A V E W L} {d : Config Nat Nat S A V Unit Unit Unit}
      (h : Config.Renders node key inside c d) : Renders (.unfinished c) (.unfinished d)

end Points

variable {node : Nat → N} {key : Nat → K} {inside : Nat → Prop}

namespace State.Renders

variable {s : State N K S} {t : State Nat Nat S}

theorem path_eq (h : Renders node key inside s t) : s.path = t.path.map node := by
  rw [State.path, h.ancestors_eq, State.path, List.map_reverse]

theorem new (context : S) :
    Renders node key inside (.new context : State N K S) (.new context) where
  ancestors_eq := rfl
  context_eq := rfl
  isSeen_eq i _ := by rw [isSeen_new, isSeen_new]
  inside_of_mem i hi := by cases hi

theorem withAncestors (h : Renders node key inside s t) {above : List Nat}
    (habove : ∀ i ∈ above, inside i) :
    Renders node key inside (s.withAncestors (above.map node)) (t.withAncestors above) where
  ancestors_eq := rfl
  context_eq := h.context_eq
  isSeen_eq := h.isSeen_eq
  inside_of_mem := habove

theorem push (h : Renders node key inside s t) {i : Nat} (hi : inside i) :
    Renders node key inside (s.push (node i)) (t.push i) where
  ancestors_eq := congrArg (node i :: ·) h.ancestors_eq
  context_eq := h.context_eq
  isSeen_eq := h.isSeen_eq
  inside_of_mem j hj := by
    rcases List.mem_cons.1 hj with rfl | hj
    · exact hi
    · exact h.inside_of_mem j hj

/-- Once an index and its node are recorded and the ancestors are put back, the state an answer
carries renders what the rule decided. -/
theorem marked [Std.TransOrd K]
    (hkey : ∀ i j, inside i → inside j → compare (key i) (key j) = .eq → i = j)
    (h : Renders node key inside s t) {given : State N K S} (hseen : given.seen = s.seen) {i : Nat}
    (hi : inside i) :
    Renders node key inside ((given.mark (key i)).withAncestors s.ancestors)
      (((t.withContext given.context).mark i).withAncestors t.ancestors) where
  ancestors_eq := h.ancestors_eq
  context_eq := rfl
  isSeen_eq j hj := by
    have hsame : given.isSeen (key j) = t.isSeen j := by
      rw [State.isSeen, hseen]
      exact h.isSeen_eq j hj
    have heq : compare (key i) (key j) = .eq ↔ compare i j = .eq := by
      refine ⟨fun heq => ?_, fun heq => ?_⟩
      · rw [hkey i j hi hj heq]
        exact Std.ReflCmp.compare_self
      · rw [Nat.compare_eq_eq.1 heq]
        exact Std.ReflCmp.compare_self
    rw [isSeen_withAncestors, isSeen_mark, isSeen_withAncestors, isSeen_mark, isSeen_withContext,
      hsame, Bool.eq_iff_iff, Bool.or_eq_true, Bool.or_eq_true, beq_iff_eq, beq_iff_eq, heq]
  inside_of_mem := h.inside_of_mem

end State.Renders

/-! ## §3 Steps -/

namespace Config.Renders

variable {c : Config N K S A V E W L} {d : Config Nat Nat S A V Unit Unit Unit} {i : Nat}

/-- The frames lie below as many ancestors. -/
theorem length_frames_eq (h : Renders node key inside c d) : c.frames.length = d.frames.length :=
  h.frames.length_eq

/-- The points at which the pending nodes are noted as arrived at. -/
theorem arrived (h : Renders node key inside c d) :
    Renders node key inside
      { c with pending := none, journal := .arrived (node i) c.state :: c.journal }
      { d with pending := none, journal := .arrived i d.state :: d.journal } where
  pending_eq := rfl
  inside_of_pending := nofun
  frames := h.frames
  state := h.state
  value_eq := h.value_eq
  evaluations_eq := h.evaluations_eq
  calls_eq := h.calls_eq
  events_eq := h.events_eq

/-- The points after a call, with whatever states and value follow from it. -/
theorem called (h : Renders node key inside c d) {s : State N K S} {t : State Nat Nat S}
    (hstate : State.Renders node key inside s t) {value value' : A} (hvalue : value = value')
    (memory : W) (answer : Except E (Answer N K S A V))
    (answer' : Except Unit (Answer Nat Nat S A V)) :
    Renders node key inside
      { c with
        pending := none, memory := memory, evaluations := c.evaluations + 1
        value := value, state := s
        journal := .called (node i) c.state c.value answer :: .arrived (node i) c.state ::
          c.journal }
      { d with
        pending := none, memory := (), evaluations := d.evaluations + 1
        value := value', state := t
        journal := .called i d.state d.value answer' :: .arrived i d.state :: d.journal } where
  pending_eq := rfl
  inside_of_pending := nofun
  frames := h.frames
  state := hstate
  value_eq := hvalue
  evaluations_eq := congrArg (· + 1) h.evaluations_eq
  calls_eq := by simp [h.calls_eq]
  events_eq := h.events_eq

/-- The points after a lookup. -/
theorem asked (h : Renders node key inside c d) (memory : W) (s : State N K S)
    (t : State Nat Nat S) (count count' : Option Nat) :
    Renders node key inside
      { c with memory := memory, journal := .asked (node i) s count :: c.journal }
      { d with memory := (), journal := .asked i t count' :: d.journal } where
  pending_eq := h.pending_eq
  inside_of_pending := h.inside_of_pending
  frames := h.frames
  state := h.state
  value_eq := h.value_eq
  evaluations_eq := h.evaluations_eq
  calls_eq := h.calls_eq
  events_eq := h.events_eq

/-- The points after a report, to whoever listens. -/
theorem report (h : Renders node key inside c d) (listener : Option (Listener N L))
    (kind : EventKind) (depth : Nat) :
    Renders node key inside (c.report listener kind (node i) depth)
      (d.report none kind i depth) where
  pending_eq := by simp [h.pending_eq]
  inside_of_pending := by simpa using h.inside_of_pending
  frames := by simpa using h.frames
  state := by simpa using h.state
  value_eq := by simp [h.value_eq]
  evaluations_eq := by simp [h.evaluations_eq]
  calls_eq := by simp [h.calls_eq]
  events_eq := by
    rw [report_events, report_events, List.map_append, ← h.events_eq, h.evaluations_eq]
    rfl

/-- The points with other frames and states. -/
theorem withFrames (h : Renders node key inside c d) {frames : List (Frame N E W)}
    {frames' : List (Frame Nat Unit Unit)}
    (hframes : List.Forall₂ (Frame.Renders node inside) frames frames') {s : State N K S}
    {t : State Nat Nat S} (hstate : State.Renders node key inside s t) :
    Renders node key inside { c with frames := frames, state := s }
      { d with frames := frames', state := t } where
  pending_eq := h.pending_eq
  inside_of_pending := h.inside_of_pending
  frames := hframes
  state := hstate
  value_eq := h.value_eq
  evaluations_eq := h.evaluations_eq
  calls_eq := h.calls_eq
  events_eq := h.events_eq

/-- The points with a node pending. -/
theorem withPending (h : Renders node key inside c d) (hi : inside i) (memory : W)
    {frames : List (Frame N E W)} {frames' : List (Frame Nat Unit Unit)}
    (hframes : List.Forall₂ (Frame.Renders node inside) frames frames') :
    Renders node key inside
      { c with pending := some (node i), frames := frames, memory := memory }
      { d with pending := some i, frames := frames', memory := () } where
  pending_eq := rfl
  inside_of_pending := by
    rintro j hj
    cases hj
    exact hi
  frames := hframes
  state := h.state
  value_eq := h.value_eq
  evaluations_eq := h.evaluations_eq
  calls_eq := h.calls_eq
  events_eq := h.events_eq

end Config.Renders

namespace Setting

/-- The setting goes by indices: it knows their nodes apart, lists those of their children, and its
evaluator follows a rule about them. -/
structure GoesByIndex [Std.TransOrd K] (g : Setting N K S A V E W L) (node : Nat → N)
    (key : Nat → K) (inside : Nat → Prop) (kids : Nat → List Nat) (rule : IndexRule S A V) :
    Prop where
  closedOff : g.ClosedOff node key inside kids
  injective : ∀ i j, inside i → inside j → compare (key i) (key j) = .eq → i = j
  follows : g.evaluator.Follows node inside rule

variable [Std.TransOrd K] {g : Setting N K S A V E W L} {kids : Nat → List Nat}
  {rule : IndexRule S A V} {c : Config N K S A V E W L} {d : Config Nat Nat S A V Unit Unit Unit}

/-- Evaluating a node renders evaluating its index. -/
theorem GoesByIndex.arrive_of_admits (hg : g.GoesByIndex node key inside kids rule) {i : Nat}
    (hi : inside i) (h : Config.Renders node key inside c d) (hseen : d.state.isSeen i = false)
    (hdepth : g.limits.Admits d.frames.length) :
    Progress.Renders node key inside (g.arrive (node i) c)
      ((ofRule kids rule g.limits).arrive i d) := by
  have hkey := hg.closedOff.identity_eq i hi
  have hseen' : c.state.isSeen (key i) = false := (h.state.isSeen_eq i hi).trans hseen
  have hdepth' : g.limits.Admits c.frames.length := h.length_frames_eq ▸ hdepth
  obtain ⟨answer, memory, hcall, hgives⟩ := hg.follows i d.state.path c.state c.value c.memory hi
    (fun j hj => h.state.inside_of_mem j (List.mem_reverse.1 hj)) h.state.path_eq
  rw [h.state.context_eq, h.value_eq] at hgives
  generalize hruling : rule i d.state.path d.state.context d.value = ruling at hgives
  have hcall' : ((ofRule kids rule g.limits).evaluator i d.state d.value).perform d.memory =
      (.ok (ruling.answer d.state), ()) := by
    rw [← hruling]
    rfl
  cases hgives with
  | descend value given hgiven =>
    have hlookup := hg.closedOff.children_eq i
      ((given.mark (key i)).withAncestors c.state.ancestors) memory hi
    rw [arrive_of_opened hkey hseen' hdepth' hcall hlookup,
      arrive_of_opened (g := ofRule kids rule g.limits) rfl hseen hdepth hcall' rfl,
      h.length_frames_eq]
    have hmarked := h.state.marked hg.injective hgiven hi
    have hframe : Frame.Renders (E := E) (W := W) node inside
        ⟨c.state.ancestors, ((kids i).map node).map pure, pure ()⟩
        ⟨d.state.ancestors, (kids i).map pure, pure ()⟩ := by
      rw [h.state.ancestors_eq]
      exact .mk _ _ h.state.inside_of_mem fun j hj => hg.closedOff.inside_of_mem i j hi hj
    refine .running (Config.Renders.withFrames ?_ (.cons hframe h.frames) (hmarked.push hi))
    refine Config.Renders.report ?_ ..
    exact (h.called hmarked rfl memory _ _).asked memory _ _ _ _
  | prune value given hgiven =>
    rw [arrive_of_pruned hkey hseen' hdepth' hcall,
      arrive_of_pruned (g := ofRule kids rule g.limits) rfl hseen hdepth hcall',
      h.length_frames_eq]
    exact .running ((h.called (h.state.marked hg.injective hgiven hi) rfl ..).report ..)
  | fail reason =>
    rw [arrive_of_rejected hkey hseen' hdepth' hcall,
      arrive_of_rejected (g := ofRule kids rule g.limits) rfl hseen hdepth hcall',
      h.length_frames_eq, h.state.path_eq]
    exact .failed (.rejected reason i d.state.path) ((h.called h.state h.value_eq ..).report ..)

theorem GoesByIndex.arrive (hg : g.GoesByIndex node key inside kids rule) {i : Nat}
    (hi : inside i) (h : Config.Renders node key inside c d) :
    Progress.Renders node key inside (g.arrive (node i) c)
      ((ofRule kids rule g.limits).arrive i d) := by
  have hkey := hg.closedOff.identity_eq i hi
  have hsame := h.state.isSeen_eq i hi
  cases hseen : d.state.isSeen i with
  | true =>
    rw [arrive_of_seen hkey (hsame.trans hseen),
      arrive_of_seen (g := ofRule kids rule g.limits) rfl hseen, h.length_frames_eq]
    exact .running (h.arrived.report ..)
  | false =>
    by_cases hdepth : g.limits.Admits d.frames.length
    · exact hg.arrive_of_admits hi h hseen hdepth
    · simp only [Limits.Admits, not_forall, Int.not_le] at hdepth
      obtain ⟨limit, hlimit, hdeep⟩ := hdepth
      rw [arrive_of_tooDeep hkey (hsame.trans hseen) hlimit (h.length_frames_eq ▸ hdeep),
        arrive_of_tooDeep (g := ofRule kids rule g.limits) rfl hseen hlimit hdeep,
        h.length_frames_eq, h.state.path_eq]
      exact .failed (.tooDeep limit i d.state.path) (h.arrived.report ..)

/-- A step from a node renders the step from its index. -/
theorem GoesByIndex.step (hg : g.GoesByIndex node key inside kids rule)
    (h : Config.Renders node key inside c d) :
    Progress.Renders node key inside (g.step c) ((ofRule kids rule g.limits).step d) := by
  have hpendings := h.pending_eq
  cases hpending : d.pending with
  | some i =>
    rw [hpending, Option.map_some] at hpendings
    rw [step_of_pending hpendings, step_of_pending hpending]
    exact hg.arrive (h.inside_of_pending i hpending) h
  | none =>
    rw [hpending, Option.map_none] at hpendings
    have hframes := h.frames
    generalize hc : c.frames = frames at hframes
    generalize hd : d.frames = frames' at hframes
    cases hframes with
    | nil =>
      rw [step_of_finish hpendings hc, step_of_finish hpending hd]
      exact .finished h
    | cons hframe houter =>
      cases hframe with
      | mk above kids habove hkids =>
        cases kids with
        | nil =>
          rw [step_of_drop hpendings hc (Action.perform_pure ..),
            step_of_drop hpending hd (Action.perform_pure ..)]
          exact .running (h.withFrames houter (h.state.withAncestors habove))
        | cons child later =>
          obtain ⟨hchild, hlater⟩ := List.forall_mem_cons.1 hkids
          rw [step_of_pull hpendings hc (Action.perform_pure ..),
            step_of_pull hpending hd (Action.perform_pure ..)]
          exact .running (h.withPending hchild _ (.cons (.mk above later habove hlater) houter))

/-! ## §4 Walks -/

theorem GoesByIndex.run (hg : g.GoesByIndex node key inside kids rule) (budget : Nat)
    (h : Config.Renders node key inside c d) :
    Outcome.Renders node key inside (g.run budget c)
      ((ofRule kids rule g.limits).run budget d) := by
  induction budget generalizing c d with
  | zero => exact .unfinished h
  | succ budget ih =>
    have hstep := hg.step h
    rw [Setting.run, Setting.run]
    generalize g.step c = p at hstep ⊢
    generalize (ofRule kids rule g.limits).step d = q at hstep ⊢
    cases hstep with
    | running h => exact ih h
    | finished h => exact .finished h
    | failed hf h => exact .failed hf h

/-- A walk over nodes renders the walk over their indices. -/
theorem GoesByIndex.reduce (hg : g.GoesByIndex node key inside kids rule) (budget : Nat) {i : Nat}
    (hi : inside i) (context : S) (value : A) (memory : W) (heard : L) :
    Outcome.Renders node key inside (g.reduce budget (node i) context value memory heard)
      ((ofRule kids rule g.limits).reduce budget i context value () ()) := by
  refine hg.run budget ⟨rfl, ?_, .nil, .new context, rfl, rfl, rfl, rfl⟩
  rintro j hj
  cases hj
  exact hi

/-! ## §5 Layouts -/

theorem keepsSeen_ofRule (kids : Nat → List Nat) (rule : IndexRule S A V) (limits : Limits) :
    (ofRule kids rule limits).evaluator.KeepsSeen := by
  intro i s value memory answer left given hcall hgiven key hseen
  have hanswer : answer = (rule i s.path s.context value).answer s := by
    cases hcall
    rfl
  rw [hanswer] at hgiven
  cases hruling : rule i s.path s.context value with
  | descend value context | prune value context =>
    rw [hruling] at hgiven
    cases hgiven
    exact hseen
  | fail reason =>
    rw [hruling] at hgiven
    cases hgiven

/-- The walk over the indices of a closed family ends, if there are finitely many. -/
theorem exists_ended_ofRule (rule : IndexRule S A V) (limits : Limits)
    (hclosed : ∀ i j, inside i → j ∈ kids i → inside j) {all : List Nat}
    (hall : ∀ i, inside i → i ∈ all) {i : Nat} (hi : inside i) (context : S) (value : A) :
    ∃ enough, ((ofRule kids rule limits).reduce enough i context value () ()).Ended := by
  have hfamily : (ofRule kids rule limits).ClosedOff (fun i => i) (fun i => i) inside kids :=
    ⟨fun _ _ => rfl, fun _ _ _ _ => by rw [List.map_id']; rfl, hclosed⟩
  exact hfamily.exists_ended (keepsSeen_ofRule kids rule limits) all hall hi context value () ()

end Setting

namespace Outcome

section Agreement

variable (first second : Nat → N)

/-- Both walks finished with the same, or both were given up at the same index, for the same reason
and below the same indices, or neither has come to an end. -/
inductive EndAlike : Outcome N K S A V E W L → Outcome N K S A V E W L → Prop
  | finished {c d : Config N K S A V E W L} (hvalue : c.value = d.value)
      (hevaluations : c.evaluations = d.evaluations)
      (hcontext : c.state.context = d.state.context) :
      EndAlike (.finished c) (.finished d)
  | rejected (reason : V) (i : Nat) (path : List Nat) (c d : Config N K S A V E W L) :
      EndAlike (.failed (.rejected reason (first i) (path.map first)) c)
        (.failed (.rejected reason (second i) (path.map second)) d)
  | tooDeep (limit : Int) (i : Nat) (path : List Nat) (c d : Config N K S A V E W L) :
      EndAlike (.failed (.tooDeep limit (first i) (path.map first)) c)
        (.failed (.tooDeep limit (second i) (path.map second)) d)
  | unfinished (c d : Config N K S A V E W L) : EndAlike (.unfinished c) (.unfinished d)

/-- The walks are the same but for the nodes that stand for the indices. -/
structure AgreeByIndex (o p : Outcome N K S A V E W L) : Prop where
  /-- They call the nodes of the same indices. -/
  visited : ∃ visited : List Nat, o.config.calls.map Call.node = visited.map first ∧
    p.config.calls.map Call.node = visited.map second
  /-- They report the same of the same indices. -/
  events : ∃ events : List (Event Nat), o.config.events = events.map (Event.ofIndex first) ∧
    p.config.events = events.map (Event.ofIndex second)
  ends : EndAlike first second o p

end Agreement

variable {o p : Outcome N K S A V E W L} {q : Outcome Nat Nat S A V Unit Unit Unit}
  {node' : Nat → N} {key' : Nat → K}

theorem Renders.config (h : Renders node key inside o q) :
    Config.Renders node key inside o.config q.config := by
  cases h with
  | finished h => exact h
  | failed hf h => exact h
  | unfinished h => exact h

theorem Renders.ended (h : Renders node key inside o q) (hq : q.Ended) : o.Ended := by
  cases h with
  | finished => exact ended_finished _
  | failed => exact ended_failed _ _
  | unfinished => exact absurd rfl (hq _)

/-- Two renderings of one walk agree. -/
theorem Renders.agree (ho : Renders node key inside o q) (hp : Renders node' key' inside p q) :
    AgreeByIndex node node' o p where
  visited := ⟨q.config.calls.map Call.node,
    by rw [ho.config.calls_eq, List.map_map]; rfl,
    by rw [hp.config.calls_eq, List.map_map]; rfl⟩
  events := ⟨q.config.events, ho.config.events_eq, hp.config.events_eq⟩
  ends := by
    cases ho with
    | finished h =>
      cases hp with
      | finished h' =>
        exact .finished (h.value_eq.trans h'.value_eq.symm)
          (h.evaluations_eq.trans h'.evaluations_eq.symm)
          (h.state.context_eq.trans h'.state.context_eq.symm)
    | failed hf h =>
      cases hp with
      | failed hf' h' =>
        cases hf with
        | rejected reason i path => cases hf'; exact .rejected reason i path _ _
        | tooDeep limit i path => cases hf'; exact .tooDeep limit i path _ _
    | unfinished h =>
      cases hp with
      | unfinished h' => exact .unfinished _ _

end Outcome

namespace Setting

variable [Std.TransOrd K] {g h : Setting N K S A V E W L} {kids : Nat → List Nat}
  {rule : IndexRule S A V} {node' : Nat → N} {key' : Nat → K}

/-- Two walks that go by the same indices agree, and over finitely many they both end. -/
theorem GoesByIndex.walks_agree (hg : g.GoesByIndex node key inside kids rule)
    (hh : h.GoesByIndex node' key' inside kids rule) (hlimits : g.limits = h.limits)
    {all : List Nat} (hall : ∀ i, inside i → i ∈ all) {i : Nat} (hi : inside i) (context : S)
    (value : A) (memory : W) (heard : L) :
    (∀ budget, Outcome.AgreeByIndex node node'
      (g.reduce budget (node i) context value memory heard)
      (h.reduce budget (node' i) context value memory heard)) ∧
    ∃ enough, ∀ budget, enough ≤ budget →
      (g.reduce budget (node i) context value memory heard).Ended ∧
        (h.reduce budget (node' i) context value memory heard).Ended := by
  have hrenders := fun budget => hg.reduce budget hi context value memory heard
  have hrenders' := fun budget => hh.reduce budget hi context value memory heard
  rw [← hlimits] at hrenders'
  refine ⟨fun budget => (hrenders budget).agree (hrenders' budget), ?_⟩
  obtain ⟨enough, henough⟩ := exists_ended_ofRule rule g.limits hg.closedOff.inside_of_mem hall hi
    context value
  refine ⟨enough, fun budget hle => ?_⟩
  have hended : ((ofRule kids rule g.limits).reduce budget i context value () ()).Ended := by
    rw [Setting.reduce, run_of_le _ hle henough]
    exact henough
  exact ⟨(hrenders budget).ended hended, (hrenders' budget).ended hended⟩

end Setting

end GraphFold
