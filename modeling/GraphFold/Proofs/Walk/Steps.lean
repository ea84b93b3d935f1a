/-
GraphFold.Proofs.Walk.Steps — everything one step of a walk can do.

`Arrival` lists the ways in which the node arrived at is handled, each with the
conditions under which it is taken and the point it leaves; `Move` adds what
happens between two arrivals. Both are relations, and `arrival` and `move` say
that they hold of what the walk computes. Later modules split on them and do
not open the definitions of a step again.

  §1 Reports   — what a report leaves alone.
  §2 Refusals  — answers that are not acted on.
  §3 Arrivals  — `Setting.Arrival`.
  §4 Moves     — `Setting.Move`.
  §5 Equations — a step, where the case it falls under is known.
-/
import GraphFold.Walk

namespace GraphFold

variable {N K S A V E W L : Type} [Ord K]

/-! ## §1 Reports -/

namespace Config

variable (c : Config N K S A V E W L) (listener : Option (Listener N L)) (kind : EventKind)
  (node : N) (depth : Nat)

/-- A report changes what the listener remembers, and adds the event to the journal, and after
it whether the listener raised. -/
theorem report_eq :
    ∃ (heard : L) (raised : List (Entry N K S A V E)),
      (∀ entry ∈ raised, entry = .listenerRaised) ∧
      c.report listener kind node depth =
        { c with
          heard := heard
          journal := raised ++ .handled ⟨kind, depth, node, c.evaluations⟩ :: c.journal } := by
  cases listener with
  | none => exact ⟨c.heard, [], by simp, rfl⟩
  | some hear =>
    rcases hhear : hear ⟨kind, depth, node, c.evaluations⟩ c.heard with ⟨_ | _, heard⟩
    · exact ⟨heard, [], by simp, by simp [report, note, hhear]⟩
    · exact ⟨heard, [.listenerRaised], by simp, by simp [report, note, hhear]⟩

@[simp] theorem report_pending : (c.report listener kind node depth).pending = c.pending := by
  obtain ⟨_, _, _, h⟩ := c.report_eq listener kind node depth
  rw [h]

@[simp] theorem report_frames : (c.report listener kind node depth).frames = c.frames := by
  obtain ⟨_, _, _, h⟩ := c.report_eq listener kind node depth
  rw [h]

@[simp] theorem report_state : (c.report listener kind node depth).state = c.state := by
  obtain ⟨_, _, _, h⟩ := c.report_eq listener kind node depth
  rw [h]

@[simp] theorem report_value : (c.report listener kind node depth).value = c.value := by
  obtain ⟨_, _, _, h⟩ := c.report_eq listener kind node depth
  rw [h]

@[simp] theorem report_evaluations :
    (c.report listener kind node depth).evaluations = c.evaluations := by
  obtain ⟨_, _, _, h⟩ := c.report_eq listener kind node depth
  rw [h]

@[simp] theorem report_memory : (c.report listener kind node depth).memory = c.memory := by
  obtain ⟨_, _, _, h⟩ := c.report_eq listener kind node depth
  rw [h]

end Config

/-! ## §2 Refusals -/

/-- The malformed part of an answer, as acting on it meets it. -/
def Answer.slip? : Answer N K S A V → Option (Failure N V E)
  | .proceed _ (.error given) | .prune _ (.error given) => some (.stateless given)
  | .stray given => some (.unsupported given)
  | .proceed _ (.ok _) | .prune _ (.ok _) | .fail _ => none

/-- Whether a node with this many ancestors is within the limits. -/
def Limits.Admits (limits : Limits) (depth : Nat) : Prop :=
  ∀ limit, limits.maxDepth = some limit → (depth : Int) ≤ limit

namespace Setting

variable (g : Setting N K S A V E W L)

/-- The failure an answer about `node` comes to, if it is malformed. -/
def refusal? (node : N) (answer : Answer N K S A V) : Option (Failure N V E) :=
  if g.limits.checked then answer.fault? node else answer.slip?

/-! ## §3 Arrivals -/

/-- The ways in which a walk at the point `c` handles the node it arrived at. -/
inductive Arrival (node : N) (c : Config N K S A V E W L) : Progress N K S A V E W L → Prop
  /-- The node has no key. -/
  | unkeyed (e : E) (hkey : g.identity node = .error e) :
      Arrival node c (.failed (.raised e)
        { c with pending := none, journal := .arrived node c.state :: c.journal })
  /-- Its key has been seen before. -/
  | skipped (key : K) (hkey : g.identity node = .ok key) (hseen : c.state.isSeen key = true) :
      Arrival node c (.running (Config.report
        { c with pending := none, journal := .arrived node c.state :: c.journal }
        g.listener .skip node c.frames.length))
  /-- It is new and has too many ancestors. -/
  | tooDeep (key : K) (limit : Int) (hkey : g.identity node = .ok key)
      (hseen : c.state.isSeen key = false) (hlimit : g.limits.maxDepth = some limit)
      (hdeep : limit < (c.frames.length : Int)) :
      Arrival node c (.failed (.tooDeep limit node c.state.path) (Config.report
        { c with pending := none, journal := .arrived node c.state :: c.journal }
        g.listener .fail node c.frames.length))
  /-- The evaluator fails. -/
  | raised (key : K) (e : E) (memory : W) (hkey : g.identity node = .ok key)
      (hseen : c.state.isSeen key = false) (hdepth : g.limits.Admits c.frames.length)
      (hcall : (g.evaluator node c.state c.value).perform c.memory = (.error e, memory)) :
      Arrival node c (.failed (.raised e)
        { c with
          pending := none, memory := memory
          journal := .called node c.state c.value (.error e) :: .arrived node c.state ::
            c.journal })
  /-- The answer is malformed. -/
  | refused (key : K) (answer : Answer N K S A V) (failure : Failure N V E) (memory : W)
      (hkey : g.identity node = .ok key) (hseen : c.state.isSeen key = false)
      (hdepth : g.limits.Admits c.frames.length)
      (hcall : (g.evaluator node c.state c.value).perform c.memory = (.ok answer, memory))
      (hrefused : g.refusal? node answer = some failure) :
      Arrival node c (.failed failure
        { c with
          pending := none, memory := memory, evaluations := c.evaluations + 1
          journal := .called node c.state c.value (.ok answer) :: .arrived node c.state ::
            c.journal })
  /-- The evaluator gives the walk up. -/
  | rejected (key : K) (reason : V) (memory : W) (hkey : g.identity node = .ok key)
      (hseen : c.state.isSeen key = false) (hdepth : g.limits.Admits c.frames.length)
      (hcall : (g.evaluator node c.state c.value).perform c.memory = (.ok (.fail reason), memory)) :
      Arrival node c (.failed (.rejected reason node c.state.path) (Config.report
        { c with
          pending := none, memory := memory, evaluations := c.evaluations + 1
          journal := .called node c.state c.value (.ok (.fail reason)) ::
            .arrived node c.state :: c.journal }
        g.listener .fail node c.frames.length))
  /-- The node contributes, and its children are left out. -/
  | pruned (key : K) (value : A) (given : State N K S) (memory : W)
      (hkey : g.identity node = .ok key) (hseen : c.state.isSeen key = false)
      (hdepth : g.limits.Admits c.frames.length)
      (hcall : (g.evaluator node c.state c.value).perform c.memory =
        (.ok (.prune value (.ok given)), memory)) :
      Arrival node c (.running (Config.report
        { c with
          pending := none, memory := memory, evaluations := c.evaluations + 1
          value := value, state := (given.mark key).withAncestors c.state.ancestors
          journal := .called node c.state c.value (.ok (.prune value (.ok given))) ::
            .arrived node c.state :: c.journal }
        g.listener .prune node c.frames.length))
  /-- The node contributes, and the lookup of its children fails. -/
  | unlisted (key : K) (value : A) (given : State N K S) (memory : W) (e : E) (left : W)
      (hkey : g.identity node = .ok key) (hseen : c.state.isSeen key = false)
      (hdepth : g.limits.Admits c.frames.length)
      (hcall : (g.evaluator node c.state c.value).perform c.memory =
        (.ok (.proceed value (.ok given)), memory))
      (hlookup : (g.children node ((given.mark key).withAncestors c.state.ancestors)).perform
        memory = (.error e, left)) :
      Arrival node c (.failed (.raised e)
        { c with
          pending := none, memory := left, evaluations := c.evaluations + 1
          value := value, state := (given.mark key).withAncestors c.state.ancestors
          journal := .asked node ((given.mark key).withAncestors c.state.ancestors) none ::
            .called node c.state c.value (.ok (.proceed value (.ok given))) ::
            .arrived node c.state :: c.journal })
  /-- The node contributes, and what is listed for its children has no items. -/
  | notListed (key : K) (value : A) (given : State N K S) (memory : W) (e : E) (left : W)
      (hkey : g.identity node = .ok key) (hseen : c.state.isSeen key = false)
      (hdepth : g.limits.Admits c.frames.length)
      (hcall : (g.evaluator node c.state c.value).perform c.memory =
        (.ok (.proceed value (.ok given)), memory))
      (hlookup : (g.children node ((given.mark key).withAncestors c.state.ancestors)).perform
        memory = (.ok (.error e), left)) :
      Arrival node c (.failed (.raised e) (Config.report
        { c with
          pending := none, memory := left, evaluations := c.evaluations + 1
          value := value, state := (given.mark key).withAncestors c.state.ancestors
          journal := .asked node ((given.mark key).withAncestors c.state.ancestors) none ::
            .called node c.state c.value (.ok (.proceed value (.ok given))) ::
            .arrived node c.state :: c.journal }
        g.listener .descend node c.frames.length))
  /-- The node contributes, and its children come next. -/
  | opened (key : K) (value : A) (given : State N K S) (memory : W)
      (pulls : Pulls W E N) (left : W)
      (hkey : g.identity node = .ok key) (hseen : c.state.isSeen key = false)
      (hdepth : g.limits.Admits c.frames.length)
      (hcall : (g.evaluator node c.state c.value).perform c.memory =
        (.ok (.proceed value (.ok given)), memory))
      (hlookup : (g.children node ((given.mark key).withAncestors c.state.ancestors)).perform
        memory = (.ok (.ok pulls), left)) :
      Arrival node c (.running { Config.report
          { c with
            pending := none, memory := left, evaluations := c.evaluations + 1
            value := value, state := (given.mark key).withAncestors c.state.ancestors
            journal := .asked node ((given.mark key).withAncestors c.state.ancestors)
                (some pulls.each.length) ::
              .called node c.state c.value (.ok (.proceed value (.ok given))) ::
              .arrived node c.state :: c.journal }
          g.listener .descend node c.frames.length with
        frames := ⟨c.state.ancestors, pulls⟩ :: c.frames
        state := ((given.mark key).withAncestors c.state.ancestors).push node })

/-- What acting on an answer comes to: malformed answers are refused, whether they are checked
or not. -/
theorem respond_of_refusal {node : N} {key : K} {c : Config N K S A V E W L}
    {answer : Answer N K S A V} {failure : Failure N V E}
    (h : g.refusal? node answer = some failure) :
    g.respond node key c answer = .failed failure c := by
  unfold respond
  unfold refusal? at h
  cases hc : g.limits.checked with
  | true =>
    simp only [hc, if_true] at h ⊢
    simp only [h]
  | false =>
    simp only [hc, Bool.false_eq_true, if_false] at h ⊢
    cases answer with
    | proceed value given =>
      cases given with
      | error given => simpa [Answer.slip?, act] using h
      | ok given => simp [Answer.slip?] at h
    | prune value given =>
      cases given with
      | error given => simpa [Answer.slip?, act] using h
      | ok given => simp [Answer.slip?] at h
    | fail reason => simp [Answer.slip?] at h
    | stray given => simpa [Answer.slip?, act] using h

/-- An answer that is not refused is acted on. -/
theorem respond_of_refusal_eq_none {node : N} {key : K} {c : Config N K S A V E W L}
    {answer : Answer N K S A V} (h : g.refusal? node answer = none) :
    g.respond node key c answer = g.act node key c answer := by
  unfold respond
  unfold refusal? at h
  cases hc : g.limits.checked with
  | true =>
    simp only [hc, if_true] at h ⊢
    simp only [h]
  | false => simp

/-- An answer that is not refused is an instruction that carries a state, or gives the walk up. -/
theorem refusal?_eq_none_iff {node : N} {answer : Answer N K S A V} :
    g.refusal? node answer = none ↔
      (∃ value given, answer = .proceed value (.ok given)) ∨
      (∃ value given, answer = .prune value (.ok given)) ∨ ∃ reason, answer = .fail reason := by
  unfold refusal?
  cases hc : g.limits.checked <;>
    rcases answer with ⟨value, _ | given⟩ | ⟨value, _ | given⟩ | _ | _ <;>
    simp [Answer.fault?, Answer.slip?]

/-- What a walk does with a node that is new and within the limits. -/
theorem arrival_of_evaluate {node : N} {key : K} {c : Config N K S A V E W L}
    (hkey : g.identity node = .ok key) (hseen : c.state.isSeen key = false)
    (hdepth : g.limits.Admits c.frames.length) :
    g.Arrival node c
      (g.evaluate node key ({ c with pending := none }.note (.arrived node c.state))) := by
  unfold evaluate Config.note
  rcases hcall : (g.evaluator node c.state c.value).perform c.memory with ⟨e | answer, memory⟩
  · simp only
    exact .raised key e memory hkey hseen hdepth hcall
  · simp only
    cases hrefused : g.refusal? node answer with
    | some failure =>
      rw [g.respond_of_refusal hrefused]
      exact .refused key answer failure memory hkey hseen hdepth hcall hrefused
    | none =>
      rw [g.respond_of_refusal_eq_none hrefused]
      rcases g.refusal?_eq_none_iff.1 hrefused with
        ⟨value, given, rfl⟩ | ⟨value, given, rfl⟩ | ⟨reason, rfl⟩
      · unfold act Config.note
        simp only
        rcases hlookup :
          (g.children node ((given.mark key).withAncestors c.state.ancestors)).perform memory with
          ⟨e | e | pulls, left⟩
        · simp only
          exact .unlisted key value given memory e left hkey hseen hdepth hcall hlookup
        · simp only
          exact .notListed key value given memory e left hkey hseen hdepth hcall hlookup
        · simp only [Config.report_frames]
          exact .opened key value given memory pulls left hkey hseen hdepth hcall hlookup
      · exact .pruned key value given memory hkey hseen hdepth hcall
      · exact .rejected key reason memory hkey hseen hdepth hcall

/-- Every arrival is one of those listed. -/
theorem arrival (node : N) (c : Config N K S A V E W L) : g.Arrival node c (g.arrive node c) := by
  unfold arrive
  cases hkey : g.identity node with
  | error e => exact .unkeyed e hkey
  | ok key =>
    simp only
    split
    · rename_i hseen
      exact .skipped key hkey hseen
    · rename_i hseen
      have hnew : c.state.isSeen key = false := Bool.eq_false_iff.2 hseen
      split
      · rename_i limit hlimit
        split
        · rename_i hdeep
          exact .tooDeep key limit hkey hnew hlimit hdeep
        · rename_i hdeep
          refine g.arrival_of_evaluate hkey hnew ?_
          intro limit' hl
          rw [hlimit] at hl
          cases hl
          omega
      · rename_i hlimit
        refine g.arrival_of_evaluate hkey hnew ?_
        intro limit hl
        rw [hlimit] at hl
        cases hl

/-! ## §4 Moves -/

/-- The ways in which a walk goes on from the point `c`. -/
inductive Move (c : Config N K S A V E W L) : Progress N K S A V E W L → Prop
  /-- It handles the node it arrived at. -/
  | handle (node : N) (p : Progress N K S A V E W L) (hpending : c.pending = some node)
      (harrival : g.Arrival node c p) : Move c p
  /-- It arrives at the next child of the innermost frame. -/
  | pull (above : List N) (pull : Pull W E N) (later : List (Pull W E N))
      (ending : Action W E Unit) (outer : List (Frame N E W)) (child : N) (memory : W)
      (hpending : c.pending = none)
      (hframes : c.frames = ⟨above, pull :: later, ending⟩ :: outer)
      (hpull : pull.perform c.memory = (.ok child, memory)) :
      Move c (.running { c with
        pending := some child, frames := ⟨above, later, ending⟩ :: outer, memory := memory })
  /-- The next child fails to be produced. -/
  | pullRaised (above : List N) (pull : Pull W E N) (later : List (Pull W E N))
      (ending : Action W E Unit) (outer : List (Frame N E W)) (e : E) (memory : W)
      (hpending : c.pending = none)
      (hframes : c.frames = ⟨above, pull :: later, ending⟩ :: outer)
      (hpull : pull.perform c.memory = (.error e, memory)) :
      Move c (.failed (.raised e) { c with memory := memory })
  /-- It drops the innermost frame, which has no more children, once their listing is ended. -/
  | drop (above : List N) (ending : Action W E Unit) (outer : List (Frame N E W)) (memory : W)
      (hpending : c.pending = none) (hframes : c.frames = ⟨above, [], ending⟩ :: outer)
      (hending : ending.perform c.memory = (.ok (), memory)) :
      Move c (.running { c with
        frames := outer, state := c.state.withAncestors above, memory := memory })
  /-- The listing of the innermost frame fails to be ended. -/
  | dropRaised (above : List N) (ending : Action W E Unit) (outer : List (Frame N E W)) (e : E)
      (memory : W) (hpending : c.pending = none)
      (hframes : c.frames = ⟨above, [], ending⟩ :: outer)
      (hending : ending.perform c.memory = (.error e, memory)) :
      Move c (.failed (.raised e) { c with memory := memory })
  /-- It is over. -/
  | finish (hpending : c.pending = none) (hframes : c.frames = []) : Move c (.finished c)

/-- Every step is one of those listed. -/
theorem move (c : Config N K S A V E W L) : g.Move c (g.step c) := by
  rcases c with ⟨_ | node, frames, state, value, evaluations, memory, heard, journal⟩
  · rcases frames with _ | ⟨⟨above, _ | ⟨pull, later⟩, ending⟩, outer⟩
    · exact .finish rfl rfl
    · rcases hending : ending.perform memory with ⟨e | _, left⟩
      · simp only [step, hending]
        exact .dropRaised above ending outer e left rfl rfl hending
      · simp only [step, hending]
        exact .drop above ending outer left rfl rfl hending
    · rcases hpull : pull.perform memory with ⟨e | child, left⟩
      · simp only [step, hpull]
        exact .pullRaised above pull later ending outer e left rfl rfl hpull
      · simp only [step, hpull]
        exact .pull above pull later ending outer child left rfl rfl hpull
  · exact .handle node _ rfl (g.arrival node _)

variable {g}

/-- A step from a point at which a node is pending handles that node. -/
theorem arrival_of_step {node : N} {c d : Config N K S A V E W L}
    (hpending : c.pending = some node) (hstep : g.step c = .running d) :
    g.Arrival node c (.running d) := by
  have hmove := g.move c
  rw [hstep] at hmove
  cases hmove with
  | handle node' p hpending' harrival =>
    rw [hpending] at hpending'
    cases hpending'
    exact harrival
  | pull _ _ _ _ _ _ _ hnone => rw [hpending] at hnone; cases hnone
  | drop _ _ _ _ hnone => rw [hpending] at hnone; cases hnone

/-- A node that was handled is not pending any more. -/
theorem Arrival.pending_eq_none {node : N} {c d : Config N K S A V E W L}
    (h : g.Arrival node c (.running d)) : d.pending = none := by
  cases h <;> simp

/-- A node that was handled has a frame on top exactly if its children come next, and the
ancestors to put back are those it was reached with. -/
theorem Arrival.ancestors_eq {node : N} {c d : Config N K S A V E W L}
    (h : g.Arrival node c (.running d)) :
    (d.frames = c.frames ∧ d.state.ancestors = c.state.ancestors) ∨
      ∃ pulls, d.frames = ⟨c.state.ancestors, pulls⟩ :: c.frames ∧
        d.state.ancestors = node :: c.state.ancestors := by
  cases h with
  | skipped => exact .inl (by simp)
  | pruned => exact .inl (by simp [State.withAncestors])
  | opened key value given memory pulls =>
    exact .inr ⟨pulls, by simp [State.push, State.withAncestors]⟩

theorem Arrival.ancestors_of_settled {node : N} {c d : Config N K S A V E W L}
    (h : g.Arrival node c (.running d)) (hframes : d.frames = c.frames) :
    d.state.ancestors = c.state.ancestors := by
  rcases h.ancestors_eq with ⟨_, hsame⟩ | ⟨pulls, hopened, _⟩
  · exact hsame
  · have hlength := congrArg List.length (hframes.symm.trans hopened)
    simp at hlength

theorem Arrival.ancestors_of_opened {node : N} {c d : Config N K S A V E W L} {above : List N}
    {pulls : Pulls W E N} (h : g.Arrival node c (.running d))
    (hframes : d.frames = ⟨above, pulls⟩ :: c.frames) :
    above = c.state.ancestors ∧ d.state.ancestors = node :: c.state.ancestors := by
  rcases h.ancestors_eq with ⟨hsame, _⟩ | ⟨pulls', hopened, hancestors⟩
  · have hlength := congrArg List.length (hframes.symm.trans hsame)
    simp at hlength
  · rw [hframes] at hopened
    simp only [List.cons.injEq, Frame.mk.injEq, and_true] at hopened
    exact ⟨hopened.1, hancestors⟩

/-! ## §5 Equations -/

section Equations

variable {node : N} {key : K} {c : Config N K S A V E W L}

theorem step_of_pending (hpending : c.pending = some node) : g.step c = g.arrive node c := by
  unfold step
  rw [hpending]

theorem step_of_pull {above : List N} {pull : Pull W E N} {later : List (Pull W E N)}
    {ending : Action W E Unit} {outer : List (Frame N E W)} {child : N} {memory : W}
    (hpending : c.pending = none) (hframes : c.frames = ⟨above, pull :: later, ending⟩ :: outer)
    (hpull : pull.perform c.memory = (.ok child, memory)) :
    g.step c = .running { c with
      pending := some child, frames := ⟨above, later, ending⟩ :: outer, memory := memory } := by
  unfold step
  simp only [hpending, hframes, hpull]

/-- The same where the point is given that the step leads to. -/
theorem running_of_pull {d : Config N K S A V E W L} {above : List N} {pull : Pull W E N}
    {later : List (Pull W E N)} {ending : Action W E Unit} {outer : List (Frame N E W)} {child : N}
    (hpending : c.pending = none) (hframes : c.frames = ⟨above, pull :: later, ending⟩ :: outer)
    (hpull : pull.perform c.memory = (.ok child, d.memory))
    (hd : d = { c with
      pending := some child, frames := ⟨above, later, ending⟩ :: outer, memory := d.memory }) :
    g.step c = .running d := by
  rw [step_of_pull hpending hframes hpull, ← hd]

/-- The same where the children are there already. -/
theorem step_of_ofNodes {above later : List N} {child : N} {outer : List (Frame N E W)}
    (hpending : c.pending = none) (hframes : c.frames = ⟨above, .ofNodes (child :: later)⟩ :: outer) :
    g.step c = .running { c with
      pending := some child, frames := ⟨above, .ofNodes later⟩ :: outer } :=
  step_of_pull hpending hframes rfl

theorem step_of_pullRaised {above : List N} {pull : Pull W E N} {later : List (Pull W E N)}
    {ending : Action W E Unit} {outer : List (Frame N E W)} {e : E} {memory : W}
    (hpending : c.pending = none) (hframes : c.frames = ⟨above, pull :: later, ending⟩ :: outer)
    (hpull : pull.perform c.memory = (.error e, memory)) :
    g.step c = .failed (.raised e) { c with memory := memory } := by
  unfold step
  simp only [hpending, hframes, hpull]

theorem step_of_drop {above : List N} {ending : Action W E Unit} {outer : List (Frame N E W)}
    {memory : W} (hpending : c.pending = none) (hframes : c.frames = ⟨above, [], ending⟩ :: outer)
    (hending : ending.perform c.memory = (.ok (), memory)) :
    g.step c = .running { c with
      frames := outer, state := c.state.withAncestors above, memory := memory } := by
  unfold step
  simp only [hpending, hframes, hending]

theorem step_of_dropRaised {above : List N} {ending : Action W E Unit}
    {outer : List (Frame N E W)} {e : E} {memory : W} (hpending : c.pending = none)
    (hframes : c.frames = ⟨above, [], ending⟩ :: outer)
    (hending : ending.perform c.memory = (.error e, memory)) :
    g.step c = .failed (.raised e) { c with memory := memory } := by
  unfold step
  simp only [hpending, hframes, hending]

theorem step_of_finish (hpending : c.pending = none) (hframes : c.frames = []) :
    g.step c = .finished c := by
  unfold step
  simp only [hpending, hframes]

/-- Where nothing is pending, the step does not depend on the setting. -/
theorem step_eq_of_none {h : Setting N K S A V E W L} (hpending : c.pending = none) :
    g.step c = h.step c := by
  unfold step
  rw [hpending]

theorem arrive_of_unkeyed {e : E} (hkey : g.identity node = .error e) :
    g.arrive node c = .failed (.raised e)
      { c with pending := none, journal := .arrived node c.state :: c.journal } := by
  unfold arrive Config.note
  rw [hkey]

theorem arrive_of_seen (hkey : g.identity node = .ok key) (hseen : c.state.isSeen key = true) :
    g.arrive node c = .running (Config.report
      { c with pending := none, journal := .arrived node c.state :: c.journal }
      g.listener .skip node c.frames.length) := by
  unfold arrive Config.note
  simp only [hkey, hseen, if_true]

theorem arrive_of_tooDeep {limit : Int} (hkey : g.identity node = .ok key)
    (hseen : c.state.isSeen key = false) (hlimit : g.limits.maxDepth = some limit)
    (hdeep : limit < (c.frames.length : Int)) :
    g.arrive node c = .failed (.tooDeep limit node c.state.path) (Config.report
      { c with pending := none, journal := .arrived node c.state :: c.journal }
      g.listener .fail node c.frames.length) := by
  unfold arrive Config.note
  simp only [hkey, hseen, hlimit, Bool.false_eq_true, if_false, if_pos hdeep]

theorem arrive_of_admits (hkey : g.identity node = .ok key) (hseen : c.state.isSeen key = false)
    (hdepth : g.limits.Admits c.frames.length) :
    g.arrive node c = g.evaluate node key
      { c with pending := none, journal := .arrived node c.state :: c.journal } := by
  unfold arrive Config.note
  simp only [hkey, hseen, Bool.false_eq_true, if_false]
  split
  · rename_i limit hlimit
    have hle := hdepth limit hlimit
    rw [if_neg (by omega)]
  · rfl

/-- Settings that differ only in how they evaluate a node take the same step where they evaluate
the pending one alike. -/
theorem step_eq_of_evaluate {h : Setting N K S A V E W L} (hidentity : h.identity = g.identity)
    (hlistener : h.listener = g.listener) (hlimit : h.limits.maxDepth = g.limits.maxDepth)
    (heval : ∀ node key, c.pending = some node → g.identity node = .ok key →
      c.state.isSeen key = false → g.limits.Admits c.frames.length →
      h.evaluate node key
          { c with pending := none, journal := .arrived node c.state :: c.journal } =
        g.evaluate node key
          { c with pending := none, journal := .arrived node c.state :: c.journal }) :
    h.step c = g.step c := by
  cases hpending : c.pending with
  | none => exact step_eq_of_none hpending
  | some node =>
    rw [step_of_pending hpending, step_of_pending hpending]
    cases hkey : g.identity node with
    | error e => rw [arrive_of_unkeyed (hidentity ▸ hkey), arrive_of_unkeyed hkey]
    | ok key =>
      have hkey' : h.identity node = .ok key := hidentity ▸ hkey
      cases hseen : c.state.isSeen key with
      | true => rw [arrive_of_seen hkey' hseen, arrive_of_seen hkey hseen, hlistener]
      | false =>
        by_cases hdepth : g.limits.Admits c.frames.length
        · have hdepth' : h.limits.Admits c.frames.length := by rwa [Limits.Admits, hlimit]
          rw [arrive_of_admits hkey' hseen hdepth', arrive_of_admits hkey hseen hdepth]
          exact heval node key hpending hkey hseen hdepth
        · obtain ⟨limit, hsome, hdeep⟩ : ∃ limit, g.limits.maxDepth = some limit ∧
              limit < (c.frames.length : Int) := by
            simpa [Limits.Admits] using hdepth
          rw [arrive_of_tooDeep hkey' hseen (hlimit.trans hsome) hdeep,
            arrive_of_tooDeep hkey hseen hsome hdeep, hlistener]

theorem arrive_of_opened {value : A} {given : State N K S} {memory left : W}
    {pulls : Pulls W E N} (hkey : g.identity node = .ok key)
    (hseen : c.state.isSeen key = false) (hdepth : g.limits.Admits c.frames.length)
    (hcall : (g.evaluator node c.state c.value).perform c.memory =
      (.ok (.proceed value (.ok given)), memory))
    (hlookup : (g.children node ((given.mark key).withAncestors c.state.ancestors)).perform memory =
      (.ok (.ok pulls), left)) :
    g.arrive node c = .running { Config.report
        { c with
          pending := none, memory := left, evaluations := c.evaluations + 1
          value := value, state := (given.mark key).withAncestors c.state.ancestors
          journal := .asked node ((given.mark key).withAncestors c.state.ancestors)
              (some pulls.each.length) ::
            .called node c.state c.value (.ok (.proceed value (.ok given))) ::
            .arrived node c.state :: c.journal }
        g.listener .descend node c.frames.length with
      frames := ⟨c.state.ancestors, pulls⟩ :: c.frames
      state := ((given.mark key).withAncestors c.state.ancestors).push node } := by
  have hgoes : g.refusal? node (.proceed value (.ok given)) = none :=
    g.refusal?_eq_none_iff.2 (.inl ⟨value, given, rfl⟩)
  rw [arrive_of_admits hkey hseen hdepth, evaluate]
  simp only [hcall, g.respond_of_refusal_eq_none hgoes, act, Config.note, hlookup,
    Config.report_frames]

theorem arrive_of_pruned {value : A} {given : State N K S} {memory : W}
    (hkey : g.identity node = .ok key) (hseen : c.state.isSeen key = false)
    (hdepth : g.limits.Admits c.frames.length)
    (hcall : (g.evaluator node c.state c.value).perform c.memory =
      (.ok (.prune value (.ok given)), memory)) :
    g.arrive node c = .running (Config.report
      { c with
        pending := none, memory := memory, evaluations := c.evaluations + 1
        value := value, state := (given.mark key).withAncestors c.state.ancestors
        journal := .called node c.state c.value (.ok (.prune value (.ok given))) ::
          .arrived node c.state :: c.journal }
      g.listener .prune node c.frames.length) := by
  have hkept : g.refusal? node (.prune value (.ok given)) = none :=
    g.refusal?_eq_none_iff.2 (.inr (.inl ⟨value, given, rfl⟩))
  rw [arrive_of_admits hkey hseen hdepth, evaluate]
  simp only [hcall, g.respond_of_refusal_eq_none hkept, act, Config.note]

theorem arrive_of_rejected {reason : V} {memory : W} (hkey : g.identity node = .ok key)
    (hseen : c.state.isSeen key = false) (hdepth : g.limits.Admits c.frames.length)
    (hcall : (g.evaluator node c.state c.value).perform c.memory = (.ok (.fail reason), memory)) :
    g.arrive node c = .failed (.rejected reason node c.state.path) (Config.report
      { c with
        pending := none, memory := memory, evaluations := c.evaluations + 1
        journal := .called node c.state c.value (.ok (.fail reason)) :: .arrived node c.state ::
          c.journal }
      g.listener .fail node c.frames.length) := by
  have hkept : g.refusal? node (.fail reason) = none :=
    g.refusal?_eq_none_iff.2 (.inr (.inr ⟨reason, rfl⟩))
  rw [arrive_of_admits hkey hseen hdepth, evaluate]
  simp only [hcall, g.respond_of_refusal_eq_none hkept, act, Config.note]

theorem arrive_of_refused {answer : Answer N K S A V} {failure : Failure N V E} {memory : W}
    (hkey : g.identity node = .ok key) (hseen : c.state.isSeen key = false)
    (hdepth : g.limits.Admits c.frames.length)
    (hcall : (g.evaluator node c.state c.value).perform c.memory = (.ok answer, memory))
    (hrefused : g.refusal? node answer = some failure) :
    g.arrive node c = .failed failure
      { c with
        pending := none, memory := memory, evaluations := c.evaluations + 1
        journal := .called node c.state c.value (.ok answer) :: .arrived node c.state ::
          c.journal } := by
  rw [arrive_of_admits hkey hseen hdepth, evaluate]
  simp only [hcall, g.respond_of_refusal hrefused, Config.note]

theorem arrive_of_unlisted {value : A} {given : State N K S} {memory left : W} {e : E}
    (hkey : g.identity node = .ok key) (hseen : c.state.isSeen key = false)
    (hdepth : g.limits.Admits c.frames.length)
    (hcall : (g.evaluator node c.state c.value).perform c.memory =
      (.ok (.proceed value (.ok given)), memory))
    (hlookup : (g.children node ((given.mark key).withAncestors c.state.ancestors)).perform memory =
      (.error e, left)) :
    g.arrive node c = .failed (.raised e)
      { c with
        pending := none, memory := left, evaluations := c.evaluations + 1
        value := value, state := (given.mark key).withAncestors c.state.ancestors
        journal := .asked node ((given.mark key).withAncestors c.state.ancestors) none ::
          .called node c.state c.value (.ok (.proceed value (.ok given))) ::
          .arrived node c.state :: c.journal } := by
  have hgoes : g.refusal? node (.proceed value (.ok given)) = none :=
    g.refusal?_eq_none_iff.2 (.inl ⟨value, given, rfl⟩)
  rw [arrive_of_admits hkey hseen hdepth, evaluate]
  simp only [hcall, g.respond_of_refusal_eq_none hgoes, act, Config.note, hlookup]

end Equations

end Setting

end GraphFold
