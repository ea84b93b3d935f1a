/-
GraphFold.Proofs.Walk.Silence — a walk does not depend on who listens.

A listener is told of events and answers whether it raised, which the journal
notes. Nothing else reads what it answers or remembers. So whoever forgets both
at every point of a walk has the points of the walk to which nobody listens.

  §1 Points — `Config.silence`.
  §2 Steps  — a step without a listener.
  §3 Walks  — `Setting.silence_reduce`, and what silence keeps.
-/
import GraphFold.Proofs.Walk.FoldOrder

namespace GraphFold

variable {N K S A B V E W L : Type} [Ord K]

/-! ## §1 Points -/

/-- Whether an entry tells of a listener that raised. -/
def Entry.tellsOfListener : Entry N K S A V E → Bool
  | .listenerRaised => true
  | .arrived _ _ | .called _ _ _ _ | .asked _ _ _ | .handled _ => false

/-- The point with this for what was heard, and with no entry about the listener. -/
def Config.silence (heard : L) (c : Config N K S A V E W L) : Config N K S A V E W L :=
  { c with heard := heard, journal := c.journal.filter fun entry => !entry.tellsOfListener }

/-- The same of a step. -/
def Progress.silence (heard : L) : Progress N K S A V E W L → Progress N K S A V E W L
  | .running c => .running (c.silence heard)
  | .finished c => .finished (c.silence heard)
  | .failed f c => .failed f (c.silence heard)

/-- The same of a run. -/
def Outcome.silence (heard : L) : Outcome N K S A V E W L → Outcome N K S A V E W L
  | .finished c => .finished (c.silence heard)
  | .failed f c => .failed f (c.silence heard)
  | .unfinished c => .unfinished (c.silence heard)

/-- The same setting without a listener. -/
def Setting.silenced (g : Setting N K S A V E W L) : Setting N K S A V E W L :=
  { g with listener := none }

variable (heard : L)

/-- A report is the same without a listener. -/
theorem Config.silence_report (c : Config N K S A V E W L) (listener : Option (Listener N L))
    (kind : EventKind) (node : N) (depth : Nat) :
    (c.report listener kind node depth).silence heard =
      (c.silence heard).report none kind node depth := by
  obtain ⟨answered, raised, hraised, hreport⟩ := c.report_eq listener kind node depth
  have hnone : raised.filter (fun entry => !entry.tellsOfListener) = [] := by
    rw [List.filter_eq_nil_iff]
    intro entry hentry
    rw [hraised entry hentry]
    exact Bool.false_ne_true
  rw [hreport, silence, List.filter_append, hnone]
  rfl

/-! ## §2 Steps -/

namespace Setting

variable (g : Setting N K S A V E W L)

theorem silence_act (node : N) (key : K) (c : Config N K S A V E W L)
    (answer : Answer N K S A V) :
    (g.act node key c answer).silence heard =
      g.silenced.act node key (c.silence heard) answer := by
  rcases answer with ⟨value, _ | given⟩ | ⟨value, _ | given⟩ | reason | given
  · rfl
  · unfold act
    simp only [silenced, Config.silence]
    split
    · rfl
    · exact congrArg _ (Config.silence_report ..)
    · -- The frame is opened after the report, which silence passes.
      rename_i pulls memory _
      exact congrArg (fun d : Config N K S A V E W L => Progress.running { d with
        frames := ⟨c.state.ancestors, pulls⟩ :: d.frames
        state := ((given.mark key).withAncestors c.state.ancestors).push node })
        (Config.silence_report heard _ g.listener .descend node c.frames.length)
  · rfl
  · exact congrArg _ (Config.silence_report ..)
  · exact congrArg _ (Config.silence_report ..)
  · rfl

theorem silence_respond (node : N) (key : K) (c : Config N K S A V E W L)
    (answer : Answer N K S A V) :
    (g.respond node key c answer).silence heard =
      g.silenced.respond node key (c.silence heard) answer := by
  cases hrefused : g.refusal? node answer with
  | some failure =>
    rw [g.respond_of_refusal hrefused, g.silenced.respond_of_refusal hrefused]
    rfl
  | none =>
    rw [g.respond_of_refusal_eq_none hrefused, g.silenced.respond_of_refusal_eq_none hrefused]
    exact g.silence_act heard ..

theorem silence_evaluate (node : N) (key : K) (c : Config N K S A V E W L) :
    (g.evaluate node key c).silence heard = g.silenced.evaluate node key (c.silence heard) := by
  unfold evaluate
  dsimp only [silenced, Config.silence]
  rcases (g.evaluator node c.state c.value).perform c.memory with ⟨_ | answer, memory⟩
  · rfl
  · exact g.silence_respond heard ..

theorem silence_arrive (node : N) (c : Config N K S A V E W L) :
    (g.arrive node c).silence heard = g.silenced.arrive node (c.silence heard) := by
  cases hkey : g.identity node with
  | error e =>
    rw [arrive_of_unkeyed hkey, arrive_of_unkeyed (g := g.silenced) hkey]
    rfl
  | ok key =>
    cases hseen : c.state.isSeen key with
    | true =>
      rw [arrive_of_seen hkey hseen, arrive_of_seen (g := g.silenced) (c := c.silence heard) hkey
        hseen]
      exact congrArg _ (Config.silence_report ..)
    | false =>
      by_cases hdepth : g.limits.Admits c.frames.length
      · rw [arrive_of_admits hkey hseen hdepth, arrive_of_admits (g := g.silenced)
          (c := c.silence heard) hkey hseen hdepth]
        exact g.silence_evaluate heard ..
      · simp only [Limits.Admits, not_forall, Int.not_le] at hdepth
        obtain ⟨limit, hlimit, hdeep⟩ := hdepth
        rw [arrive_of_tooDeep hkey hseen hlimit hdeep, arrive_of_tooDeep (g := g.silenced)
          (c := c.silence heard) hkey hseen hlimit hdeep]
        exact congrArg _ (Config.silence_report ..)

/-- A step is the same without a listener. -/
theorem silence_step (c : Config N K S A V E W L) :
    (g.step c).silence heard = g.silenced.step (c.silence heard) := by
  cases hpending : c.pending with
  | some node =>
    rw [step_of_pending hpending, step_of_pending (g := g.silenced) (c := c.silence heard) hpending]
    exact g.silence_arrive heard ..
  | none =>
    match hframes : c.frames with
    | [] =>
      rw [step_of_finish hpending hframes, step_of_finish (c := c.silence heard) hpending hframes]
      rfl
    | ⟨above, [], ending⟩ :: outer =>
      match hending : ending.perform c.memory with
      | (.error e, memory) =>
        rw [step_of_dropRaised hpending hframes hending,
          step_of_dropRaised (c := c.silence heard) hpending hframes hending]
        rfl
      | (.ok (), memory) =>
        rw [step_of_drop hpending hframes hending,
          step_of_drop (c := c.silence heard) hpending hframes hending]
        rfl
    | ⟨above, pull :: later, ending⟩ :: outer =>
      match hpull : pull.perform c.memory with
      | (.error e, memory) =>
        rw [step_of_pullRaised hpending hframes hpull,
          step_of_pullRaised (c := c.silence heard) hpending hframes hpull]
        rfl
      | (.ok child, memory) =>
        rw [step_of_pull hpending hframes hpull,
          step_of_pull (c := c.silence heard) hpending hframes hpull]
        rfl

/-! ## §3 Walks -/

theorem silence_run (budget : Nat) (c : Config N K S A V E W L) :
    (g.run budget c).silence heard = g.silenced.run budget (c.silence heard) := by
  induction budget generalizing c with
  | zero => rfl
  | succ budget ih =>
    have hstep := g.silence_step heard c
    rw [run, run, ← hstep]
    cases g.step c with
    | running d => exact ih d
    | finished d => rfl
    | failed f d => rfl

/-- A walk is the same without a listener. -/
theorem silence_reduce (budget : Nat) (root : N) (context : S) (value : A) (memory : W)
    (before : L) :
    (g.reduce budget root context value memory before).silence heard =
      g.silenced.reduce budget root context value memory heard :=
  g.silence_run heard budget (.start root context value memory before)

end Setting

/-- Silence keeps what a walk comes to. -/
theorem Outcome.result?_silence (o : Outcome N K S A V E W L) :
    (o.silence heard).result? = o.result? := by
  cases o <;> rfl

/-- Silence keeps the calls. -/
theorem Outcome.calls_silence (o : Outcome N K S A V E W L) :
    (o.silence heard).config.calls = o.config.calls := by
  have hkept : ∀ journal : List (Entry N K S A V E),
      (journal.filter fun entry => !entry.tellsOfListener).filterMap Entry.call? =
        journal.filterMap Entry.call? := by
    intro journal
    rw [List.filterMap_filter]
    refine List.filterMap_congr fun entry _ => ?_
    cases entry <;> rfl
  cases o <;> exact congrArg List.reverse (hkept _)

end GraphFold
