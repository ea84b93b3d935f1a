/-
GraphFold.Proofs.Walk.DepthLimit — a limit on the depth cuts a walk off, and
changes nothing before.

The limit is looked at in one place only: when a node that is new has been
arrived at. So a walk under a limit and the walk without one take the same steps
up to the first arrival at a new node with too many ancestors, where the one
ends and the other goes on. The parent of that node was within the limit, so the
node has one ancestor more than the limit.

  §1 Steps  — where the limit matters.
  §2 Points — before the first such arrival.
  §3 Walks  — `Setting.limit_cuts`.
-/
import GraphFold.Proofs.Walk.Path

namespace GraphFold

variable {N K S A V E W L : Type} [Ord K]

namespace Setting

/-! ## §1 Steps -/

/-- The same setting under another limit on the depth. -/
def withMaxDepth (g : Setting N K S A V E W L) (limit : Option Int) : Setting N K S A V E W L :=
  { g with limits := { g.limits with maxDepth := limit } }

/-- The node arrived at is new, and it has more ancestors than the limit. -/
def Exceeds (g : Setting N K S A V E W L) (limit : Int) (c : Config N K S A V E W L) : Prop :=
  ∃ node key, c.pending = some node ∧ g.identity node = .ok key ∧
    c.state.isSeen key = false ∧ limit < c.state.depth

variable {g : Setting N K S A V E W L} {limit : Int} {c d : Config N K S A V E W L}

theorem Exceeds.mono {lower : Int} (hle : lower ≤ limit) (h : g.Exceeds limit c) :
    g.Exceeds lower c := by
  obtain ⟨node, key, hpending, hkey, hseen, hdeep⟩ := h
  exact ⟨node, key, hpending, hkey, hseen, by omega⟩

/-- Where the limit is not exceeded, the step is the one without a limit. -/
theorem step_withMaxDepth (hdepth : c.state.depth = c.frames.length)
    (h : ¬ g.Exceeds limit c) :
    (g.withMaxDepth (some limit)).step c = (g.withMaxDepth none).step c := by
  cases hpending : c.pending with
  | none => exact step_eq_of_none hpending
  | some node =>
    rw [step_of_pending hpending, step_of_pending hpending]
    cases hkey : g.identity node with
    | error e =>
      rw [arrive_of_unkeyed (g := g.withMaxDepth (some limit)) hkey,
        arrive_of_unkeyed (g := g.withMaxDepth none) hkey]
    | ok key =>
      cases hseen : c.state.isSeen key with
      | true =>
        rw [arrive_of_seen (g := g.withMaxDepth (some limit)) hkey hseen,
          arrive_of_seen (g := g.withMaxDepth none) hkey hseen]
        rfl
      | false =>
        have hle : (c.frames.length : Int) ≤ limit := by
          rw [← hdepth]
          exact Int.not_lt.1 fun hlt => h ⟨node, key, hpending, hkey, hseen, hlt⟩
        have hlimited : (g.withMaxDepth (some limit)).limits.Admits c.frames.length :=
          fun _ hlimit => by cases hlimit; exact hle
        have hfree : (g.withMaxDepth none).limits.Admits c.frames.length :=
          fun _ hlimit => by cases hlimit
        rw [arrive_of_admits (g := g.withMaxDepth (some limit)) hkey hseen hlimited,
          arrive_of_admits (g := g.withMaxDepth none) hkey hseen hfree]
        rfl

/-- Where it is exceeded, the walk under the limit ends without a call. -/
theorem step_of_exceeds (hdepth : c.state.depth = c.frames.length) (h : g.Exceeds limit c) :
    ∃ node last, c.pending = some node ∧
      (g.withMaxDepth (some limit)).step c = .failed (.tooDeep limit node c.state.path) last ∧
      last.calls = c.calls ∧ last.value = c.value ∧ last.memory = c.memory ∧
      last.events = c.events ++ [⟨.fail, c.state.depth, node, c.evaluations⟩] := by
  obtain ⟨node, key, hpending, hkey, hseen, hdeep⟩ := h
  rw [hdepth] at hdeep
  refine ⟨node, _, hpending, (step_of_pending hpending).trans
    (arrive_of_tooDeep (g := g.withMaxDepth (some limit)) hkey hseen rfl hdeep), ?_⟩
  refine ⟨by simp, by simp, by simp, ?_⟩
  rw [Config.report_events, hdepth]
  rfl

/-- A node that was seen is skipped, however many ancestors it has. -/
theorem step_of_seen {node : N} {key : K} (hpending : c.pending = some node)
    (hkey : g.identity node = .ok key) (hseen : c.state.isSeen key = true) :
    ∃ next, g.step c = .running next ∧ next.calls = c.calls ∧ next.state = c.state ∧
      next.value = c.value ∧
      next.events = c.events ++ [⟨.skip, c.frames.length, node, c.evaluations⟩] := by
  refine ⟨_, (step_of_pending hpending).trans (arrive_of_seen hkey hseen), ?_⟩
  refine ⟨by simp, by simp, by simp, ?_⟩
  rw [Config.report_events]
  rfl

/-! ## §2 Points -/

section Start

variable {root : N} {context : S} {value : A} {memory : W} {heard : L} {n : Nat}

/-- The depth of a point is the number of its frames. -/
theorem depth_of_reduce (h : g.reduce n root context value memory heard = .unfinished c) :
    c.state.depth = c.frames.length := by
  obtain ⟨levels, hc⟩ := exists_descent h
  exact hc.located.depth_eq

/-- Before the limit is first exceeded, the walks with it and without it are the same. -/
theorem reduce_withMaxDepth (h : ∀ k c, k < n →
      (g.withMaxDepth none).reduce k root context value memory heard = .unfinished c →
      ¬ g.Exceeds limit c) :
    (g.withMaxDepth (some limit)).reduce n root context value memory heard =
      (g.withMaxDepth none).reduce n root context value memory heard :=
  run_congr fun k c hk hc => step_withMaxDepth (depth_of_reduce hc) (h k c hk hc)

/-- Under a limit no node has more than one ancestor beyond it. -/
theorem length_frames_le {d : Nat}
    (h : (g.withMaxDepth (some d)).reduce n root context value memory heard = .unfinished c) :
    c.frames.length ≤ d + 1 := by
  refine (g.withMaxDepth (some d)).invariant_of_run (P := fun c => c.frames.length ≤ d + 1)
    ?_ (Nat.zero_le _) h
  intro c e hc hstep
  have hmove := (g.withMaxDepth (some d)).move c
  rw [hstep] at hmove
  cases hmove with
  | handle node p hpending harrival =>
    cases harrival with
    | skipped => simpa using hc
    | pruned => simpa using hc
    | opened key value given memory pulls left hkey hseen hdepth hcall hlookup =>
      have hle := hdepth d rfl
      simp only [List.length_cons]
      omega
  | pull above pull later ending outer child memory hnone hframes hpull =>
    rw [hframes] at hc
    exact hc
  | drop above ending outer left hnone hframes =>
    rw [hframes, List.length_cons] at hc
    exact Nat.le_of_succ_le hc

/-- A limit that is exceeded is exceeded for a first time. -/
theorem exists_first_exceeds (h : (g.withMaxDepth none).reduce n root context value memory heard =
    .unfinished c) (hexceeds : g.Exceeds limit c) :
    ∃ m first, (g.withMaxDepth none).reduce m root context value memory heard =
        .unfinished first ∧ g.Exceeds limit first ∧
      ∀ k e, k < m → (g.withMaxDepth none).reduce k root context value memory heard =
        .unfinished e → ¬ g.Exceeds limit e := by
  rcases notBefore_or_firstAt (g.Exceeds limit) (.start root context value memory heard)
    (n + 1) with hnever | ⟨m, first, -, hfirst⟩
  · exact absurd hexceeds (hnever n c (Nat.lt_succ_self n) h)
  · exact ⟨m, first, hfirst.run_eq, hfirst.holds, hfirst.notBefore⟩

/-- What a limit does at the first arrival that exceeds it. -/
theorem exists_cut {d : Nat}
    (h : (g.withMaxDepth none).reduce n root context value memory heard = .unfinished c)
    (hexceeds : g.Exceeds d c) :
    ∃ m first node last,
      (g.withMaxDepth none).reduce m root context value memory heard = .unfinished first ∧
      g.Exceeds d first ∧ first.pending = some node ∧
      (∀ k e, k < m → (g.withMaxDepth none).reduce k root context value memory heard =
        .unfinished e → ¬ g.Exceeds d e) ∧
      (∀ budget, budget ≤ m →
        (g.withMaxDepth (some d)).reduce budget root context value memory heard =
          (g.withMaxDepth none).reduce budget root context value memory heard) ∧
      (∀ budget, m < budget →
        (g.withMaxDepth (some d)).reduce budget root context value memory heard =
          .failed (.tooDeep d node first.state.path) last) ∧
      first.state.path.length = d + 1 ∧ last.calls = first.calls ∧ last.value = first.value ∧
      last.memory = first.memory ∧
      last.events = first.events ++ [⟨.fail, d + 1, node, first.evaluations⟩] := by
  obtain ⟨m, first, hfirst, hdeep, hbefore⟩ := exists_first_exceeds h hexceeds
  have hsame : ∀ budget, budget ≤ m →
      (g.withMaxDepth (some d)).reduce budget root context value memory heard =
        (g.withMaxDepth none).reduce budget root context value memory heard := fun budget hle =>
    reduce_withMaxDepth fun k e hk he => hbefore k e (Nat.lt_of_lt_of_le hk hle) he
  have hlimited := (hsame m (Nat.le_refl m)).trans hfirst
  obtain ⟨node, last, hpending, hstep, hcalls, hvalue, hmemory, hevents⟩ :=
    step_of_exceeds (depth_of_reduce hfirst) hdeep
  have hdepth : first.state.depth = d + 1 := by
    obtain ⟨_, _, _, _, _, hlt⟩ := hdeep
    have hle := length_frames_le hlimited
    have hframes := depth_of_reduce hfirst
    omega
  refine ⟨m, first, node, last, hfirst, hdeep, hpending, hbefore, hsame, ?_, ?_, hcalls, hvalue,
    hmemory, ?_⟩
  · intro budget hlt
    obtain ⟨k, rfl⟩ := Nat.exists_eq_add_of_lt hlt
    rw [reduce, Nat.add_assoc, run_add_of_unfinished _ hlimited, run_succ_of_failed _ hstep]
  · rw [← State.depth_eq_length_path, hdepth]
  · rw [hevents, hdepth]

/-- A walk that comes to its end under a limit never exceeds it. -/
theorem not_exceeds_of_finished {d budget : Nat}
    (hend : (g.withMaxDepth (some d)).reduce budget root context value memory heard =
      .finished c) {n : Nat} {e : Config N K S A V E W L}
    (he : (g.withMaxDepth none).reduce n root context value memory heard = .unfinished e) :
    ¬ g.Exceeds d e := by
  intro hexceeds
  obtain ⟨m, first, node, last, _, _, _, _, _, hcut, _⟩ := exists_cut he hexceeds
  have hfailed := hcut (m + 1) (Nat.lt_succ_self m)
  have hunique := (g.withMaxDepth (some d)).run_unique
    (by rw [← reduce, hend]; exact Outcome.ended_finished c)
    (by rw [← reduce, hfailed]; exact Outcome.ended_failed _ last)
  rw [← reduce, ← reduce, hend, hfailed] at hunique
  cases hunique

end Start

/-! ## §3 Walks -/

/-- Compare a walk under a limit with the walk without one. If the latter never arrives at a new
node with more ancestors than the limit, the two are the same. Otherwise they are the same up to the
first such arrival, and there the walk under the limit ends: with a last event, with the path of the
node, and without a call. A node that was seen is skipped at any depth. So what a walk comes to
under a limit, it comes to under every larger one, and without one. -/
theorem limit_cuts (g : Setting N K S A V E W L) (d : Nat) (root : N) (context : S) (value : A)
    (memory : W) (heard : L) :
    ((∀ n c, (g.withMaxDepth none).reduce n root context value memory heard = .unfinished c →
        ¬ g.Exceeds d c) →
      ∀ budget, (g.withMaxDepth (some d)).reduce budget root context value memory heard =
        (g.withMaxDepth none).reduce budget root context value memory heard) ∧
    (∀ n c, (g.withMaxDepth none).reduce n root context value memory heard = .unfinished c →
      g.Exceeds d c →
      ∃ m first node last,
        (g.withMaxDepth none).reduce m root context value memory heard = .unfinished first ∧
        g.Exceeds d first ∧ first.pending = some node ∧
        (∀ k e, k < m → (g.withMaxDepth none).reduce k root context value memory heard =
          .unfinished e → ¬ g.Exceeds d e) ∧
        (∀ budget, budget ≤ m →
          (g.withMaxDepth (some d)).reduce budget root context value memory heard =
            (g.withMaxDepth none).reduce budget root context value memory heard) ∧
        (∀ budget, m < budget →
          (g.withMaxDepth (some d)).reduce budget root context value memory heard =
            .failed (.tooDeep d node first.state.path) last) ∧
        first.state.path.length = d + 1 ∧ last.calls = first.calls ∧ last.value = first.value ∧
        last.memory = first.memory ∧
        last.events = first.events ++ [⟨.fail, d + 1, node, first.evaluations⟩]) ∧
    (∀ n c node key,
      (g.withMaxDepth (some d)).reduce n root context value memory heard = .unfinished c →
      c.pending = some node → g.identity node = .ok key → c.state.isSeen key = true →
      ∃ next, (g.withMaxDepth (some d)).reduce (n + 1) root context value memory heard =
          .unfinished next ∧
        next.calls = c.calls ∧ next.state = c.state ∧ next.value = c.value ∧
        next.events = c.events ++ [⟨.skip, c.state.depth, node, c.evaluations⟩]) ∧
    ∀ budget c,
      (g.withMaxDepth (some d)).reduce budget root context value memory heard = .finished c →
      (g.withMaxDepth none).reduce budget root context value memory heard = .finished c ∧
      ∀ larger : Int, d ≤ larger →
        (g.withMaxDepth (some larger)).reduce budget root context value memory heard =
          .finished c := by
  refine ⟨?_, fun n c h hexceeds => exists_cut h hexceeds, ?_, ?_⟩
  · intro hnever budget
    exact reduce_withMaxDepth fun k c _ hc => hnever k c hc
  · intro n c node key hc hpending hkey hseen
    obtain ⟨next, hstep, hcalls, hstate, hvalue, hevents⟩ :=
      step_of_seen (g := g.withMaxDepth (some d)) hpending hkey hseen
    rw [← depth_of_reduce hc] at hevents
    exact ⟨next, run_succ_of_unfinished _ hc hstep, hcalls, hstate, hvalue, hevents⟩
  · intro budget c hend
    have hfree : (g.withMaxDepth none).reduce budget root context value memory heard =
        .finished c := by
      rw [← reduce_withMaxDepth fun k e _ he => not_exceeds_of_finished hend he]
      exact hend
    refine ⟨hfree, fun larger hle => ?_⟩
    rw [reduce_withMaxDepth fun k e _ he hexceeds =>
      not_exceeds_of_finished hend he (hexceeds.mono hle)]
    exact hfree

-- Node 2 is a child of the root. It is too deep if the walk first comes to it below 1, and skipped
-- there if it has been evaluated before.
example : (((counting (fun | 0 => [1, 2] | 1 => [2] | _ => []) fun _ => false).withMaxDepth
    (some 1)).reduce 20 0 () 0 () ()).config.events.map (fun e => (e.kind, e.depth, e.node)) =
      [(.descend, 0, 0), (.descend, 1, 1), (.fail, 2, 2)] := rfl

example : (((counting (fun | 0 => [2, 1] | 1 => [2] | _ => []) fun _ => false).withMaxDepth
    (some 1)).reduce 20 0 () 0 () ()).config.events.map (fun e => (e.kind, e.depth, e.node)) =
      [(.descend, 0, 0), (.descend, 1, 2), (.descend, 1, 1), (.skip, 2, 2)] := rfl

end Setting

end GraphFold
