/-
GraphFold.Proofs.Walk.Passage — the nested parts of a walk.

A walk that comes to its end is nested: between the arrival at a node and the
next child of its parent lies the whole subtree of the node, and nothing else.
`Passage c e` says that the walk goes from `c` to `e` in this way. If a node is
pending at `c`, it is handled with everything below it; if none is, the
innermost frame runs out. One relation serves both, so that one induction does.

  §1 Passages   — `Setting.Passage`.
  §2 Both ends  — what a passage leaves as it was.
  §3 Runs       — `Setting.RunsAbove`; a passage is a run that leaves its frames alone.
-/
import GraphFold.Proofs.Walk.Runs

namespace GraphFold

variable {N K S A V E W L : Type} [Ord K]

/-! ## §1 Passages -/

/-- The frames that are left when what is at hand is folded: the pending node, or else the
children of the innermost frame. -/
def Config.framesAfter (c : Config N K S A V E W L) : List (Frame N E W) :=
  match c.pending, c.frames with
  | some _, frames => frames
  | none, [] => []
  | none, inner :: outer => ⟨inner.ancestors, [], inner.pulls.ending⟩ :: outer

namespace Setting

variable (g : Setting N K S A V E W L)

/-- The walk goes from one point to the other by folding what is at hand. -/
inductive Passage : Config N K S A V E W L → Config N K S A V E W L → Prop
  /-- The pending node is handled, and its children are left out. -/
  | settled {c d : Config N K S A V E W L} (node : N) (hpending : c.pending = some node)
      (hstep : g.step c = .running d) (hframes : d.frames = c.frames) : Passage c d
  /-- The pending node is handled, its children are folded, their listing is ended, and its frame
  is dropped. -/
  | nested {c d e : Config N K S A V E W L} (node : N) (above : List N)
      (pulls : Pulls W E N) (left : W) (hpending : c.pending = some node)
      (hstep : g.step c = .running d) (hframes : d.frames = ⟨above, pulls⟩ :: c.frames)
      (inner : Passage d e) (hending : pulls.ending.perform e.memory = (.ok (), left)) :
      Passage c
        { e with frames := c.frames, state := e.state.withAncestors above, memory := left }
  /-- The innermost frame has no more children. -/
  | done {c : Config N K S A V E W L} (above : List N) (ending : Action W E Unit)
      (outer : List (Frame N E W)) (hpending : c.pending = none)
      (hframes : c.frames = ⟨above, [], ending⟩ :: outer) : Passage c c
  /-- The next child of the innermost frame is folded, and then the others. -/
  | next {c d e f : Config N K S A V E W L} (above : List N) (pull : Pull W E N)
      (later : List (Pull W E N)) (ending : Action W E Unit) (outer : List (Frame N E W))
      (child : N) (hpending : c.pending = none)
      (hframes : c.frames = ⟨above, pull :: later, ending⟩ :: outer)
      (hpull : pull.perform c.memory = (.ok child, d.memory))
      (hd : d = { c with
        pending := some child, frames := ⟨above, later, ending⟩ :: outer, memory := d.memory })
      (first : Passage d e) (rest : Passage e f) : Passage c f

/-- A run leads from one point to the other, and all the way there are at least this many frames. -/
inductive RunsAbove (depth : Nat) : Config N K S A V E W L → Config N K S A V E W L → Prop
  | here {c : Config N K S A V E W L} (h : depth ≤ c.frames.length) : RunsAbove depth c c
  | step {c d e : Config N K S A V E W L} (h : depth ≤ c.frames.length)
      (hstep : g.step c = .running d) (rest : RunsAbove depth d e) : RunsAbove depth c e

variable {g}

/-! ## §2 Both ends -/

namespace Passage

variable {c e : Config N K S A V E W L}

/-- Nothing is pending at the end of a passage. -/
theorem pending_eq_none (h : g.Passage c e) : e.pending = none := by
  induction h with
  | settled node hpending hstep _ => exact (arrival_of_step hpending hstep).pending_eq_none
  | nested _ _ _ _ _ _ _ _ _ ih => exact ih
  | done _ _ _ hpending _ => exact hpending
  | next _ _ _ _ _ _ _ _ _ _ _ _ _ ih => exact ih

/-- A passage leaves the frames without what was at hand. -/
theorem frames_eq (h : g.Passage c e) : e.frames = c.framesAfter := by
  induction h with
  | settled node hpending _ hframes => simp [Config.framesAfter, hpending, hframes]
  | nested node _ _ _ hpending _ _ _ _ => simp [Config.framesAfter, hpending]
  | done _ _ _ hpending hframes => simp [Config.framesAfter, hpending, hframes]
  | next above pull later ending outer child hpending hframes _ hd first _ ihfirst ihrest =>
    rw [hd] at ihfirst
    simp only [Config.framesAfter] at ihfirst
    rw [ihrest]
    simp [Config.framesAfter, hpending, hframes, first.pending_eq_none, ihfirst]

/-- A passage ends with the ancestors it began with. -/
theorem ancestors_eq (h : g.Passage c e) : e.state.ancestors = c.state.ancestors := by
  induction h with
  | settled node hpending hstep hframes =>
    exact (arrival_of_step hpending hstep).ancestors_of_settled hframes
  | nested node above pulls left hpending hstep hframes _ _ =>
    exact ((arrival_of_step hpending hstep).ancestors_of_opened hframes).1
  | done => rfl
  | next above pull later ending outer child _ _ _ hd _ _ ihfirst ihrest =>
    rw [ihrest, ihfirst, hd]

end Passage

/-! ## §3 Runs -/

namespace RunsAbove

variable {depth : Nat} {c d e : Config N K S A V E W L}

theorem trans (h : g.RunsAbove depth c d) (hlater : g.RunsAbove depth d e) :
    g.RunsAbove depth c e := by
  induction h with
  | here => exact hlater
  | step hdepth hstep _ ih => exact .step hdepth hstep (ih hlater)

theorem exists_run (h : g.RunsAbove depth c d) : ∃ n, g.run n c = .unfinished d := by
  induction h with
  | here => exact ⟨0, rfl⟩
  | step _ hstep _ ih =>
    obtain ⟨n, hn⟩ := ih
    exact ⟨n + 1, by rw [g.run_succ_of_running hstep, hn]⟩

end RunsAbove

namespace Passage

variable {c e : Config N K S A V E W L}

/-- A passage is a run that leaves alone the frames there were. -/
theorem runsAbove (h : g.Passage c e) {depth : Nat} (hdepth : depth ≤ c.frames.length) :
    g.RunsAbove depth c e := by
  induction h with
  | settled node _ hstep hframes =>
    exact .step hdepth hstep (.here (by rw [hframes]; exact hdepth))
  | @nested c d e node above pulls left hpending hstep hframes inner hending ih =>
    have hinner : e.frames = ⟨above, [], pulls.ending⟩ :: c.frames := by
      have hd := (arrival_of_step hpending hstep).pending_eq_none
      rw [inner.frames_eq]
      simp [Config.framesAfter, hd, hframes]
    have hdeeper : depth ≤ c.frames.length + 1 := Nat.le_succ_of_le hdepth
    have hdrop := step_of_drop (g := g) inner.pending_eq_none hinner hending
    refine .step hdepth hstep ((ih (by rw [hframes]; exact hdeeper)).trans ?_)
    exact .step (by rw [hinner]; exact hdeeper) hdrop (.here hdepth)
  | done => exact .here hdepth
  | @next c d e f above pull later ending outer child hpending hframes hpull hd first _ ihfirst
      ihrest =>
    have hstep : g.step c = .running d := running_of_pull hpending hframes hpull hd
    rw [hframes, List.length_cons] at hdepth
    have hfirst := ihfirst (by rw [hd]; exact hdepth)
    have hrest := ihrest (by rw [first.frames_eq, hd]; exact hdepth)
    exact .step (by rw [hframes]; exact hdepth) hstep (hfirst.trans hrest)

theorem exists_run (h : g.Passage c e) : ∃ n, g.run n c = .unfinished e :=
  (h.runsAbove (Nat.zero_le _)).exists_run

/-- A passage from the start of a walk comes to its end. -/
theorem exists_reduce {root : N} {context : S} {value : A} {memory : W} {heard : L}
    (h : g.Passage (.start root context value memory heard) e) :
    ∃ enough, (∀ budget, enough ≤ budget →
        g.reduce budget root context value memory heard = .finished e) ∧
      ∃ n, g.run n (.start root context value memory heard) = .unfinished e := by
  obtain ⟨n, hn⟩ := h.exists_run
  have hend : g.run (n + 1) (.start root context value memory heard) = .finished e := by
    rw [g.run_add_of_unfinished hn]
    exact g.run_succ_of_finished (step_of_finish h.pending_eq_none h.frames_eq) 0
  refine ⟨n + 1, fun budget hle => ?_, n, hn⟩
  rw [reduce, g.run_of_le hle (hend ▸ Outcome.ended_finished e), hend]

end Passage

end Setting

end GraphFold
