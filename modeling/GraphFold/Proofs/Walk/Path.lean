/-
GraphFold.Proofs.Walk.Path — the path of a walk is the list of the nodes on its
stack, whatever the evaluator makes of it.

Frames do not name their nodes. So a point of a walk is described together with
its LEVELS, one for each frame: the node whose children are being folded, the
call that opened it and the children that were listed. `Descent` says how steps
change the levels, and `Located` what ties them to the point: the ancestors in
the state, those saved in the frames and those of the calls are all read off the
levels, and each node was given by a child of the level around it.

  §1 Levels  — `Level`, `Lineage`, `Setting.Nested`.
  §2 Points  — `Setting.Descent`, `Setting.Located`.
  §3 Calls   — every call is made at such a point; siblings.
  §4 Entries — what the journal says of each arrival.
  §5 Walks   — `Setting.OwnsPath`, `Scene.owns_path`.
-/
import GraphFold.Proofs.Value.Codes
import GraphFold.Proofs.Walk.Threading
import GraphFold.Scene.Reduction

namespace GraphFold

variable {N K S A V E W L : Type} [Ord K]

/-! ## §1 Levels -/

/-- A node whose children are being folded. -/
structure Level (N W E : Type) where
  /-- The number of calls before the one of the node. -/
  index : Nat
  node : N
  /-- The children that were listed. -/
  pulls : Pulls W E N

/-- The node was given by one of the children of the level. -/
def Level.Gave (level : Level N W E) (x : N) : Prop :=
  ∃ pull ∈ level.pulls.each, ∃ memory left, pull.perform memory = (.ok x, left)

/-- Children lead from the root through these levels, innermost first, to this node. -/
def Lineage (root : N) : List (Level N W E) → N → Prop
  | [], x => x = root
  | level :: outer, x => level.Gave x ∧ Lineage root outer level.node

/-- The first node on the way is the root. -/
theorem Lineage.head?_eq {root : N} {levels : List (Level N W E)} {x : N}
    (h : Lineage root levels x) : ((levels.map Level.node).reverse ++ [x]).head? = some root := by
  induction levels generalizing x with
  | nil =>
    cases h
    rfl
  | cons level outer ih => simpa using ih h.2

namespace Setting

variable (g : Setting N K S A V E W L)

/-- The level was opened by this call: under the levels around it, its children were looked up as
the call says, and these were listed. -/
structure Opens (calls : List (Call N K S A V E)) (level : Level N W E)
    (outer : List (Level N W E)) (call : Call N K S A V E) : Prop where
  getElem?_eq : calls[level.index]? = some call
  node_eq : call.node = level.node
  ancestors_eq : call.state.ancestors = outer.map Level.node
  listed : ∃ s memory left, g.lookup? call = some (level.node, s) ∧
    (g.children level.node s).perform memory = (.ok (.ok level.pulls), left)

/-- The frames belong to these levels, innermost first. -/
inductive Nested (root : N) (calls : List (Call N K S A V E)) :
    List (Level N W E) → List (Frame N E W) → Prop
  | nil : Nested root calls [] []
  | cons {level : Level N W E} {outer : List (Level N W E)} {frame : Frame N E W}
      {frames : List (Frame N E W)} {call : Call N K S A V E}
      (houter : Nested root calls outer frames)
      (hlineage : Lineage root outer level.node) (hopens : g.Opens calls level outer call)
      (habove : frame.ancestors = outer.map Level.node)
      (hchildren : frame.pulls.each <:+ level.pulls.each) :
      Nested root calls (level :: outer) (frame :: frames)

variable {g}

theorem Opens.mono {earlier later : List (Call N K S A V E)} (hgrown : earlier <+: later)
    {level : Level N W E} {outer : List (Level N W E)} {call : Call N K S A V E}
    (h : g.Opens earlier level outer call) : g.Opens later level outer call := by
  refine ⟨?_, h.node_eq, h.ancestors_eq, h.listed⟩
  obtain ⟨hlt, hcall⟩ := List.getElem?_eq_some_iff.1 h.getElem?_eq
  rw [List.prefix_iff_getElem?.1 hgrown _ hlt, hcall]

theorem Nested.mono {root : N} {earlier later : List (Call N K S A V E)}
    (hgrown : earlier <+: later) {levels : List (Level N W E)} {frames : List (Frame N E W)}
    (h : g.Nested root earlier levels frames) : g.Nested root later levels frames := by
  induction h with
  | nil => exact .nil
  | cons _ hlineage hopens habove hchildren ih =>
    exact .cons ih hlineage (hopens.mono hgrown) habove hchildren

theorem Nested.length_eq {root : N} {calls : List (Call N K S A V E)}
    {levels : List (Level N W E)} {frames : List (Frame N E W)}
    (h : g.Nested root calls levels frames) : levels.length = frames.length := by
  induction h with
  | nil => rfl
  | cons _ _ _ _ _ ih => simp [ih]

/-! ## §2 Points -/

variable (g)

/-- A walk gets from its start to this point, with these levels. -/
inductive Descent (start : Config N K S A V E W L) :
    List (Level N W E) → Config N K S A V E W L → Prop
  | start : Descent start [] start
  /-- The pending node is handled, and its children come next. -/
  | opened {levels : List (Level N W E)} {c d : Config N K S A V E W L} {node : N} {above : List N}
      {pulls : Pulls W E N} (h : Descent start levels c) (hstep : g.step c = .running d)
      (hpending : c.pending = some node) (hframes : d.frames = ⟨above, pulls⟩ :: c.frames) :
      Descent start (⟨c.calls.length, node, pulls⟩ :: levels) d
  /-- The pending node is handled, and its children are left out. -/
  | settled {levels : List (Level N W E)} {c d : Config N K S A V E W L} {node : N}
      (h : Descent start levels c) (hstep : g.step c = .running d)
      (hpending : c.pending = some node) (hframes : d.frames = c.frames) : Descent start levels d
  /-- The next child of the innermost level is asked for. -/
  | pulled {levels : List (Level N W E)} {c d : Config N K S A V E W L} {child : N}
      (h : Descent start levels c) (hstep : g.step c = .running d) (hnone : c.pending = none)
      (hpending : d.pending = some child) : Descent start levels d
  /-- The innermost level has no more children. -/
  | dropped {level : Level N W E} {outer : List (Level N W E)} {c d : Config N K S A V E W L}
      (h : Descent start (level :: outer) c) (hstep : g.step c = .running d)
      (hnone : c.pending = none) (hdone : d.pending = none) : Descent start outer d

/-- What the levels say about a point. -/
structure Located (root : N) (levels : List (Level N W E)) (c : Config N K S A V E W L) :
    Prop where
  nested : g.Nested root c.calls levels c.frames
  ancestors_eq : c.state.ancestors = levels.map Level.node
  lineage : ∀ x, c.pending = some x → Lineage root levels x

variable {g} {root : N} {levels : List (Level N W E)} {start c d : Config N K S A V E W L}

namespace Located

/-- The path is the list of the nodes on the stack, the outermost first. -/
theorem path_eq (h : g.Located root levels c) :
    c.state.path = (levels.map Level.node).reverse := by
  rw [State.path, h.ancestors_eq]

/-- The depth is the number of frames. -/
theorem depth_eq (h : g.Located root levels c) : c.state.depth = c.frames.length := by
  rw [State.depth, h.ancestors_eq, List.length_map, h.nested.length_eq]

theorem head?_eq (h : g.Located root levels c) {x : N} (hx : c.pending = some x) :
    (c.state.path ++ [x]).head? = some root := by
  rw [h.path_eq]
  exact (h.lineage x hx).head?_eq

end Located

/-- A step that opens a frame makes the call that opens a level. -/
theorem opens_of_opened (hc : c.state.ancestors = levels.map Level.node)
    (h : g.step c = .running d) {node : N} {above : List N} {pulls : Pulls W E N}
    (hpending : c.pending = some node) (hframes : d.frames = ⟨above, pulls⟩ :: c.frames) :
    ∃ call, g.Opens d.calls ⟨c.calls.length, node, pulls⟩ levels call := by
  obtain ⟨key, value, given, memory, left, hkey, _, _, hlookup, hcalls⟩ :=
    listed_of_opened h hpending hframes
  refine ⟨⟨node, c.state, c.value, .ok (.proceed value (.ok given))⟩, ?_, rfl, hc, _, memory, left,
    lookup?_eq_some.2 ⟨value, given, key, rfl, hkey, rfl, rfl⟩, hlookup⟩
  rw [hcalls, List.getElem?_append_right (Nat.le_refl _), Nat.sub_self]
  rfl

namespace Located

theorem opened {node : N} {above : List N} {pulls : Pulls W E N}
    (hc : g.Located root levels c) (hstep : g.step c = .running d)
    (hpending : c.pending = some node) (hframes : d.frames = ⟨above, pulls⟩ :: c.frames) :
    g.Located root (⟨c.calls.length, node, pulls⟩ :: levels) d := by
  have harrival := arrival_of_step hpending hstep
  obtain ⟨habove, hancestors⟩ := harrival.ancestors_of_opened hframes
  obtain ⟨call, hopens⟩ := opens_of_opened hc.ancestors_eq hstep hpending hframes
  refine ⟨?_, ?_, fun x hx => ?_⟩
  · rw [hframes]
    exact .cons (hc.nested.mono (calls_prefix_of_step hstep)) (hc.lineage node hpending) hopens
      (habove.trans hc.ancestors_eq) (List.suffix_refl _)
  · rw [hancestors, hc.ancestors_eq]
    rfl
  · rw [harrival.pending_eq_none] at hx
    cases hx

theorem settled {node : N} (hc : g.Located root levels c) (hstep : g.step c = .running d)
    (hpending : c.pending = some node) (hframes : d.frames = c.frames) :
    g.Located root levels d := by
  have harrival := arrival_of_step hpending hstep
  refine ⟨?_, (harrival.ancestors_of_settled hframes).trans hc.ancestors_eq, fun x hx => ?_⟩
  · rw [hframes]
    exact hc.nested.mono (calls_prefix_of_step hstep)
  · rw [harrival.pending_eq_none] at hx
    cases hx

/-- The child that is asked for was listed for the innermost level, so the lineage goes on with
it. -/
theorem pulled {child : N} (hc : g.Located root levels c) (hstep : g.step c = .running d)
    (hnone : c.pending = none) (hpending : d.pending = some child) : g.Located root levels d := by
  have hmove := g.move c
  rw [hstep] at hmove
  cases hmove with
  | handle node p hpending' => rw [hnone] at hpending'; cases hpending'
  | pull above pull later ending outer child' memory' _ hframes hpull =>
    have hnested := hc.nested
    rw [hframes] at hnested
    cases hnested with
    | cons houter hlineage hopens habove hchildren =>
      have hlater := (List.suffix_cons pull later).trans hchildren
      refine ⟨.cons houter hlineage hopens habove hlater, hc.ancestors_eq, fun x hx => ?_⟩
      cases hx
      have hmem := hchildren.subset (List.mem_cons_self ..)
      exact ⟨⟨pull, hmem, _, memory', hpull⟩, hlineage⟩
  | drop => rw [hpending] at hnone; cases hnone

/-- The ancestors that are put back are the levels around the one that is dropped. -/
theorem dropped {level : Level N W E} {outer : List (Level N W E)}
    (hc : g.Located root (level :: outer) c) (hstep : g.step c = .running d)
    (hnone : c.pending = none) (hdone : d.pending = none) : g.Located root outer d := by
  have hmove := g.move c
  rw [hstep] at hmove
  cases hmove with
  | handle node p hpending' => rw [hnone] at hpending'; cases hpending'
  | pull => cases hdone
  | drop above ending frames left _ hframes =>
    have hnested := hc.nested
    rw [hframes] at hnested
    cases hnested with
    | cons houter hlineage hopens habove hchildren =>
      exact ⟨houter, habove, fun x hx => by rw [hdone] at hx; cases hx⟩

end Located

/-- The levels describe every point they belong to. -/
theorem Descent.located {context : S} {value : A} {memory : W} {heard : L}
    (h : g.Descent (.start root context value memory heard) levels c) :
    g.Located root levels c := by
  induction h with
  | start => exact ⟨.nil, rfl, fun x hx => by cases hx; rfl⟩
  | opened _ hstep hpending hframes ih => exact ih.opened hstep hpending hframes
  | settled _ hstep hpending hframes ih => exact ih.settled hstep hpending hframes
  | pulled _ hstep hnone hpending ih => exact ih.pulled hstep hnone hpending
  | dropped _ hstep hnone hdone ih => exact ih.dropped hstep hnone hdone

/-- A point with levels is a point of the walk. -/
theorem Descent.exists_run (h : g.Descent start levels c) :
    ∃ n, g.run n start = .unfinished c := by
  induction h with
  | start => exact ⟨0, rfl⟩
  | opened _ hstep _ _ ih => exact ih.imp' _ fun _ hn => g.run_succ_of_unfinished hn hstep
  | settled _ hstep _ _ ih => exact ih.imp' _ fun _ hn => g.run_succ_of_unfinished hn hstep
  | pulled _ hstep _ _ ih => exact ih.imp' _ fun _ hn => g.run_succ_of_unfinished hn hstep
  | dropped _ hstep _ _ ih => exact ih.imp' _ fun _ hn => g.run_succ_of_unfinished hn hstep

section Start

variable {context : S} {value : A} {memory : W} {heard : L}

/-- A step from a point with levels leads to one. -/
theorem Descent.exists_step (h : g.Descent (.start root context value memory heard) levels c)
    (hstep : g.step c = .running d) :
    ∃ levels', g.Descent (.start root context value memory heard) levels' d := by
  have hmove := g.move c
  rw [hstep] at hmove
  cases hmove with
  | handle node p hpending harrival =>
    rcases harrival.ancestors_eq with ⟨hframes, _⟩ | ⟨pulls, hframes, _⟩
    · exact ⟨_, h.settled hstep hpending hframes⟩
    · exact ⟨_, h.opened hstep hpending hframes⟩
  | pull above pull later ending outer child memory hnone hframes hpull =>
    exact ⟨_, h.pulled hstep hnone rfl⟩
  | drop above ending frames left hnone hframes =>
    have hlength := h.located.nested.length_eq
    rw [hframes] at hlength
    cases levels with
    | nil => cases hlength
    | cons level outer => exact ⟨_, h.dropped hstep hnone hnone⟩

/-- Every point of a walk has its levels. -/
theorem exists_descent {n : Nat}
    (h : g.run n (.start root context value memory heard) = .unfinished c) :
    ∃ levels, g.Descent (.start root context value memory heard) levels c :=
  g.invariant_of_run
    (P := fun c => ∃ levels, g.Descent (.start root context value memory heard) levels c)
    (fun _ _ ⟨_, hc⟩ hstep => hc.exists_step hstep) ⟨[], .start⟩ h

/-! ## §3 Calls -/

/-- The path below a level is that of its call, and the node that was called. -/
theorem Located.exists_call {level : Level N W E} {outer : List (Level N W E)}
    (h : g.Located root (level :: outer) c) :
    ∃ call, c.calls[level.index]? = some call ∧ c.state.path = call.state.path ++ [call.node] := by
  obtain ⟨hnested, hancestors, _⟩ := h
  generalize c.frames = frames at hnested
  cases hnested with
  | cons houter hlineage hopens habove hchildren =>
    refine ⟨_, hopens.getElem?_eq, ?_⟩
    simp [State.path, hancestors, hopens.node_eq, hopens.ancestors_eq]

/-- The calls so far are still there later in the walk. -/
theorem getElem?_calls_of_le {n m i : Nat} {call : Call N K S A V E} (hnm : n ≤ m)
    (hc : g.run n start = .unfinished c) (hd : g.run m start = .unfinished d)
    (hcall : c.calls[i]? = some call) : d.calls[i]? = some call := by
  obtain ⟨k, rfl⟩ := Nat.exists_eq_add_of_le hnm
  rw [g.run_add_of_unfinished hc] at hd
  obtain ⟨hlt, hget⟩ := List.getElem?_eq_some_iff.1 hcall
  rw [List.prefix_iff_getElem?.1 (calls_prefix_of_run hd) _ hlt, hget]

/-- The path is the same wherever the innermost level is the same. -/
theorem path_eq_of_index_eq {a b : Level N W E} {outer outer' : List (Level N W E)}
    (hc : g.Descent (.start root context value memory heard) (a :: outer) c)
    (hd : g.Descent (.start root context value memory heard) (b :: outer') d)
    (hindex : a.index = b.index) : c.state.path = d.state.path := by
  obtain ⟨n, hn⟩ := hc.exists_run
  obtain ⟨m, hm⟩ := hd.exists_run
  obtain ⟨call, hcall, hpath⟩ := hc.located.exists_call
  obtain ⟨call', hcall', hpath'⟩ := hd.located.exists_call
  rw [← hindex] at hcall'
  have hsame : call = call' := by
    rcases Nat.le_total n m with hnm | hmn
    · rw [getElem?_calls_of_le hnm hn hm hcall] at hcall'
      exact Option.some.inj hcall'
    · rw [getElem?_calls_of_le hmn hm hn hcall'] at hcall
      exact (Option.some.inj hcall).symm
  rw [hpath, hpath', hsame]

/-- The call is made at a point of the walk after this many others: its node is pending there, and
it is handed the state and the value at hand. -/
def MadeAt (g : Setting N K S A V E W L) (start : Config N K S A V E W L) (i : Nat)
    (call : Call N K S A V E) : Prop :=
  ∃ levels c, g.Descent start levels c ∧ c.calls.length = i ∧ c.pending = some call.node ∧
    c.state = call.state ∧ c.value = call.value

theorem madeAt_append (hc : g.Descent start levels c)
    (hcalls : ∀ i call, c.calls[i]? = some call → g.MadeAt start i call)
    {call : Call N K S A V E} (hat : g.CallsAt c call) :
    ∀ i other, (c.calls ++ [call])[i]? = some other → g.MadeAt start i other := by
  refine forall_getElem?_concat hcalls ?_
  exact ⟨levels, c, hc, rfl, hat.pending_eq, hat.state_eq.symm, hat.value_eq.symm⟩

/-- Every call of a walk is made at a point of it. -/
theorem madeAt_reduce (budget : Nat) :
    ∀ i call, (g.reduce budget root context value memory heard).config.calls[i]? = some call →
      g.MadeAt (.start root context value memory heard) i call := by
  refine calls_induction
    (P := fun c => ∃ levels, g.Descent (.start root context value memory heard) levels c)
    (Q := fun calls => ∀ i call, calls[i]? = some call →
      g.MadeAt (.start root context value memory heard) i call)
    (fun _ _ ⟨_, hc⟩ h => hc.exists_step h) ?_ ⟨[], .start⟩
    (fun i call hi => by cases hi)
  rintro c call ⟨levels, hc⟩ hcalls hat
  exact madeAt_append hc hcalls hat

end Start

end Setting

/-! ## §4 Entries -/

/-- The node an entry says the walk arrived at, and the state it did so in. -/
@[simp]
def Entry.atHand? : Entry N K S A V E → Option (N × State N K S)
  | .arrived node s => some (node, s)
  | .called _ _ _ _ | .asked _ _ _ | .handled _ | .listenerRaised => none

namespace Setting

/-- What an entry says agrees with the entries before it, newest first. A node is called in the
state the walk arrived at it in; its children are looked up after a call that proceeds, with the
path of the call, when its key has been seen; and an event reports the depth of that state. -/
def Fits (g : Setting N K S A V E W L) (earlier : List (Entry N K S A V E)) :
    Entry N K S A V E → Prop
  | .called node s _ _ => earlier.findSome? Entry.atHand? = some (node, s)
  | .asked node s _ => ∃ t value carried given key,
    earlier.head? = some (.called node t value (.ok (.proceed carried (.ok given)))) ∧
    s.path = t.path ∧ g.identity node = .ok key ∧ s.isSeen key = true
  | .handled event => ∃ s,
    earlier.findSome? Entry.atHand? = some (event.node, s) ∧ event.depth = s.depth
  | .arrived _ _ | .listenerRaised => True

/-- Every entry of a journal, newest first, fits those before it. -/
def Orderly (g : Setting N K S A V E W L) : List (Entry N K S A V E) → Prop
  | [] => True
  | entry :: earlier => g.Fits earlier entry ∧ Orderly g earlier

variable {g : Setting N K S A V E W L} {root : N} {levels : List (Level N W E)}
  {c d : Config N K S A V E W L}

theorem Orderly.report {listener : Option (Listener N L)} {kind : EventKind} {node : N}
    {depth : Nat} {s : State N K S} (h : g.Orderly c.journal)
    (hnode : c.journal.findSome? Entry.atHand? = some (node, s)) (hdepth : depth = s.depth) :
    g.Orderly (c.report listener kind node depth).journal := by
  obtain ⟨heard, raised, hraised, hreport⟩ := c.report_eq listener kind node depth
  rw [hreport]
  clear hreport
  induction raised with
  | nil => exact ⟨⟨s, hnode, hdepth⟩, h⟩
  | cons entry rest ih =>
    have hrest := ih fun e he => hraised e (List.mem_cons_of_mem _ he)
    rw [hraised entry (List.mem_cons_self ..)]
    exact ⟨trivial, hrest⟩

/-- Every step writes entries that fit. -/
theorem Orderly.step [Std.TransOrd K] (hc : g.Orderly c.journal)
    (hdepth : c.state.depth = c.frames.length) : g.Orderly (g.step c).config.journal := by
  have hmove := g.move c
  generalize g.step c = p at hmove ⊢
  cases hmove with
  | handle node p hpending harrival =>
    cases harrival with
    | unkeyed => exact ⟨trivial, hc⟩
    | skipped | tooDeep => exact Orderly.report ⟨trivial, hc⟩ rfl hdepth.symm
    | raised | refused => exact ⟨rfl, trivial, hc⟩
    | rejected | pruned => exact Orderly.report ⟨rfl, trivial, hc⟩ rfl hdepth.symm
    | unlisted key value given memory e left hkey =>
      exact ⟨⟨c.state, c.value, value, given, key, rfl, rfl, hkey, by simp⟩, rfl, trivial, hc⟩
    | notListed key value given memory e left hkey
    | opened key value given memory pulls left hkey =>
      exact Orderly.report ⟨⟨c.state, c.value, value, given, key, rfl, rfl, hkey, by simp⟩, rfl,
        trivial, hc⟩ rfl hdepth.symm
  | pull | pullRaised | drop | dropRaised | finish => exact hc

theorem orderly_reduce [Std.TransOrd K] (budget : Nat) (root : N) (context : S) (value : A)
    (memory : W) (heard : L) :
    g.Orderly (g.reduce budget root context value memory heard).config.journal := by
  refine g.holds_of_outcome
    (P := fun c => ∃ levels, g.Descent (.start root context value memory heard) levels c)
    (Q := fun c => g.Orderly c.journal)
    (fun _ _ ⟨_, hc⟩ h => hc.exists_step h) ?_ ⟨[], .start⟩ trivial
  rintro c ⟨levels, hc⟩ horderly
  exact horderly.step hc.located.depth_eq

end Setting

/-! ## §5 Walks -/

/-- The node and the path that are told of a walk that was given up. -/
def Failure.abort? : Failure N V E → Option (N × List N)
  | .rejected _ node path | .tooDeep _ node path => some (node, path)
  | .notInstruction _ _ | .notState _ _ | .unsupported _ | .stateless _ | .raised _ => none

namespace Setting

/-- The path of a walk from `start`, which ends or is cut off as `o`, is the list of the nodes on
the stack. -/
structure OwnsPath (g : Setting N K S A V E W L) (root : N) (start : Config N K S A V E W L)
    (o : Outcome N K S A V E W L) : Prop where
  /-- Every point of the walk has its levels. -/
  descent : ∀ n c, g.run n start = .unfinished c → ∃ levels, g.Descent start levels c
  /-- They belong to the frames, and they are the path. -/
  located : ∀ levels c, g.Descent start levels c → g.Located root levels c ∧
    c.state.path = (levels.map Level.node).reverse ∧ c.state.depth = c.frames.length ∧
    ∀ x, c.pending = some x → (c.state.path ++ [x]).head? = some root
  /-- Every call is made at such a point, of the node that is pending there. -/
  made : ∀ i call, o.config.calls[i]? = some call → g.MadeAt start i call
  /-- Children of one level find the same path. -/
  siblings : ∀ a b outer outer' c d, g.Descent start (a :: outer) c →
    g.Descent start (b :: outer') d → a.index = b.index → c.state.path = d.state.path
  /-- Events and children lookups go by the path of the call. -/
  orderly : g.Orderly o.config.journal
  /-- A walk that is given up tells the path, and its last event the depth. -/
  aborted : ∀ f c, o = .failed f c → ∀ node path, f.abort? = some (node, path) →
    (∃ levels d, g.Descent start levels d ∧ d.pending = some node ∧ path = d.state.path) ∧
    c.events.getLast? = some ⟨.fail, path.length, node, c.evaluations⟩
  /-- At the end the path is empty. -/
  finished : ∀ c, o = .finished c → c.state.path = []

variable {g : Setting N K S A V E W L} {c d : Config N K S A V E W L}

theorem abort?_of_refusal {node : N} {answer : Answer N K S A V} {f : Failure N V E}
    (h : g.refusal? node answer = some f) : f.abort? = none := by
  unfold refusal? at h
  split at h <;> rcases answer with ⟨_, _ | _⟩ | ⟨_, _ | _⟩ | _ | _ <;> cases h <;> rfl

/-- A step that gives the walk up tells the path at hand. -/
theorem abort_of_step {f : Failure N V E} {node : N} {path : List N}
    (h : g.step c = .failed f d) (hf : f.abort? = some (node, path)) :
    c.pending = some node ∧ path = c.state.path ∧
      d.events.getLast? = some ⟨.fail, c.frames.length, node, d.evaluations⟩ := by
  have hmove := g.move c
  rw [h] at hmove
  cases hmove with
  | handle x p hpending harrival =>
    cases harrival with
    | tooDeep | rejected =>
      cases hf
      exact ⟨hpending, rfl, by simp [Config.report_events]⟩
    | refused key answer f memory hkey hseen hlimit hcall hrefused =>
      rw [abort?_of_refusal hrefused] at hf
      cases hf
    | unkeyed | raised | unlisted | notListed => cases hf
  | pullRaised | dropRaised => cases hf

theorem ownsPath_reduce [Std.TransOrd K] (g : Setting N K S A V E W L) (budget : Nat) (root : N)
    (context : S) (value : A) (memory : W) (heard : L) :
    g.OwnsPath root (.start root context value memory heard)
      (g.reduce budget root context value memory heard) where
  descent n c h := exists_descent h
  located levels c h := ⟨h.located, h.located.path_eq, h.located.depth_eq,
    fun x hx => h.located.head?_eq hx⟩
  made := madeAt_reduce budget
  siblings a b outer outer' c d hc hd hindex := path_eq_of_index_eq hc hd hindex
  orderly := orderly_reduce budget root context value memory heard
  aborted f c ho node path hf := by
    obtain ⟨n, d, hn, hstep⟩ := g.exists_of_run_failed ho
    obtain ⟨levels, hd⟩ := exists_descent hn
    obtain ⟨hpending, hpath, hlast⟩ := abort_of_step hstep hf
    refine ⟨⟨levels, d, hd, hpending, hpath⟩, ?_⟩
    rw [hlast, hpath, ← State.depth_eq_length_path, hd.located.depth_eq]
  finished c ho := by
    obtain ⟨n, hn, _, hframes⟩ := g.exists_of_run_finished ho
    obtain ⟨levels, hc⟩ := exists_descent hn
    have hdepth := hc.located.depth_eq
    rw [hframes, State.depth_eq_length_path] at hdepth
    exact List.eq_nil_of_length_eq_zero hdepth

-- Each of these calls answers with two ancestors of its own.
example : ((restless detour).reduce 20 0 0 [] () ()).config.calls.map
    (fun call => (call.node, call.state.path)) = [(0, []), (2, [0]), (4, [0, 2]), (1, [0])] := rfl

end Setting

namespace Scene

variable {A : Type}

/-- The report on a walk that was given up tells the node and the path. -/
theorem report_of_abort? (scene : Scene) (regime : Regime) {f : ValueFailure} {node : Value}
    {path : List Value} (hf : f.abort? = some (node, path)) :
    ∃ reason, scene.report regime f = .ofAbort ⟨reason, node, path⟩ := by
  cases f <;> cases hf
  · exact ⟨_, rfl⟩
  · exact ⟨_, rfl⟩

/-- The path belongs to the walk: at every point it is the list of the nodes on the stack, the root
first, each given by a child of the one before it, whatever states the evaluator returns. Where a
walk is given up, the depth in the message is that of the last event. -/
theorem owns_path (scene : Scene) (registry : ValueRegistry) (limits : Limits)
    (evaluator : FoldOver A) (listener : Option (Listener Value Heard)) (budget : Nat)
    (start : Start A) (tracing : Bool) :
    (scene.setting registry limits evaluator listener).OwnsPath start.root
      (.start start.root start.context start.value (.start tracing) .nothing)
      (scene.reduce registry limits evaluator listener budget start tracing) ∧
    ∀ regime f c, scene.reduce registry limits evaluator listener budget start tracing =
      .failed f c → ∀ node path, f.abort? = some (node, path) →
      ∃ event reason, c.events.getLast? = some event ∧ event.kind = .fail ∧ event.node = node ∧
        (scene.report regime f).abort? = some ⟨reason, node, path⟩ ∧
        (scene.report regime f).message = traversalMessage event.depth reason.plain := by
  have howns := (scene.setting registry limits evaluator listener).ownsPath_reduce budget
    start.root start.context start.value (.start tracing) .nothing
  refine ⟨howns, ?_⟩
  intro regime f c hfailed node path hf
  obtain ⟨reason, hreport⟩ := scene.report_of_abort? regime hf
  refine ⟨_, reason, (howns.aborted f c hfailed node path hf).2, rfl, rfl, ?_, ?_⟩
  · rw [hreport]
    rfl
  · rw [hreport]
    rfl

end Scene

end GraphFold
