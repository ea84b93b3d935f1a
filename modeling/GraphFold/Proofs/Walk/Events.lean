/-
GraphFold.Proofs.Walk.Events — the events of a walk record it in preorder.

An event tells how deep its node is, and the depths bracket the stream: what
comes below a node is reported after it, up to the next event that is not
deeper. Two things are proved. At every point of a walk the depths and counts
of the events so far fit together; that is an invariant of single steps
(`Recorded`). And in a walk that comes to its end the events just below a node
are one for each child that was listed for it, in order; that is an induction
over the nested parts of the walk (`Passage.exists_adds`).

The journal has events whether anyone listens or not. A listener hears these and
no others (`Hears`).

  §1 Streams  — what is read off a list of events.
  §2 Steps    — the event a step reports.
  §3 Points   — `Setting.Recorded`.
  §4 Brackets — `Setting.Bracketed`, the events below a node.
  §5 Walks    — `Setting.events_record_walk`.
-/
import GraphFold.Proofs.Walk.Bounds
import GraphFold.Proofs.Walk.Path
import GraphFold.Proofs.Walk.Refinement
import Mathlib.Data.List.Chain
import Mathlib.Data.List.TakeWhile

namespace GraphFold

variable {N K S A V E W L : Type} [Ord K]

/-! ## §1 Streams -/

/-- The node was evaluated, and the walk went on with the answer. -/
def EventKind.evaluates : EventKind → Bool
  | .descend | .prune => true
  | .skip | .fail => false

namespace Event

/-- How many of these events are of nodes that were evaluated. -/
def evaluated (events : List (Event N)) : Nat := events.countP fun e => e.kind.evaluates

/-- The greatest depth of an event that comes next. -/
def reach (e : Event N) : Nat := if e.kind = .descend then e.depth + 1 else e.depth

/-- Of the events after one of this depth those just below it: up to the next event that is not
deeper, the ones that are one deeper. -/
def below (depth : Nat) (later : List (Event N)) : List (Event N) :=
  (later.takeWhile fun e => depth < e.depth).filter fun e => e.depth = depth + 1

/-- The depths and the counts of a stream fit together. Only the first event is at the root; none
comes after a failure, and each is within the reach of the one before it; and every other event
counts the nodes evaluated so far, its own included. -/
structure Consistent (events : List (Event N)) : Prop where
  first : ∀ e ∈ events.head?, e.depth = 0
  later : ∀ e ∈ events.tail, 1 ≤ e.depth
  next : events.IsChain fun e f => e.kind ≠ .fail ∧ f.depth ≤ e.reach
  counted : ∀ earlier e, earlier ++ [e] <+: events → e.kind ≠ .fail →
    e.evaluations = evaluated (earlier ++ [e])

/-- The last of the events is the only failure. It is of this node, and it counts this many nodes
besides those evaluated before it. -/
def FailsLast (node : N) (besides : Nat) (events : List (Event N)) : Prop :=
  ∃ earlier e, events = earlier ++ [e] ∧ (∀ f ∈ earlier, f.kind ≠ .fail) ∧ e.kind = .fail ∧
    e.node = node ∧ e.evaluations = evaluated earlier + besides

variable {events later more : List (Event N)} {e : Event N} {depth : Nat}

theorem evaluated_concat :
    evaluated (events ++ [e]) = evaluated events + if e.kind.evaluates then 1 else 0 := by
  simp [evaluated, List.countP_append, List.countP_cons]

theorem consistent_nil : Consistent ([] : List (Event N)) where
  first _ h := by cases h
  later _ h := by cases h
  next := .nil
  counted earlier e h := by simp at h

theorem Consistent.concat (h : Consistent events) (hroot : e.depth = 0 ↔ events = [])
    (hnext : ∀ last ∈ events.getLast?, last.kind ≠ .fail ∧ e.depth ≤ last.reach)
    (hcount : e.kind ≠ .fail → e.evaluations = evaluated (events ++ [e])) :
    Consistent (events ++ [e]) where
  first f hf := by
    cases events with
    | nil =>
      cases hf
      exact hroot.2 rfl
    | cons head tail => exact h.first f hf
  later f hf := by
    cases events with
    | nil => cases hf
    | cons head tail =>
      rcases List.mem_append.1 hf with hold | hnew
      · exact h.later f hold
      · rw [List.mem_singleton.1 hnew]
        exact Nat.pos_of_ne_zero fun hzero => by cases hroot.1 hzero
  next := by
    refine List.isChain_append.2 ⟨h.next, .singleton _, ?_⟩
    intro last hlast f hf
    cases hf
    exact hnext last hlast
  counted earlier f hprefix hkind := by
    rcases List.prefix_concat_iff.1 hprefix with hall | hold
    · obtain ⟨rfl, hsame⟩ := List.append_inj' hall rfl
      cases hsame
      exact hcount hkind
    · exact h.counted earlier f hold hkind

/-- What follows an event that is not deeper does not count. -/
theorem below_append (hmore : ∀ f ∈ more.head?, f.depth ≤ depth) :
    below depth (later ++ more) = below depth later := by
  have hstop : more.takeWhile (fun f => depth < f.depth) = [] := by
    cases more with
    | nil => rfl
    | cons f rest =>
      have hf := hmore f rfl
      rw [List.takeWhile_cons_of_neg (by simpa using hf)]
  unfold below
  rw [List.takeWhile_append, hstop]
  split
  · rename_i hall
    rw [List.append_nil, (List.takeWhile_prefix _).eq_of_length hall]
  · rfl

theorem below_of_forall (h : ∀ f ∈ later, depth < f.depth) :
    below depth later = later.filter fun f => f.depth = depth + 1 := by
  unfold below
  rw [List.takeWhile_eq_self_iff.2 (by simpa using h)]

end Event

/-! ## §2 Steps -/

namespace Setting

variable {g : Setting N K S A V E W L} {c d : Config N K S A V E W L}

/-- In a step from `c` to `d` that handles a node this event is reported. -/
structure Reports (c d : Config N K S A V E W L) (e : Event N) : Prop where
  pending_eq : c.pending = some e.node
  depth_eq : e.depth = c.frames.length
  events_eq : d.events = c.events ++ [e]
  kind_ne : e.kind ≠ .fail
  counted : e.evaluations = c.evaluations + if e.kind.evaluates then 1 else 0
  evaluations_eq : d.evaluations = e.evaluations
  length_frames : d.frames.length = e.reach
  done : d.pending = none
  lookups_eq : d.lookups.map Lookup.node =
    c.lookups.map Lookup.node ++ if e.kind = .descend then [e.node] else []

/-- A step that handles a node reports one event. -/
theorem exists_reports {node : N} (hpending : c.pending = some node)
    (h : g.step c = .running d) : ∃ e, Reports c d e ∧ e.node = node := by
  have harrival := arrival_of_step hpending h
  have hdone := harrival.pending_eq_none
  cases harrival with
  | skipped =>
    refine ⟨_, ⟨hpending, rfl, Config.report_events .., nofun, rfl, ?_, ?_, hdone, ?_⟩, rfl⟩
    all_goals simp [Event.reach]
  | pruned =>
    refine ⟨_, ⟨hpending, rfl, Config.report_events .., nofun, rfl, ?_, ?_, hdone, ?_⟩, rfl⟩
    all_goals simp [Event.reach]
  | opened =>
    refine ⟨⟨.descend, c.frames.length, node, c.evaluations + 1⟩,
      ⟨hpending, rfl, ?_, nofun, rfl, ?_, ?_, hdone, ?_⟩, rfl⟩
    · exact (Config.events_of_journal rfl).trans (Config.report_events ..)
    all_goals simp [Event.reach]

theorem lookups_of_opened {node : N} {frame : Frame N E W} (hpending : c.pending = some node)
    (h : g.step c = .running d) (hframes : d.frames = frame :: c.frames) :
    ∃ s memory left, (g.children node s).perform memory = (.ok (.ok frame.pulls), left) ∧
      d.lookups = c.lookups ++ [⟨node, s, some frame.pulls.each.length⟩] := by
  have harrival := arrival_of_step hpending h
  cases harrival with
  | skipped => simp at hframes
  | pruned => simp at hframes
  | opened key value given memory pulls left hkey hseen hlimit hcall hlookup =>
    simp only [List.cons.injEq, and_true] at hframes
    subst hframes
    exact ⟨_, memory, left, hlookup, by simp⟩

/-- A step between two arrivals reports none. -/
theorem events_of_none (hnone : c.pending = none) (h : g.step c = .running d) :
    d.events = c.events ∧ d.evaluations = c.evaluations ∧ d.lookups = c.lookups ∧
      d.frames.length ≤ c.frames.length ∧ (d.pending.isSome → d.frames ≠ []) := by
  have hmove := g.move c
  rw [h] at hmove
  cases hmove with
  | handle node p hpending => rw [hnone] at hpending; cases hpending
  | pull above pull later ending outer child left _ hframes =>
    exact ⟨rfl, rfl, rfl, by simp [hframes], fun _ => by simp⟩
  | drop above ending outer left _ hframes =>
    exact ⟨rfl, rfl, rfl, by simp [hframes], fun hsome => by rw [hnone] at hsome; cases hsome⟩

/-! ## §3 Points -/

/-- What the events so far say of a point of a walk. -/
structure Recorded (c : Config N K S A V E W L) : Prop where
  consistent : Event.Consistent c.events
  unfailed : ∀ e ∈ c.events, e.kind ≠ .fail
  evaluations_eq : c.evaluations = Event.evaluated c.events
  reach : ∀ last ∈ c.events.getLast?, c.frames.length ≤ last.reach
  /-- Before the first event the root is pending, and later no node is without a frame above it. -/
  root : (c.events = [] → c.pending.isSome ∧ c.frames = []) ∧
    (c.pending.isSome → c.frames = [] → c.events = [])
  arrivals_eq : c.events.map Event.node = c.arrivals
  lookups_eq : c.lookups.map Lookup.node =
    (c.events.filter fun e => e.kind = .descend).map Event.node

theorem recorded_start (root : N) (context : S) (value : A) (memory : W) (heard : L) :
    Recorded (.start root context value memory heard : Config N K S A V E W L) where
  consistent := Event.consistent_nil
  unfailed _ h := by cases h
  evaluations_eq := rfl
  reach _ h := by cases h
  root := ⟨fun _ => ⟨rfl, rfl⟩, fun _ _ => rfl⟩
  arrivals_eq := rfl
  lookups_eq := rfl

/-- An event of the pending node, at its depth, fits the events before it. -/
theorem Recorded.concat (hc : Recorded c) {e : Event N} (hpending : c.pending = some e.node)
    (hdepth : e.depth = c.frames.length)
    (hcount : e.kind ≠ .fail →
      e.evaluations = c.evaluations + if e.kind.evaluates then 1 else 0) :
    Event.Consistent (c.events ++ [e]) := by
  refine hc.consistent.concat ?_ ?_ ?_
  · rw [hdepth, List.length_eq_zero_iff]
    exact ⟨hc.root.2 (by rw [hpending]; rfl), fun hnone => (hc.root.1 hnone).2⟩
  · intro last hlast
    exact ⟨hc.unfailed last (List.mem_of_mem_getLast? hlast), hdepth ▸ hc.reach last hlast⟩
  · intro hkind
    rw [hcount hkind, hc.evaluations_eq, Event.evaluated_concat]

theorem Recorded.step (hc : Recorded c) (h : g.step c = .running d) : Recorded d := by
  have harrivals := arrivals_of_step h
  cases hpending : c.pending with
  | some node =>
    obtain ⟨e, hreports, rfl⟩ := exists_reports hpending h
    have hevents := hreports.events_eq
    refine ⟨?_, ?_, ?_, ?_, ?_, ?_, ?_⟩
    · rw [hevents]
      exact hc.concat hpending hreports.depth_eq fun _ => hreports.counted
    · intro f hf
      rw [hevents] at hf
      rcases List.mem_append.1 hf with hold | hnew
      · exact hc.unfailed f hold
      · rw [List.mem_singleton.1 hnew]
        exact hreports.kind_ne
    · rw [hreports.evaluations_eq, hreports.counted, hc.evaluations_eq, hevents,
        Event.evaluated_concat]
    · intro last hlast
      rw [hevents, List.getLast?_concat] at hlast
      cases hlast
      exact Nat.le_of_eq hreports.length_frames
    · have hsome : d.events ≠ [] := by simp [hevents]
      refine ⟨fun hnone => absurd hnone hsome, fun hpending => ?_⟩
      rw [hreports.done] at hpending
      cases hpending
    · rw [harrivals, hpending, hevents, List.map_append, hc.arrivals_eq]
      rfl
    · rw [hreports.lookups_eq, hevents, hc.lookups_eq, List.filter_append, List.map_append]
      by_cases hkind : e.kind = .descend <;> simp [hkind]
  | none =>
    obtain ⟨hevents, hcount, hlookups, hlength, hinside⟩ := events_of_none hpending h
    have hsome : d.events ≠ [] := by
      intro hnone
      have hstart := hc.root.1 (hevents ▸ hnone)
      rw [hpending] at hstart
      cases hstart.1
    rw [hpending] at harrivals
    refine ⟨hevents ▸ hc.consistent, hevents ▸ hc.unfailed, ?_, ?_, ?_, ?_, ?_⟩
    · rw [hcount, hevents, hc.evaluations_eq]
    · intro last hlast
      rw [hevents] at hlast
      exact Nat.le_trans hlength (hc.reach last hlast)
    · exact ⟨fun hnone => absurd hnone hsome, fun hpending hnone => absurd hnone (hinside hpending)⟩
    · rw [hevents, hc.arrivals_eq, harrivals]
      simp
    · rw [hlookups, hevents, hc.lookups_eq]

/-- The events still fit together after a step that ends the walk. -/
theorem Recorded.consistent_step (hc : Recorded c) :
    Event.Consistent (g.step c).config.events := by
  have hmove := g.move c
  generalize hstep : g.step c = p at hmove ⊢
  cases hmove with
  | handle node p hpending harrival =>
    cases harrival with
    | skipped | pruned | opened => exact (hc.step hstep).consistent
    | unkeyed | raised | refused | unlisted => exact hc.consistent
    | tooDeep | rejected =>
      rw [Progress.config, Config.report_events]
      exact hc.concat hpending rfl fun hkind => absurd rfl hkind
    | notListed =>
      rw [Progress.config, Config.report_events]
      exact hc.concat hpending rfl fun _ => rfl
  | pull | drop => exact (hc.step hstep).consistent
  | pullRaised | dropRaised | finish => exact hc.consistent

/-- A node that is given up is the only failure among the events. The count has the node in it if
the evaluator was asked about it. -/
theorem Recorded.failsLast (hc : Recorded c) {node : N} {path : List N} :
    (∀ reason, g.step c = .failed (.rejected reason node path) d →
      Event.FailsLast node 1 d.events) ∧
    ∀ limit, g.step c = .failed (.tooDeep limit node path) d →
      Event.FailsLast node 0 d.events := by
  have hmove := g.move c
  refine ⟨fun reason h => ?_, fun limit h => ?_⟩
  · rw [h] at hmove
    cases hmove with
    | handle x p hpending harrival =>
      cases harrival with
      | rejected =>
        exact ⟨c.events, _, Config.report_events .., hc.unfailed, rfl, rfl,
          congrArg (· + 1) hc.evaluations_eq⟩
      | refused key answer f memory hkey hseen hlimit hcall hrefused =>
        cases abort?_of_refusal hrefused
  · rw [h] at hmove
    cases hmove with
    | handle x p hpending harrival =>
      cases harrival with
      | tooDeep =>
        exact ⟨c.events, _, Config.report_events .., hc.unfailed, rfl, rfl, hc.evaluations_eq⟩
      | refused key answer f memory hkey hseen hlimit hcall hrefused =>
        cases abort?_of_refusal hrefused

/-- What a listener has heard, if it was told of these events, and of no others, in this order. -/
def Hears (hear : Listener N L) (heard : L) (c : Config N K S A V E W L) : Prop :=
  c.heard = c.events.foldl (fun memory e => (hear e memory).2) heard

theorem Hears.report {hear : Listener N L} {heard : L} {kind : EventKind} {node : N} {depth : Nat}
    (hlistener : g.listener = some hear) (hc : Hears hear heard c) :
    Hears hear heard (c.report g.listener kind node depth) := by
  unfold Hears at hc ⊢
  rw [Config.report_events, List.foldl_append, ← hc, hlistener]
  simp only [Config.report, List.foldl_cons, List.foldl_nil]
  split <;> rename_i hheard
  all_goals simp [Config.note, hheard]

theorem Hears.step {hear : Listener N L} {heard : L} (hlistener : g.listener = some hear)
    (hc : Hears hear heard c) : Hears hear heard (g.step c).config := by
  have hmove := g.move c
  generalize g.step c = p at hmove ⊢
  cases hmove with
  | handle node p hpending harrival =>
    cases harrival with
    | unkeyed | raised | refused | unlisted => exact hc
    | skipped | tooDeep | rejected | pruned | notListed =>
      exact Hears.report hlistener hc
    | opened => exact Hears.report hlistener (c := Config.mk ..) hc
  | pull | pullRaised | drop | dropRaised | finish => exact hc

/-! ## §4 Brackets -/

variable (g) (start : Config N K S A V E W L)

/-- The step of the walk that reports the event, after these others, looks the children of its node
up. They are listed, and the step leads to `d`, with this frame for them on top of these. -/
def Finds (earlier : List (Event N)) (e : Event N) (d : Config N K S A V E W L)
    (frame : Frame N E W) (outer : List (Frame N E W)) : Prop :=
  ∃ n b s memory left, g.run n start = .unfinished b ∧ g.step b = .running d ∧
    b.events = earlier ∧ d.events = earlier ++ [e] ∧
    (g.children e.node s).perform memory = (.ok (.ok frame.pulls), left) ∧
    d.lookups = b.lookups ++ [⟨e.node, s, some frame.pulls.each.length⟩] ∧
    b.frames = outer ∧ d.frames = frame :: outer

/-- At `b` the walk asks for the child at position `i` of the frame that was on top of these at `d`:
the frame has stayed open, and the children before that one have been asked for. It is given the
node of the event, and then reports the event. -/
structure AsksFor (d : Config N K S A V E W L) (frame : Frame N E W) (outer : List (Frame N E W))
    (i : Nat) (e : Event N) (b : Config N K S A V E W L) : Prop where
  runsAbove : g.RunsAbove (outer.length + 1) d b
  pending_eq : b.pending = none
  frames_eq : b.frames =
    ⟨frame.ancestors, frame.pulls.each.drop i, frame.pulls.ending⟩ :: outer
  given : ∃ pull left, frame.pulls.each[i]? = some pull ∧
    pull.perform b.memory = (.ok e.node, left)
  reported : ∃ next last, g.step b = .running next ∧ g.step next = .running last ∧
    last.events = b.events ++ [e]

/-- These are the events of the children in this frame, one for each, in their order. -/
structure OfChildren (d : Config N K S A V E W L) (frame : Frame N E W)
    (outer : List (Frame N E W)) (events : List (Event N)) : Prop where
  length_eq : events.length = frame.pulls.each.length
  asksFor : ∀ i e, events[i]? = some e → ∃ b, g.AsksFor d frame outer i e b

/-- Of the events added after these, the ones just below a node whose children come next are those
of its children. -/
def Bracketed (earlier added : List (Event N)) : Prop :=
  ∀ before e later, added = before ++ e :: later → e.kind = .descend →
    ∃ d frame outer, g.Finds start (earlier ++ before) e d frame outer ∧
      g.OfChildren d frame outer (Event.below e.depth later)

variable {g} {start} {earlier added first rest : List (Event N)} {e : Event N}

theorem bracketed_nil : g.Bracketed start earlier [] := by
  intro before e later h
  simp at h

theorem Bracketed.cons (h : g.Bracketed start (earlier ++ [e]) added)
    (hfirst : e.kind = .descend → ∃ d frame outer, g.Finds start earlier e d frame outer ∧
      g.OfChildren d frame outer (Event.below e.depth added)) :
    g.Bracketed start earlier (e :: added) := by
  intro before f later heq hkind
  rcases List.cons_eq_append_iff.1 heq with ⟨rfl, hsame⟩ | ⟨before', rfl, hadded⟩
  · cases hsame
    rw [List.append_nil]
    exact hfirst hkind
  · have hlater := h before' f later hadded hkind
    rwa [List.append_assoc] at hlater

/-- Streams one after the other are bracketed, if the second begins with an event that is deeper
than none of the first. -/
theorem Bracketed.append (hfirst : g.Bracketed start earlier first)
    (hrest : g.Bracketed start (earlier ++ first) rest)
    (hhead : ∀ e ∈ first, ∀ f ∈ rest.head?, f.depth ≤ e.depth) :
    g.Bracketed start earlier (first ++ rest) := by
  intro before e later heq hkind
  rcases List.append_eq_append_iff.1 heq with ⟨middle, rfl, hmiddle⟩ | ⟨middle, rfl, hmiddle⟩
  · have hfinds := hrest middle e later hmiddle hkind
    rwa [List.append_assoc] at hfinds
  · rcases List.cons_eq_append_iff.1 hmiddle with ⟨rfl, hsame⟩ | ⟨middle', rfl, hlater⟩
    · have hfinds := hrest [] e later hsame hkind
      rwa [List.append_nil, List.append_nil] at hfinds
    · obtain ⟨d, frame, outer, hfinds, hkids⟩ := hfirst before e middle' rfl hkind
      refine ⟨d, frame, outer, hfinds, ?_⟩
      -- What comes below `e` ends before the second stream begins.
      rw [hlater, Event.below_append (hhead e (by simp))]
      exact hkids

variable (g) in
/-- The events of the node that is pending at `c` and of what is below it. The step from `c` reports
the first of them. -/
def OfNode (c : Config N K S A V E W L) (x : N) (events : List (Event N)) : Prop :=
  ∃ first rest last, events = first :: rest ∧ first.node = x ∧ first.depth = c.frames.length ∧
    (∀ e ∈ rest, c.frames.length < e.depth) ∧
    g.step c = .running last ∧ last.events = c.events ++ [first]

variable (g) in
/-- The events of the children in this frame, which is on top of these at `c`, and of what is below
them. -/
structure BelowNode (c : Config N K S A V E W L) (frame : Frame N E W)
    (outer : List (Frame N E W)) (events : List (Event N)) : Prop where
  head : ∀ e ∈ events.head?, e.depth = outer.length + 1
  le_depth : ∀ e ∈ events, outer.length + 1 ≤ e.depth
  kids : g.OfChildren c frame outer (events.filter fun e => e.depth = outer.length + 1)

theorem OfNode.le_depth {x : N} {events : List (Event N)} (h : g.OfNode c x events) :
    ∀ e ∈ events, c.frames.length ≤ e.depth := by
  obtain ⟨first, rest, _, rfl, _, hdepth, hdeeper, _⟩ := h
  intro e he
  rcases List.mem_cons.1 he with rfl | he
  · exact Nat.le_of_eq hdepth.symm
  · exact Nat.le_of_lt (hdeeper e he)

section Children

variable {above : List N} {pull : Pull W E N} {pulls : List (Pull W E N)}
  {ending : Action W E Unit} {outer : List (Frame N E W)} {x : N} {memory : W}
  {last : Config N K S A V E W L}

/-- The first child is asked for at once, -/
theorem asksFor_first (hpending : c.pending = none)
    (hframes : c.frames = ⟨above, pull :: pulls, ending⟩ :: outer)
    (hpull : pull.perform c.memory = (.ok e.node, memory)) (hstep : g.step c = .running d)
    (hnext : g.step d = .running last) (hevents : last.events = c.events ++ [e]) :
    g.AsksFor c ⟨above, pull :: pulls, ending⟩ outer 0 e c where
  runsAbove := .here (by rw [hframes]; exact Nat.le_refl _)
  pending_eq := hpending
  frames_eq := hframes
  given := ⟨pull, memory, rfl, hpull⟩
  reported := ⟨d, last, hstep, hnext, hevents⟩

/-- and the later ones from where their turn comes. -/
theorem AsksFor.of_later {b : Config N K S A V E W L} {i : Nat}
    (hrun : g.RunsAbove (outer.length + 1) c d)
    (h : g.AsksFor d ⟨above, pulls, ending⟩ outer i e b) :
    g.AsksFor c ⟨above, pull :: pulls, ending⟩ outer (i + 1) e b where
  runsAbove := hrun.trans h.runsAbove
  pending_eq := h.pending_eq
  frames_eq := h.frames_eq
  given := h.given
  reported := h.reported

/-- The events of the first child come before those of the later ones. -/
theorem BelowNode.cons (hpending : c.pending = none)
    (hframes : c.frames = ⟨above, pull :: pulls, ending⟩ :: outer)
    (hpull : pull.perform c.memory = (.ok x, memory)) (hstep : g.step c = .running d)
    (hd : d.events = c.events ∧ d.frames.length = outer.length + 1)
    (hfirst : g.OfNode d x first) (hrun : g.RunsAbove (outer.length + 1) d last)
    (hrest : g.BelowNode last ⟨above, pulls, ending⟩ outer rest) :
    g.BelowNode c ⟨above, pull :: pulls, ending⟩ outer (first ++ rest) := by
  obtain ⟨e, deeper, next, rfl, rfl, hdepth, hdeeper, hnext, hevents⟩ := hfirst
  rw [hd.2] at hdepth hdeeper
  rw [hd.1] at hevents
  have hnone : deeper.filter (fun f => f.depth = outer.length + 1) = [] := by
    rw [List.filter_eq_nil_iff]
    intro f hf
    have := hdeeper f hf
    simp
    omega
  have hkids : (e :: deeper ++ rest).filter (fun f => f.depth = outer.length + 1) =
      e :: rest.filter fun f => f.depth = outer.length + 1 := by
    rw [List.filter_append, List.filter_cons_of_pos (by simpa using hdepth), hnone]
    rfl
  refine ⟨fun f hf => ?_, fun f hf => ?_, ⟨?_, fun i f hi => ?_⟩⟩
  · cases hf
    exact hdepth
  · rcases List.mem_append.1 hf with hold | hnew
    · rcases List.mem_cons.1 hold with rfl | hold
      · exact Nat.le_of_eq hdepth.symm
      · exact Nat.le_of_lt (hdeeper f hold)
    · exact hrest.le_depth f hnew
  · rw [hkids, List.length_cons, hrest.kids.length_eq]
    rfl
  · rw [hkids] at hi
    cases i with
    | zero =>
      cases hi
      exact ⟨c, asksFor_first hpending hframes hpull hstep hnext hevents⟩
    | succ i =>
      obtain ⟨b, hb⟩ := hrest.kids.asksFor i f hi
      have hopen : outer.length + 1 ≤ c.frames.length := by
        rw [hframes]
        exact Nat.le_refl _
      exact ⟨b, hb.of_later (.step hopen hstep hrun)⟩

end Children

variable (g start) in
/-- Between these two points of the walk these events are added: those of the pending node and
below it, or those of the children to come and below them. -/
structure Adds (c d : Config N K S A V E W L) (added : List (Event N)) : Prop where
  events_eq : d.events = c.events ++ added
  bracketed : g.Bracketed start c.events added
  node : ∀ x, c.pending = some x → g.OfNode c x added
  children : ∀ frame outer, c.pending = none → c.frames = frame :: outer →
    g.BelowNode c frame outer added

theorem exists_adds_of_settled {node : N} (hpending : c.pending = some node)
    (hstep : g.step c = .running d) (hframes : d.frames = c.frames) :
    ∃ added, g.Adds start c d added := by
  obtain ⟨e, hreports, rfl⟩ := exists_reports hpending hstep
  refine ⟨[e], hreports.events_eq, bracketed_nil.cons fun hkind => ?_, fun x hx => ?_, ?_⟩
  · -- No frame was opened, so the event is none that descends.
    have hlength := hreports.length_frames
    rw [hframes, Event.reach, if_pos hkind, hreports.depth_eq] at hlength
    omega
  · rw [hpending] at hx
    cases hx
    exact ⟨e, [], d, rfl, rfl, hreports.depth_eq, nofun, hstep, hreports.events_eq⟩
  · intro frame outer hnone
    rw [hpending] at hnone
    cases hnone

/-- The event of a node whose children come next brackets what they add. -/
theorem Adds.nested {n : Nat} {d e last : Config N K S A V E W L} {node : N} {frame : Frame N E W}
    (hc : g.run n start = .unfinished c) (hpending : c.pending = some node)
    (hstep : g.step c = .running d) (hframes : d.frames = frame :: c.frames)
    (inner : g.Adds start d e added) (hlast : last.journal = e.journal) :
    ∃ all, g.Adds start c last all := by
  obtain ⟨own, hreports, rfl⟩ := exists_reports hpending hstep
  have hbelow := inner.children frame c.frames hreports.done hframes
  have hdepth := hreports.depth_eq
  have hevents := hreports.events_eq
  have hbracketed := inner.bracketed
  rw [hevents] at hbracketed
  refine ⟨own :: added, ?_, hbracketed.cons fun _ => ⟨d, frame, c.frames, ?_, ?_⟩,
    fun x hx => ?_, ?_⟩
  · rw [Config.events_of_journal hlast, inner.events_eq, hevents, List.append_assoc]
    rfl
  · obtain ⟨s, memory, left, hlookup, hlookups⟩ := lookups_of_opened hpending hstep hframes
    exact ⟨n, c, s, memory, left, hc, hstep, rfl, hevents, hlookup, hlookups, rfl, hframes⟩
  · rw [hdepth, Event.below_of_forall fun f hf => hbelow.le_depth f hf]
    exact hbelow.kids
  · rw [hpending] at hx
    cases hx
    exact ⟨own, added, d, rfl, rfl, hdepth, fun f hf => hbelow.le_depth f hf, hstep, hevents⟩
  · intro _ _ hnone
    rw [hpending] at hnone
    cases hnone

/-- The events of a child come before those of the children after it. -/
theorem Adds.next {d e f : Config N K S A V E W L} {above : List N} {pull : Pull W E N}
    {later : List (Pull W E N)} {ending : Action W E Unit} {outer : List (Frame N E W)} {child : N}
    (hpending : c.pending = none) (hframes : c.frames = ⟨above, pull :: later, ending⟩ :: outer)
    (hpull : pull.perform c.memory = (.ok child, d.memory))
    (hd : d = { c with
      pending := some child, frames := ⟨above, later, ending⟩ :: outer, memory := d.memory })
    (hpassage : g.Passage d e) (hfirst : g.Adds start d e first) (hrest : g.Adds start e f rest) :
    g.Adds start c f (first ++ rest) := by
  have hstep : g.step c = .running d := running_of_pull hpending hframes hpull hd
  have hdevents : d.events = c.events := Config.events_of_journal (by rw [hd])
  have hdframes : d.frames = ⟨above, later, ending⟩ :: outer := by rw [hd]
  have hchild := hfirst.node child (by rw [hd])
  have hlater := hrest.children ⟨above, later, ending⟩ outer hpassage.pending_eq_none
    (by rw [hpassage.frames_eq, hd]; rfl)
  have hdepth : d.frames.length = outer.length + 1 := by rw [hdframes, List.length_cons]
  have hevents := hfirst.events_eq
  have hbracketed := hfirst.bracketed
  rw [hdevents] at hevents hbracketed
  refine ⟨?_, ?_, fun x hx => ?_, ?_⟩
  · rw [hrest.events_eq, hevents, List.append_assoc]
  · refine hbracketed.append (hevents ▸ hrest.bracketed) fun a ha b hb => ?_
    rw [hlater.head b hb, ← hdepth]
    exact hchild.le_depth a ha
  · rw [hpending] at hx
    cases hx
  · intro _ _ _ hframes'
    rw [hframes] at hframes'
    cases hframes'
    exact .cons hpending hframes hpull hstep ⟨hdevents, hdepth⟩ hchild
      (hpassage.runsAbove (Nat.le_of_eq hdepth.symm)) hlater

/-- What a passage adds to the events. -/
theorem Passage.exists_adds {e : Config N K S A V E W L} (h : g.Passage c e)
    (hc : ∃ n, g.run n start = .unfinished c) : ∃ added, g.Adds start c e added := by
  -- A passage inside another starts at a point of the walk too, so `hc` goes along.
  induction h with
  | settled node hpending hstep hframes => exact exists_adds_of_settled hpending hstep hframes
  | @nested c d e node above pulls left hpending hstep hframes inner _ ih =>
    obtain ⟨n, hn⟩ := hc
    obtain ⟨added, hadded⟩ := ih ⟨n + 1, g.run_succ_of_unfinished hn hstep⟩
    exact hadded.nested hn hpending hstep hframes rfl
  | @done c above ending outer hpending hframes =>
    refine ⟨[], by simp, bracketed_nil, fun x hx => ?_, fun _ _ _ hframes' => ?_⟩
    · rw [hpending] at hx
      cases hx
    · rw [hframes] at hframes'
      cases hframes'
      exact ⟨nofun, nofun, rfl, nofun⟩
  | @next c d e f above pull later ending outer child hpending hframes hpull hd first _ ihfirst
      ihrest =>
    obtain ⟨n, hn⟩ := hc
    have hstep : g.step c = .running d := running_of_pull hpending hframes hpull hd
    have hreached := g.run_succ_of_unfinished hn hstep
    obtain ⟨m, hm⟩ := first.exists_run
    obtain ⟨added, hadded⟩ := ihfirst ⟨n + 1, hreached⟩
    obtain ⟨more, hmore⟩ := ihrest ⟨n + 1 + m, by rw [g.run_add_of_unfinished hreached, hm]⟩
    exact ⟨added ++ more, hadded.next hpending hframes hpull hd first hmore⟩

/-! ## §5 Walks -/

/-- The events of a walk from `start`, which ends or is cut off as `o`, record it in preorder. -/
structure RecordsWalk (g : Setting N K S A V E W L) (start : Config N K S A V E W L)
    (o : Outcome N K S A V E W L) : Prop where
  /-- Depths and counts fit together. -/
  consistent : Event.Consistent o.config.events
  /-- A listener is told of these events, one by one. -/
  heard : ∀ hear, g.listener = some hear → Hears hear start.heard o.config
  /-- At the end no node was given up, and the result counts the nodes evaluated. The events just
  below a node whose children came next are those of the children listed for it, one for each; so
  there are as many events as children were listed for such nodes, and one for the root. -/
  finished : ∀ c, o = .finished c →
    (∀ e ∈ c.events, e.kind ≠ .fail) ∧ c.evaluations = Event.evaluated c.events ∧
    g.Bracketed start [] c.events ∧
    c.lookups.map Lookup.node = (c.events.filter fun e => e.kind = .descend).map Event.node ∧
    c.events.length = 1 + Lookup.total c.lookups
  /-- A node that the evaluator gives up is counted. -/
  rejected : ∀ reason node path c, o = .failed (.rejected reason node path) c →
    Event.FailsLast node 1 c.events
  /-- A node that is too deep is not. -/
  tooDeep : ∀ limit node path c, o = .failed (.tooDeep limit node path) c →
    Event.FailsLast node 0 c.events

section Start

variable {root : N} {context : S} {value : A} {memory : W} {heard : L}

theorem recorded_of_run {n : Nat}
    (h : g.run n (.start root context value memory heard) = .unfinished c) : Recorded c :=
  g.invariant_of_run (fun _ _ hc h => Recorded.step hc h)
    (recorded_start root context value memory heard) h

/-- At the end of a walk nothing waits, so every child listed was arrived at. -/
theorem length_events_of_finished {budget : Nat}
    (h : g.reduce budget root context value memory heard = .finished c) :
    c.events.length = 1 + Lookup.total c.lookups := by
  obtain ⟨n, hn, hpending, hframes⟩ := g.exists_of_run_finished h
  have hsum := g.arrivals_add_waiting budget root context value memory heard rfl
  have hwaiting : c.waiting = 0 := by simp [Config.waiting, hpending, hframes]
  have harrivals := congrArg List.length (recorded_of_run hn).arrivals_eq
  rw [List.length_map] at harrivals
  rw [h, Outcome.config, hwaiting] at hsum
  rw [harrivals]
  exact hsum

theorem bracketed_of_finished {budget : Nat}
    (h : g.reduce budget root context value memory heard = .finished c) :
    g.Bracketed (.start root context value memory heard) [] c.events := by
  have hpassage := passage_of_run_finished rfl rfl rfl h
  obtain ⟨added, hadded⟩ := hpassage.exists_adds ⟨0, rfl⟩
  have hevents : c.events = added := hadded.events_eq
  rw [hevents]
  exact hadded.bracketed

end Start

/-- The events of a walk record it in preorder. The first is that of the root; after a node whose
children come next the depth goes up by one at most, and after any other node not at all; and in a
walk that comes to its end the events just below a node are one for each of its children, in order.
Every event counts the nodes evaluated so far, and a node that is given up has the last event. -/
theorem events_record_walk (g : Setting N K S A V E W L) (budget : Nat) (root : N) (context : S)
    (value : A) (memory : W) (heard : L) :
    g.RecordsWalk (.start root context value memory heard)
      (g.reduce budget root context value memory heard) where
  consistent := g.holds_of_outcome (P := Recorded) (Q := fun c => Event.Consistent c.events)
    (fun _ _ hc h => hc.step h) (fun _ hc _ => hc.consistent_step)
    (recorded_start root context value memory heard) Event.consistent_nil
  heard hear hlistener := g.holds_of_outcome (P := fun _ => True) (Q := Hears hear heard)
    (fun _ _ _ _ => trivial) (fun _ _ hc => hc.step hlistener) trivial rfl
  finished c h := by
    obtain ⟨n, hn, _⟩ := g.exists_of_run_finished h
    have hrecorded := recorded_of_run hn
    exact ⟨hrecorded.unfailed, hrecorded.evaluations_eq, bracketed_of_finished h,
      hrecorded.lookups_eq, length_events_of_finished h⟩
  rejected reason node path c h := by
    obtain ⟨n, d, hn, hstep⟩ := g.exists_of_run_failed h
    exact (recorded_of_run hn).failsLast.1 reason hstep
  tooDeep limit node path c h := by
    obtain ⟨n, d, hn, hstep⟩ := g.exists_of_run_failed h
    exact (recorded_of_run hn).failsLast.2 limit hstep

-- Node 1 is listed twice, and 2 contributes without its children.
example : ((counting (fun | 0 => [1, 2, 1] | 1 => [3] | 2 => [3] | _ => []) (· == 2)).reduce
    40 0 () 0 () ()).config.events.map (fun e => (e.kind, e.depth, e.node, e.evaluations)) =
      [(.descend, 0, 0, 1), (.descend, 1, 1, 2), (.descend, 2, 3, 3), (.prune, 1, 2, 4),
        (.skip, 1, 1, 4)] := rfl

end Setting

end GraphFold
