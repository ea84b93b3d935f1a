/-
GraphFold.Proofs.Walk.Listeners — a listener is told of a walk, and has no part
in it.

What a listener does is worked out from a journal alone: `Entry.annotate` tells
it of the events in a journal, oldest first, and puts a note after each at which
it raised. A walk with a listener is then the walk without one, annotated
(`reduce_eq_attend`). So neither what the listener remembers nor what it raises
at reaches the walk, and it hears the same events whatever it does at the ones
before.

  §1 Answers  — `Listener.tell`, what a listener does when told of some events.
  §2 Journals — `Entry.annotate`.
  §3 Steps    — `Config.Attended` is kept by a step.
  §4 Walks    — `OnlyObserved`, and the records of a walk over values.
-/
import GraphFold.Proofs.Walk.Silence
import GraphFold.Scene.Reduction

namespace GraphFold

variable {N K S A V E W L : Type} [Ord K]

/-! ## §1 Answers -/

/-- Whether a listener raised at each of some events, which it is told of one by one, and what it
remembers after the last. -/
def Listener.tell (hear : Listener N L) : List (Event N) → L → List Bool × L
  | [], heard => ([], heard)
  | e :: later, heard =>
    let (raised, heard) := hear e heard
    let (answers, heard) := Listener.tell hear later heard
    (raised :: answers, heard)

/-- One more event is told of last. -/
theorem Listener.tell_concat (hear : Listener N L) (events : List (Event N)) (e : Event N)
    (heard : L) :
    Listener.tell hear (events ++ [e]) heard =
      ((Listener.tell hear events heard).1 ++ [(hear e (Listener.tell hear events heard).2).1],
        (hear e (Listener.tell hear events heard).2).2) := by
  induction events generalizing heard with
  | nil => rfl
  | cons f later ih =>
    have hlater := ih (hear f heard).2
    simp only [List.cons_append, tell, hlater]

/-! ## §2 Journals -/

namespace Entry

@[simp] theorem tellsOfListener_handled (e : Event N) :
    (handled e : Entry N K S A V E).tellsOfListener = false := rfl

@[simp] theorem tellsOfListener_listenerRaised :
    (listenerRaised : Entry N K S A V E).tellsOfListener = true := rfl

variable (hear : Listener N L) (before : L)

/-- A journal with a note after each event at which a listener raises, and what the listener
remembers then. The journal has the newest entry first, so the listener is told of the later
entries first. -/
def annotate : List (Entry N K S A V E) → List (Entry N K S A V E) × L
  | [] => ([], before)
  | .handled e :: earlier =>
    let (noted, heard) := annotate earlier
    let (raised, heard) := hear e heard
    ((if raised then [.listenerRaised] else []) ++ .handled e :: noted, heard)
  | entry :: earlier =>
    let (noted, heard) := annotate earlier
    (entry :: noted, heard)

variable {hear before}

/-- Only an event is told of. -/
theorem annotate_cons_of_event?_eq_none {entry : Entry N K S A V E}
    {earlier : List (Entry N K S A V E)} (h : entry.event? = none) :
    annotate hear before (entry :: earlier) =
      (entry :: (annotate hear before earlier).1, (annotate hear before earlier).2) := by
  cases entry <;> first | rfl | cases h

theorem annotate_handled (e : Event N) (earlier : List (Entry N K S A V E)) :
    annotate hear before (.handled e :: earlier) =
      ((if (hear e (annotate hear before earlier).2).1 then [.listenerRaised] else []) ++
          .handled e :: (annotate hear before earlier).1,
        (hear e (annotate hear before earlier).2).2) := rfl

/-- What tells nothing of the listener is in both journals. -/
theorem filterMap_annotate {B : Type} {f : Entry N K S A V E → Option B}
    (hf : f .listenerRaised = none) (journal : List (Entry N K S A V E)) :
    (annotate hear before journal).1.filterMap f = journal.filterMap f := by
  induction journal with
  | nil => rfl
  | cons entry earlier ih =>
    cases entry with
    | handled e =>
      rw [annotate_handled, List.filterMap_append, List.filterMap_cons, ih, List.filterMap_cons]
      split <;> simp [hf]
    | arrived | called | asked | listenerRaised =>
      rw [annotate_cons_of_event?_eq_none rfl, List.filterMap_cons, List.filterMap_cons, ih]

theorem filterMap_event?_handled (e : Event N) (earlier : List (Entry N K S A V E)) :
    (Entry.handled e :: earlier).filterMap event? = e :: earlier.filterMap event? := rfl

/-- What a listener remembers is what it was told of in the journal. -/
theorem annotate_snd (journal : List (Entry N K S A V E)) :
    (annotate hear before journal).2 =
      (Listener.tell hear (journal.filterMap event?).reverse before).2 := by
  induction journal with
  | nil => rfl
  | cons entry earlier ih =>
    cases entry with
    | handled e =>
      rw [filterMap_event?_handled, List.reverse_cons, Listener.tell_concat, ← ih,
        annotate_handled]
    | arrived | called | asked | listenerRaised =>
      rw [annotate_cons_of_event?_eq_none rfl, List.filterMap_cons_none rfl, ih]

/-- There is one more note for each event at which a listener raised. -/
theorem countP_annotate (journal : List (Entry N K S A V E)) :
    (annotate hear before journal).1.countP tellsOfListener =
      journal.countP tellsOfListener +
        (Listener.tell hear (journal.filterMap event?).reverse before).1.count true := by
  induction journal with
  | nil => rfl
  | cons entry earlier ih =>
    cases entry with
    | handled e =>
      rw [filterMap_event?_handled, List.reverse_cons, Listener.tell_concat, ← annotate_snd,
        annotate_handled, List.count_append, ← Nat.add_assoc, List.countP_cons_of_neg (by simp),
        ← ih]
      cases (hear e (annotate hear before earlier).2).1 <;> simp [List.countP_cons]
    | arrived | called | asked | listenerRaised =>
      rw [annotate_cons_of_event?_eq_none rfl, List.filterMap_cons_none rfl, List.countP_cons,
        List.countP_cons, ih, Nat.add_right_comm]

end Entry

/-! ## §3 Steps -/

/-- The point at which a listener was told of what the journal has. -/
def Config.attend (hear : Listener N L) (before : L) (c : Config N K S A V E W L) :
    Config N K S A V E W L :=
  { c with
    heard := (Entry.annotate hear before c.journal).2
    journal := (Entry.annotate hear before c.journal).1 }

/-- The same of a run. -/
def Outcome.attend (hear : Listener N L) (before : L) :
    Outcome N K S A V E W L → Outcome N K S A V E W L
  | .finished c => .finished (c.attend hear before)
  | .failed f c => .failed f (c.attend hear before)
  | .unfinished c => .unfinished (c.attend hear before)

/-- The listener was told of the events in the journal, and each time it raised is noted there. -/
def Config.Attended (hear : Listener N L) (before : L) (c : Config N K S A V E W L) : Prop :=
  Entry.annotate hear before (c.journal.filter fun entry => !entry.tellsOfListener) =
    (c.journal, c.heard)

variable {hear : Listener N L} {before : L} {g : Setting N K S A V E W L}
  {c : Config N K S A V E W L}

theorem Config.attend_silence (heard : L) (hc : c.Attended hear before) :
    (c.silence heard).attend hear before = c := by
  unfold attend silence
  rw [hc]

theorem Outcome.attend_silence {o : Outcome N K S A V E W L} (heard : L)
    (ho : o.config.Attended hear before) : (o.silence heard).attend hear before = o := by
  cases o with
  | finished c => exact congrArg _ (Config.attend_silence heard ho)
  | failed f c => exact congrArg _ (Config.attend_silence heard ho)
  | unfinished c => exact congrArg _ (Config.attend_silence heard ho)

namespace Setting

/-- An entry that is neither an event nor about the listener does not concern it. -/
theorem attended_cons {entry : Entry N K S A V E} (hevent : entry.event? = none)
    (htells : entry.tellsOfListener = false) {journal : List (Entry N K S A V E)} {heard : L}
    (h : Entry.annotate hear before (journal.filter fun entry => !entry.tellsOfListener) =
      (journal, heard)) :
    Entry.annotate hear before ((entry :: journal).filter fun entry => !entry.tellsOfListener) =
      (entry :: journal, heard) := by
  rw [List.filter_cons_of_pos (by simp [htells]), Entry.annotate_cons_of_event?_eq_none hevent, h]

end Setting

/-- A report tells the listener of one more event. -/
theorem Config.Attended.report (hc : c.Attended hear before) (kind : EventKind) (node : N)
    (depth : Nat) : (c.report (some hear) kind node depth).Attended hear before := by
  unfold Attended at hc ⊢
  rcases hhear : hear ⟨kind, depth, node, c.evaluations⟩ c.heard with ⟨_ | _, heard⟩
  all_goals
    simp [Config.report, Config.note, hhear, Entry.annotate_handled, hc]

namespace Setting

theorem attended_step (hlistener : g.listener = some hear) (hc : c.Attended hear before) :
    (g.step c).config.Attended hear before := by
  have hmove := g.move c
  generalize g.step c = p at hmove ⊢
  cases hmove with
  | pull | pullRaised | drop | dropRaised | finish => exact hc
  | handle node p hpending harrival =>
    cases harrival with
    | unkeyed => exact attended_cons rfl rfl hc
    | raised | refused => exact attended_cons rfl rfl (attended_cons rfl rfl hc)
    | unlisted =>
      exact attended_cons rfl rfl (attended_cons rfl rfl (attended_cons rfl rfl hc))
    | skipped | tooDeep =>
      rw [hlistener]
      refine Config.Attended.report ?_ ..
      exact attended_cons rfl rfl hc
    | rejected | pruned =>
      rw [hlistener]
      refine Config.Attended.report ?_ ..
      exact attended_cons rfl rfl (attended_cons rfl rfl hc)
    | notListed =>
      rw [hlistener]
      refine Config.Attended.report ?_ ..
      exact attended_cons rfl rfl (attended_cons rfl rfl (attended_cons rfl rfl hc))
    | opened =>
      rw [hlistener]
      refine Config.Attended.report (c := Config.mk ..) ?_ ..
      exact attended_cons rfl rfl (attended_cons rfl rfl (attended_cons rfl rfl hc))

/-! ## §4 Walks -/

/-- A walk with a listener is the walk without one, of which the listener is told. -/
theorem reduce_eq_attend (hlistener : g.listener = some hear) (budget : Nat) (root : N)
    (context : S) (value : A) (memory : W) (heard : L) :
    g.reduce budget root context value memory before =
      (g.silenced.reduce budget root context value memory heard).attend hear before := by
  have hattended : (g.reduce budget root context value memory before).config.Attended hear before :=
    g.holds_of_outcome (P := fun _ => True) (Q := fun c => c.Attended hear before)
      (fun _ _ _ _ => trivial) (fun _ _ hc => attended_step hlistener hc) trivial rfl
  rw [← silence_reduce heard g budget root context value memory before]
  exact (Outcome.attend_silence heard hattended).symm

/-- Nothing is noted about a listener where nobody listens. -/
theorem countP_tellsOfListener_silenced (budget : Nat) (root : N) (context : S) (value : A)
    (memory : W) (heard : L) :
    (g.silenced.reduce budget root context value memory heard).config.journal.countP
      Entry.tellsOfListener = 0 := by
  rw [← silence_reduce heard g budget root context value memory heard]
  have hnone : ∀ journal : List (Entry N K S A V E),
      (journal.filter fun entry => !entry.tellsOfListener).countP Entry.tellsOfListener = 0 := by
    intro journal
    rw [List.countP_eq_zero]
    intro entry hentry
    simpa using (List.mem_filter.1 hentry).2
  cases g.reduce budget root context value memory heard <;> exact hnone _

end Setting

/-- What a walk `o` with this listener, which remembers so much before, has to do with the walk `p`
in its place to which nobody listens. -/
structure OnlyObserved (hear : Listener N L) (before : L) (o p : Outcome N K S A V E W L) :
    Prop where
  /-- The walk arrives at the same nodes, and asks for their keys. -/
  arrivals_eq : o.config.arrivals = p.config.arrivals
  /-- The evaluator is called for the same nodes in the same states, and it answers the same. -/
  calls_eq : o.config.calls = p.config.calls
  /-- The children of the same nodes are looked up, and as many are listed. -/
  lookups_eq : o.config.lookups = p.config.lookups
  /-- Whatever else the evaluator and the capabilities did is the same. -/
  memory_eq : o.config.memory = p.config.memory
  /-- The result is the same. -/
  finished : ∀ c, p = .finished c → ∃ d, o = .finished d ∧
    d.value = c.value ∧ d.state = c.state ∧ d.evaluations = c.evaluations
  /-- The walk fails in the same way, with the same reason, node and path. -/
  failed : ∀ f c, p = .failed f c → ∃ d, o = .failed f d
  /-- A walk that has come to no end yet is at the same point. -/
  unfinished : ∀ c, p = .unfinished c → ∃ d, o = .unfinished d ∧
    d.pending = c.pending ∧ d.frames = c.frames ∧ d.state = c.state ∧ d.value = c.value
  /-- The same is reported of the nodes. -/
  events_eq : o.config.events = p.config.events
  /-- The listener is told of just that, one by one, also after it raised. -/
  heard_eq : o.config.heard = (Listener.tell hear p.config.events before).2
  /-- Each time it raised is noted once. -/
  countP_eq : o.config.journal.countP Entry.tellsOfListener =
    p.config.journal.countP Entry.tellsOfListener +
      (Listener.tell hear p.config.events before).1.count true

theorem onlyObserved_attend (hear : Listener N L) (before : L) (p : Outcome N K S A V E W L) :
    OnlyObserved hear before (p.attend hear before) p := by
  have hconfig : (p.attend hear before).config = p.config.attend hear before := by
    cases p <;> rfl
  refine ⟨?_, ?_, ?_, ?_, ?_, ?_, ?_, ?_, ?_, ?_⟩
  · rw [hconfig]
    exact congrArg List.reverse (Entry.filterMap_annotate rfl _)
  · rw [hconfig]
    exact congrArg List.reverse (Entry.filterMap_annotate rfl _)
  · rw [hconfig]
    exact congrArg List.reverse (Entry.filterMap_annotate rfl _)
  · rw [hconfig]
    rfl
  · rintro c rfl
    exact ⟨_, rfl, rfl, rfl, rfl⟩
  · rintro f c rfl
    exact ⟨_, rfl⟩
  · rintro c rfl
    exact ⟨_, rfl, rfl, rfl, rfl, rfl⟩
  · rw [hconfig]
    exact congrArg List.reverse (Entry.filterMap_annotate rfl _)
  · rw [hconfig]
    exact Entry.annotate_snd _
  · rw [hconfig]
    exact Entry.countP_annotate _

namespace Scene

variable {A : Type}

/-- There is one record for each note about the listener. -/
theorem raisedRecords_eq (c : ValueConfig A) :
    c.raisedRecords =
      List.replicate (c.journal.countP Entry.tellsOfListener) LogRecord.listenerRaised := by
  rw [← List.countP_reverse]
  unfold Config.raisedRecords
  induction c.journal.reverse with
  | nil => rfl
  | cons entry later ih =>
    cases entry with
    | listenerRaised =>
      rw [List.countP_cons_of_pos rfl, List.replicate_succ, ← ih]
      rfl
    | arrived | called | asked | handled =>
      rw [List.countP_cons_of_neg Bool.false_ne_true, ← ih]
      rfl

/-- Nor does the regime of a walk change what the listener has to do with it. -/
theorem reduceUnder_eq_attend (scene : Scene) (registry : ValueRegistry) (regime : Regime)
    (evaluator : FoldOver A) (hear : Listener Value Heard) (budget : Nat) (start : Start A)
    (tracing : Bool) :
    scene.reduceUnder registry regime evaluator (some hear) budget start tracing =
      (scene.reduceUnder registry regime evaluator none budget start tracing).attend hear
        .nothing := by
  unfold reduceUnder
  split
  · rfl
  · exact Setting.reduce_eq_attend rfl ..
  · exact Setting.reduce_eq_attend rfl ..

theorem countP_tellsOfListener_reduceUnder (scene : Scene) (registry : ValueRegistry)
    (regime : Regime) (evaluator : FoldOver A) (budget : Nat) (start : Start A) (tracing : Bool) :
    (scene.reduceUnder registry regime evaluator none budget start tracing).config.journal.countP
      Entry.tellsOfListener = 0 := by
  unfold reduceUnder
  split
  · rfl
  · exact Setting.countP_tellsOfListener_silenced (g := scene.setting registry _ _ none) ..
  · exact Setting.countP_tellsOfListener_silenced (g := scene.setting registry _ _ none) ..

/-- A listener has no part in a walk. Whatever it does with the events, and at whichever of them it
raises, the evaluator and the capabilities are asked the same, the walk comes to the same result or
fails in the same way, and the listener is told of the same events. For each one at which it raises
there is one record, that of an error. -/
theorem listener_only_observes (scene : Scene) (registry : ValueRegistry) (regime : Regime)
    (evaluator : FoldOver A) (hear : Listener Value Heard) (budget : Nat) (start : Start A)
    (tracing : Bool) :
    let heard := scene.reduceUnder registry regime evaluator (some hear) budget start tracing
    let unheard := scene.reduceUnder registry regime evaluator none budget start tracing
    OnlyObserved hear .nothing heard unheard ∧ unheard.config.raisedRecords = [] ∧
      heard.config.raisedRecords =
        List.replicate ((Listener.tell hear unheard.config.events .nothing).1.count true)
          LogRecord.listenerRaised := by
  intro heard unheard
  have hsilent := scene.countP_tellsOfListener_reduceUnder registry regime evaluator budget start
    tracing
  have hobserved : OnlyObserved hear .nothing heard unheard := by
    rw [show heard = unheard.attend hear .nothing from scene.reduceUnder_eq_attend ..]
    exact onlyObserved_attend ..
  refine ⟨hobserved, ?_, ?_⟩
  · rw [raisedRecords_eq, hsilent]
    rfl
  · rw [raisedRecords_eq, hobserved.countP_eq, hsilent, Nat.zero_add]

end Scene

end GraphFold
