/-
GraphFold.Proofs.Walk.Agreement — two walks in step with each other.

Take two evaluators that give the same kind of answer wherever they are asked
alike, with values that are related and states that agree. The walks with them
go through the same points but for the values (`Config.Matches`): a step acts on
the kind of the answer, on the context and the seen set it carries, and on
nothing else. The ancestors in an answer are replaced before anyone reads them,
so nothing is asked of those.

When two seen sets are the same is a parameter. Equality will do, and so will
having the same keys; `SeenCongruence` says what is needed.

  §1 Answers  — what is asked of states, answers and evaluators.
  §2 Points   — when two points of two walks match.
  §3 Steps    — matching points have matching steps.
  §4 Runs     — so whole runs match.
  §5 Walks    — `Setting.returned_paths_do_not_interfere`.
-/
import GraphFold.Proofs.Walk.Threading
import Mathlib.Data.List.Forall2

namespace GraphFold

variable {N K S A B V E W L : Type} [Ord K]

/-! ## §1 Answers -/

/-- Both failed in the same way, or what both came to is related. -/
inductive Alike {α β : Type} (R : α → β → Prop) : Except E α → Except E β → Prop
  | error (e : E) : Alike R (.error e) (.error e)
  | ok {a : α} {b : β} (h : R a b) : Alike R (.ok a) (.ok b)

theorem Alike.bind {α β γ δ : Type} {R : α → β → Prop} {T : γ → δ → Prop} {x : Except E α}
    {y : Except E β} {f : α → Except E γ} {g : β → Except E δ} (h : Alike R x y)
    (hfg : ∀ a b, R a b → Alike T (f a) (g b)) : Alike T (x >>= f) (y >>= g) := by
  cases h with
  | error e => exact .error e
  | ok hab => exact hfg _ _ hab

theorem Alike.map {α β γ δ : Type} {R : α → β → Prop} {T : γ → δ → Prop} {x : Except E α}
    {y : Except E β} {f : α → γ} {g : β → δ} (h : Alike R x y)
    (hfg : ∀ a b, R a b → T (f a) (g b)) : Alike T (x.map f) (y.map g) := by
  cases h with
  | error e => exact .error e
  | ok hab => exact .ok (hfg _ _ hab)

theorem Alike.imp {α β : Type} {R T : α → β → Prop} {x : Except E α} {y : Except E β}
    (h : Alike R x y) (himp : ∀ a b, R a b → T a b) : Alike T x y := by
  cases h with
  | error e => exact .error e
  | ok hab => exact .ok (himp _ _ hab)

theorem Alike.eq {α : Type} {x y : Except E α} (h : Alike Eq x y) : x = y := by
  cases h with
  | error e => rfl
  | ok hab => rw [hab]

/-- Sets of seen keys that are the same have the same keys, also after recording one more. -/
structure SeenCongruence (same : Std.TreeSet K → Std.TreeSet K → Prop) : Prop where
  empty : same ∅ ∅
  contains_eq : ∀ s t key, same s t → s.contains key = t.contains key
  insert : ∀ s t key, same s t → same (s.insert key) (t.insert key)

theorem SeenCongruence.eq : SeenCongruence (@Eq (Std.TreeSet K)) where
  empty := rfl
  contains_eq _ _ _ h := by rw [h]
  insert _ _ _ h := by rw [h]

/-- Having the same keys is enough. -/
theorem SeenCongruence.sameKeys [Std.TransOrd K] :
    SeenCongruence fun s t : Std.TreeSet K => ∀ key, s.contains key = t.contains key where
  empty _ := rfl
  contains_eq _ _ key h := h key
  insert _ _ key h other := by
    rw [Std.TreeSet.contains_insert, Std.TreeSet.contains_insert, h other]

section Relations

variable (same : Std.TreeSet K → Std.TreeSet K → Prop) (R : A → B → Prop)

/-- The contexts are equal and the seen sets are the same. The ancestors may be any. -/
structure State.Agrees (s t : State N K S) : Prop where
  context_eq : s.context = t.context
  seen : same s.seen t.seen

/-- The ancestors are equal too. -/
structure State.Matches (s t : State N K S) : Prop extends State.Agrees same s t where
  ancestors_eq : s.ancestors = t.ancestors

/-- Two answers of the same kind. A reason or a stray value is the same in both, values are related,
and states agree. -/
inductive Answer.Agrees : Answer N K S A V → Answer N K S B V → Prop
  | proceed {a : A} {b : B} {s t : Except V (State N K S)} (hvalue : R a b)
      (hstate : Alike (State.Agrees same) s t) : Agrees (.proceed a s) (.proceed b t)
  | prune {a : A} {b : B} {s t : Except V (State N K S)} (hvalue : R a b)
      (hstate : Alike (State.Agrees same) s t) : Agrees (.prune a s) (.prune b t)
  | fail (reason : V) : Agrees (.fail reason) (.fail reason)
  | stray (given : V) : Agrees (.stray given) (.stray given)

/-- Asked alike, the evaluators fail in the same way or give answers that agree, and leave the same
memory. -/
def Evaluator.Agrees (first : Evaluator N K S A V E W) (second : Evaluator N K S B V E W) : Prop :=
  ∀ node s t a b memory, State.Matches same s t → R a b →
    Alike (Answer.Agrees same R) ((first node s a).perform memory).1
      ((second node t b).perform memory).1 ∧
    ((first node s a).perform memory).2 = ((second node t b).perform memory).2

/-- The settings are alike but for evaluators that agree. -/
structure Setting.InStep (g : Setting N K S A V E W L) (h : Setting N K S B V E W L) : Prop where
  identity_eq : g.identity = h.identity
  children_eq : ∀ node s t, State.Matches same s t → g.children node s = h.children node t
  evaluator : Evaluator.Agrees same R g.evaluator h.evaluator
  limits_eq : g.limits = h.limits
  listener_eq : g.listener = h.listener

/-! ## §2 Points -/

/-- Two entries tell of the same, in states that match. -/
inductive Entry.Matches : Entry N K S A V E → Entry N K S B V E → Prop
  | arrived (node : N) {s t : State N K S} (hstate : State.Matches same s t) :
      Matches (.arrived node s) (.arrived node t)
  | called (node : N) {s t : State N K S} {a : A} {b : B} {first : Except E (Answer N K S A V)}
      {second : Except E (Answer N K S B V)} (hstate : State.Matches same s t) (hvalue : R a b)
      (hanswer : Alike (Answer.Agrees same R) first second) :
      Matches (.called node s a first) (.called node t b second)
  | asked (node : N) {s t : State N K S} (hstate : State.Matches same s t) (count : Option Nat) :
      Matches (.asked node s count) (.asked node t count)
  | handled (event : Event N) : Matches (.handled event) (.handled event)
  | listenerRaised : Matches .listenerRaised .listenerRaised

/-- Two points are the same, up to values that are related and states that match. -/
inductive Config.Matches : Config N K S A V E W L → Config N K S B V E W L → Prop
  | mk (pending : Option N) (frames : List (Frame N E W)) {s t : State N K S} {a : A} {b : B}
      (evaluations : Nat) (memory : W) (heard : L) {journal : List (Entry N K S A V E)}
      {journal' : List (Entry N K S B V E)} (hstate : State.Matches same s t) (hvalue : R a b)
      (hjournal : List.Forall₂ (Entry.Matches same R) journal journal') :
      Matches ⟨pending, frames, s, a, evaluations, memory, heard, journal⟩
        ⟨pending, frames, t, b, evaluations, memory, heard, journal'⟩

/-- Two steps do the same, to points that match. -/
inductive Progress.Matches : Progress N K S A V E W L → Progress N K S B V E W L → Prop
  | running {c : Config N K S A V E W L} {d : Config N K S B V E W L}
      (h : Config.Matches same R c d) : Matches (.running c) (.running d)
  | finished {c : Config N K S A V E W L} {d : Config N K S B V E W L}
      (h : Config.Matches same R c d) : Matches (.finished c) (.finished d)
  | failed (f : Failure N V E) {c : Config N K S A V E W L} {d : Config N K S B V E W L}
      (h : Config.Matches same R c d) : Matches (.failed f c) (.failed f d)

/-- Two runs come to the same, at points that match. -/
inductive Outcome.Matches : Outcome N K S A V E W L → Outcome N K S B V E W L → Prop
  | finished {c : Config N K S A V E W L} {d : Config N K S B V E W L}
      (h : Config.Matches same R c d) : Matches (.finished c) (.finished d)
  | failed (f : Failure N V E) {c : Config N K S A V E W L} {d : Config N K S B V E W L}
      (h : Config.Matches same R c d) : Matches (.failed f c) (.failed f d)
  | unfinished {c : Config N K S A V E W L} {d : Config N K S B V E W L}
      (h : Config.Matches same R c d) : Matches (.unfinished c) (.unfinished d)

end Relations

variable {same : Std.TreeSet K → Std.TreeSet K → Prop} {R : A → B → Prop}

namespace State

variable {s t : State N K S}

theorem Matches.isSeen_eq (hsame : SeenCongruence same) (h : Matches same s t) (key : K) :
    s.isSeen key = t.isSeen key :=
  hsame.contains_eq s.seen t.seen key h.seen

theorem Matches.path_eq (h : Matches same s t) : s.path = t.path := by
  rw [path, h.ancestors_eq, path]

/-- Once a key is marked and the ancestors are replaced, states that agree match. -/
theorem Agrees.mark (hsame : SeenCongruence same) (h : Agrees same s t) (key : K)
    (above : List N) :
    Matches same ((s.mark key).withAncestors above) ((t.mark key).withAncestors above) where
  context_eq := h.context_eq
  seen := hsame.insert s.seen t.seen key h.seen
  ancestors_eq := rfl

theorem Matches.withAncestors (h : Matches same s t) (above : List N) :
    Matches same (s.withAncestors above) (t.withAncestors above) where
  context_eq := h.context_eq
  seen := h.seen
  ancestors_eq := rfl

theorem Matches.push (h : Matches same s t) (node : N) :
    Matches same (s.push node) (t.push node) where
  context_eq := h.context_eq
  seen := h.seen
  ancestors_eq := congrArg (node :: ·) h.ancestors_eq

theorem matches_eq_iff : Matches Eq s t ↔ s = t := by
  constructor
  · intro h
    obtain ⟨⟨hcontext, hseen⟩, hancestors⟩ := h
    cases s
    cases t
    cases hcontext
    cases hseen
    cases hancestors
    rfl
  · rintro rfl
    exact ⟨⟨rfl, rfl⟩, rfl⟩

end State

/-- Answers that agree are malformed in the same way. -/
theorem Answer.Agrees.fault?_eq {first : Answer N K S A V} {second : Answer N K S B V}
    (h : Answer.Agrees same R first second) (node : N) :
    (first.fault? node : Option (Failure N V E)) = second.fault? node := by
  cases h with
  | proceed _ hstate | prune _ hstate => cases hstate <;> rfl
  | fail | stray => rfl

namespace Config.Matches

variable {c : Config N K S A V E W L} {d : Config N K S B V E W L}

theorem report (h : Config.Matches same R c d) (listener : Option (Listener N L))
    (kind : EventKind) (node : N) (depth : Nat) :
    Config.Matches same R (c.report listener kind node depth)
      (d.report listener kind node depth) := by
  cases h with
  | mk pending frames evaluations memory heard hstate hvalue hjournal =>
    have hnoted := hjournal.cons (.handled ⟨kind, depth, node, evaluations⟩)
    unfold Config.report Config.note
    cases listener with
    | none => exact .mk _ _ _ _ _ hstate hvalue hnoted
    | some hear =>
      dsimp only
      split
      · exact .mk _ _ _ _ _ hstate hvalue hnoted
      · exact .mk _ _ _ _ _ hstate hvalue (hnoted.cons .listenerRaised)

/-- Both points may be moved to another frame. -/
theorem enter (h : Config.Matches same R c d) (frames : List (Frame N E W)) {s t : State N K S}
    (hstate : State.Matches same s t) :
    Config.Matches same R { c with frames := frames, state := s }
      { d with frames := frames, state := t } := by
  cases h with
  | mk pending _ evaluations memory heard _ hvalue hjournal =>
    exact .mk _ _ _ _ _ hstate hvalue hjournal

end Config.Matches

/-! ## §3 Steps -/

namespace Setting.InStep

variable {g : Setting N K S A V E W L} {h : Setting N K S B V E W L}
  {c : Config N K S A V E W L} {d : Config N K S B V E W L}

theorem act (hboth : Setting.InStep same R g h) (hsame : SeenCongruence same)
    (hc : Config.Matches same R c d) (node : N) (key : K) {first : Answer N K S A V}
    {second : Answer N K S B V} (hanswer : Answer.Agrees same R first second) :
    Progress.Matches same R (g.act node key c first) (h.act node key d second) := by
  unfold Setting.act Config.note
  cases hanswer with
  | fail reason =>
    have hreport := hc.report h.listener .fail node d.frames.length
    cases hc with
    | mk pending frames evaluations memory heard hstate =>
      rw [hboth.listener_eq]
      simp only [hstate.path_eq]
      exact .failed _ hreport
  | stray given => exact .failed _ hc
  | prune hvalue hgiven =>
    cases hgiven with
    | error given => exact .failed _ hc
    | ok hgiven =>
      cases hc with
      | @mk pending frames _ t _ _ evaluations memory heard _ _ hstate _ hjournal =>
        -- The ancestors in the answers go; those at hand, which are equal, come in their place.
        have hmarked := hgiven.mark hsame key t.ancestors
        simp only [hstate.ancestors_eq, hboth.listener_eq]
        exact .running (.report (.mk _ _ _ _ _ hmarked hvalue hjournal) ..)
  | proceed hvalue hgiven =>
    cases hgiven with
    | error given => exact .failed _ hc
    | ok hgiven =>
      cases hc with
      | @mk pending frames _ t _ _ evaluations memory heard _ _ hstate _ hjournal =>
        have hmarked := hgiven.mark hsame key t.ancestors
        simp only [hstate.ancestors_eq, hboth.listener_eq, hboth.children_eq node _ _ hmarked]
        split
        · exact .failed _ (.mk _ _ _ _ _ hmarked hvalue (hjournal.cons (.asked node hmarked none)))
        · exact .failed _ (.report
            (.mk _ _ _ _ _ hmarked hvalue (hjournal.cons (.asked node hmarked none))) ..)
        · rename_i pulls left _
          have hasked := hjournal.cons (.asked node hmarked (some pulls.each.length))
          have hreport := Config.Matches.report (.mk pending frames evaluations left heard hmarked
            hvalue hasked) h.listener .descend node frames.length
          simp only [Config.report_frames]
          exact .running (hreport.enter _ (hmarked.push node))

theorem respond (hboth : Setting.InStep same R g h) (hsame : SeenCongruence same)
    (hc : Config.Matches same R c d) (node : N) (key : K) {first : Answer N K S A V}
    {second : Answer N K S B V} (hanswer : Answer.Agrees same R first second) :
    Progress.Matches same R (g.respond node key c first) (h.respond node key d second) := by
  unfold Setting.respond
  rw [hboth.limits_eq, hanswer.fault?_eq]
  split
  · exact .failed _ hc
  · exact hboth.act hsame hc node key hanswer

theorem evaluate (hboth : Setting.InStep same R g h) (hsame : SeenCongruence same)
    (hc : Config.Matches same R c d) (node : N) (key : K) :
    Progress.Matches same R (g.evaluate node key c) (h.evaluate node key d) := by
  cases hc with
  | @mk pending frames s t a b evaluations memory heard _ _ hstate hvalue hjournal =>
    unfold Setting.evaluate Config.note
    obtain ⟨hanswer, hmemory⟩ := hboth.evaluator node s t a b memory hstate hvalue
    dsimp only
    rcases hfirst : (g.evaluator node s a).perform memory with ⟨first, left⟩
    rcases hsecond : (h.evaluator node t b).perform memory with ⟨second, left'⟩
    rw [hfirst, hsecond] at hanswer hmemory
    cases hmemory
    have hcalled := hjournal.cons (.called node hstate hvalue hanswer)
    cases hanswer with
    | error e => exact .failed _ (.mk _ _ _ _ _ hstate hvalue hcalled)
    | ok hanswer =>
      exact hboth.respond hsame (.mk _ _ _ _ _ hstate hvalue hcalled) node key hanswer

theorem arrive (hboth : Setting.InStep same R g h) (hsame : SeenCongruence same)
    (hc : Config.Matches same R c d) (node : N) :
    Progress.Matches same R (g.arrive node c) (h.arrive node d) := by
  cases hc with
  | mk pending frames evaluations memory heard hstate hvalue hjournal =>
    have harrived := Config.Matches.mk none frames evaluations memory heard hstate hvalue
      (hjournal.cons (.arrived node hstate))
    unfold Setting.arrive Config.note
    rw [hboth.identity_eq, hboth.limits_eq, hboth.listener_eq]
    dsimp only
    split
    · exact .failed _ harrived
    · rename_i key _
      simp only [hstate.isSeen_eq hsame key, hstate.path_eq]
      split
      · exact .running (harrived.report ..)
      · split
        · split
          · exact .failed _ (harrived.report ..)
          · exact hboth.evaluate hsame harrived node key
        · exact hboth.evaluate hsame harrived node key

/-- Matching points have matching steps. -/
theorem step (hboth : Setting.InStep same R g h) (hsame : SeenCongruence same)
    (hc : Config.Matches same R c d) : Progress.Matches same R (g.step c) (h.step d) := by
  have harrive := hboth.arrive hsame hc
  cases hc with
  | mk pending frames evaluations memory heard hstate hvalue hjournal =>
    cases pending with
    | some node => exact harrive node
    | none =>
      rcases frames with _ | ⟨⟨above, _ | ⟨pull, later⟩, ending⟩, outer⟩
      · exact .finished (.mk _ _ _ _ _ hstate hvalue hjournal)
      · unfold Setting.step
        dsimp only
        split
        · exact .failed _ (.mk _ _ _ _ _ hstate hvalue hjournal)
        · exact .running (.mk _ _ _ _ _ (hstate.withAncestors above) hvalue hjournal)
      · unfold Setting.step
        dsimp only
        split
        · exact .failed _ (.mk _ _ _ _ _ hstate hvalue hjournal)
        · exact .running (.mk _ _ _ _ _ hstate hvalue hjournal)

/-! ## §4 Runs -/

/-- So the runs from matching points match, however they end. -/
theorem run (hboth : Setting.InStep same R g h) (hsame : SeenCongruence same) (n : Nat)
    (hc : Config.Matches same R c d) : Outcome.Matches same R (g.run n c) (h.run n d) := by
  induction n generalizing c d with
  | zero => exact .unfinished hc
  | succ n ih =>
    have hstep := hboth.step hsame hc
    rw [Setting.run, Setting.run]
    generalize g.step c = p, h.step d = q at hstep ⊢
    cases hstep with
    | running hnext => exact ih hnext
    | finished hlast => exact .finished hlast
    | failed f hlast => exact .failed f hlast

theorem reduce (hboth : Setting.InStep same R g h) (hsame : SeenCongruence same) (budget : Nat)
    (root : N) (context : S) {a : A} {b : B} (hvalue : R a b) (memory : W) (heard : L) :
    Outcome.Matches same R (g.reduce budget root context a memory heard)
      (h.reduce budget root context b memory heard) :=
  hboth.run hsame budget (.mk _ _ _ _ _ ⟨⟨rfl, hsame.empty⟩, rfl⟩ hvalue .nil)

end Setting.InStep

/-! ## §5 Walks -/

/-- Two calls of one node, in states that match, with values that are related and answers that
agree. -/
structure Call.Matches (same : Std.TreeSet K → Std.TreeSet K → Prop) (R : A → B → Prop)
    (first : Call N K S A V E) (second : Call N K S B V E) : Prop where
  node_eq : first.node = second.node
  state : State.Matches same first.state second.state
  value : R first.value second.value
  answer : Alike (Answer.Agrees same R) first.answer second.answer

/-- Two lookups of the children of one node, in states that match. -/
structure Lookup.Matches (same : Std.TreeSet K → Std.TreeSet K → Prop)
    (first second : Lookup N K S) : Prop where
  node_eq : first.node = second.node
  state : State.Matches same first.state second.state
  count_eq : first.count = second.count

namespace Config.Matches

variable {c : Config N K S A V E W L} {d : Config N K S B V E W L}

theorem journal (h : Config.Matches same R c d) :
    List.Forall₂ (Entry.Matches same R) c.journal d.journal := by
  cases h
  assumption

theorem memory_eq (h : Config.Matches same R c d) : c.memory = d.memory := by
  cases h
  rfl

theorem heard_eq (h : Config.Matches same R c d) : c.heard = d.heard := by
  cases h
  rfl

/-- What is read off the entries of the journals is related, if it is for entries that match. -/
theorem filterMap {α β : Type} {P : α → β → Prop} {f : Entry N K S A V E → Option α}
    {f' : Entry N K S B V E → Option β} (h : Config.Matches same R c d)
    (hf : ∀ entry entry', Entry.Matches same R entry entry' → Option.Rel P (f entry) (f' entry')) :
    List.Forall₂ P (c.journal.filterMap f).reverse (d.journal.filterMap f').reverse :=
  List.rel_reverse (List.rel_filterMap (fun _ _ hentry => hf _ _ hentry) h.journal)

theorem calls (h : Config.Matches same R c d) :
    List.Forall₂ (Call.Matches same R) c.calls d.calls := by
  refine h.filterMap fun entry entry' hentry => ?_
  cases hentry with
  | called node hstate hvalue hanswer => exact .some ⟨rfl, hstate, hvalue, hanswer⟩
  | arrived | asked | handled | listenerRaised => exact .none

theorem lookups (h : Config.Matches same R c d) :
    List.Forall₂ (Lookup.Matches same) c.lookups d.lookups := by
  refine h.filterMap fun entry entry' hentry => ?_
  cases hentry with
  | asked node hstate count => exact .some ⟨rfl, hstate, rfl⟩
  | arrived | called | handled | listenerRaised => exact .none

theorem events_eq (h : Config.Matches same R c d) : c.events = d.events := by
  refine List.forall₂_eq_eq_eq ▸ h.filterMap fun entry entry' hentry => ?_
  cases hentry with
  | handled event => exact .some rfl
  | arrived | called | asked | listenerRaised => exact .none

end Config.Matches

theorem Outcome.Matches.config {o : Outcome N K S A V E W L} {p : Outcome N K S B V E W L}
    (h : Outcome.Matches same R o p) : Config.Matches same R o.config p.config := by
  cases h <;> assumption

namespace Setting

/-- The same setting with another evaluator. -/
def withEvaluator (g : Setting N K S A V E W L) (other : Evaluator N K S B V E W) :
    Setting N K S B V E W L :=
  ⟨g.identity, g.children, other, g.limits, g.listener⟩

/-- The ancestors in the states an evaluator returns do not matter. Take two evaluators that,
wherever they are asked, answer in the same way but for those: with the same kind of instruction,
the same value or reason, the same context and the same seen set. Then walks with them are not told
apart: the same calls are made in the same states, paths included, children are looked up in the
same states, the same events are reported, and the walks end with the same result or give up for the
same reason, with the same path.

Where seen sets are the same if they are equal, nothing is asked of the children lookups; where they
are if they have the same keys, lookups and evaluators must not tell such sets apart. -/
theorem returned_paths_do_not_interfere (g : Setting N K S A V E W L)
    (other : Evaluator N K S A V E W) (same : Std.TreeSet K → Std.TreeSet K → Prop)
    (hsame : SeenCongruence same)
    (hchildren : ∀ node s t, State.Matches same s t → g.children node s = g.children node t)
    (hagree : Evaluator.Agrees same Eq g.evaluator other) (budget : Nat) (root : N) (context : S)
    (value : A) (memory : W) (heard : L) (o p : Outcome N K S A V E W L)
    (ho : g.reduce budget root context value memory heard = o)
    (hp : (g.withEvaluator other).reduce budget root context value memory heard = p) :
    List.Forall₂ (Entry.Matches same Eq) o.config.journal p.config.journal ∧
    List.Forall₂ (Call.Matches same Eq) o.config.calls p.config.calls ∧
    List.Forall₂ (Lookup.Matches same) o.config.lookups p.config.lookups ∧
    o.config.events = p.config.events ∧ o.config.heard = p.config.heard ∧
    o.config.memory = p.config.memory ∧
    (∀ c, o = .finished c → ∃ d, p = .finished d ∧ c.value = d.value ∧
      State.Matches same c.state d.state ∧ c.evaluations = d.evaluations) ∧
    (∀ f c, o = .failed f c → ∃ d, p = .failed f d) ∧
    ∀ c, o = .unfinished c → ∃ d, p = .unfinished d := by
  have hsettings : Setting.InStep same Eq g (g.withEvaluator other) :=
    ⟨rfl, hchildren, hagree, rfl, rfl⟩
  have hmatches := hsettings.reduce hsame budget root context (Eq.refl value) memory heard
  rw [ho, hp] at hmatches
  have hconfig := hmatches.config
  refine ⟨hconfig.journal, hconfig.calls, hconfig.lookups, hconfig.events_eq, hconfig.heard_eq,
    hconfig.memory_eq, ?_, ?_, ?_⟩
  · rintro c rfl
    cases hmatches with
    | finished hlast =>
      refine ⟨_, rfl, ?_⟩
      cases hlast with
      | mk _ _ _ _ _ hstate hvalue => exact ⟨hvalue, hstate, rfl⟩
  · rintro f c rfl
    cases hmatches
    exact ⟨_, rfl⟩
  · rintro c rfl
    cases hmatches
    exact ⟨_, rfl⟩

/-- Answers as `restless` does, without touching the ancestors. -/
def restlessInPlace : Evaluator Nat Nat Nat (List Nat) Unit Unit Unit :=
  fun node s value =>
    let given := (s.withContext (s.context + 1)).mark (node + 100)
    let answer := if node % 2 = 1 then Answer.prune else Answer.proceed
    pure (answer (value ++ [node]) (.ok given))

theorem agrees_restlessInPlace (kids : Nat → Nat → List Nat) :
    Evaluator.Agrees (fun s t => ∀ key, s.contains key = t.contains key) Eq
      (restless kids).evaluator restlessInPlace := by
  rintro node s t value _ memory hstate rfl
  refine ⟨?_, rfl⟩
  have hgiven : Alike (E := Unit) (State.Agrees fun s t => ∀ key, s.contains key = t.contains key)
      (.ok (((s.withContext (s.context + 1)).mark (node + 100)).withAncestors [node, node]))
      (.ok ((t.withContext (t.context + 1)).mark (node + 100))) :=
    .ok ⟨congrArg (· + 1) hstate.context_eq, fun key =>
      SeenCongruence.sameKeys.insert s.seen t.seen (node + 100) hstate.seen key⟩
  unfold restless restlessInPlace
  by_cases hodd : node % 2 = 1
  · simp only [hodd, if_true, Action.perform_pure]
    exact .ok (.prune rfl hgiven)
  · simp only [hodd, if_false, Action.perform_pure]
    exact .ok (.proceed rfl hgiven)

/-- The one returns paths that are none, the other those it was handed. -/
theorem restless_returned_paths :
    ∃ o p c d, (restless detour).reduce 20 0 0 [] () () = o ∧
      ((restless detour).withEvaluator restlessInPlace).reduce 20 0 0 [] () () = p ∧
      o.config.calls.map (fun call => call.returned?.map State.path) =
        [some [0, 0], some [2, 2], some [4, 4], some [1, 1]] ∧
      p.config.calls.map (fun call => call.returned?.map State.path) =
        [some [], some [0], some [0, 2], some [0]] ∧
      o.config.calls.map (fun call => call.state.path) = [[], [0], [0, 2], [0]] ∧
      p.config.calls.map (fun call => call.state.path) = [[], [0], [0, 2], [0]] ∧
      o.config.events = p.config.events ∧ o = .finished c ∧ p = .finished d ∧
      c.value = d.value ∧ c.value = [0, 2, 4, 1] := by
  have hsame := returned_paths_do_not_interfere (restless detour) restlessInPlace _
    SeenCongruence.sameKeys
    (fun node s t hstate => by simp only [restless, hstate.context_eq])
    (agrees_restlessInPlace detour) 20 0 0 [] () () _ _ rfl rfl
  obtain ⟨_, _, _, hevents, _, _, hfinished, _⟩ := hsame
  obtain ⟨d, hd, hvalue, _⟩ := hfinished _ rfl
  exact ⟨_, _, _, d, rfl, rfl, rfl, rfl, rfl, rfl, hevents, rfl, hd, hvalue, rfl⟩

end Setting

end GraphFold
