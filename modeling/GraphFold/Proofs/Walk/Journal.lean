/-
GraphFold.Proofs.Walk.Journal — the calls of a walk, read off its journal.

Nothing reads the journal during a walk; here it is the record theorems speak
of. A CALL is one entry of it, with the node, the state and value handed over
and the answer. `called_of_step` says what a step adds to the calls and, in
terms of the calls, what it does to the seen set.

  §1 Keys    — `Setting.SameKey`.
  §2 Calls   — `Config.calls`.
  §3 Steps   — what a step adds.
  §4 Values  — the value of a walk, and the nodes it arrived at.
  §5 Lookups — the children lookups, and the calls they belong to.
  §6 Events  — the events in a journal.
-/
import GraphFold.Proofs.Walk.Runs
import GraphFold.State.Lemmas

namespace GraphFold

variable {N K S A V E W L : Type} [Ord K]

/-! ## §1 Keys -/

/-- Equal keys have been seen together. -/
theorem State.isSeen_congr [Std.TransOrd K] (s : State N K S) {a b : K}
    (h : compare a b = .eq) : s.isSeen a = s.isSeen b :=
  Std.TreeSet.contains_congr h

namespace Setting

variable (g : Setting N K S A V E W L)

/-- The two nodes have keys, and the keys are equal. -/
def SameKey (a b : N) : Prop :=
  ∃ ka kb, g.identity a = .ok ka ∧ g.identity b = .ok kb ∧ compare ka kb = .eq

variable {g}

theorem SameKey.symm [Std.TransOrd K] {a b : N} (h : g.SameKey a b) : g.SameKey b a := by
  obtain ⟨ka, kb, ha, hb, hab⟩ := h
  exact ⟨kb, ka, hb, ha, Std.OrientedCmp.eq_symm hab⟩

theorem SameKey.trans [Std.TransOrd K] {a b c : N} (hab : g.SameKey a b) (hbc : g.SameKey b c) :
    g.SameKey a c := by
  obtain ⟨ka, kb, ha, hb, hab⟩ := hab
  obtain ⟨kb', kc, hb', hc, hbc⟩ := hbc
  rw [hb] at hb'
  cases hb'
  exact ⟨ka, kc, ha, hc, Std.TransCmp.eq_trans hab hbc⟩

end Setting

/-! ## §2 Calls -/

/-- The state an answer carries. -/
def Answer.state? : Answer N K S A V → Option (State N K S)
  | .proceed _ (.ok given) | .prune _ (.ok given) => some given
  | _ => none

/-- One call of the evaluator. -/
structure Call (N K S A V E : Type) [Ord K] where
  node : N
  state : State N K S
  value : A
  answer : Except E (Answer N K S A V)

/-- The state a call returned. -/
def Call.returned? (call : Call N K S A V E) : Option (State N K S) :=
  call.answer.toOption.bind Answer.state?

/-- The call answered that the children come next. -/
def Call.Proceeds (call : Call N K S A V E) : Prop :=
  ∃ value state, call.answer = .ok (.proceed value state)

/-- The call an entry of the journal is about. -/
def Entry.call? : Entry N K S A V E → Option (Call N K S A V E)
  | .called node state value answer => some ⟨node, state, value, answer⟩
  | _ => none

/-- The state of the walk at an entry of the journal. -/
def Entry.state? : Entry N K S A V E → Option (State N K S)
  | .arrived _ state | .called _ state _ _ | .asked _ state _ => some state
  | .handled _ | .listenerRaised => none

/-- The calls in a journal, oldest first. -/
def Entry.calls (journal : List (Entry N K S A V E)) : List (Call N K S A V E) :=
  (journal.filterMap Entry.call?).reverse

/-- The calls so far, oldest first. -/
def Config.calls (c : Config N K S A V E W L) : List (Call N K S A V E) := Entry.calls c.journal

@[simp] theorem Entry.calls_cons_called (node : N) (state : State N K S) (value : A)
    (answer : Except E (Answer N K S A V)) (journal : List (Entry N K S A V E)) :
    calls (.called node state value answer :: journal) =
      calls journal ++ [⟨node, state, value, answer⟩] := by
  simp [calls, call?]

@[simp] theorem Entry.calls_cons_arrived (node : N) (state : State N K S)
    (journal : List (Entry N K S A V E)) :
    calls (.arrived node state :: journal) = calls journal := rfl

@[simp] theorem Entry.calls_cons_asked (node : N) (state : State N K S) (count : Option Nat)
    (journal : List (Entry N K S A V E)) :
    calls (.asked node state count :: journal) = calls journal := rfl

@[simp] theorem Config.calls_mk (pending : Option N) (frames : List (Frame N E W))
    (state : State N K S) (value : A) (evaluations : Nat) (memory : W) (heard : L)
    (journal : List (Entry N K S A V E)) :
    Config.calls ⟨pending, frames, state, value, evaluations, memory, heard, journal⟩ =
      Entry.calls journal := rfl

@[simp] theorem Entry.calls_journal (c : Config N K S A V E W L) :
    Entry.calls c.journal = c.calls := rfl

/-- A report adds entries that are about no call and no state. -/
theorem Config.report_journal (c : Config N K S A V E W L) (listener : Option (Listener N L))
    (kind : EventKind) (node : N) (depth : Nat) :
    ∃ told, (c.report listener kind node depth).journal = told ++ c.journal ∧
      ∀ entry ∈ told, entry.call? = none ∧ entry.state? = none := by
  obtain ⟨heard, raised, hraised, h⟩ := c.report_eq listener kind node depth
  refine ⟨raised ++ [.handled ⟨kind, depth, node, c.evaluations⟩], by simp [h], ?_⟩
  intro entry hentry
  rcases List.mem_append.1 hentry with hold | hnew
  · rw [hraised entry hold]
    exact ⟨rfl, rfl⟩
  · rw [List.mem_singleton.1 hnew]
    exact ⟨rfl, rfl⟩

/-- So nothing changes in what is read off the entries that are about a state. -/
theorem Config.filterMap_report {α : Type} {f : Entry N K S A V E → Option α}
    (hf : ∀ entry, entry.state? = none → f entry = none) (c : Config N K S A V E W L)
    (listener : Option (Listener N L)) (kind : EventKind) (node : N) (depth : Nat) :
    (c.report listener kind node depth).journal.filterMap f = c.journal.filterMap f := by
  obtain ⟨told, htold, hsilent⟩ := c.report_journal listener kind node depth
  have hnone : told.filterMap f = [] := by
    rw [List.filterMap_eq_nil_iff]
    intro entry hentry
    exact hf entry (hsilent entry hentry).2
  rw [htold, List.filterMap_append, hnone, List.nil_append]

@[simp] theorem Config.report_calls (c : Config N K S A V E W L) (listener : Option (Listener N L))
    (kind : EventKind) (node : N) (depth : Nat) :
    (c.report listener kind node depth).calls = c.calls := by
  have hf : ∀ entry : Entry N K S A V E, entry.state? = none → entry.call? = none := by
    intro entry hentry
    cases entry <;> first | rfl | cases hentry
  rw [calls, Entry.calls, c.filterMap_report hf]
  rfl

/-! ## §3 Steps -/

namespace Setting

variable {g : Setting N K S A V E W L}

/-- What a call of the evaluator comes to in a step from `c` to `d`: the pending node is new, the
call is the last one of `d`, and its node is marked in the state it returned. -/
structure Called (g : Setting N K S A V E W L) (c d : Config N K S A V E W L) (node : N) (key : K)
    (answer : Answer N K S A V) (given : State N K S) : Prop where
  pending_eq : c.pending = some node
  identity_eq : g.identity node = .ok key
  unseen : c.state.isSeen key = false
  perform_eq : ∃ memory, (g.evaluator node c.state c.value).perform c.memory = (.ok answer, memory)
  state?_eq : answer.state? = some given
  calls_eq : d.calls = c.calls ++ [⟨node, c.state, c.value, .ok answer⟩]
  evaluations_eq : d.evaluations = c.evaluations + 1
  seen_eq : d.state.seen = (given.mark key).seen

/-- A step that goes on makes no call and leaves the seen set alone, or makes one call. -/
theorem called_of_step {c d : Config N K S A V E W L} (h : g.step c = .running d) :
    (d.calls = c.calls ∧ d.evaluations = c.evaluations ∧ d.state.seen = c.state.seen) ∨
      ∃ node key answer given, g.Called c d node key answer given := by
  have hmove := g.move c
  rw [h] at hmove
  cases hmove with
  | handle node p hpending harrival =>
    cases harrival with
    | skipped key hkey hseen => exact .inl (by simp)
    | pruned key value given memory hkey hseen hlimit hcall =>
      refine .inr ⟨node, key, _, given, hpending, hkey, hseen, ⟨memory, hcall⟩, rfl, ?_, ?_, ?_⟩
      · simp
      · simp
      · simp [State.withAncestors]
    | opened key value given memory pulls left hkey hseen hlimit hcall hlookup =>
      refine .inr ⟨node, key, _, given, hpending, hkey, hseen, ⟨memory, hcall⟩, rfl, ?_, ?_, ?_⟩
      · show Config.calls (Config.report _ _ _ _ _) = _
        simp
      · simp
      · simp [State.withAncestors, State.push]
  | pull => exact .inl ⟨rfl, rfl, rfl⟩
  | drop => exact .inl ⟨rfl, rfl, rfl⟩

/-- What holds of the calls so far and of a new call holds of the calls after a step. -/
theorem forall_calls_of_step {P : Call N K S A V E → Prop} {c d : Config N K S A V E W L}
    (h : g.step c = .running d) (hc : ∀ call ∈ c.calls, P call)
    (hnew : ∀ node key answer given, g.Called c d node key answer given →
      P ⟨node, c.state, c.value, .ok answer⟩) : ∀ call ∈ d.calls, P call := by
  intro call hcall
  rcases called_of_step h with ⟨hcalls, _⟩ | ⟨node, key, answer, given, hcalled⟩
  · rw [hcalls] at hcall
    exact hc call hcall
  · rw [hcalled.calls_eq] at hcall
    rcases List.mem_append.1 hcall with hold | hlast
    · exact hc call hold
    · rw [List.mem_singleton.1 hlast]
      exact hnew node key answer given hcalled

/-- A step that opens a frame makes a call, which proceeds, and looks these children up. -/
theorem listed_of_opened {c d : Config N K S A V E W L} (h : g.step c = .running d) {node : N}
    {above : List N} {pulls : Pulls W E N} (hpending : c.pending = some node)
    (hframes : d.frames = ⟨above, pulls⟩ :: c.frames) :
    ∃ key value given memory left, g.identity node = .ok key ∧ c.state.isSeen key = false ∧
      (g.evaluator node c.state c.value).perform c.memory =
        (.ok (.proceed value (.ok given)), memory) ∧
      (g.children node ((given.mark key).withAncestors c.state.ancestors)).perform memory =
        (.ok (.ok pulls), left) ∧
      d.calls = c.calls ++ [⟨node, c.state, c.value, .ok (.proceed value (.ok given))⟩] := by
  have harrival := arrival_of_step hpending h
  cases harrival with
  | skipped => simp at hframes
  | pruned => simp at hframes
  | opened key value given memory pulls' left hkey hseen hlimit hcall hlookup =>
    simp only [List.cons.injEq, Frame.mk.injEq, and_true] at hframes
    obtain ⟨-, rfl⟩ := hframes
    refine ⟨key, value, given, memory, left, hkey, hseen, hcall, hlookup, ?_⟩
    show Config.calls (Config.report _ _ _ _ _) = _
    simp

theorem calls_of_opened {c d : Config N K S A V E W L} (h : g.step c = .running d) {node : N}
    {above : List N} {pulls : Pulls W E N} (hpending : c.pending = some node)
    (hframes : d.frames = ⟨above, pulls⟩ :: c.frames) :
    ∃ call : Call N K S A V E, d.calls = c.calls ++ [call] ∧ call.node = node ∧
      call.state = c.state ∧ call.Proceeds := by
  obtain ⟨_, value, _, _, _, _, _, _, _, hcalls⟩ := listed_of_opened h hpending hframes
  exact ⟨_, hcalls, rfl, rfl, value, _, rfl⟩

/-- A step that handles a node without opening a frame makes no call, or one that does not
proceed. -/
theorem calls_of_settled {c d : Config N K S A V E W L} (h : g.step c = .running d) {node : N}
    (hpending : c.pending = some node) (hframes : d.frames = c.frames) :
    d.calls = c.calls ∨ ∃ call : Call N K S A V E, d.calls = c.calls ++ [call] ∧
      call.node = node ∧ ¬ call.Proceeds := by
  have harrival := arrival_of_step hpending h
  cases harrival with
  | skipped => exact .inl (by simp)
  | pruned key value given memory hkey hseen hlimit hcall =>
    refine .inr ⟨⟨node, c.state, c.value, .ok (.prune value (.ok given))⟩, by simp, rfl, ?_⟩
    rintro ⟨_, _, hanswer⟩
    cases hanswer
  | opened => simp at hframes

/-- The call is of the pending node, which is new, with the state and the value at hand. -/
structure CallsAt (g : Setting N K S A V E W L) (c : Config N K S A V E W L)
    (call : Call N K S A V E) : Prop where
  pending_eq : c.pending = some call.node
  state_eq : call.state = c.state
  value_eq : call.value = c.value
  fresh : ∃ key, g.identity call.node = .ok key ∧ c.state.isSeen key = false

/-- The step from here makes this call: its node is within the limits, and this is the answer. -/
structure Makes (g : Setting N K S A V E W L) (c : Config N K S A V E W L)
    (call : Call N K S A V E) : Prop extends g.CallsAt c call where
  admits : g.limits.Admits c.frames.length
  answered : ∃ left,
    (g.evaluator call.node c.state c.value).perform c.memory = (call.answer, left)

/-- A step makes no call, or it makes one and adds it to the others. -/
theorem makes_step (g : Setting N K S A V E W L) (c : Config N K S A V E W L) :
    (g.step c).config.calls = c.calls ∨
      ∃ call, g.Makes c call ∧ (g.step c).config.calls = c.calls ++ [call] := by
  have hmove := g.move c
  generalize g.step c = p at hmove ⊢
  cases hmove with
  | pull | pullRaised | drop | dropRaised | finish => exact .inl rfl
  | handle node p hpending harrival =>
    cases harrival with
    | unkeyed | skipped | tooDeep => exact .inl (by simp [Progress.config])
    | raised key e memory hkey hseen hdepth hcall
    | refused key answer failure memory hkey hseen hdepth hcall
    | rejected key reason memory hkey hseen hdepth hcall
    | pruned key value given memory hkey hseen hdepth hcall
    | unlisted key value given memory e left hkey hseen hdepth hcall
    | notListed key value given memory e left hkey hseen hdepth hcall
    | opened key value given memory pulls left hkey hseen hdepth hcall =>
      refine .inr ⟨⟨node, c.state, c.value, _⟩,
        ⟨⟨hpending, rfl, rfl, key, hkey, hseen⟩, hdepth, memory, hcall⟩, ?_⟩
      simp [Progress.config]

/-- Acting on an answer makes no call. -/
theorem calls_respond (g : Setting N K S A V E W L) (node : N) (key : K)
    (c : Config N K S A V E W L) (answer : Answer N K S A V) :
    (g.respond node key c answer).config.calls = c.calls := by
  unfold respond
  split
  · rfl
  · unfold act Config.note
    split
    · dsimp only
      split <;> simp [Progress.config]
    all_goals simp [Progress.config]

/-- A call that is made is added to the others. -/
theorem Makes.calls_step {c : Config N K S A V E W L} {call : Call N K S A V E}
    (h : g.Makes c call) : (g.step c).config.calls = c.calls ++ [call] := by
  obtain ⟨⟨hpending, hstate, hvalue, key, hkey, hseen⟩, hdepth, left, hleft⟩ := h
  obtain ⟨node, s, value, answer⟩ := call
  subst hstate hvalue
  rw [step_of_pending hpending, arrive_of_admits hkey hseen hdepth, evaluate]
  dsimp only at hleft ⊢
  rw [hleft]
  cases answer with
  | error e => simp [Progress.config, Config.note]
  | ok answer =>
    dsimp only
    rw [calls_respond]
    simp [Config.note]

/-- However a step ends, it makes no call or one. -/
theorem calls_step (g : Setting N K S A V E W L) (c : Config N K S A V E W L) :
    (g.step c).config.calls = c.calls ∨
      ∃ call, g.CallsAt c call ∧ (g.step c).config.calls = c.calls ++ [call] :=
  (g.makes_step c).imp_right fun ⟨call, hmakes, hadded⟩ => ⟨call, hmakes.toCallsAt, hadded⟩

/-- What every call keeps that is made at a point of a run holds of all its calls. -/
theorem calls_induction {P : Config N K S A V E W L → Prop} {Q : List (Call N K S A V E) → Prop}
    (hP : ∀ c d, P c → g.step c = .running d → P d)
    (hcall : ∀ c call, P c → Q c.calls → g.CallsAt c call → Q (c.calls ++ [call])) {n : Nat}
    {c : Config N K S A V E W L} (hc : P c) (h : Q c.calls) : Q (g.run n c).config.calls := by
  refine g.holds_of_outcome (Q := fun c => Q c.calls) hP ?_ hc h
  intro c hc h
  rcases g.calls_step c with hsame | ⟨call, hat, hadded⟩
  · rw [hsame]
    exact h
  · rw [hadded]
    exact hcall c call hc h hat

/-- What holds of the calls so far, each at its place, and of a new one holds after it is added. -/
theorem forall_getElem?_concat {α : Type} {P : Nat → α → Prop} {earlier : List α} {last : α}
    (hearlier : ∀ i a, earlier[i]? = some a → P i a) (hlast : P earlier.length last) :
    ∀ i a, (earlier ++ [last])[i]? = some a → P i a := by
  intro i a hi
  rcases Nat.lt_or_ge i earlier.length with hlt | hge
  · rw [List.getElem?_append_left hlt] at hi
    exact hearlier i a hi
  · rw [List.getElem?_append_right hge, List.getElem?_singleton] at hi
    split at hi
    · cases hi
      obtain rfl : i = earlier.length := by omega
      exact hlast
    · cases hi

/-- Steps only add calls. -/
theorem calls_prefix_step (g : Setting N K S A V E W L) (c : Config N K S A V E W L) :
    c.calls <+: (g.step c).config.calls := by
  rcases g.calls_step c with hsame | ⟨call, _, hadded⟩
  · exact ⟨[], (List.append_nil _).trans hsame.symm⟩
  · exact ⟨[call], hadded.symm⟩

/-- Every call of a run is made by one of its steps, at a point with the calls before it. -/
theorem exists_makes {n : Nat} {start : Config N K S A V E W L} (hstart : start.calls = []) :
    ∀ i call, (g.run n start).config.calls[i]? = some call →
      ∃ k c, k < n ∧ g.run k start = .unfinished c ∧ g.Makes c call ∧
        c.calls = (g.run n start).config.calls.take i ∧ c.calls.length = i := by
  induction n with
  | zero =>
    intro i call hi
    rw [run_zero, Outcome.config, hstart] at hi
    cases hi
  | succ n ih =>
    have hrun := g.run_add n 1 start
    cases hn : g.run n start with
    | finished d | failed f d =>
      rw [hn] at hrun ih
      rw [hrun]
      intro i call hi
      obtain ⟨k, c, hk, hc⟩ := ih i call hi
      exact ⟨k, c, Nat.lt_succ_of_lt hk, hc⟩
    | unfinished d =>
      rw [hn] at hrun ih
      have hconfig : (g.run (n + 1) start).config = (g.step d).config := by
        rw [hrun, Outcome.goOn, run]
        cases g.step d <;> rfl
      rw [hconfig]
      rcases g.makes_step d with hsame | ⟨new, hmakes, hadded⟩
      · rw [hsame]
        intro i call hi
        obtain ⟨k, c, hk, hc⟩ := ih i call hi
        exact ⟨k, c, Nat.lt_succ_of_lt hk, hc⟩
      · rw [hadded]
        refine forall_getElem?_concat ?_ ?_
        · intro i call hi
          obtain ⟨k, c, hk, hc, hcall, hcalls, hlength⟩ := ih i call hi
          have hle := Nat.le_of_lt (List.getElem?_eq_some_iff.1 hi).1
          refine ⟨k, c, Nat.lt_succ_of_lt hk, hc, hcall, ?_, hlength⟩
          rw [List.take_append_of_le_length hle]
          exact hcalls
        · exact ⟨n, d, Nat.lt_succ_self n, hn, hmakes, List.take_left.symm, rfl⟩

theorem calls_prefix_of_step {c d : Config N K S A V E W L} (h : g.step c = .running d) :
    c.calls <+: d.calls := by
  rcases called_of_step h with ⟨hcalls, _⟩ | ⟨node, key, answer, given, hcalled⟩
  · exact ⟨[], by rw [hcalls, List.append_nil]⟩
  · exact ⟨_, hcalled.calls_eq.symm⟩

theorem calls_prefix_of_run {n : Nat} {c d : Config N K S A V E W L}
    (h : g.run n c = .unfinished d) : c.calls <+: d.calls :=
  g.invariant_of_run (P := fun e => c.calls <+: e.calls)
    (fun _ _ hc h => hc.trans (calls_prefix_of_step h)) (List.prefix_refl _) h

/-- Runs only add calls. -/
theorem calls_prefix_run (g : Setting N K S A V E W L) (n : Nat) (c : Config N K S A V E W L) :
    c.calls <+: (g.run n c).config.calls :=
  g.holds_of_outcome (P := fun _ => True) (Q := fun d => c.calls <+: d.calls)
    (fun _ _ _ _ => trivial) (fun d _ hd => hd.trans (g.calls_prefix_step d)) trivial
    (List.prefix_refl _)

/-- A call that is made at a point of a run is one of its calls, right after those before it. -/
theorem Makes.prefix_run {k n : Nat} {start c : Config N K S A V E W L} {call : Call N K S A V E}
    (h : g.Makes c call) (hk : g.run k start = .unfinished c) (hlt : k < n) :
    c.calls ++ [call] <+: (g.run n start).config.calls := by
  obtain ⟨m, rfl⟩ := Nat.exists_eq_add_of_lt hlt
  rw [Nat.add_assoc, g.run_add_of_unfinished hk, ← h.calls_step, run]
  cases g.step c with
  | running d => exact g.calls_prefix_run m d
  | finished d | failed f d => exact List.prefix_refl _

/-- The step from here makes a call with this property. -/
def MakesOne (g : Setting N K S A V E W L) (Q : Call N K S A V E → Prop)
    (c : Config N K S A V E W L) : Prop :=
  ∃ call, g.Makes c call ∧ Q call

/-- No step of a run makes a call with some property exactly if no call of the run has it. -/
theorem notBefore_makesOne_iff {Q : Call N K S A V E → Prop} {n : Nat}
    {start : Config N K S A V E W L} (hstart : start.calls = []) :
    g.NotBefore (g.MakesOne Q) start n ↔ ∀ call ∈ (g.run n start).config.calls, ¬ Q call := by
  constructor
  · intro hnever call hcall hQ
    obtain ⟨i, hi⟩ := List.mem_iff_getElem?.1 hcall
    obtain ⟨k, c, hk, hc, hmakes, _⟩ := exists_makes hstart i call hi
    exact hnever k c hk hc ⟨call, hmakes, hQ⟩
  · rintro hnone k c hk hc ⟨call, hmakes, hQ⟩
    exact hnone call ((hmakes.prefix_run hc hk).subset (by simp)) hQ

/-- The answer of a call is one the evaluator gave. -/
def Answered (g : Setting N K S A V E W L) (calls : List (Call N K S A V E)) : Prop :=
  ∀ call ∈ calls, ∃ memory left,
    (g.evaluator call.node call.state call.value).perform memory = (call.answer, left)

theorem Answered.step {c d : Config N K S A V E W L} (hc : g.Answered c.calls)
    (h : g.step c = .running d) : g.Answered d.calls := by
  refine forall_calls_of_step h hc fun node key answer given hcalled => ?_
  obtain ⟨left, hleft⟩ := hcalled.perform_eq
  exact ⟨c.memory, left, hleft⟩

/-- The answer of a new call is one the evaluator gave. -/
theorem Answered.append {calls : List (Call N K S A V E)} {node : N} {s : State N K S} {value : A}
    {answer : Except E (Answer N K S A V)} {memory left : W} (hc : g.Answered calls)
    (h : (g.evaluator node s value).perform memory = (answer, left)) :
    g.Answered (calls ++ [⟨node, s, value, answer⟩]) := by
  intro call hcall
  rcases List.mem_append.1 hcall with hold | hnew
  · exact hc call hold
  · rw [List.mem_singleton.1 hnew]
    exact ⟨memory, left, h⟩

/-- Every answer of a walk is one the evaluator gave. -/
theorem answered_reduce (g : Setting N K S A V E W L) (budget : Nat) (root : N) (context : S)
    (value : A) (memory : W) (heard : L) :
    g.Answered (g.reduce budget root context value memory heard).config.calls := by
  refine g.holds_of_outcome (P := fun _ => True) (Q := fun c => g.Answered c.calls)
    (fun _ _ _ _ => trivial) (fun c _ hc => ?_) trivial (fun call hcall => by cases hcall)
  have hmove := g.move c
  generalize g.step c = p at hmove ⊢
  cases hmove with
  | pull | pullRaised | drop | dropRaised | finish => exact hc
  | handle node p hpending harrival =>
    cases harrival with
    | unkeyed | skipped | tooDeep => simpa [Progress.config] using hc
    | raised key e memory hkey hseen hdepth hcall
    | refused key answer failure memory hkey hseen hdepth hcall
    | rejected key reason memory hkey hseen hdepth hcall
    | pruned key value given memory hkey hseen hdepth hcall
    | unlisted key value given memory e left hkey hseen hdepth hcall
    | notListed key value given memory e left hkey hseen hdepth hcall
    | opened key value given memory pulls left hkey hseen hdepth hcall =>
      simpa [Progress.config] using hc.append hcall

end Setting

/-! ## §4 Values -/

/-- The value an answer carries. -/
def Answer.value? : Answer N K S A V → Option A
  | .proceed value _ | .prune value _ => some value
  | .fail _ | .stray _ => none

/-- The node an entry of the journal says the walk arrived at. -/
def Entry.arrival? : Entry N K S A V E → Option N
  | .arrived node _ => some node
  | _ => none

/-- The nodes the walk arrived at so far, the first one first. -/
def Config.arrivals (c : Config N K S A V E W L) : List N :=
  (c.journal.filterMap Entry.arrival?).reverse

/-- A report is no arrival. -/
@[simp] theorem Config.report_arrivals (c : Config N K S A V E W L)
    (listener : Option (Listener N L)) (kind : EventKind) (node : N) (depth : Nat) :
    (c.report listener kind node depth).journal.filterMap Entry.arrival? =
      c.journal.filterMap Entry.arrival? := by
  refine c.filterMap_report (fun entry hentry => ?_) listener kind node depth
  cases entry <;> first | rfl | cases hentry

namespace Setting

variable {g : Setting N K S A V E W L}

/-- A step keeps the value, or makes a call whose answer carries the next one. -/
theorem value_of_step {c d : Config N K S A V E W L} (h : g.step c = .running d) :
    (d.calls = c.calls ∧ d.value = c.value) ∨
      ∃ node answer, d.calls = c.calls ++ [⟨node, c.state, c.value, .ok answer⟩] ∧
        answer.value? = some d.value := by
  have hmove := g.move c
  rw [h] at hmove
  cases hmove with
  | handle node p hpending harrival =>
    cases harrival with
    | skipped => exact .inl (by simp)
    | pruned key value given memory hkey hseen hlimit hcall =>
      exact .inr ⟨node, .prune value (.ok given), by simp, by simp [Answer.value?]⟩
    | opened key value given memory pulls left hkey hseen hlimit hcall hlookup =>
      refine .inr ⟨node, .proceed value (.ok given), ?_, ?_⟩
      · show Config.calls (Config.report _ _ _ _ _) = _
        simp
      · simp [Answer.value?]
  | pull => exact .inl ⟨rfl, rfl⟩
  | drop => exact .inl ⟨rfl, rfl⟩

/-- A step that handles a node is an arrival at it, however it ends, and no other step is one. -/
theorem arrivals_step (g : Setting N K S A V E W L) (c : Config N K S A V E W L) :
    (g.step c).config.arrivals = c.arrivals ++ c.pending.toList := by
  have hmove := g.move c
  generalize g.step c = p at hmove ⊢
  cases hmove with
  | handle node p hpending harrival =>
    rw [hpending]
    cases harrival <;>
      simp [Progress.config, Config.arrivals, Entry.arrival?, List.filterMap_cons]
  | pull above pull later ending outer child left hnone
  | pullRaised above pull later ending outer e left hnone
  | drop above ending outer left hnone
  | dropRaised above ending outer e left hnone
  | finish hnone =>
    rw [hnone]
    simp [Progress.config, Config.arrivals]

theorem arrivals_of_step {c d : Config N K S A V E W L} (h : g.step c = .running d) :
    d.arrivals = c.arrivals ++ c.pending.toList := by
  have harrivals := g.arrivals_step c
  rw [h] at harrivals
  exact harrivals

end Setting

/-! ## §5 Lookups -/

/-- One lookup of the children of a node. -/
structure Lookup (N K S : Type) [Ord K] where
  node : N
  state : State N K S
  /-- How many children were listed, if there are any to be asked for. -/
  count : Option Nat

/-- The lookup an entry of the journal is about. -/
@[simp]
def Entry.lookup? : Entry N K S A V E → Option (Lookup N K S)
  | .asked node state count => some ⟨node, state, count⟩
  | .arrived _ _ | .called _ _ _ _ | .handled _ | .listenerRaised => none

/-- The lookups in a journal, oldest first. -/
def Entry.lookups (journal : List (Entry N K S A V E)) : List (Lookup N K S) :=
  (journal.filterMap Entry.lookup?).reverse

/-- The lookups so far, oldest first. -/
def Config.lookups (c : Config N K S A V E W L) : List (Lookup N K S) := Entry.lookups c.journal

@[simp] theorem Entry.lookups_cons (entry : Entry N K S A V E)
    (journal : List (Entry N K S A V E)) :
    lookups (entry :: journal) = lookups journal ++ entry.lookup?.toList := by
  cases entry <;> simp [lookups, List.filterMap_cons]

@[simp] theorem Config.lookups_mk (pending : Option N) (frames : List (Frame N E W))
    (state : State N K S) (value : A) (evaluations : Nat) (memory : W) (heard : L)
    (journal : List (Entry N K S A V E)) :
    Config.lookups ⟨pending, frames, state, value, evaluations, memory, heard, journal⟩ =
      Entry.lookups journal := rfl

@[simp] theorem Entry.lookups_journal (c : Config N K S A V E W L) :
    Entry.lookups c.journal = c.lookups := rfl

@[simp] theorem Config.report_lookups (c : Config N K S A V E W L)
    (listener : Option (Listener N L)) (kind : EventKind) (node : N) (depth : Nat) :
    (c.report listener kind node depth).lookups = c.lookups := by
  have hf : ∀ entry : Entry N K S A V E, entry.state? = none → entry.lookup? = none := by
    intro entry hentry
    cases entry <;> first | rfl | cases hentry
  rw [lookups, Entry.lookups, c.filterMap_report hf]
  rfl

namespace Setting

/-- The node and the state a call leads the walk to look children up with: the state of the
answer, in which the node is marked and the ancestors are those of the call. -/
def lookup? (g : Setting N K S A V E W L) (call : Call N K S A V E) : Option (N × State N K S) :=
  match call.answer, g.identity call.node with
  | .ok (.proceed _ (.ok given)), .ok key =>
    some (call.node, (given.mark key).withAncestors call.state.ancestors)
  | _, _ => none

variable {g : Setting N K S A V E W L}

theorem lookup?_eq_some {call : Call N K S A V E} {node : N} {s : State N K S} :
    g.lookup? call = some (node, s) ↔
      ∃ value given key, call.answer = .ok (.proceed value (.ok given)) ∧
        g.identity call.node = .ok key ∧ call.node = node ∧
        (given.mark key).withAncestors call.state.ancestors = s := by
  unfold lookup?
  constructor
  · intro h
    split at h
    · rename_i value given key hanswer hkey
      cases h
      exact ⟨value, given, key, hanswer, hkey, rfl, rfl⟩
    · cases h
  · rintro ⟨value, given, key, hanswer, hkey, rfl, rfl⟩
    rw [hanswer, hkey]

/-- Nothing is looked up after an answer that is refused. -/
theorem lookup?_of_refusal (call : Call N K S A V E) {answer : Answer N K S A V}
    {f : Failure N V E} (hanswer : call.answer = .ok answer)
    (h : g.refusal? call.node answer = some f) : g.lookup? call = none := by
  unfold lookup?
  split
  · rename_i value given key hproceeds hkey
    rw [hanswer] at hproceeds
    cases hproceeds
    rw [g.refusal?_eq_none_iff.2 (.inl ⟨value, given, rfl⟩)] at h
    cases h
  · rfl

/-- The number that is given is that of the children listed. -/
def Counts (g : Setting N K S A V E W L) (l : Lookup N K S) : Prop :=
  ∀ n, l.count = some n → ∃ memory pulls left,
    (g.children l.node l.state).perform memory = (.ok (.ok pulls), left) ∧ pulls.each.length = n

/-- A step looks nothing up, and then no call of it leads to a lookup; or it makes the one lookup
its call leads to. -/
theorem lookups_of_step (g : Setting N K S A V E W L) (c : Config N K S A V E W L) :
    (∃ added, (g.step c).config.calls = c.calls ++ added ∧
      (g.step c).config.lookups = c.lookups ∧ ∀ call ∈ added, g.lookup? call = none) ∨
    ∃ call l, (g.step c).config.calls = c.calls ++ [call] ∧
      (g.step c).config.lookups = c.lookups ++ [l] ∧
      g.lookup? call = some (l.node, l.state) ∧ g.Counts l := by
  have hmove := g.move c
  generalize g.step c = p at hmove ⊢
  cases hmove with
  | pull | pullRaised | drop | dropRaised | finish =>
    exact .inl ⟨[], by simp [Progress.config], by simp [Progress.config], by simp⟩
  | handle node p hpending harrival =>
    cases harrival with
    | unkeyed | skipped | tooDeep =>
      exact .inl ⟨[], by simp [Progress.config], by simp [Progress.config], by simp⟩
    | raised key e memory hkey hseen hlimit hcall =>
      refine .inl ⟨[⟨node, c.state, c.value, .error e⟩], ?_, ?_, ?_⟩
      all_goals simp [Progress.config, lookup?]
    | refused key answer f memory hkey hseen hlimit hcall hrefused =>
      have hnone := lookup?_of_refusal ⟨node, c.state, c.value, .ok answer⟩ rfl hrefused
      refine .inl ⟨[⟨node, c.state, c.value, .ok answer⟩], ?_, ?_, ?_⟩
      all_goals simp [Progress.config, hnone]
    | rejected key reason memory hkey hseen hlimit hcall =>
      refine .inl ⟨[⟨node, c.state, c.value, .ok (.fail reason)⟩], ?_, ?_, ?_⟩
      all_goals simp [Progress.config, lookup?]
    | pruned key value given memory hkey hseen hlimit hcall =>
      refine .inl ⟨[⟨node, c.state, c.value, .ok (.prune value (.ok given))⟩], ?_, ?_, ?_⟩
      all_goals simp [Progress.config, lookup?]
    | unlisted key value given memory e left hkey
    | notListed key value given memory e left hkey =>
      refine .inr ⟨⟨node, c.state, c.value, .ok (.proceed value (.ok given))⟩,
        ⟨node, (given.mark key).withAncestors c.state.ancestors, none⟩, ?_, ?_, ?_, ?_⟩
      · simp [Progress.config]
      · simp [Progress.config]
      · simp [lookup?, hkey]
      · intro n hn
        cases hn
    | opened key value given memory pulls left hkey hseen hlimit hcall hlookup =>
      refine .inr ⟨⟨node, c.state, c.value, .ok (.proceed value (.ok given))⟩,
        ⟨node, (given.mark key).withAncestors c.state.ancestors, some pulls.each.length⟩,
        ?_, ?_, ?_, ?_⟩
      · simp [Progress.config]
      · simp [Progress.config]
      · simp [lookup?, hkey]
      · intro n hn
        cases hn
        exact ⟨memory, pulls, left, hlookup, rfl⟩

/-- Children are looked up once for every call that proceeds with a state, in the order of the
calls. -/
theorem lookups_reduce (g : Setting N K S A V E W L) (budget : Nat) (root : N) (context : S)
    (value : A) (memory : W) (heard : L) :
    (g.reduce budget root context value memory heard).config.lookups.map
        (fun l => (l.node, l.state)) =
      (g.reduce budget root context value memory heard).config.calls.filterMap g.lookup? := by
  refine g.holds_of_outcome (P := fun _ => True)
    (Q := fun c => c.lookups.map (fun l => (l.node, l.state)) = c.calls.filterMap g.lookup?)
    (fun _ _ _ _ => trivial) ?_ trivial rfl
  intro c _ hc
  rcases g.lookups_of_step c with ⟨added, hcalls, hlookups, hnone⟩ |
    ⟨call, l, hcalls, hlookups, hcall, _⟩
  · rw [hcalls, hlookups, hc, List.filterMap_append, List.filterMap_eq_nil_iff.2 hnone,
      List.append_nil]
  · rw [hcalls, hlookups, List.map_append, List.filterMap_append, hc]
    simp [hcall]

/-- The numbers given in the journal are those of the children listed. -/
theorem counts_of_mem_lookups {budget : Nat} {root : N} {context : S} {value : A} {memory : W}
    {heard : L} :
    ∀ l ∈ (g.reduce budget root context value memory heard).config.lookups, g.Counts l := by
  refine g.holds_of_outcome (P := fun _ => True) (Q := fun c => ∀ l ∈ c.lookups, g.Counts l)
    (fun _ _ _ _ => trivial) ?_ trivial (fun l hl => by cases hl)
  intro c _ hc l hl
  rcases g.lookups_of_step c with ⟨_, _, hlookups, _⟩ | ⟨call, new, _, hlookups, _, hnew⟩
  · rw [hlookups] at hl
    exact hc l hl
  · rw [hlookups] at hl
    rcases List.mem_append.1 hl with hold | hlast
    · exact hc l hold
    · rw [List.mem_singleton.1 hlast]
      exact hnew

end Setting

/-! ## §6 Events -/

/-- The event an entry of the journal is about. -/
@[simp]
def Entry.event? : Entry N K S A V E → Option (Event N)
  | .handled event => some event
  | .arrived _ _ | .called _ _ _ _ | .asked _ _ _ | .listenerRaised => none

/-- The events so far, oldest first. -/
def Config.events (c : Config N K S A V E W L) : List (Event N) :=
  (c.journal.filterMap Entry.event?).reverse

theorem Config.events_of_journal {c d : Config N K S A V E W L} (h : c.journal = d.journal) :
    c.events = d.events := by
  rw [Config.events, h, Config.events]

theorem Config.report_events (c : Config N K S A V E W L) (listener : Option (Listener N L))
    (kind : EventKind) (node : N) (depth : Nat) :
    (c.report listener kind node depth).events =
      c.events ++ [⟨kind, depth, node, c.evaluations⟩] := by
  obtain ⟨heard, raised, hraised, h⟩ := c.report_eq listener kind node depth
  have hnone : raised.filterMap Entry.event? = [] := by
    rw [List.filterMap_eq_nil_iff]
    intro entry hentry
    rw [hraised entry hentry]
    rfl
  simp [events, h, List.filterMap_append, hnone]

end GraphFold
