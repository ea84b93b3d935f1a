/-
GraphFold.Proofs.Walk.Termination — a walk over finitely many keys ends.

A step that evaluates a node records a key that was new, and the frame it opens
may be of any size; any other step leaves the seen set alone and uses up a
pending node, a pull or a frame. So the keys still to be seen come first in the
measure and the stack comes second.

  §1 Measure  — `State.unseenAmong`, `Config.weight`.
  §2 Ends     — `Setting.exists_ended`.
  §3 Failures — walks that cannot fail.
-/
import GraphFold.Proofs.Walk.Coverage

namespace GraphFold

variable {N K S A V E W L : Type} [Ord K]

/-! ## §1 Measure -/

/-- How many of these keys have not been seen. -/
def State.unseenAmong (s : State N K S) (keys : List K) : Nat :=
  keys.countP fun key => !s.isSeen key

/-- What is left of the stack: each pull costs a step to ask for the child and one to handle it,
and each frame a step to be dropped. -/
def Config.weight (c : Config N K S A V E W L) : Nat :=
  (if c.pending.isSome then 1 else 0) +
    c.frames.foldr (fun frame rest => 1 + 2 * frame.pulls.each.length + rest) 0

/-- Fewer keys are unseen among these if more have been seen. -/
theorem State.unseenAmong_le {s t : State N K S} {keys : List K}
    (h : ∀ key, s.isSeen key = true → t.isSeen key = true) :
    t.unseenAmong keys ≤ s.unseenAmong keys := by
  refine List.countP_mono_left fun key _ hkey => ?_
  cases hs : s.isSeen key with
  | false => rfl
  | true =>
    rw [h key hs] at hkey
    cases hkey

theorem State.unseenAmong_lt {s t : State N K S} {keys : List K} {key : K}
    (h : ∀ key, s.isSeen key = true → t.isSeen key = true) (hmem : key ∈ keys)
    (hold : s.isSeen key = false) (hnew : t.isSeen key = true) :
    t.unseenAmong keys < s.unseenAmong keys := by
  induction keys with
  | nil => cases hmem
  | cons first later ih =>
    have hle : t.unseenAmong later ≤ s.unseenAmong later := unseenAmong_le h
    have hfirst : t.unseenAmong [first] ≤ s.unseenAmong [first] := unseenAmong_le h
    simp only [unseenAmong, List.countP_cons, List.countP_nil] at ih hle hfirst ⊢
    rcases List.mem_cons.1 hmem with rfl | hmem
    · simp only [hold, hnew]
      simp
      omega
    · have := ih hmem
      omega

namespace Setting

variable {g : Setting N K S A V E W L}

/-! ## §2 Ends -/

/-- Every step makes the measure smaller, if the keys of pending nodes are among these. -/
theorem measure_of_step [Std.TransOrd K] (hkeeps : g.evaluator.KeepsSeen) {keys : List K}
    {c d : Config N K S A V E W L} (h : g.step c = .running d)
    (hkeys : ∀ x own, c.pending = some x → g.identity x = .ok own →
      ∃ key ∈ keys, compare own key = .eq) :
    Prod.Lex (· < ·) (· < ·) (d.state.unseenAmong keys, d.weight)
      (c.state.unseenAmong keys, c.weight) := by
  have hkept : ∀ key, c.state.isSeen key = true → d.state.isSeen key = true :=
    fun key hkey => isSeen_of_step hkeeps h hkey
  have hle : d.state.unseenAmong keys ≤ c.state.unseenAmong keys := State.unseenAmong_le hkept
  rcases called_of_step h with ⟨hcalls, _⟩ | ⟨node, own, answer, given, hcalled⟩
  · have hlight : d.weight < c.weight := by
      have hmove := g.move c
      rw [h] at hmove
      cases hmove with
      | handle node p hpending harrival =>
        cases harrival with
        | skipped => simp [Config.weight, hpending]
        | pruned => simp at hcalls
        | opened => simp at hcalls
      | pull above pull later ending outer child left hnone hframes hperform =>
        simp only [Config.weight, hnone, hframes, List.foldr_cons, List.length_cons,
          Option.isSome_some, Option.isSome_none, if_true, Bool.false_eq_true, if_false]
        omega
      | drop above ending outer left hnone hframes =>
        simp only [Config.weight, hnone, hframes, List.foldr_cons, List.length_nil]
        omega
    rcases Nat.lt_or_eq_of_le hle with hlt | heq
    · exact .left _ _ hlt
    · rw [heq]
      exact .right _ hlight
  · obtain ⟨key, hmem, heq⟩ := hkeys node own hcalled.pending_eq hcalled.identity_eq
    refine .left _ _ (State.unseenAmong_lt hkept hmem ?_ ?_)
    · rw [← c.state.isSeen_congr heq]
      exact hcalled.unseen
    · rw [State.isSeen, hcalled.seen_eq, ← State.isSeen, State.isSeen_mark, heq]
      rfl

/-- A walk whose evaluator keeps keys ends, if what is pending always has one of finitely many
keys. -/
theorem exists_ended [Std.TransOrd K] (hkeeps : g.evaluator.KeepsSeen) {keys : List K}
    {P : Config N K S A V E W L → Prop} (hstep : ∀ c d, P c → g.step c = .running d → P d)
    (hkeys : ∀ c x own, P c → c.pending = some x → g.identity x = .ok own →
      ∃ key ∈ keys, compare own key = .eq)
    (c : Config N K S A V E W L) (hc : P c) : ∃ n, (g.run n c).Ended := by
  match h : g.step c with
  | .finished d => exact ⟨1, by rw [g.run_succ_of_finished h]; exact Outcome.ended_finished d⟩
  | .failed f d => exact ⟨1, by rw [g.run_succ_of_failed h]; exact Outcome.ended_failed f d⟩
  | .running d =>
    obtain ⟨n, hn⟩ := exists_ended hkeeps hstep hkeys d (hstep c d hc h)
    exact ⟨n + 1, by rw [g.run_succ_of_running h]; exact hn⟩
termination_by (c.state.unseenAmong keys, c.weight)
decreasing_by exact measure_of_step hkeeps h fun x own hx hown => hkeys c x own hc hx hown

/-! ## §3 Failures -/

/-- The computation fails on no memory. -/
def Succeeds {α : Type} (act : Action W E α) : Prop :=
  ∀ memory, ∃ answer left, act.perform memory = (.ok answer, left)

/-- Children can be asked for, one after the other, and one too many. -/
structure Delivers (pulls : Pulls W E N) : Prop where
  each : ∀ pull ∈ pulls.each, Succeeds pull
  ending : Succeeds pulls.ending

/-- Children that are there already can be asked for. -/
theorem delivers_ofNodes (nodes : List N) : Delivers (.ofNodes nodes : Pulls W E N) where
  each pull hpull memory := by
    obtain ⟨node, -, rfl⟩ := List.mem_map.1 hpull
    exact ⟨node, memory, rfl⟩
  ending memory := ⟨(), memory, rfl⟩

/-- At the nodes and in the contexts of a walk nothing fails: nodes have keys, there is no limit,
the evaluator answers with a state, and the children of every node can be looked up and asked
for. -/
structure Total (g : Setting N K S A V E W L) (inContext : S → Prop) (isNode : N → Prop) :
    Prop where
  identity : ∀ node, isNode node → ∃ key, g.identity node = .ok key
  limit : g.limits.maxDepth = none
  answers : ∀ node s value memory, isNode node → inContext s.context →
    ∃ answer left given, (g.evaluator node s value).perform memory = (.ok answer, left) ∧
      answer.state? = some given ∧ inContext given.context
  lookup : ∀ node s memory, isNode node → inContext s.context →
    ∃ pulls left, (g.children node s).perform memory = (.ok (.ok pulls), left) ∧
      Delivers pulls

variable {inContext : S → Prop} {isNode : N → Prop} {kids : N → List N}

/-- An answer with a state is not refused, and does not give the walk up. -/
theorem refusal?_of_state? {node : N} {answer : Answer N K S A V} {given : State N K S}
    (h : answer.state? = some given) : g.refusal? node answer = none := by
  rcases answer with ⟨value, _ | _⟩ | ⟨value, _ | _⟩ | _ | _ <;> cases h
  · exact g.refusal?_eq_none_iff.2 (.inl ⟨_, _, rfl⟩)
  · exact g.refusal?_eq_none_iff.2 (.inr (.inl ⟨_, _, rfl⟩))

/-- After a call that proceeds the children can be looked up and asked for. -/
theorem Total.exists_pulls (hg : g.Total inContext isNode) {c : Config N K S A V E W L}
    (hc : Within inContext isNode c) (key : K) {node : N} {value : A} {given : State N K S}
    {memory : W} (hpending : c.pending = some node)
    (hcall : (g.evaluator node c.state c.value).perform c.memory =
      (.ok (.proceed value (.ok given)), memory)) :
    ∃ pulls left, (g.children node ((given.mark key).withAncestors c.state.ancestors)).perform
      memory = (.ok (.ok pulls), left) ∧ Delivers pulls := by
  have hnode := hc.waits.pending node hpending
  obtain ⟨answer, left, given', hanswer, hstate, hgiven⟩ :=
    hg.answers node c.state c.value c.memory hnode hc.context
  rw [hanswer] at hcall
  cases hcall
  cases hstate
  exact hg.lookup node _ memory hnode hgiven

theorem Total.not_failed (hg : g.Total inContext isNode) {c d : Config N K S A V E W L}
    {f : Failure N V E} (hc : Within inContext isNode c) (hframes : FramesAll Delivers c) :
    g.step c ≠ .failed f d := by
  intro h
  have hmove := g.move c
  rw [h] at hmove
  cases hmove with
  | handle node p hpending harrival =>
    have hnode := hc.waits.pending node hpending
    obtain ⟨answer, left, given, hanswer, hstate, hgiven⟩ :=
      hg.answers node c.state c.value c.memory hnode hc.context
    cases harrival with
    | unkeyed e hkey =>
      obtain ⟨key, hkey'⟩ := hg.identity node hnode
      rw [hkey] at hkey'
      cases hkey'
    | tooDeep key limit hkey hseen hlimit hdeep =>
      rw [hg.limit] at hlimit
      cases hlimit
    | raised key e memory hkey hseen hlimit hcall =>
      rw [hanswer] at hcall
      cases hcall
    | refused key answer' f memory hkey hseen hlimit hcall hrefused =>
      rw [hanswer] at hcall
      cases hcall
      rw [refusal?_of_state? hstate] at hrefused
      cases hrefused
    | rejected key reason memory hkey hseen hlimit hcall =>
      rw [hanswer] at hcall
      cases hcall
      cases hstate
    | unlisted key value given' memory e left' hkey hseen hlimit hcall hlookup =>
      obtain ⟨pulls, _, hok, _⟩ := hg.exists_pulls hc key hpending hcall
      rw [hok] at hlookup
      cases hlookup
    | notListed key value given' memory e left' hkey hseen hlimit hcall hlookup =>
      obtain ⟨pulls, _, hok, _⟩ := hg.exists_pulls hc key hpending hcall
      rw [hok] at hlookup
      cases hlookup
  | pullRaised above pull later ending outer e left hnone htop hperform =>
    obtain ⟨child, left', hok⟩ := (hframes.top htop).each pull (List.mem_cons_self ..) c.memory
    rw [hok] at hperform
    cases hperform
  | dropRaised above ending outer e left hnone htop hperform =>
    obtain ⟨_, left', hok⟩ := (hframes.top htop).ending c.memory
    rw [hok] at hperform
    cases hperform

/-- The children of a node that is opened can be asked for. -/
theorem Total.framesAll_step (hg : g.Total inContext isNode) {c d : Config N K S A V E W L}
    (hc : Within inContext isNode c) (hframes : FramesAll Delivers c) (h : g.step c = .running d) :
    FramesAll Delivers d := by
  refine hframes.step h ?_ ?_
  · intro pull later ending hdelivers
    exact ⟨fun other hother => hdelivers.each other (List.mem_cons_of_mem _ hother),
      hdelivers.ending⟩
  · intro node above pulls hpending hopened
    obtain ⟨key, _, _, _, _, _, _, hcall, hlookup, _⟩ := listed_of_opened h hpending hopened
    obtain ⟨listed, _, hok, hdelivers⟩ := hg.exists_pulls hc key hpending hcall
    rw [hok] at hlookup
    cases hlookup
    exact hdelivers

/-- A walk that cannot fail, over nodes with finitely many keys, comes to its end. -/
theorem exists_reduce_finished [Std.TransOrd K] (hlists : g.Lists inContext isNode kids)
    (hg : g.Total inContext isNode) (hkeeps : g.evaluator.KeepsSeen) (keys : List K)
    (hkeys : ∀ x own, isNode x → g.identity x = .ok own → ∃ key ∈ keys, compare own key = .eq)
    {root : N} {context : S} (hroot : isNode root) (hcontext : inContext context) (value : A)
    (memory : W) (heard : L) :
    ∃ n c, ∀ budget, n ≤ budget →
      g.reduce budget root context value memory heard = .finished c := by
  let P : Config N K S A V E W L → Prop :=
    fun c => Within inContext isNode c ∧ FramesAll Delivers c
  have hP : ∀ c d, P c → g.step c = .running d → P d := fun c d hc h =>
    ⟨hc.1.step hlists h, hg.framesAll_step hc.1 hc.2 h⟩
  have hstart : P (.start root context value memory heard) := by
    refine ⟨⟨hcontext, ?_, ?_⟩, ?_⟩
    · intro x hx
      cases hx
      exact hroot
    · intro frame hframe
      cases hframe
    · intro frame hframe
      cases hframe
  obtain ⟨n, hn⟩ := exists_ended hkeeps hP
    (fun c x own hc hx hown => hkeys x own (hc.1.waits.pending x hx) hown) _ hstart
  cases hend : g.run n (.start root context value memory heard) with
  | unfinished d => exact absurd hend (hn d)
  | failed f d =>
    obtain ⟨m, e, hm, he⟩ := g.exists_of_run_failed hend
    obtain ⟨hwithin, hdelivers⟩ := g.invariant_of_run hP hstart hm
    exact absurd he (hg.not_failed hwithin hdelivers)
  | finished d =>
    refine ⟨n, d, fun budget hle => ?_⟩
    rw [reduce, g.run_of_le hle hn, hend]

end Setting

end GraphFold
