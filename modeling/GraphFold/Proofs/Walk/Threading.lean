/-
GraphFold.Proofs.Walk.Threading — one value, one context and one seen set.

When a frame is dropped the walk puts its ancestors back, and nothing else. So
what a call leaves is what the next call is handed, however many nodes are
skipped and however many subtrees end between the two: steps that make no call
change neither the value nor the context nor the seen set (`leaves_of_step`).

  §1 Calls  — what a call leaves.
  §2 Points — calls that are threaded, and the last of them.
  §3 Walks  — `Setting.threads_calls`.
-/
import GraphFold.Proofs.Walk.SingleVisit
import Mathlib.Data.List.Chain

namespace GraphFold

variable {N K S A V E W L : Type} [Ord K]

namespace Setting

/-! ## §1 Calls -/

/-- The call was answered with this value, and with a state that has this context; this seen set is
that of the answer, and the key of the node. -/
def Leaves (g : Setting N K S A V E W L) (call : Call N K S A V E) (value : A)
    (s : State N K S) : Prop :=
  ∃ key given, g.identity call.node = .ok key ∧
    (call.answer = .ok (.proceed value (.ok given)) ∨
      call.answer = .ok (.prune value (.ok given))) ∧
    s.context = given.context ∧ s.seen = given.seen.insert key

variable {g : Setting N K S A V E W L}

/-- A step keeps the value, the context and the seen set, and handles no node that is new; or it
makes a call, and goes on with what the call leaves. -/
theorem leaves_of_step {c d : Config N K S A V E W L} (h : g.step c = .running d) :
    (d.calls = c.calls ∧ d.value = c.value ∧ d.state.context = c.state.context ∧
      d.state.seen = c.state.seen ∧
      ∀ node, c.pending = some node → ∃ key, g.identity node = .ok key ∧
        c.state.isSeen key = true) ∨
    ∃ call : Call N K S A V E, d.calls = c.calls ++ [call] ∧ g.Leaves call d.value d.state := by
  have hmove := g.move c
  rw [h] at hmove
  cases hmove with
  | handle node p hpending harrival =>
    cases harrival with
    | skipped key hkey hseen =>
      refine .inl ⟨by simp, by simp, by simp, by simp, fun x hx => ?_⟩
      rw [hpending] at hx
      cases hx
      exact ⟨key, hkey, hseen⟩
    | pruned key value given memory hkey hseen hlimit hcall =>
      refine .inr ⟨⟨node, c.state, c.value, .ok (.prune value (.ok given))⟩, by simp, key, given,
        hkey, .inr ?_, ?_, ?_⟩
      · simp
      · simp
      · simp [State.withAncestors, State.mark]
    | opened key value given memory pulls left hkey hseen hlimit hcall hlookup =>
      refine .inr ⟨⟨node, c.state, c.value, .ok (.proceed value (.ok given))⟩, by simp, key, given,
        hkey, .inl ?_, ?_, ?_⟩
      · simp
      · simp
      · simp [State.withAncestors, State.mark, State.push]
  | pull above pull later ending outer child left hnone
  | drop above ending outer left hnone =>
    exact .inl ⟨rfl, rfl, rfl, rfl, fun x hx => by rw [hnone] at hx; cases hx⟩

/-- A call that proceeds leads to a lookup with what it leaves. -/
theorem leaves_of_lookup? {call : Call N K S A V E} {key : K} {value : A} {given : State N K S}
    (hkey : g.identity call.node = .ok key)
    (hanswer : call.answer = .ok (.proceed value (.ok given))) :
    ∃ s, g.lookup? call = some (call.node, s) ∧ g.Leaves call value s := by
  refine ⟨(given.mark key).withAncestors call.state.ancestors, ?_, key, given, hkey,
    .inl hanswer, rfl, rfl⟩
  exact lookup?_eq_some.2 ⟨value, given, key, hanswer, hkey, rfl, rfl⟩

/-! ## §2 Points -/

/-- The first of these calls is handed what the walk starts from, and each other one what the one
before it left. -/
structure Threaded (g : Setting N K S A V E W L) (root : N) (context : S) (value : A)
    (calls : List (Call N K S A V E)) : Prop where
  first : ∀ call ∈ calls.head?, call.node = root ∧ call.value = value ∧
    call.state = .new context
  next : calls.IsChain fun earlier later => g.Leaves earlier later.value later.state

/-- The walk is at its start, or goes on with what the last call left. -/
def GoesOnFrom (g : Setting N K S A V E W L) (start c : Config N K S A V E W L) : Prop :=
  c = start ∨ ∃ last ∈ c.calls.getLast?, g.Leaves last c.value c.state

variable {root : N} {context : S} {value : A} {memory : W} {heard : L}
  {c d : Config N K S A V E W L}

theorem threaded_nil : g.Threaded root context value [] where
  first _ h := by cases h
  next := .nil

/-- A call that is made at such a point is threaded. -/
theorem Threaded.append (hc : g.Threaded root context value c.calls)
    (hfrom : g.GoesOnFrom (.start root context value memory heard) c)
    {call : Call N K S A V E} (hat : g.CallsAt c call) :
    g.Threaded root context value (c.calls ++ [call]) := by
  rcases hfrom with rfl | ⟨last, hlast, hleaves⟩
  · have hpending := hat.pending_eq
    cases hpending
    exact ⟨fun _ h => by cases h; exact ⟨rfl, hat.value_eq, hat.state_eq⟩, .singleton _⟩
  · constructor
    · intro first hfirst
      refine hc.first first ?_
      cases hcalls : c.calls with
      | nil =>
        rw [hcalls] at hlast
        cases hlast
      | cons head tail =>
        rw [hcalls] at hfirst
        exact hfirst
    · refine List.isChain_append.2 ⟨hc.next, .singleton _, ?_⟩
      intro earlier hearlier later hlater
      cases hlater
      rw [hlast] at hearlier
      cases hearlier
      rw [hat.state_eq, hat.value_eq]
      exact hleaves

theorem GoesOnFrom.step (hfrom : g.GoesOnFrom (.start root context value memory heard) c)
    (h : g.step c = .running d) : g.GoesOnFrom (.start root context value memory heard) d := by
  rcases leaves_of_step h with ⟨hcalls, hvalue, hcontext, hseen, hold⟩ | ⟨call, hcalls, hleaves⟩
  · rcases hfrom with rfl | ⟨last, hlast, key, given, hkey, hanswer, hlcontext, hlseen⟩
    · -- At the start the root is pending, and it is new.
      obtain ⟨key, _, hkey⟩ := hold root rfl
      simp [Config.start] at hkey
    · refine .inr ⟨last, by rw [hcalls]; exact hlast, key, given, hkey, ?_, ?_, ?_⟩
      · rw [hvalue]
        exact hanswer
      · rw [hcontext, hlcontext]
      · rw [hseen, hlseen]
  · refine .inr ⟨call, ?_, hleaves⟩
    rw [hcalls, List.getLast?_append]
    rfl

/-- Wherever a walk stops, its calls are threaded. -/
theorem threaded_reduce (budget : Nat) (root : N) (context : S) (value : A) (memory : W)
    (heard : L) :
    g.Threaded root context value
      (g.reduce budget root context value memory heard).config.calls :=
  calls_induction (P := g.GoesOnFrom (.start root context value memory heard))
    (fun _ _ hc h => hc.step h) (fun _ _ hfrom hc hat => hc.append hfrom hat) (.inl rfl)
    threaded_nil

/-! ## §3 Walks -/

/-- One value, one context and one seen set go through a walk. The first call is handed what the
walk starts from; each other call is handed the value the one before it was answered with, in a
state with the context of that answer, and its seen set with the key of the node that was called.
The children of a node whose call proceeds are looked up with the same, once, and no other
children are; and where a walk comes to its end, it leaves what its last call left. -/
theorem threads_calls (g : Setting N K S A V E W L) (budget : Nat) (root : N) (context : S)
    (value : A) (memory : W) (heard : L) (o : Outcome N K S A V E W L)
    (ho : g.reduce budget root context value memory heard = o) :
    (∀ first ∈ o.config.calls.head?, first.node = root ∧ first.value = value ∧
      first.state = .new context) ∧
    (o.config.calls.IsChain fun earlier later => g.Leaves earlier later.value later.state) ∧
    o.config.lookups.map (fun l => (l.node, l.state)) = o.config.calls.filterMap g.lookup? ∧
    (∀ call ∈ o.config.calls, ∀ carried given, call.answer = .ok (.proceed carried (.ok given)) →
      ∃ s, g.lookup? call = some (call.node, s) ∧ g.Leaves call carried s) ∧
    ∀ c, o = .finished c → ∃ last ∈ c.calls.getLast?, g.Leaves last c.value c.state := by
  subst ho
  obtain ⟨hfirst, hnext⟩ := threaded_reduce (g := g) budget root context value memory heard
  refine ⟨hfirst, hnext, g.lookups_reduce budget root context value memory heard, ?_, ?_⟩
  · intro call hcall carried given hanswer
    obtain ⟨key, hkey, _⟩ := g.fresh_reduce budget root context value memory heard call hcall
    exact leaves_of_lookup? hkey hanswer
  · intro c hc
    obtain ⟨n, hn, hpending, _⟩ := g.exists_of_run_finished hc
    have hfrom := g.invariant_of_run (fun _ _ hfrom h => GoesOnFrom.step hfrom h) (.inl rfl) hn
    rcases hfrom with rfl | hlast
    · cases hpending
    · exact hlast

/-- Lists the nodes of a graph whose children depend on the context. At each call the evaluator
changes all three parts of the state: it counts in the context, marks a key besides the node's and
leaves ancestors that are none. The children of odd nodes are left out. -/
def restless (kids : Nat → Nat → List Nat) :
    Setting Nat Nat Nat (List Nat) Unit Unit Unit Unit where
  identity := .ok
  children := fun node s => pure (.ok (.ofNodes (kids s.context node)))
  evaluator := fun node s value =>
    let given := ((s.withContext (s.context + 1)).mark (node + 100)).withAncestors [node, node]
    let answer := if node % 2 = 1 then Answer.prune else Answer.proceed
    pure (answer (value ++ [node]) (.ok given))
  limits := ⟨none, true⟩
  listener := none

/-- In context 1 the root leads to 2, to 1 and to 2 again; in context 2 node 2 leads to 4 and to the
root. -/
def detour : Nat → Nat → List Nat
  | 1, 0 => [2, 1, 2]
  | 2, 2 => [4, 0]
  | _, _ => []

/-- Between the calls of 4 and of 1 lie a skip and the end of two subtrees; the context and the keys
of the second go on from those of the first. -/
theorem restless_threads_calls :
    ∃ o last, (restless detour).reduce 20 0 0 [] () () = o ∧
      o = .finished last ∧
      (o.config.calls.IsChain fun earlier later =>
        (restless detour).Leaves earlier later.value later.state) ∧
      o.config.calls.map (fun call => (call.node, call.state.context, call.state.seenKeys)) =
        [(0, 0, []), (2, 1, [0, 100]), (4, 2, [0, 2, 100, 102]),
          (1, 3, [0, 2, 4, 100, 102, 104])] ∧
      last.value = [0, 2, 4, 1] ∧ last.state.context = 4 := by
  refine ⟨_, _, rfl, rfl, (threads_calls _ 20 0 0 [] () () _ rfl).2.1, rfl, rfl, rfl⟩

end Setting

end GraphFold
