/-
GraphFold.Proofs.Walk.SimplePaths — no key comes twice on a path, as long as no
key is dropped.

A node gets a level only when it is new, and from then on its key is among those
seen, until some call drops it. So while none does, the levels have keys that
are told apart (`Descent.simple`), and a new node's key differs from all of
them. A path within finitely many keys is then no longer than they are many,
whatever cycles the graph has, and a limit on the depth that is only one less
cuts nothing off.

  §1 Keys   — nodes with keys that are told apart and seen.
  §2 Levels — those of a point of a walk.
  §3 Walks  — `Setting.paths_simple`.
-/
import GraphFold.Proofs.Walk.Bounds
import GraphFold.Proofs.Walk.DepthLimit

namespace GraphFold

variable {N K S A V E W L : Type} [Ord K]

/-! ## §1 Keys -/

/-- The state the call returned, if it returned one, has the keys of the state it was handed. -/
def Call.KeepsSeen (call : Call N K S A V E) : Prop :=
  ∀ key, call.state.isSeen key = true → ¬ call.Drops key

namespace Setting

/-- These nodes have keys that are pairwise distinct, and all of them have been seen. -/
structure Simple (g : Setting N K S A V E W L) (nodes : List N) (s : State N K S) : Prop where
  distinct : nodes.Pairwise fun a b => ¬ g.SameKey a b
  seen : ∀ x ∈ nodes, g.Seen s x

variable {g : Setting N K S A V E W L} {nodes : List N} {s t : State N K S} {x : N} {key : K}

namespace Simple

theorem nil : g.Simple [] s := ⟨.nil, nofun⟩

theorem mono (h : g.Simple nodes s) (hst : ∀ x, g.Seen s x → g.Seen t x) : g.Simple nodes t :=
  ⟨h.distinct, fun x hx => hst x (h.seen x hx)⟩

theorem tail (h : g.Simple (x :: nodes) s) : g.Simple nodes s :=
  ⟨h.distinct.of_cons, fun y hy => h.seen y (List.mem_cons_of_mem _ hy)⟩

variable [Std.TransOrd K]

theorem reverse (h : g.Simple nodes s) : g.Simple nodes.reverse s where
  distinct := List.pairwise_reverse.2 (h.distinct.imp fun hab hba => hab hba.symm)
  seen y hy := h.seen y (List.mem_reverse.1 hy)

/-- A node that is new has a key of its own. -/
theorem not_sameKey (h : g.Simple nodes s) (hkey : g.identity x = .ok key)
    (hseen : s.isSeen key = false) : ∀ y ∈ nodes, ¬ g.SameKey x y := by
  rintro y hy ⟨own, other, hown, hother, heq⟩
  rw [hkey] at hown
  cases hown
  obtain ⟨other', hother', hy⟩ := h.seen y hy
  rw [hother] at hother'
  cases hother'
  rw [← s.isSeen_congr heq, hseen] at hy
  cases hy

/-- So it may be added, once it has been seen. -/
theorem cons (h : g.Simple nodes s) (hkey : g.identity x = .ok key) (hseen : s.isSeen key = false)
    (hst : ∀ y, g.Seen s y → g.Seen t y) (hx : g.Seen t x) : g.Simple (x :: nodes) t := by
  refine ⟨List.pairwise_cons.2 ⟨h.not_sameKey hkey hseen, h.distinct⟩, fun y hy => ?_⟩
  rcases List.mem_cons.1 hy with rfl | hy
  · exact hx
  · exact hst y (h.seen y hy)

/-- There are no more such nodes than keys seen. -/
theorem length_le (h : g.Simple nodes s) : nodes.length ≤ s.seenCount := by
  have hlength : (nodes.filterMap fun y => (g.identity y).toOption).length = nodes.length := by
    rw [List.filterMap_length_eq_length]
    intro y hy
    obtain ⟨own, hown, _⟩ := h.seen y hy
    rw [toOption_identity.2 hown]
    rfl
  rw [← hlength]
  refine State.length_le_seenCount (List.pairwise_filterMap.2 (h.distinct.imp ?_)) ?_
  · intro a b hab ka hka kb hkb heq
    exact hab ⟨ka, kb, toOption_identity.1 hka, toOption_identity.1 hkb, heq⟩
  · intro own hmem
    obtain ⟨y, hy, hown⟩ := List.mem_filterMap.1 hmem
    obtain ⟨own', hown', hseen⟩ := h.seen y hy
    rw [toOption_identity.1 hown] at hown'
    cases hown'
    exact hseen

end Simple

/-! ## §2 Levels -/

variable {start c d : Config N K S A V E W L} {levels : List (Level N W E)} [Std.TransOrd K]

/-- A step whose calls keep what was seen does. -/
theorem Seen.step_of_keepsSeen (hkeeps : ∀ call ∈ d.calls, call.KeepsSeen)
    (h : g.step c = .running d) (hx : g.Seen c.state x) : g.Seen d.state x := by
  obtain ⟨own, hown, hseen⟩ := hx
  refine ⟨own, hown, ?_⟩
  rcases called_of_step h with ⟨_, _, hsame⟩ | ⟨node, key, answer, given, hcalled⟩
  · rw [State.isSeen, hsame]
    exact hseen
  · have hnot := hkeeps ⟨node, c.state, c.value, .ok answer⟩ (by simp [hcalled.calls_eq]) own hseen
    have hgiven : given.isSeen own = true := by
      by_contra hnew
      exact hnot ⟨given, hcalled.state?_eq, Bool.eq_false_iff.2 hnew⟩
    rw [State.isSeen, hcalled.seen_eq, ← State.isSeen, State.isSeen_mark, hgiven, Bool.or_true]

theorem Simple.step (hkeeps : ∀ call ∈ d.calls, call.KeepsSeen) (h : g.step c = .running d)
    (hnodes : g.Simple nodes c.state) : g.Simple nodes d.state :=
  hnodes.mono fun _ hx => hx.step_of_keepsSeen hkeeps h

/-- While no key is dropped, the nodes of the levels are simple. -/
theorem Descent.simple (h : g.Descent start levels c) (hkeeps : ∀ call ∈ c.calls, call.KeepsSeen) :
    g.Simple (levels.map Level.node) c.state := by
  have hearlier : ∀ {c d : Config N K S A V E W L}, g.step c = .running d →
      (∀ call ∈ d.calls, call.KeepsSeen) → ∀ call ∈ c.calls, call.KeepsSeen :=
    fun hstep hkeeps call hcall => hkeeps call ((calls_prefix_of_step hstep).subset hcall)
  induction h with
  | start => exact .nil
  | opened _ hstep hpending hframes ih =>
    obtain ⟨_, _, _, _, _, hkey, hseen, _⟩ := listed_of_opened hstep hpending hframes
    have hold := ih (hearlier hstep hkeeps)
    -- The node was new at `c`, and at `d` its key is marked.
    exact hold.cons hkey hseen (fun _ hy => hy.step_of_keepsSeen hkeeps hstep)
      (arrival_of_step hpending hstep).seen
  | settled _ hstep _ _ ih | pulled _ hstep _ _ ih =>
    exact (ih (hearlier hstep hkeeps)).step hkeeps hstep
  | dropped _ hstep _ _ ih => exact (ih (hearlier hstep hkeeps)).tail.step hkeeps hstep

omit [Std.TransOrd K] in
/-- Every level was opened by a call. -/
theorem Descent.length_le_calls (h : g.Descent start levels c) :
    levels.length ≤ c.calls.length := by
  induction h with
  | start => exact Nat.zero_le _
  | opened _ hstep hpending hframes ih =>
    obtain ⟨_, hcalls, _⟩ := calls_of_opened hstep hpending hframes
    rw [hcalls, List.length_append]
    exact Nat.succ_le_succ ih
  | settled _ hstep _ _ ih | pulled _ hstep _ _ ih =>
    exact ih.trans (calls_prefix_of_step hstep).length_le
  | dropped _ hstep _ _ ih =>
    exact (Nat.le_of_succ_le ih).trans (calls_prefix_of_step hstep).length_le

omit [Std.TransOrd K] in
/-- The walk arrived at the node of every level. -/
theorem Descent.mem_arrivals (h : g.Descent start levels c) :
    ∀ level ∈ levels, level.node ∈ c.arrivals := by
  have hgrows : ∀ {c d : Config N K S A V E W L}, g.step c = .running d →
      ∀ {y}, y ∈ c.arrivals → y ∈ d.arrivals := fun hstep y hy => by
    rw [arrivals_of_step hstep]
    exact List.mem_append_left _ hy
  induction h with
  | start => exact nofun
  | opened _ hstep hpending hframes ih =>
    intro level hlevel
    rcases List.mem_cons.1 hlevel with rfl | hold
    · rw [arrivals_of_step hstep, hpending]
      exact List.mem_append_right _ (List.mem_singleton_self _)
    · exact hgrows hstep (ih level hold)
  | settled _ hstep _ _ ih | pulled _ hstep _ _ ih =>
    exact fun level hlevel => hgrows hstep (ih level hlevel)
  | dropped _ hstep _ _ ih =>
    exact fun level hlevel => hgrows hstep (ih level (List.mem_cons_of_mem _ hlevel))

/-! ## §3 Walks -/

/-- The call is made with a simple path, which is not longer than this number, and the key of its
node differs from those on it. -/
def OnSimplePath (g : Setting N K S A V E W L) (i : Nat) (call : Call N K S A V E) : Prop :=
  g.Simple call.state.path call.state ∧ (∀ y ∈ call.state.path, ¬ g.SameKey call.node y) ∧
    call.state.depth ≤ i

section Start

variable {root : N} {context : S} {value : A} {memory : W} {heard : L}

/-- At a point with levels the path is simple, and not longer than the calls so far are many. -/
theorem Descent.path_simple (h : g.Descent (.start root context value memory heard) levels c)
    (hkeeps : ∀ call ∈ c.calls, call.KeepsSeen) :
    g.Simple c.state.path c.state ∧ c.state.depth ≤ c.calls.length := by
  rw [h.located.path_eq]
  refine ⟨(h.simple hkeeps).reverse, ?_⟩
  rw [State.depth, h.located.ancestors_eq, List.length_map]
  exact h.length_le_calls

omit [Std.TransOrd K] in
/-- The calls made up to a point of a walk are there wherever it stops later. -/
theorem calls_prefix_of_le {n budget : Nat} (hle : n ≤ budget)
    (h : g.run n start = .unfinished c) : c.calls <+: (g.run budget start).config.calls := by
  obtain ⟨k, rfl⟩ := Nat.exists_eq_add_of_le hle
  rw [g.run_add_of_unfinished h]
  exact g.calls_prefix_run k c

/-- A call that is made while no key is dropped has a simple path, and its node has a key of its
own. -/
theorem Descent.onSimplePath (h : g.Descent (.start root context value memory heard) levels c)
    (hkeeps : ∀ call ∈ c.calls, call.KeepsSeen) {call : Call N K S A V E} (hat : g.CallsAt c call) :
    g.OnSimplePath c.calls.length call := by
  obtain ⟨hsimple, hdepth⟩ := h.path_simple hkeeps
  obtain ⟨key, hkey, hseen⟩ := hat.fresh
  unfold OnSimplePath
  rw [hat.state_eq]
  exact ⟨hsimple, hsimple.not_sameKey hkey hseen, hdepth⟩

theorem onSimplePath_reduce (budget : Nat)
    (hkeeps : ∀ call ∈ (g.reduce budget root context value memory heard).config.calls,
      call.KeepsSeen) :
    ∀ i call, (g.reduce budget root context value memory heard).config.calls[i]? = some call →
      g.OnSimplePath i call := by
  revert hkeeps
  refine calls_induction
    (P := fun c => ∃ levels, g.Descent (.start root context value memory heard) levels c)
    (Q := fun calls => (∀ call ∈ calls, call.KeepsSeen) → ∀ i call, calls[i]? = some call →
      g.OnSimplePath i call)
    (fun _ _ ⟨_, hc⟩ h => hc.exists_step h) ?_ ⟨[], .start⟩ (fun _ i call hi => by cases hi)
  rintro c new ⟨levels, hc⟩ hcalls hat hkeeps
  have hold : ∀ call ∈ c.calls, call.KeepsSeen := fun call hcall =>
    hkeeps call (List.mem_append_left _ hcall)
  exact forall_getElem?_concat (hcalls hold) (hc.onSimplePath hold hat)

/-- If the keys of a new node and of all nodes arrived at so far are among these, there are fewer
levels than these. -/
theorem Descent.length_lt_size (h : g.Descent (.start root context value memory heard) levels c)
    (hkeeps : ∀ call ∈ c.calls, call.KeepsSeen) (hkey : g.identity x = .ok key)
    (hseen : c.state.isSeen key = false) (keys : Std.TreeSet K)
    (hamong : ∀ y ∈ c.arrivals ++ [x], g.Among keys y) : levels.length < keys.size := by
  -- The node and the levels are simple in a state in which just these keys have been seen.
  let t : State N K S := { c.state with seen := keys }
  have hlevels := h.simple hkeeps
  have hin : ∀ y ∈ c.arrivals ++ [x], ∀ own, g.identity y = .ok own → g.Seen t y :=
    fun y hy own hown => ⟨own, hown, hamong y hy own hown⟩
  have hsimple : g.Simple (x :: levels.map Level.node) t := by
    refine ⟨List.pairwise_cons.2 ⟨hlevels.not_sameKey hkey hseen, hlevels.distinct⟩, ?_⟩
    intro y hy
    rcases List.mem_cons.1 hy with rfl | hy
    · exact hin y (List.mem_append_right _ (List.mem_singleton_self y)) key hkey
    · obtain ⟨level, hlevel, rfl⟩ := List.mem_map.1 hy
      obtain ⟨own, hown, _⟩ := hlevels.seen _ hy
      exact hin _ (List.mem_append_left _ (h.mem_arrivals level hlevel)) own hown
  have hle := hsimple.length_le
  rw [List.length_cons, List.length_map] at hle
  exact hle

omit [Std.TransOrd K] in
/-- Where a walk gives up a node that is too deep, the limit is exceeded. -/
theorem exceeds_of_tooDeep {limit : Int} {node : N} {path : List N}
    (hdepth : c.state.depth = c.frames.length)
    (h : g.step c = .failed (.tooDeep limit node path) d) :
    g.limits.maxDepth = some limit ∧ g.Exceeds limit c := by
  have hmove := g.move c
  rw [h] at hmove
  cases hmove with
  | handle x p hpending harrival =>
    cases harrival with
    | tooDeep key limit hkey hseen hlimit hdeep =>
      exact ⟨hlimit, _, key, hpending, hkey, hseen, hdepth ▸ hdeep⟩
    | refused key answer f memory hkey hseen hlimit hcall hrefused =>
      cases abort?_of_refusal hrefused

/-- If the keys of the nodes arrived at are among finitely many, no node is too deep for a limit
that is one less than these. -/
theorem not_tooDeep_of_among {budget : Nat} {o : Outcome N K S A V E W L}
    (ho : g.reduce budget root context value memory heard = o)
    (hkeeps : ∀ call ∈ o.config.calls, call.KeepsSeen) {keys : Std.TreeSet K}
    (hamong : ∀ x ∈ o.config.arrivals, g.Among keys x) {limit : Int}
    (hlimit : g.limits.maxDepth = some limit) (hle : (keys.size : Int) - 1 ≤ limit) :
    ∀ l node path c, o ≠ .failed (.tooDeep l node path) c := by
  rintro l node path d rfl
  obtain ⟨n, c, hn, hstep⟩ := g.exists_of_run_failed ho
  obtain ⟨levels, hc⟩ := exists_descent hn
  obtain ⟨hlimit', x, key, hpending, hkey, hseen, hdeep⟩ :=
    exceeds_of_tooDeep hc.located.depth_eq hstep
  rw [hlimit] at hlimit'
  cases hlimit'
  -- The calls so far are calls of the run, and its last arrival is the node that is too deep.
  have hcalls := g.calls_prefix_step c
  have harrivals := g.arrivals_step c
  rw [hstep, hpending] at harrivals
  rw [hstep] at hcalls
  have hlt := hc.length_lt_size (fun call hcall => hkeeps call (hcalls.subset hcall)) hkey hseen
    keys fun y hy => hamong y (harrivals ▸ hy)
  rw [hc.located.nested.length_eq, ← hc.located.depth_eq] at hlt
  omega

end Start

omit [Std.TransOrd K] in
/-- An evaluator that keeps what was seen does so at every call. -/
theorem keepsSeen_of_mem_calls (hkeeps : g.evaluator.KeepsSeen) (budget : Nat) (root : N)
    (context : S) (value : A) (memory : W) (heard : L) :
    ∀ call ∈ (g.reduce budget root context value memory heard).config.calls, call.KeepsSeen := by
  rintro ⟨node, s, carried, answer⟩ hcall key hkey ⟨given, hgiven, hdropped⟩
  obtain ⟨_, _, hperform⟩ := g.answered_reduce budget root context value memory heard _ hcall
  cases answer with
  | error e => cases hgiven
  | ok answer =>
    have hkept := hkeeps _ _ _ _ _ _ _ hperform hgiven key hkey
    rw [hdropped] at hkept
    cases hkept

/-- If no call of a walk drops a key, then wherever the walk arrives, the nodes on the path have
keys that are pairwise distinct and have all been seen, and a node that is called has another key
still. So no node has more ancestors than there were calls before it; and if the keys of the nodes
arrived at are among finitely many, a limit on the depth that is one less than these is never
exceeded. -/
theorem paths_simple (g : Setting N K S A V E W L) (budget : Nat) (root : N) (context : S)
    (value : A) (memory : W) (heard : L) (o : Outcome N K S A V E W L)
    (ho : g.reduce budget root context value memory heard = o)
    (hkeeps : ∀ call ∈ o.config.calls, call.KeepsSeen) :
    (∀ n c x, n ≤ budget → g.reduce n root context value memory heard = .unfinished c →
      c.pending = some x →
      g.Simple c.state.path c.state ∧ c.state.depth = c.frames.length ∧
      c.state.depth ≤ c.evaluations) ∧
    (∀ i call, o.config.calls[i]? = some call → g.OnSimplePath i call) ∧
    ∀ (keys : Std.TreeSet K) (limit : Int), (∀ x ∈ o.config.arrivals, g.Among keys x) →
      g.limits.maxDepth = some limit → (keys.size : Int) - 1 ≤ limit →
      ∀ l node path c, o ≠ .failed (.tooDeep l node path) c := by
  refine ⟨?_, ?_, ?_⟩
  · intro n c x hle hn hpending
    obtain ⟨levels, hc⟩ := exists_descent hn
    have hgrown := calls_prefix_of_le hle hn
    rw [← reduce, ho] at hgrown
    have hsimple := hc.path_simple fun call hcall => hkeeps call (hgrown.subset hcall)
    rw [evaluations_eq_length_calls hn]
    exact ⟨hsimple.1, hc.located.depth_eq, hsimple.2⟩
  · subst ho
    exact onSimplePath_reduce budget hkeeps
  · intro keys limit hamong hlimit hle
    exact not_tooDeep_of_among ho hkeeps hamong hlimit hle

/-- A ring of three nodes, each of them among its own children too. -/
def looped (node : Nat) : List Nat := [node, (node + 1) % 3]

/-- On the ring the path grows up to a limit of two, and no further. -/
theorem counting_looped_paths_simple :
    ∃ o c, ((counting looped fun _ => false).withMaxDepth (some 2)).reduce 40 0 () 0 () () = o ∧
      (∀ call ∈ o.config.calls, call.KeepsSeen) ∧
      (∀ i call, o.config.calls[i]? = some call →
        ((counting looped fun _ => false).withMaxDepth (some 2)).OnSimplePath i call) ∧
      (∀ l node path last, o ≠ .failed (.tooDeep l node path) last) ∧ o = .finished c ∧
      c.calls.map (fun call => call.state.path) = [[], [0], [0, 1]] ∧
      c.events.map (fun e => (e.kind, e.depth)) =
        [(.descend, 0), (.skip, 1), (.descend, 1), (.skip, 2), (.descend, 2), (.skip, 3),
          (.skip, 3)] := by
  have hkeeps := keepsSeen_of_mem_calls
    (g := (counting looped fun _ => false).withMaxDepth (some 2)) (keepsSeen_counting looped _)
    40 0 () 0 () ()
  obtain ⟨_, hcalls, hdeep⟩ := paths_simple _ 40 0 () 0 () () _ rfl hkeeps
  refine ⟨_, _, rfl, hkeeps, hcalls, hdeep (.ofList [0, 1, 2]) 2 ?_ rfl (by decide), rfl, rfl, rfl⟩
  intro x hx key hkey
  cases hkey
  rw [Std.TreeSet.contains_ofList]
  have harrivals : x ∈ [0, 0, 1, 1, 2, 2, 0] := hx
  revert harrivals
  decide +revert

end Setting

end GraphFold
