/-
GraphFold.Proofs.Walk.Bounds — how much a walk over finitely many keys does.

A walk arrives at its root and at children that were listed, at each of them at
most once: what it arrived at and what still waits are together as many as the
root and the children listed so far (`arrivals_add_waiting`). And if no key
leads out of a finite set of keys, every call is on a key of that set, so an
evaluator that keeps keys is called at most once for each.

  §1 Waiting — what is still to be arrived at, against what was listed.
  §2 Closed  — sets of keys that children do not leave.
  §3 Bounds  — `Setting.bounded_of_closed`.
-/
import GraphFold.Proofs.Walk.Termination

namespace GraphFold

variable {N K S A V E W L : Type} [Ord K]

/-! ## §1 Waiting -/

/-- How many nodes are still to be arrived at, as far as they are listed. -/
def Config.waiting (c : Config N K S A V E W L) : Nat :=
  c.pending.toList.length + c.frames.foldr (fun frame rest => frame.pulls.each.length + rest) 0

/-- How many children were listed in these lookups. -/
def Lookup.total (lookups : List (Lookup N K S)) : Nat :=
  lookups.foldr (fun l rest => l.count.getD 0 + rest) 0

@[simp] theorem Lookup.total_append (earlier later : List (Lookup N K S)) :
    total (earlier ++ later) = total earlier + total later := by
  induction earlier with
  | nil => simp [total]
  | cons first rest ih =>
    simp only [total, List.cons_append, List.foldr_cons] at ih ⊢
    omega

@[simp] theorem Lookup.total_singleton (l : Lookup N K S) : total [l] = l.count.getD 0 := rfl

namespace Setting

/-- A step turns a node that waits into an arrival, and children that are listed into nodes that
wait. -/
theorem waiting_step (g : Setting N K S A V E W L) (c : Config N K S A V E W L) :
    (g.step c).config.waiting + c.pending.toList.length + Lookup.total c.lookups =
      c.waiting + Lookup.total (g.step c).config.lookups := by
  have hmove := g.move c
  generalize g.step c = p at hmove ⊢
  cases hmove with
  | handle node p hpending harrival =>
    cases harrival with
    | opened =>
      -- The frame that is pushed holds as many children as the lookup counts.
      simp [Progress.config, Config.waiting, hpending]
      omega
    | unkeyed | skipped | tooDeep | raised | refused | rejected | pruned | unlisted | notListed =>
      simp [Progress.config, Config.waiting, hpending]
      omega
  | pull above pull later ending outer child memory hpending hframes hpull =>
    simp only [Progress.config, Config.waiting, hpending, hframes, Config.lookups_mk,
      Entry.lookups_journal, Option.toList_some, Option.toList_none, List.length_nil,
      List.length_cons, List.foldr_cons]
    omega
  | drop above ending outer left hpending hframes =>
    simp [Progress.config, Config.waiting, hpending, hframes]
  | pullRaised _ _ _ _ _ _ _ hpending | dropRaised _ _ _ _ _ hpending | finish hpending =>
    simp [Progress.config, Config.waiting, hpending]

/-- The arrivals and what still waits are the root and the children listed. -/
theorem arrivals_add_waiting (g : Setting N K S A V E W L) (budget : Nat) (root : N) (context : S)
    (value : A) (memory : W) (heard : L) {c : Config N K S A V E W L}
    (hc : (g.reduce budget root context value memory heard).config = c) :
    c.arrivals.length + c.waiting = 1 + Lookup.total c.lookups := by
  subst hc
  refine g.holds_of_outcome (P := fun _ => True)
    (Q := fun c => c.arrivals.length + c.waiting = 1 + Lookup.total c.lookups)
    (fun _ _ _ _ => trivial) ?_ trivial rfl
  intro c _ hc
  have hwaiting := g.waiting_step c
  rw [g.arrivals_step c, List.length_append]
  omega

/-! ## §2 Closed -/

variable (g : Setting N K S A V E W L) (keys : Std.TreeSet K)

/-- The key of the node is one of these. -/
def Among (node : N) : Prop := ∀ key, g.identity node = .ok key → keys.contains key = true

/-- The children listed for a node with one of these keys have such keys too, under every state. -/
def Closed : Prop :=
  ∀ node key s memory pulls left, g.identity node = .ok key → keys.contains key = true →
    (g.children node s).perform memory = (.ok (.ok pulls), left) →
    ∀ pull ∈ pulls.each, Gives (g.Among keys) pull

variable {g keys}

theorem Closed.step (hclosed : g.Closed keys) {c d : Config N K S A V E W L}
    (hc : Holds (g.Among keys) c) (h : g.step c = .running d) : Holds (g.Among keys) d := by
  refine hc.step h ?_
  intro node above pulls hpending hframes
  obtain ⟨key, _, _, _, _, hkey, _, _, hlookup, _⟩ := listed_of_opened h hpending hframes
  exact hclosed node key _ _ _ _ hkey (hc.pending node hpending key hkey) hlookup

theorem holds_among_start {root : N} (hroot : g.Among keys root) (context : S) (value : A)
    (memory : W) (heard : L) :
    Holds (g.Among keys) (.start root context value memory heard : Config N K S A V E W L) := by
  constructor
  · intro x hx
    cases hx
    exact hroot
  · intro frame hframe
    cases hframe

/-- Only nodes with keys among these are called. -/
theorem Closed.among_of_mem_calls (hclosed : g.Closed keys) {root : N} (hroot : g.Among keys root)
    (budget : Nat) (context : S) (value : A) (memory : W) (heard : L) :
    ∀ call ∈ (g.reduce budget root context value memory heard).config.calls,
      g.Among keys call.node := by
  refine calls_induction (P := Holds (g.Among keys))
    (Q := fun calls => ∀ call ∈ calls, g.Among keys call.node)
    (fun _ _ hc h => hclosed.step hc h) ?_ (holds_among_start hroot context value memory heard)
    (fun call hcall => by cases hcall)
  intro c new hc hcalls hat call hcall
  rcases List.mem_append.1 hcall with hold | hlast
  · exact hcalls call hold
  · rw [List.mem_singleton.1 hlast]
    exact hc.pending new.node hat.pending_eq

variable [Std.TransOrd K]

/-- A key of a set is equal to one in its listing. -/
theorem exists_mem_toList {key : K} (hkey : keys.contains key = true) :
    ∃ k ∈ keys.toList, compare key k = .eq := by
  by_contra hnone
  -- Else it could be listed besides the others, and the set would be larger than it is.
  have hdistinct : (key :: keys.toList).Pairwise fun a b => compare a b ≠ .eq :=
    List.pairwise_cons.2
      ⟨fun k hk heq => hnone ⟨k, hk, heq⟩, Std.TreeSet.distinct_toList⟩
  have hle := State.length_le_seenCount (s := (⟨(), keys, []⟩ : State Unit K Unit)) hdistinct
    fun k hk => by
      rcases List.mem_cons.1 hk with rfl | hk
      · exact hkey
      · exact Std.TreeSet.mem_of_mem_toList hk
  rw [List.length_cons, Std.TreeSet.length_toList] at hle
  exact Nat.not_succ_le_self _ hle

/-- A walk that does not leave these keys ends. -/
theorem Closed.exists_ended (hclosed : g.Closed keys) (hkeeps : g.evaluator.KeepsSeen) {root : N}
    (hroot : g.Among keys root) (context : S) (value : A) (memory : W) (heard : L) :
    ∃ n, (g.reduce n root context value memory heard).Ended :=
  Setting.exists_ended hkeeps (P := Holds (g.Among keys)) (fun _ _ hc h => hclosed.step hc h)
    (fun _ x own hc hx hown => exists_mem_toList (hc.pending x hx own hown)) _
    (holds_among_start hroot context value memory heard)

/-- Distinct calls have distinct keys, so there are at most as many as keys. -/
theorem Closed.length_calls_le (hclosed : g.Closed keys) (hkeeps : g.evaluator.KeepsSeen) {root : N}
    (hroot : g.Among keys root) (budget : Nat) (context : S) (value : A) (memory : W) (heard : L) :
    (g.reduce budget root context value memory heard).config.calls.length ≤ keys.size := by
  have hfresh := fresh_reduce (g := g) budget root context value memory heard
  obtain ⟨s, hremembers⟩ := remembers_reduce hkeeps budget root context value memory heard
  have hdistinct := pairwise_keys (hremembers.pairwise_calls hfresh)
  have hkeyed : ∀ call ∈ (g.reduce budget root context value memory heard).config.calls,
      ∃ key, g.identity call.node = .ok key := fun call hcall =>
    (hfresh call hcall).imp fun _ h => h.1
  rw [← length_keys hkeyed]
  refine State.length_le_seenCount (s := (⟨(), keys, []⟩ : State Unit K Unit)) hdistinct ?_
  intro key hkey
  obtain ⟨call, hcall, hid⟩ := mem_keys.1 hkey
  exact hclosed.among_of_mem_calls hroot budget context value memory heard call hcall key hid

/-! ## §3 Bounds -/

/-- If the children of nodes with a key among finitely many have such keys too, whatever the state,
and the evaluator keeps the keys it is given, then a walk from such a node ends. It makes at most as
many calls as there are keys, and it arrives at nodes at most once more often than children were
listed, for nodes that were called. -/
theorem bounded_of_closed (g : Setting N K S A V E W L) (keys : Std.TreeSet K)
    (hclosed : g.Closed keys) (hkeeps : g.evaluator.KeepsSeen) (root : N)
    (hroot : g.Among keys root) (context : S) (value : A) (memory : W) (heard : L) :
    (∃ n o, o.Ended ∧ ∀ budget, n ≤ budget →
      g.reduce budget root context value memory heard = o) ∧
    ∀ budget c, (g.reduce budget root context value memory heard).config = c →
      c.calls.length ≤ keys.size ∧
      c.arrivals.length ≤ 1 + Lookup.total c.lookups ∧
      c.lookups.map (fun l => (l.node, l.state)) = c.calls.filterMap g.lookup? ∧
      ∀ l ∈ c.lookups, ∀ n, l.count = some n → ∃ memory pulls left,
        (g.children l.node l.state).perform memory = (.ok (.ok pulls), left) ∧
        pulls.each.length = n := by
  constructor
  · obtain ⟨n, hn⟩ := hclosed.exists_ended hkeeps hroot context value memory heard
    exact ⟨n, _, hn, fun budget hle => g.run_of_le hle hn⟩
  · rintro budget c rfl
    refine ⟨hclosed.length_calls_le hkeeps hroot budget context value memory heard, ?_,
      g.lookups_reduce budget root context value memory heard, counts_of_mem_lookups⟩
    have hsum := g.arrivals_add_waiting budget root context value memory heard rfl
    omega

omit [Std.TransOrd K] in
theorem closed_counting {kids : Nat → List Nat} {cut : Nat → Bool} {keys : Std.TreeSet Nat}
    (h : ∀ node, keys.contains node = true → ∀ kid ∈ kids node, keys.contains kid = true) :
    (counting kids cut).Closed keys := by
  intro node key s memory pulls left hkey hmem hlookup pull hpull memory' child left' hperform
  cases hkey
  cases hlookup
  obtain ⟨kid, hkid, hpure⟩ := List.mem_map.1 hpull
  cases hpure
  cases hperform
  intro own hown
  cases hown
  exact h node hmem _ hkid

/-- Three nodes, each a child of all three: both bounds are reached. -/
theorem counting_complete_bounded :
    (counting (fun _ => [0, 1, 2]) fun _ => false).Closed (.ofList [0, 1, 2]) ∧
      (counting (fun _ => [0, 1, 2]) fun _ => false).evaluator.KeepsSeen ∧
      (counting (fun _ => [0, 1, 2]) fun _ => false).Among (.ofList [0, 1, 2]) 0 ∧
      ∃ c, (counting (fun _ => [0, 1, 2]) fun _ => false).reduce 40 0 () 0 () () = .finished c ∧
        c.calls.length ≤ (Std.TreeSet.ofList [0, 1, 2]).size ∧ c.calls.length = 3 ∧
        c.arrivals.length ≤ 1 + Lookup.total c.lookups ∧ c.arrivals.length = 10 := by
  have hclosed : (counting (fun _ => [0, 1, 2]) fun _ => false).Closed (.ofList [0, 1, 2]) := by
    refine closed_counting fun node _ kid hkid => ?_
    rw [Std.TreeSet.contains_ofList]
    exact List.elem_eq_true_of_mem hkid
  have hkeeps := keepsSeen_counting (fun _ => [0, 1, 2]) fun _ => false
  have hroot : (counting (fun _ => [0, 1, 2]) fun _ => false).Among (.ofList [0, 1, 2]) 0 := by
    intro key hkey
    cases hkey
    rfl
  obtain ⟨_, hbounds⟩ := bounded_of_closed _ _ hclosed hkeeps 0 hroot () 0 () ()
  obtain ⟨hcalls, harrivals, _⟩ := hbounds 40 _ rfl
  exact ⟨hclosed, hkeeps, hroot, _, rfl, hcalls, rfl, harrivals, rfl⟩

end Setting

end GraphFold
