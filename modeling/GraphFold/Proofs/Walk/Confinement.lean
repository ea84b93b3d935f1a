/-
GraphFold.Proofs.Walk.Confinement — walks that do not leave their nodes.

A family of nodes is CLOSED OFF if every node of it has a key and every lookup
at it lists children of the family, which are there already. A walk that starts
in such a family stays in it, under any evaluator and any limits. Every lookup
it makes succeeds, and when the walk is given up over a failed computation, that
was a call of the evaluator. If the evaluator keeps keys and the family is
finite, each node is called at most once and the walk ends.

  §1 Families — `Setting.ClosedOff`, `Setting.Confined`.
  §2 Steps    — a step stays in the family.
  §3 Walks    — `StaysWithin`, and what finite families add.
-/
import GraphFold.Proofs.Walk.Termination
import Mathlib.Data.List.Perm.Subperm
import Mathlib.Data.Set.List

namespace GraphFold

variable {I N K S A V E W L : Type} [Ord K]

/-! ## §1 Families -/

namespace Setting

/-- The nodes of a family have keys and list nodes of the family, under every state. -/
structure ClosedOff (g : Setting N K S A V E W L) (node : I → N) (key : I → K) (inside : I → Prop)
    (kids : I → List I) : Prop where
  identity_eq : ∀ i, inside i → g.identity (node i) = .ok (key i)
  children_eq : ∀ i s memory, inside i → (g.children (node i) s).perform memory =
    (.ok (.ok (.ofNodes ((kids i).map node))), memory)
  inside_of_mem : ∀ i j, inside i → j ∈ kids i → inside j

/-- Only nodes of the family wait, the pulls still to come just hand them over, and nothing is done
after them. -/
structure Confined (node : I → N) (inside : I → Prop) (c : Config N K S A V E W L) : Prop where
  pending : ∀ x, c.pending = some x → ∃ i, inside i ∧ node i = x
  pulls : PullsAll (fun pull => ∃ i, inside i ∧ pull = pure (node i)) c
  endings : FramesAll (fun pulls => pulls.ending = pure ()) c

variable {g : Setting N K S A V E W L} {node : I → N} {key : I → K} {inside : I → Prop}
  {kids : I → List I}

theorem confined_start {i : I} (hi : inside i) (context : S) (value : A) (memory : W) (heard : L) :
    Confined node inside
      (.start (node i) context value memory heard : Config N K S A V E W L) where
  pending x hx := ⟨i, hi, Option.some.inj hx⟩
  pulls frame hframe := by cases hframe
  endings frame hframe := by cases hframe

/-! ## §2 Steps -/

/-- The lookup at a node of the family lists its children. -/
theorem ClosedOff.lookup_eq (hg : g.ClosedOff node key inside kids) {x : N}
    (hx : ∃ i, inside i ∧ node i = x) (s : State N K S) (memory : W) :
    ∃ i, inside i ∧ node i = x ∧ (g.children x s).perform memory =
      (.ok (.ok (.ofNodes ((kids i).map node))), memory) := by
  obtain ⟨i, hi, rfl⟩ := hx
  exact ⟨i, hi, rfl, hg.children_eq i s memory hi⟩

/-- The children of a node that is opened are there already, and of the family. -/
theorem Confined.pulls_of_opened (hg : g.ClosedOff node key inside kids)
    {c d : Config N K S A V E W L} (hc : Confined node inside c) (h : g.step c = .running d) {x : N}
    {above : List N} {pulls : Pulls W E N} (hpending : c.pending = some x)
    (hframes : d.frames = ⟨above, pulls⟩ :: c.frames) :
    ∃ i, inside i ∧ pulls = .ofNodes ((kids i).map node) := by
  obtain ⟨_, _, _, _, _, _, _, _, hlookup, _⟩ := listed_of_opened h hpending hframes
  obtain ⟨i, hi, -, hlists⟩ := hg.lookup_eq (hc.pending x hpending) _ _
  rw [hlists] at hlookup
  cases hlookup
  exact ⟨i, hi, rfl⟩

theorem Confined.step (hg : g.ClosedOff node key inside kids) {c d : Config N K S A V E W L}
    (hc : Confined node inside c) (h : g.step c = .running d) : Confined node inside d := by
  refine ⟨fun x hx => ?_,
    hc.pulls.step h fun x above pulls hpending hframes pull hpull => ?_,
    hc.endings.step h (fun _ _ _ htop => htop) fun x above pulls hpending hframes => ?_⟩
  · have hmove := g.move c
    rw [h] at hmove
    cases hmove with
    | handle x' p hpending harrival =>
      rw [harrival.pending_eq_none] at hx
      cases hx
    | drop => exact hc.pending x hx
    | pull above pull later ending outer child memory hnone hframes hperform =>
      obtain ⟨i, hi, rfl⟩ := hc.pulls.next hframes
      cases hx
      cases hperform
      exact ⟨i, hi, rfl⟩
  · obtain ⟨i, hi, rfl⟩ := hc.pulls_of_opened hg h hpending hframes
    obtain ⟨child, hchild, rfl⟩ := List.mem_map.1 hpull
    obtain ⟨j, hj, rfl⟩ := List.mem_map.1 hchild
    exact ⟨j, hg.inside_of_mem i j hi hj, rfl⟩
  · obtain ⟨i, -, rfl⟩ := hc.pulls_of_opened hg h hpending hframes
    rfl

/-- A step looks up nothing, or the children of a node of the family. -/
theorem Confined.lookups_step (hg : g.ClosedOff node key inside kids) {c : Config N K S A V E W L}
    (hc : Confined node inside c) :
    (g.step c).config.lookups = c.lookups ∨
      ∃ i l, inside i ∧ node i = l.node ∧ l.count = some (kids i).length ∧
        (g.step c).config.lookups = c.lookups ++ [l] := by
  have hmove := g.move c
  generalize g.step c = p at hmove ⊢
  cases hmove with
  | pull | pullRaised | drop | dropRaised | finish => exact .inl (by simp [Progress.config])
  | handle x p hpending harrival =>
    have hlists := hg.lookup_eq (hc.pending x hpending)
    cases harrival with
    | unkeyed | skipped | tooDeep | raised | refused | rejected | pruned =>
      exact .inl (by simp [Progress.config])
    | unlisted _ _ _ _ _ _ _ _ _ _ hlookup
    | notListed _ _ _ _ _ _ _ _ _ _ hlookup =>
      obtain ⟨i, -, -, hlists⟩ := hlists _ _
      rw [hlists] at hlookup
      cases hlookup
    | opened own value given memory pulls left _ _ _ _ hlookup =>
      obtain ⟨i, hi, rfl, hlists⟩ := hlists _ _
      rw [hlists] at hlookup
      cases hlookup
      refine .inr ⟨i, ⟨node i, (given.mark own).withAncestors c.state.ancestors,
        some (kids i).length⟩, hi, rfl, rfl, ?_⟩
      simp [Progress.config, Pulls.ofNodes]

/-- A step that fails over a computation does so because the evaluator did. -/
theorem Confined.call_of_raised (hg : g.ClosedOff node key inside kids)
    {c d : Config N K S A V E W L} {e : E} (hc : Confined node inside c)
    (h : g.step c = .failed (.raised e) d) :
    ∃ earlier call, d.calls = earlier ++ [call] ∧ call.answer = .error e := by
  have hmove := g.move c
  rw [h] at hmove
  cases hmove with
  | pullRaised above pull later ending outer e memory hnone hframes hperform =>
    obtain ⟨i, -, rfl⟩ := hc.pulls.next hframes
    cases hperform
  | dropRaised above ending outer e memory hnone hframes hperform =>
    obtain rfl := hc.endings.top hframes
    cases hperform
  | handle x p hpending harrival =>
    have hx := hc.pending x hpending
    cases harrival with
    | unkeyed _ hkey =>
      obtain ⟨i, hi, rfl⟩ := hx
      rw [hg.identity_eq i hi] at hkey
      cases hkey
    | raised own _ memory _ _ _ hcall =>
      exact ⟨c.calls, ⟨x, c.state, c.value, .error e⟩, by simp, rfl⟩
    | refused own answer _ memory _ _ _ _ hrefused =>
      -- What is refused is refused over the answer, not over a computation that failed.
      unfold refusal? at hrefused
      split at hrefused <;> rcases answer with ⟨_, _ | _⟩ | ⟨_, _ | _⟩ | _ | _ <;> cases hrefused
    | unlisted _ _ _ _ _ _ _ _ _ _ hlookup
    | notListed _ _ _ _ _ _ _ _ _ _ hlookup =>
      obtain ⟨i, -, -, hlists⟩ := hg.lookup_eq hx _ _
      rw [hlists] at hlookup
      cases hlookup

end Setting

/-! ## §3 Walks -/

/-- What a walk comes to that stays in a family of nodes: it arrives at these nodes only, each of
its lookups is at one of them and lists its children, and if it was given up over a failed
computation, that was its last call. -/
structure StaysWithin (node : I → N) (inside : I → Prop) (kids : I → List I)
    (o : Outcome N K S A V E W L) : Prop where
  arrivals : ∀ x ∈ o.config.arrivals, ∃ i, inside i ∧ node i = x
  lookups : ∀ l ∈ o.config.lookups, ∃ i, inside i ∧ node i = l.node ∧
    l.count = some (kids i).length
  raised : ∀ e c, o = .failed (.raised e) c →
    ∃ earlier call, c.calls = earlier ++ [call] ∧ call.answer = .error e

namespace Setting.ClosedOff

variable {g : Setting N K S A V E W L} {node : I → N} {key : I → K} {inside : I → Prop}
  {kids : I → List I}

/-- A walk that starts in the family stays in it. -/
theorem staysWithin (hg : g.ClosedOff node key inside kids) {i : I} (hi : inside i) (budget : Nat)
    (context : S) (value : A) (memory : W) (heard : L) :
    StaysWithin node inside kids (g.reduce budget (node i) context value memory heard) := by
  have hstart : Confined node inside
      (.start (node i) context value memory heard : Config N K S A V E W L) :=
    confined_start hi context value memory heard
  have hstep : ∀ c d : Config N K S A V E W L, Confined node inside c → g.step c = .running d →
      Confined node inside d := fun _ _ hc h => hc.step hg h
  refine ⟨?_, ?_, fun e c hc => ?_⟩
  · refine g.holds_of_outcome (Q := fun c => ∀ x ∈ c.arrivals, ∃ i, inside i ∧ node i = x) hstep
      (fun c hc hold x hx => ?_) hstart fun x hx => by cases hx
    rw [g.arrivals_step c, List.mem_append, Option.mem_toList] at hx
    exact hx.elim (hold x) (hc.pending x)
  · refine g.holds_of_outcome (Q := fun c => ∀ l ∈ c.lookups, ∃ i, inside i ∧ node i = l.node ∧
      l.count = some (kids i).length) hstep (fun c hc hold l hl => ?_) hstart fun l hl => by cases hl
    rcases hc.lookups_step hg with hsame | ⟨j, new, hj, hnode, hcount, hadded⟩
    · exact hold l (hsame ▸ hl)
    · rw [hadded, List.mem_append, List.mem_singleton] at hl
      rcases hl with hl | rfl
      · exact hold l hl
      · exact ⟨j, hj, hnode, hcount⟩
  · obtain ⟨m, d, hm, hd⟩ := g.exists_of_run_failed hc
    exact (g.invariant_of_run hstep hstart hm).call_of_raised hg hd

variable [Std.TransOrd K]

/-- A walk in a finite family ends, if the evaluator keeps keys. -/
theorem exists_ended (hg : g.ClosedOff node key inside kids) (hkeeps : g.evaluator.KeepsSeen)
    (all : List I) (hall : ∀ i, inside i → i ∈ all) {i : I} (hi : inside i) (context : S) (value : A)
    (memory : W) (heard : L) : ∃ n, (g.reduce n (node i) context value memory heard).Ended := by
  have hkeys : ∀ (c : Config N K S A V E W L) x own, Confined node inside c →
      c.pending = some x → g.identity x = .ok own →
      ∃ other ∈ all.map key, compare own other = .eq := fun c x own hc hx hown => by
    obtain ⟨j, hj, rfl⟩ := hc.pending x hx
    rw [hg.identity_eq j hj] at hown
    cases hown
    exact ⟨key j, List.mem_map_of_mem (hall j hj), Std.ReflCmp.compare_self⟩
  exact Setting.exists_ended hkeeps (fun _ _ hc h => hc.step hg h) hkeys _
    (confined_start hi context value memory heard)

/-- It calls nodes of the family, no one twice. -/
theorem exists_called (hg : g.ClosedOff node key inside kids) (hkeeps : g.evaluator.KeepsSeen)
    {i : I} (hi : inside i) (budget : Nat) (context : S) (value : A) (memory : W) (heard : L) :
    ∃ called : List I, called.Nodup ∧ (∀ j ∈ called, inside j) ∧
      (g.reduce budget (node i) context value memory heard).config.calls.map (fun c => c.node) =
        called.map node := by
  have hfresh := fresh_reduce (g := g) budget (node i) context value memory heard
  obtain ⟨s, hremembers⟩ := remembers_reduce hkeeps budget (node i) context value memory heard
  have hdistinct := hremembers.pairwise_calls hfresh
  have hinside : ∀ call ∈ (g.reduce budget (node i) context value memory heard).config.calls,
      ∃ j, inside j ∧ node j = call.node := by
    refine calls_induction (P := Confined node inside)
      (Q := fun calls => ∀ call ∈ calls, ∃ j, inside j ∧ node j = call.node)
      (fun _ _ hc h => hc.step hg h) (fun c new hc hold hat call hcall => ?_)
      (confined_start hi context value memory heard) fun call hcall => by cases hcall
    rw [List.mem_append, List.mem_singleton] at hcall
    rcases hcall with hcall | rfl
    · exact hold call hcall
    · exact hc.pending call.node hat.pending_eq
  generalize (g.reduce budget (node i) context value memory heard).config = c at hdistinct hinside
  -- So the nodes called are those of a list of members of the family.
  obtain ⟨members, hmembers⟩ : c.calls.map (fun call => call.node) ∈
      Set.range (List.map fun j : { j // inside j } => node j) := by
    rw [Set.range_list_map]
    intro x hx
    obtain ⟨call, hcall, rfl⟩ := List.mem_map.1 hx
    obtain ⟨j, hj, hnode⟩ := hinside call hcall
    exact ⟨⟨j, hj⟩, hnode⟩
  refine ⟨members.map Subtype.val, ?_, ?_, by rw [← hmembers, List.map_map]; rfl⟩
  · have hkeys : (c.calls.map fun call => call.node).Pairwise fun a b => ¬ g.SameKey a b :=
      List.pairwise_map.2 hdistinct
    rw [← hmembers, List.pairwise_map] at hkeys
    refine List.pairwise_map.2 (hkeys.imp fun {a b} hnot heq => hnot ?_)
    rw [← heq]
    exact ⟨key a, key a, hg.identity_eq a a.2, hg.identity_eq a a.2, Std.ReflCmp.compare_self⟩
  · intro j hj
    obtain ⟨member, -, rfl⟩ := List.mem_map.1 hj
    exact member.2

/-- So there are at most as many calls as nodes. -/
theorem length_calls_le (hg : g.ClosedOff node key inside kids) (hkeeps : g.evaluator.KeepsSeen)
    (all : List I) (hall : ∀ i, inside i → i ∈ all) {i : I} (hi : inside i) (budget : Nat)
    (context : S) (value : A) (memory : W) (heard : L) :
    (g.reduce budget (node i) context value memory heard).config.calls.length ≤ all.length := by
  obtain ⟨called, hnodup, hinside, hcalled⟩ :=
    hg.exists_called hkeeps hi budget context value memory heard
  have hlength := congrArg List.length hcalled
  rw [List.length_map, List.length_map] at hlength
  rw [hlength]
  exact (hnodup.subperm fun j hj => hall j (hinside j hj)).length_le

end Setting.ClosedOff

end GraphFold
