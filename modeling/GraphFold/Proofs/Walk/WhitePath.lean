/-
GraphFold.Proofs.Walk.WhitePath — what a walk sees, whatever has been seen before.

Of a walk that starts in a state with an arbitrary seen set, only the nodes on
WHITE PATHS are evaluated: paths from the root on which no key had been seen at
the start, and on which every node but the last is opened. Conversely each of
them is evaluated, and once. Where a child is skipped because the subtree of an
earlier one took it, that subtree has taken care of everything below it:
nothing of this is local, but `Charted`, which says it of every point of a
walk, is an invariant of single steps.

  §1 Regular settings — `Setting.Regular`.
  §2 White paths      — `Setting.WhitePath`.
  §3 Charted points   — the invariant.
  §4 The law          — `Setting.seen_iff_whitePath`.
-/
import GraphFold.Proofs.Walk.Coverage

namespace GraphFold

variable {N K S A V E W L : Type} [Ord K]

/-- A walk that starts in this state: the root is pending. -/
def Config.startIn (root : N) (s : State N K S) (value : A) (memory : W) (heard : L) :
    Config N K S A V E W L :=
  ⟨some root, [], s, value, 0, memory, heard, []⟩

namespace Setting

/-! ## §1 Regular settings -/

/-- If the first node has a key, the second has an equal one. -/
def Agrees (g : Setting N K S A V E W L) (a b : N) : Prop :=
  ∀ ka, g.identity a = .ok ka → ∃ kb, g.identity b = .ok kb ∧ compare ka kb = .eq

/-- The evaluator leaves the seen set as it was given, and the key of a node decides whether its
children come next; a lookup that succeeds lists the same children in every state, and the children
of nodes with equal keys have equal keys. -/
structure Regular (g : Setting N K S A V E W L) (kids : N → List N) (goesOn : K → Bool) :
    Prop where
  lists : g.Lists (fun _ => True) (fun _ => True) kids
  keeps : g.evaluator.KeepsSeen
  adds : g.evaluator.AddsNone
  answers : ∀ node key s value memory answer left, g.identity node = .ok key →
    (g.evaluator node s value).perform memory = (.ok answer, left) →
    ∃ v t, answer = if goesOn key then .proceed v t else .prune v t
  goesOn_congr : ∀ a b, compare a b = .eq → goesOn a = goesOn b
  kids_congr : ∀ a b, g.SameKey a b → List.Forall₂ g.Agrees (kids a) (kids b)

/-! ## §2 White paths -/

/-- The node has a key, which has not been seen. -/
def Unseen (g : Setting N K S A V E W L) (s : State N K S) (x : N) : Prop :=
  ∃ key, g.identity x = .ok key ∧ s.isSeen key = false

/-- A path from the root along children on which no key has been seen in `s` and every node before
the last goes on. -/
inductive WhitePath (g : Setting N K S A V E W L) (kids : N → List N) (goesOn : K → Bool)
    (s : State N K S) (root : N) : N → Prop
  | root (hnew : g.Unseen s root) : WhitePath g kids goesOn s root root
  | child {a b : N} {key : K} (hpath : WhitePath g kids goesOn s root a)
      (hkey : g.identity a = .ok key) (hgoes : goesOn key = true) (hkid : b ∈ kids a)
      (hnew : g.Unseen s b) : WhitePath g kids goesOn s root b

/-- The node is the root, or a child of a node on a white path that goes on. -/
def NextTo (g : Setting N K S A V E W L) (kids : N → List N) (goesOn : K → Bool)
    (s : State N K S) (root x : N) : Prop :=
  x = root ∨ ∃ a key, g.WhitePath kids goesOn s root a ∧ g.identity a = .ok key ∧
    goesOn key = true ∧ x ∈ kids a

variable {g : Setting N K S A V E W L} {kids : N → List N} {goesOn : K → Bool}
  {s : State N K S} {root : N}

theorem NextTo.whitePath {x : N} (h : g.NextTo kids goesOn s root x) (hnew : g.Unseen s x) :
    g.WhitePath kids goesOn s root x := by
  rcases h with rfl | ⟨a, key, hpath, hkey, hgoes, hkid⟩
  · exact .root hnew
  · exact .child hpath hkey hgoes hkid hnew

theorem WhitePath.unseen {x : N} (h : g.WhitePath kids goesOn s root x) : g.Unseen s x := by
  cases h with
  | root hnew => exact hnew
  | child _ _ _ _ hnew => exact hnew

/-- A white path is a path. -/
theorem WhitePath.reaches {x : N} (h : g.WhitePath kids goesOn s root x) :
    Relation.ReflTransGen (fun a b => b ∈ kids a) root x := by
  induction h with
  | root => exact .refl
  | child _ _ _ hkid _ ih => exact ih.tail hkid

/-! ## §3 Charted points -/

/-- What holds at every point of a walk that started in `s`. -/
structure Charted (g : Setting N K S A V E W L) (kids : N → List N) (goesOn : K → Bool)
    (s : State N K S) (root : N) (c : Config N K S A V E W L) : Prop where
  /-- The keys seen are those of the start, and those of the calls. -/
  seen : ∀ key, c.state.isSeen key = true ↔
    s.isSeen key = true ∨ ∃ k ∈ g.keys c.calls, compare k key = .eq
  distinct : c.calls.Pairwise fun a b => ¬ g.SameKey a.node b.node
  proceeds : ∀ call ∈ c.calls, ∀ key, g.identity call.node = .ok key → goesOn key = true →
    call.Proceeds
  white : ∀ call ∈ c.calls, g.WhitePath kids goesOn s root call.node
  within : Within (fun _ => True) (fun _ => True) c
  waits : Holds (g.NextTo kids goesOn s root) c
  covered : g.Covered kids c
  root : g.Met c root

theorem charted_startIn (value : A) (memory : W) (heard : L) :
    g.Charted kids goesOn s root (.startIn root s value memory heard) where
  seen key := by simp [Config.startIn, keys, Config.calls, Entry.calls]
  distinct := .nil
  proceeds _ hcall := by cases hcall
  white _ hcall := by cases hcall
  within := ⟨trivial, fun _ _ => trivial, fun _ hframe => by cases hframe⟩
  waits := ⟨fun x hx => by cases hx; exact .inl rfl, fun _ hframe => by cases hframe⟩
  covered _ hcall := by cases hcall
  root := .inl (.inl rfl)

/-- A node that is new at a charted point has not been seen at the start. -/
theorem Charted.unseen {c : Config N K S A V E W L} (hc : g.Charted kids goesOn s root c) {x : N}
    {key : K} (hkey : g.identity x = .ok key) (hnew : c.state.isSeen key = false) :
    g.Unseen s x := by
  refine ⟨key, hkey, ?_⟩
  cases hs : s.isSeen key with
  | false => rfl
  | true =>
    rw [(hc.seen key).2 (.inl hs)] at hnew
    cases hnew

/-- A node seen at the end that was new at the start has been called, itself or another with its
key. -/
theorem Charted.exists_call {c : Config N K S A V E W L} (hc : g.Charted kids goesOn s root c)
    {x : N} (hseen : g.Seen c.state x) (hnew : g.Unseen s x) :
    ∃ call ∈ c.calls, g.SameKey call.node x := by
  obtain ⟨key, hkey, hseen⟩ := hseen
  obtain ⟨key', hkey', hnew⟩ := hnew
  rw [hkey] at hkey'
  cases hkey'
  rcases (hc.seen key).1 hseen with hold | ⟨k, hk, heq⟩
  · rw [hnew] at hold
    cases hold
  · obtain ⟨call, hcall, hid⟩ := mem_keys.1 hk
    exact ⟨call, hcall, k, key, hid, hkey, heq⟩

/-- A node that is opened is new and goes on. -/
theorem Regular.goesOn_of_frames (hg : g.Regular kids goesOn) {c d : Config N K S A V E W L}
    (h : g.step c = .running d) {node : N} {above : List N} {pulls : Pulls W E N}
    (hpending : c.pending = some node) (hframes : d.frames = ⟨above, pulls⟩ :: c.frames) :
    ∃ key, g.identity node = .ok key ∧ c.state.isSeen key = false ∧ goesOn key = true := by
  obtain ⟨key, _, _, _, _, hkey, hseen, hcall, _⟩ := listed_of_opened h hpending hframes
  refine ⟨key, hkey, hseen, ?_⟩
  obtain ⟨v, t, hanswer⟩ := hg.answers _ _ _ _ _ _ _ hkey hcall
  cases hgoes : goesOn key with
  | true => rfl
  | false =>
    rw [hgoes] at hanswer
    cases hanswer

variable [Std.TransOrd K]

theorem Charted.step (hg : g.Regular kids goesOn) {c d : Config N K S A V E W L}
    (hc : g.Charted kids goesOn s root c) (h : g.step c = .running d) :
    g.Charted kids goesOn s root d := by
  have hwithin := hc.within.step hg.lists h
  have hcovered := hc.covered.step hg.lists hg.keeps hc.within h
  have hroot := hc.root.step hg.keeps h
  have hproceeds : ∀ call ∈ d.calls, ∀ key, g.identity call.node = .ok key →
      goesOn key = true → call.Proceeds := by
    refine forall_calls_of_step h hc.proceeds ?_
    intro node key answer given hcalled k hk hgoes
    obtain ⟨memory, hcall⟩ := hcalled.perform_eq
    obtain ⟨v, t, hanswer⟩ := hg.answers _ _ _ _ _ _ _ hk hcall
    exact ⟨v, t, by rw [hanswer, hgoes]; rfl⟩
  have hwhite : ∀ call ∈ d.calls, g.WhitePath kids goesOn s root call.node :=
    forall_calls_of_step h hc.white fun node key answer given hcalled =>
      (hc.waits.pending node hcalled.pending_eq).whitePath
        (hc.unseen hcalled.identity_eq hcalled.unseen)
  have hwaits : Holds (g.NextTo kids goesOn s root) d := by
    refine hc.waits.step h ?_
    intro node above pulls hpending hframes pull hpull memory child left hperform
    obtain ⟨kid, hkid, hyields⟩ :=
      exists_kid_of_mem (forall₂_of_frames hg.lists hc.within h hpending hframes) hpull
    obtain ⟨key, hkey, hnew, hgoes⟩ := hg.goesOn_of_frames h hpending hframes
    rw [hyields _ _ _ hperform]
    exact .inr ⟨node, key, (hc.waits.pending node hpending).whitePath (hc.unseen hkey hnew), hkey,
      hgoes, hkid⟩
  rcases called_of_step h with ⟨hcalls, _, hseen⟩ | ⟨node, key, answer, given, hcalled⟩
  · refine ⟨fun k => ?_, ?_, hproceeds, hwhite, hwithin, hwaits, hcovered, hroot⟩
    · rw [State.isSeen, hseen, hcalls]
      exact hc.seen k
    · rw [hcalls]
      exact hc.distinct
  · obtain ⟨memory, hcall⟩ := hcalled.perform_eq
    have hgiven : ∀ k, given.isSeen k = true ↔ c.state.isSeen k = true := fun k =>
      ⟨hg.adds _ _ _ _ _ _ _ hcall hcalled.state?_eq k,
        hg.keeps _ _ _ _ _ _ _ hcall hcalled.state?_eq k⟩
    have hlast : g.keys d.calls = g.keys c.calls ++ [key] := by
      simp [hcalled.calls_eq, keys, toOption_identity.2 hcalled.identity_eq]
    refine ⟨fun k => ?_, ?_, hproceeds, hwhite, hwithin, hwaits, hcovered, hroot⟩
    · rw [State.isSeen, hcalled.seen_eq, ← State.isSeen, State.isSeen_mark, Bool.or_eq_true,
        beq_iff_eq, hgiven, hc.seen, hlast]
      simp only [List.mem_append, List.mem_singleton]
      constructor
      · rintro (heq | hs | ⟨k', hk', heq⟩)
        · exact .inr ⟨key, .inr rfl, heq⟩
        · exact .inl hs
        · exact .inr ⟨k', .inl hk', heq⟩
      · rintro (hs | ⟨k', hk' | rfl, heq⟩)
        · exact .inr (.inl hs)
        · exact .inr (.inr ⟨k', hk', heq⟩)
        · exact .inl heq
    · rw [hcalled.calls_eq, List.pairwise_append]
      refine ⟨hc.distinct, List.pairwise_singleton _ _, ?_⟩
      rintro call hmem last hlast' ⟨ka, kb, hka, hkb, heq⟩
      rw [List.mem_singleton.1 hlast', hcalled.identity_eq] at hkb
      cases hkb
      have hold := (hc.seen key).2 (.inr ⟨ka, mem_keys.2 ⟨call, hmem, hka⟩, heq⟩)
      rw [hcalled.unseen] at hold
      cases hold

/-! ## §4 The law -/

/-- At the end of a walk the children of every node that goes on have been seen, and it does not
matter which node with this key was opened. -/
theorem Charted.seen_of_kid (hg : g.Regular kids goesOn) {c : Config N K S A V E W L}
    (hc : g.Charted kids goesOn s root c) (hpending : c.pending = none) (hframes : c.frames = [])
    {call : Call N K S A V E} (hcall : call ∈ c.calls) {a : N} (hsame : g.SameKey call.node a)
    {key : K} (hkey : g.identity a = .ok key) (hgoes : goesOn key = true) :
    ∀ b ∈ kids a, g.Seen c.state b := by
  obtain ⟨own, key', hown, hkey', heq⟩ := hsame
  rw [hkey] at hkey'
  cases hkey'
  have hproceeds := hc.proceeds call hcall own hown (by rw [hg.goesOn_congr own key heq, hgoes])
  intro b hb
  obtain ⟨i, hi, rfl⟩ := List.getElem_of_mem hb
  have hagrees := hg.kids_congr call.node a ⟨own, key, hown, hkey, heq⟩
  have hi' : i < (kids call.node).length := by rw [hagrees.length_eq]; exact hi
  have hkid : g.Seen c.state (kids call.node)[i] :=
    (hc.covered call hcall hproceeds _ (List.getElem_mem hi')).seen hpending hframes
  obtain ⟨k, hk, hseen⟩ := hkid
  obtain ⟨k', hk', hkk'⟩ := hagrees.get hi' hi k hk
  exact ⟨k', hk', by rw [← c.state.isSeen_congr hkk', hseen]⟩

/-- Every node on a white path has been called, itself or another with its key. -/
theorem Charted.exists_call_of_whitePath (hg : g.Regular kids goesOn)
    {c : Config N K S A V E W L} (hc : g.Charted kids goesOn s root c) (hpending : c.pending = none)
    (hframes : c.frames = []) {x : N} (hx : g.WhitePath kids goesOn s root x) :
    ∃ call ∈ c.calls, g.SameKey call.node x := by
  induction hx with
  | root hnew => exact hc.exists_call (hc.root.seen hpending hframes) hnew
  | child hpath hkey hgoes hkid hnew ih =>
    obtain ⟨call, hcall, hsame⟩ := ih
    exact hc.exists_call (hc.seen_of_kid hg hpending hframes hcall hsame hkey hgoes _ hkid) hnew

/-- In a walk that starts with nothing seen and always goes on, every node that can be reached is on
a white path. -/
theorem Charted.whitePath_of_reaches (hg : g.Regular kids goesOn) {c : Config N K S A V E W L}
    (hc : g.Charted kids goesOn s root c) (hpending : c.pending = none) (hframes : c.frames = [])
    (hfresh : ∀ key, s.isSeen key = false) (hgoes : ∀ key, goesOn key = true) {x : N}
    (hx : Relation.ReflTransGen (fun a b => b ∈ kids a) root x) :
    g.WhitePath kids goesOn s root x := by
  induction hx with
  | refl =>
    obtain ⟨key, hkey, _⟩ := hc.root.seen hpending hframes
    exact .root ⟨key, hkey, hfresh key⟩
  | tail _ hkid ih =>
    obtain ⟨call, hcall, hsame⟩ := hc.exists_call_of_whitePath hg hpending hframes ih
    obtain ⟨key, hkey, _⟩ := ih.unseen
    obtain ⟨k, hk, _⟩ :=
      hc.seen_of_kid hg hpending hframes hcall hsame hkey (hgoes key) _ hkid
    exact .child ih hkey (hgoes key) hkid ⟨k, hk, hfresh k⟩

/-- The seen set at the end of a walk is that of its start and the keys of the nodes on white paths;
each of these keys is evaluated in exactly one call, and only nodes on white paths are evaluated.
So if nothing has been seen at the start and the walk always goes on, the keys evaluated are those
of the nodes that can be reached. -/
theorem seen_iff_whitePath {g : Setting N K S A V E W L} {kids : N → List N} {goesOn : K → Bool}
    (hg : g.Regular kids goesOn) (budget : Nat) (root : N) (s : State N K S) (value : A)
    (memory : W) (heard : L) (c : Config N K S A V E W L)
    (hrun : g.run budget (.startIn root s value memory heard) = .finished c) :
    (∀ key, c.state.isSeen key = true ↔ s.isSeen key = true ∨
      ∃ x own, g.WhitePath kids goesOn s root x ∧ g.identity x = .ok own ∧
        compare own key = .eq) ∧
    (∀ x, g.WhitePath kids goesOn s root x → ∃! i : Nat, ∃ call : Call N K S A V E,
      c.calls[i]? = some call ∧ g.SameKey call.node x) ∧
    (∀ call ∈ c.calls, g.WhitePath kids goesOn s root call.node) ∧
    ((∀ key, s.isSeen key = false) → (∀ key, goesOn key = true) → ∀ key,
      (∃ call ∈ c.calls, ∃ own, g.identity call.node = .ok own ∧ compare own key = .eq) ↔
        ∃ x own, Relation.ReflTransGen (fun a b => b ∈ kids a) root x ∧
          g.identity x = .ok own ∧ compare own key = .eq) := by
  obtain ⟨n, hn, hpending, hframes⟩ := g.exists_of_run_finished hrun
  have hc : g.Charted kids goesOn s root c :=
    g.invariant_of_run (P := g.Charted kids goesOn s root) (fun _ _ hc h => hc.step hg h)
      (charted_startIn value memory heard) hn
  have hcalled := fun x hx => hc.exists_call_of_whitePath hg hpending hframes (x := x) hx
  have hkeys : ∀ key, (∃ k ∈ g.keys c.calls, compare k key = .eq) ↔
      ∃ x own, g.WhitePath kids goesOn s root x ∧ g.identity x = .ok own ∧
        compare own key = .eq := by
    intro key
    constructor
    · rintro ⟨k, hk, heq⟩
      obtain ⟨call, hcall, hid⟩ := mem_keys.1 hk
      exact ⟨call.node, k, hc.white call hcall, hid, heq⟩
    · rintro ⟨x, own, hx, hown, heq⟩
      obtain ⟨call, hcall, k, own', hk, hown', hkeq⟩ := hcalled x hx
      rw [hown] at hown'
      cases hown'
      exact ⟨k, mem_keys.2 ⟨call, hcall, hk⟩, Std.TransCmp.eq_trans hkeq heq⟩
  refine ⟨fun key => by rw [hc.seen key, hkeys key], ?_, hc.white, ?_⟩
  · intro x hx
    obtain ⟨call, hcall, hsame⟩ := hcalled x hx
    obtain ⟨i, hi⟩ := List.getElem?_of_mem hcall
    refine ⟨i, ⟨call, hi, hsame⟩, ?_⟩
    rintro j ⟨call', hj, hsame'⟩
    have hpair := List.pairwise_iff_getElem.1 hc.distinct
    obtain ⟨hilt, hieq⟩ := List.getElem?_eq_some_iff.1 hi
    obtain ⟨hjlt, hjeq⟩ := List.getElem?_eq_some_iff.1 hj
    rcases Nat.lt_trichotomy j i with hlt | heq | hlt
    · have hne := hpair j i hjlt hilt hlt
      rw [hieq, hjeq] at hne
      exact absurd (hsame'.trans hsame.symm) hne
    · exact heq
    · have hne := hpair i j hilt hjlt hlt
      rw [hieq, hjeq] at hne
      exact absurd (hsame.trans hsame'.symm) hne
  · intro hfresh hgoes key
    constructor
    · rintro ⟨call, hcall, own, hown, heq⟩
      exact ⟨call.node, own, (hc.white call hcall).reaches, hown, heq⟩
    · rintro ⟨x, own, hx, hown, heq⟩
      have hwhite := hc.whitePath_of_reaches hg hpending hframes hfresh hgoes hx
      obtain ⟨k, hk, hkeq⟩ := (hkeys key).2 ⟨x, own, hwhite, hown, heq⟩
      obtain ⟨call, hcall, hid⟩ := mem_keys.1 hk
      exact ⟨call, hcall, k, hid, hkeq⟩

/-- Counting is regular, whatever the graph. -/
theorem regular_counting (kids : Nat → List Nat) (cut : Nat → Bool) :
    (counting kids cut).Regular kids fun key => !cut key where
  lists := by
    refine ⟨?_, fun _ _ _ _ => trivial, fun _ _ _ _ _ _ _ _ _ h => h⟩
    intro node s memory pulls left _ _ h
    cases h
    exact forall₂_yields_ofNodes (kids node)
  keeps := keepsSeen_counting kids cut
  adds := addsNone_counting kids cut
  answers := by
    intro node key s value memory answer left hkey h
    cases hkey
    refine ⟨value + 1, .ok s, ?_⟩
    simp only [counting, Evaluator.ofFold, Action.perform_bind, Action.perform_pure] at h
    cases hcut : cut node <;> simp only [hcut] at h <;> cases h <;> rfl
  goesOn_congr a b h := by rw [Nat.compare_eq_eq.1 h]
  kids_congr a b h := by
    obtain ⟨_, _, ha, hb, heq⟩ := h
    cases ha
    cases hb
    rw [Nat.compare_eq_eq.1 heq, List.forall₂_same]
    intro kid _ key hkey
    exact ⟨key, hkey, Std.ReflCmp.compare_self⟩

/-- Two diamonds, one below the other: 0 and 4 are the upper ends, 3 is shared, 7 is at the end. -/
def diamonds (node : Nat) : List Nat := [[1, 2], [3], [3, 4], [4], [5, 6], [7]].getD node []

/-- 3 had been seen at the start, so 4 and 6 are reached through 2 only; and 5 is cut, so 7 is not
reached at all. -/
theorem seen_iff_whitePath_diamonds :
    (counting diamonds (· == 5)).Regular diamonds (fun key => !(key == 5)) ∧
      ∃ c, (counting diamonds (· == 5)).run 30 (.startIn 0 ((State.new ()).mark 3) 0 () ()) =
          .finished c ∧
        (∀ key, c.state.isSeen key = true ↔
          ((State.new () : State Nat Nat Unit).mark 3).isSeen key = true ∨
            ∃ x own, (counting diamonds (· == 5)).WhitePath diamonds (fun key => !(key == 5))
                ((State.new ()).mark 3) 0 x ∧
              (counting diamonds (· == 5)).identity x = .ok own ∧ compare own key = .eq) ∧
        c.calls.map Call.node = [0, 1, 2, 4, 5, 6] := by
  have hg := regular_counting diamonds (· == 5)
  have h := seen_iff_whitePath hg 30 0 ((State.new ()).mark 3) 0 () () _ rfl
  exact ⟨hg, _, rfl, h.1, rfl⟩

end Setting

end GraphFold
