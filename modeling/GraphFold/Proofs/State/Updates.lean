/-
GraphFold.Proofs.State.Updates — updates of a state that concern different parts
commute.

A state has three parts, and an update changes one of them: the keys seen, the
path, or the context. What a sequence of updates makes of a new state is read
off the sequence part by part (`Scene.Tracks`): the marks as a set of keys, the
changes of the path in their order, and the last context. How the updates of one
part stand among those of another plays no role, nor does a mark with the key of
an earlier one; states in which the parts agree are equal (`State.same_iff`).

  §1 Equality  — when two states agree.
  §2 Updates   — `Update`, `Scene.updateAll`, and where it fails.
  §3 Parts     — what an update does to each part.
  §4 Sequences — `Scene.Tracks`, `Scene.updates_commute`.
-/
import GraphFold.Proofs.Value.Sameness
import GraphFold.Proofs.Walk.SingleVisit
import GraphFold.Scene.Trace
import GraphFold.State.Lemmas
import Mathlib.Data.List.Forall2

namespace GraphFold

/-! ## §1 Equality -/

namespace State

variable {N K S : Type} [Ord K]

theorem all_seen (s : State N K S) (p : K → Bool) : s.seen.all p = s.seenKeys.all p := by
  have hloop : s.seen.all p = Id.run (do
      for key in s.seen do
        if p key = false then return false
      return true) := rfl
  rw [hloop, Std.TreeSet.forIn_eq_forIn_toList, seenKeys]
  induction s.seen.toList with
  | nil => rfl
  | cons key later ih =>
    rw [List.forIn_cons, List.all_cons]
    cases p key
    · rfl
    · simpa using ih

variable [Std.TransOrd K]

theorem isSeen_of_mem_seenKeys {s : State N K S} {key : K} (h : key ∈ s.seenKeys) :
    s.isSeen key = true :=
  Std.TreeSet.contains_iff_mem.2 (Std.TreeSet.mem_of_mem_toList h)

/-- A key that has been seen is one of those listed, as far as keys are told apart. -/
theorem exists_mem_seenKeys {s : State N K S} {key : K} (h : s.isSeen key = true) :
    ∃ k ∈ s.seenKeys, compare key k = .eq := by
  let _ : BEq K := ⟨fun a b => compare a b == .eq⟩
  have _ : Std.LawfulBEqCmp (compare : K → K → Ordering) := ⟨beq_iff_eq.symm⟩
  have hcontains : s.seen.toList.contains key = true := Std.TreeSet.contains_toList.trans h
  obtain ⟨k, hk, heq⟩ := List.contains_iff_exists_mem_beq.1 hcontains
  exact ⟨k, hk, beq_iff_eq.1 heq⟩

theorem pairwise_seenKeys (s : State N K S) :
    s.seenKeys.Pairwise fun a b => compare a b ≠ .eq := Std.TreeSet.distinct_toList

theorem length_seenKeys (s : State N K S) : s.seenKeys.length = s.seenCount :=
  Std.TreeSet.length_toList

/-- If the keys of one state have been seen in another, there are at most as many of them. -/
theorem seenCount_le {a b : State N K S} (h : ∀ key, a.isSeen key = true → b.isSeen key = true) :
    a.seenCount ≤ b.seenCount := by
  rw [← a.length_seenKeys]
  exact length_le_seenCount a.pairwise_seenKeys fun key hkey => h key (isSeen_of_mem_seenKeys hkey)

/-- If there are just as many, every key seen in the other is one of them. -/
theorem isSeen_of_seenCount_eq {a b : State N K S} (hcount : a.seenCount = b.seenCount)
    (h : ∀ key ∈ a.seenKeys, b.isSeen key = true) {key : K} (hkey : b.isSeen key = true) :
    a.isSeen key = true := by
  by_contra hnew
  have hdistinct : (key :: a.seenKeys).Pairwise fun x y => compare x y ≠ .eq := by
    refine List.pairwise_cons.2 ⟨fun k hk heq => hnew ?_, a.pairwise_seenKeys⟩
    rw [a.isSeen_congr heq]
    exact isSeen_of_mem_seenKeys hk
  have hle := length_le_seenCount hdistinct (s := b) fun k hk => by
    rcases List.mem_cons.1 hk with rfl | hk
    · exact hkey
    · exact h k hk
  rw [List.length_cons, length_seenKeys, hcount] at hle
  exact Nat.not_succ_le_self _ hle

/-- The seen sets of two states agree if the same keys have been seen in both. -/
theorem sameSeen_iff {a b : State N K S} :
    (a.seen.size == b.seen.size && a.seen.all b.seen.contains) = true ↔
      ∀ key, a.isSeen key = b.isSeen key := by
  rw [all_seen, Bool.and_eq_true, beq_iff_eq, List.all_eq_true]
  constructor
  · rintro ⟨hcount, hall⟩ key
    refine Bool.eq_iff_iff.2 ⟨fun hkey => ?_, isSeen_of_seenCount_eq hcount hall⟩
    obtain ⟨k, hk, heq⟩ := exists_mem_seenKeys hkey
    rw [b.isSeen_congr heq]
    exact hall k hk
  · intro h
    refine ⟨Nat.le_antisymm ?_ ?_, fun key hkey => ?_⟩
    · exact seenCount_le fun key hkey => (h key).symm.trans hkey
    · exact seenCount_le fun key hkey => (h key).trans hkey
    · exact (h key).symm.trans (isSeen_of_mem_seenKeys hkey)

/-- Two states agree if their contexts do, the same keys have been seen in both, and their paths
agree node by node. -/
theorem same_iff {sameContext : S → S → Bool} {sameNode : N → N → Bool} {a b : State N K S} :
    State.same sameContext sameNode a b = true ↔
      sameContext a.context b.context = true ∧ (∀ key, a.isSeen key = b.isSeen key) ∧
        List.Forall₂ (fun x y => sameNode x y = true) a.path b.path := by
  rw [State.same, Bool.and_eq_true, Bool.and_eq_true, Bool.and_eq_true, sameSeen_iff, path, path,
    List.forall₂_reverse_iff, List.forall₂_iff_zip, beq_iff_eq, List.all_eq_true, and_assoc,
    and_assoc]
  simp only [Prod.forall]

end State

/-! ## §2 Updates -/

/-- One update of a state. -/
inductive Update where
  /-- Records the key of a node. -/
  | mark (node : Value)
  | push (node : Value)
  | withPath (path : List Value)
  /-- Replaces the ancestors, given nearest first. -/
  | withAncestors (ancestors : List Value)
  | withContext (context : Context)

/-- What an update makes of a path. -/
inductive PathChange where
  | extend (node : Value)
  | replace (path : List Value)

namespace PathChange

/-- The path after a change. -/
def apply (path : List Value) : PathChange → List Value
  | extend node => path ++ [node]
  | replace path => path

/-- Whether two changes come to the same: both add the same node, or both put the same path. -/
def Same : PathChange → PathChange → Prop
  | extend a, extend b => a.same b = true
  | replace as, replace bs => List.Forall₂ (fun a b => a.same b = true) as bs
  | _, _ => False

end PathChange

namespace Update

/-- The node whose key is recorded. -/
def marked? : Update → Option Value
  | mark node => some node
  | push _ | withPath _ | withAncestors _ | withContext _ => none

/-- What becomes of the path. -/
def pathChange? : Update → Option PathChange
  | push node => some (.extend node)
  | withPath path => some (.replace path)
  | withAncestors ancestors => some (.replace ancestors.reverse)
  | mark _ | withContext _ => none

/-- The new context. -/
def context? : Update → Option Context
  | withContext context => some context
  | mark _ | push _ | withPath _ | withAncestors _ => none

/-- The nodes marked by some updates. -/
def marked (updates : List Update) : List Value := updates.filterMap marked?

/-- What some updates make of the path, in order. -/
def pathChanges (updates : List Update) : List PathChange := updates.filterMap pathChange?

/-- The last context put by some updates, or this one. -/
def lastContext (first : Context) (updates : List Update) : Context :=
  (updates.filterMap context?).getLast?.getD first

end Update

namespace Scene

/-- The state after an update, unless a node to be marked has no key. -/
def update (scene : Scene) (s : ValueState) : Update → Except Fault ValueState
  | .mark node => scene.mark s node
  | .push node => .ok (s.push node)
  | .withPath path => .ok (s.withPath path)
  | .withAncestors ancestors => .ok (s.withAncestors ancestors)
  | .withContext context => .ok (s.withContext context)

/-- The state after one update after another. -/
def updateAll (scene : Scene) (s : ValueState) (updates : List Update) : Except Fault ValueState :=
  updates.foldlM scene.update s

/-- Whether a node has a key. -/
def Keyed (scene : Scene) (node : Value) : Prop := ∃ key, scene.identity node = .ok key

variable {scene : Scene} {s t : ValueState} {updates before after later done : List Update}
  {u : Update} {first : Context}

theorem updateAll_cons_of_ok (h : scene.update s u = .ok t) :
    scene.updateAll s (u :: later) = scene.updateAll t later := by
  rw [updateAll, List.foldlM_cons, h]
  rfl

theorem updateAll_cons_of_error {fault : Fault} (h : scene.update s u = .error fault) :
    scene.updateAll s (u :: later) = .error fault := by
  rw [updateAll, List.foldlM_cons, h]
  rfl

theorem updateAll_append_of_ok (h : scene.updateAll s before = .ok t) :
    scene.updateAll s (before ++ after) = scene.updateAll t after := by
  rw [updateAll, List.foldlM_append]
  change (scene.updateAll s before >>= _) = _
  rw [h]
  rfl

/-- An update is carried out if the node it marks, if any, has a key. -/
theorem exists_update_iff :
    (∃ t, scene.update s u = .ok t) ↔ ∀ node ∈ u.marked?, scene.Keyed node := by
  cases u with
  | mark node =>
    simp only [update, Scene.mark, Update.marked?, Option.mem_def, Option.some.injEq, forall_eq',
      Keyed]
    cases scene.identity node <;> simp [Except.map]
  | push | withPath | withAncestors | withContext => simp [update, Update.marked?]

theorem mem_marked_append {node : Value} :
    node ∈ Update.marked (before ++ after) ↔
      node ∈ Update.marked before ∨ node ∈ Update.marked after := by
  rw [Update.marked, List.filterMap_append, List.mem_append]
  rfl

theorem mem_marked_singleton {node : Value} : node ∈ Update.marked [u] ↔ node ∈ u.marked? := by
  simp [Update.marked]

theorem mem_marked_cons {node : Value} :
    node ∈ Update.marked (u :: later) ↔ node ∈ u.marked? ∨ node ∈ Update.marked later := by
  rw [← List.singleton_append, mem_marked_append, mem_marked_singleton]

/-- A sequence of updates is carried out if every node it marks has a key. -/
theorem exists_updateAll_iff :
    (∃ t, scene.updateAll s updates = .ok t) ↔
      ∀ node ∈ Update.marked updates, scene.Keyed node := by
  induction updates generalizing s with
  | nil => exact iff_of_true ⟨s, rfl⟩ fun _ h => by cases h
  | cons u later ih =>
    simp only [mem_marked_cons, or_imp, forall_and, ← exists_update_iff (s := s)]
    cases hu : scene.update s u with
    | error fault => simp [updateAll_cons_of_error hu]
    | ok next => simpa [updateAll_cons_of_ok hu] using ih

/-- The first node to be marked that has no key ends a sequence of updates, with the fault that its
key is. -/
theorem updateAll_of_unkeyed {node : Value} {fault : Fault}
    (hbefore : ∀ other ∈ Update.marked before, scene.Keyed other)
    (hnode : scene.identity node = .error fault) :
    scene.updateAll s (before ++ .mark node :: after) = .error fault := by
  obtain ⟨t, ht⟩ := exists_updateAll_iff.2 hbefore
  rw [updateAll_append_of_ok ht]
  refine updateAll_cons_of_error ?_
  rw [update, Scene.mark, hnode]
  rfl

/-! ## §3 Parts -/

/-- Some node with this key is marked. -/
def MarksKey (scene : Scene) (updates : List Update) (key : Key) : Prop :=
  ∃ node ∈ Update.marked updates, ∃ k, scene.identity node = .ok k ∧ compare k key = .eq

/-- What these updates made of a new state with this context. -/
structure Tracks (scene : Scene) (first : Context) (updates : List Update) (s : ValueState) :
    Prop where
  /-- The keys seen are those of the nodes marked. -/
  isSeen_iff : ∀ key, s.isSeen key = true ↔ scene.MarksKey updates key
  /-- The path is what its changes make of the empty one. -/
  path_eq : s.path = (Update.pathChanges updates).foldl PathChange.apply []
  context_eq : s.context = Update.lastContext first updates

theorem tracks_new (first : Context) : scene.Tracks first [] (.new first) where
  isSeen_iff key := by simp [MarksKey, Update.marked]
  path_eq := rfl
  context_eq := rfl

theorem marksKey_concat {key : Key} :
    scene.MarksKey (updates ++ [u]) key ↔
      scene.MarksKey updates key ∨
        ∃ node ∈ u.marked?, ∃ k, scene.identity node = .ok k ∧ compare k key = .eq := by
  simp only [MarksKey, mem_marked_append, mem_marked_singleton, or_and_right, exists_or]

/-- An update that marks nothing leaves the keys seen. -/
theorem marksKey_concat_of_none (hu : u.marked? = none) {key : Key} :
    scene.MarksKey (updates ++ [u]) key ↔ scene.MarksKey updates key := by
  rw [marksKey_concat, hu]
  simp

theorem pathChanges_concat :
    Update.pathChanges (updates ++ [u]) = Update.pathChanges updates ++ u.pathChange?.toList := by
  rw [Update.pathChanges, List.filterMap_append]
  cases hu : u.pathChange? <;> simp [Update.pathChanges, hu]

theorem lastContext_concat :
    Update.lastContext first (updates ++ [u]) =
      u.context?.getD (Update.lastContext first updates) := by
  rw [Update.lastContext, List.filterMap_append]
  cases hu : u.context? <;> simp [Update.lastContext, hu]

/-- What is known of a state is kept up to date by an update. -/
theorem Tracks.update (h : scene.Tracks first done s) (hu : scene.update s u = .ok t) :
    scene.Tracks first (done ++ [u]) t := by
  obtain ⟨hseen, hpath, hcontext⟩ := h
  cases u with
  | mark node =>
    cases hkey : scene.identity node with
    | error fault => simp [Scene.update, Scene.mark, hkey, Except.map] at hu
    | ok key =>
      simp only [Scene.update, Scene.mark, hkey, Except.map, Except.ok.injEq] at hu
      subst hu
      refine ⟨fun other => ?_, ?_, ?_⟩
      · rw [State.isSeen_mark, Bool.or_eq_true, beq_iff_eq, hseen, marksKey_concat, or_comm]
        simp [Update.marked?, hkey]
      · rw [pathChanges_concat, State.path_mark, hpath]
        simp [Update.pathChange?]
      · rw [lastContext_concat, State.context_mark, hcontext]
        rfl
  | push node | withPath path | withAncestors ancestors | withContext context =>
    cases hu
    refine ⟨fun key => ?_, ?_, ?_⟩
    · rw [marksKey_concat_of_none rfl, ← hseen]
      rfl
    · rw [pathChanges_concat]
      simp [Update.pathChange?, PathChange.apply, hpath]
    · rw [lastContext_concat]
      simp [Update.context?, hcontext]

/-! ## §4 Sequences -/

/-- The same of a sequence of updates. -/
theorem Tracks.updateAll (h : scene.Tracks first done s)
    (hlater : scene.updateAll s later = .ok t) : scene.Tracks first (done ++ later) t := by
  induction later generalizing done s with
  | nil =>
    cases hlater
    rwa [List.append_nil]
  | cons u later ih =>
    cases hu : scene.update s u with
    | error fault =>
      rw [updateAll_cons_of_error hu] at hlater
      cases hlater
    | ok next =>
      rw [updateAll_cons_of_ok hu] at hlater
      rw [List.append_cons]
      exact ih (h.update hu) hlater

theorem tracks_updateAll (h : scene.updateAll (.new first) updates = .ok s) :
    scene.Tracks first updates s :=
  (tracks_new first).updateAll h

/-- States agree if the same keys were marked, the paths agree, and so do the last contexts. -/
theorem Tracks.same {others : List Update} (h : scene.Tracks first updates s)
    (h' : scene.Tracks first others t)
    (hmarks : ∀ key, scene.MarksKey updates key ↔ scene.MarksKey others key)
    (hpaths : List.Forall₂ (fun a b => Value.same a b = true) s.path t.path)
    (hcontexts : (Update.lastContext first updates).same (Update.lastContext first others) =
      true) : State.same Context.same Value.same s t = true := by
  refine State.same_iff.2 ⟨?_, fun key => ?_, hpaths⟩
  · rw [h.context_eq, h'.context_eq]
    exact hcontexts
  · rw [Bool.eq_iff_iff, h.isSeen_iff, h'.isSeen_iff, hmarks]

/-- A node has been seen if it has the key of a node that is marked. -/
theorem Tracks.isSeen_eq_ok_true_iff (h : scene.Tracks first updates s) (node : Value) :
    scene.isSeen s node = .ok true ↔
      ∃ key, scene.identity node = .ok key ∧ scene.MarksKey updates key := by
  unfold Scene.isSeen
  cases scene.identity node with
  | error fault => simp [Except.map]
  | ok key => simp [Except.map, h.isSeen_iff]

/-- A change that comes to the same keeps paths in agreement. -/
theorem forall₂_apply {xs ys : List Value} {x y : PathChange}
    (hpaths : List.Forall₂ (fun a b => Value.same a b = true) xs ys) (hsame : x.Same y) :
    List.Forall₂ (fun a b => Value.same a b = true) (x.apply xs) (y.apply ys) := by
  cases x with
  | extend a =>
    cases y with
    | extend b => exact List.rel_append hpaths (.cons hsame .nil)
    | replace bs => cases hsame
  | replace as =>
    cases y with
    | extend b => cases hsame
    | replace bs => exact hsame

theorem forall₂_foldl_apply {xs ys : List Value} {changes others : List PathChange}
    (hpaths : List.Forall₂ (fun a b => Value.same a b = true) xs ys)
    (hchanges : List.Forall₂ PathChange.Same changes others) :
    List.Forall₂ (fun a b => Value.same a b = true) (changes.foldl PathChange.apply xs)
      (others.foldl PathChange.apply ys) := by
  induction hchanges generalizing xs ys with
  | nil => exact hpaths
  | cons hsame _ ih => exact ih (forall₂_apply hpaths hsame)

/-- The updates of a new state with this context are tracked part by part. -/
structure UpdatesByParts (scene : Scene) (first : Context) : Prop where
  /-- Nothing but a node without a key stands in the way of a sequence of updates. -/
  carriedOut_iff : ∀ updates, (∃ s, scene.updateAll (.new first) updates = .ok s) ↔
    ∀ node ∈ Update.marked updates, scene.Keyed node
  /-- At the first such node the sequence ends without a state. -/
  fails : ∀ before node after fault, (∀ other ∈ Update.marked before, scene.Keyed other) →
    scene.identity node = .error fault →
    scene.updateAll (.new first) (before ++ .mark node :: after) = .error fault
  /-- The nodes seen are those with the key of one that was marked. -/
  isSeen_iff : ∀ updates s, scene.updateAll (.new first) updates = .ok s → ∀ node,
    (scene.isSeen s node = .ok true ↔
      ∃ key, scene.identity node = .ok key ∧ scene.MarksKey updates key)
  /-- The path is what the changes of the path make of the empty one, and depth and parent are
  read off it. -/
  path_eq : ∀ updates s, scene.updateAll (.new first) updates = .ok s →
    s.path = (Update.pathChanges updates).foldl PathChange.apply [] ∧
      s.depth = s.path.length ∧ s.parent? = s.path.getLast?
  /-- The context is the last one put. -/
  context_eq : ∀ updates s, scene.updateAll (.new first) updates = .ok s →
    s.context = Update.lastContext first updates
  /-- Sequences that mark the same keys, change the path alike and put the same context last make
  equal states. -/
  same : ∀ updates others s t, scene.updateAll (.new first) updates = .ok s →
    scene.updateAll (.new first) others = .ok t →
    (∀ key, scene.MarksKey updates key ↔ scene.MarksKey others key) →
    List.Forall₂ PathChange.Same (Update.pathChanges updates) (Update.pathChanges others) →
    (Update.lastContext first updates).same (Update.lastContext first others) = true →
    State.same Context.same Value.same s t = true
  /-- So do those that change the path in the very same way. -/
  same_of_eq : ∀ updates others s t, scene.updateAll (.new first) updates = .ok s →
    scene.updateAll (.new first) others = .ok t →
    (∀ key, scene.MarksKey updates key ↔ scene.MarksKey others key) →
    Update.pathChanges updates = Update.pathChanges others →
    (Update.lastContext first updates).same (Update.lastContext first others) = true →
    State.same Context.same Value.same s t = true

/-- Updates of different parts of a state commute, and each part is what the updates of that part
make of it: the keys seen are those of the nodes marked, whatever their order and however often they
are marked; the path follows from the changes of the path; and the context is the last one put. An
update that fails leaves no state. -/
theorem updates_commute (scene : Scene) (first : Context) : scene.UpdatesByParts first where
  carriedOut_iff _ := exists_updateAll_iff
  fails _ _ _ _ := updateAll_of_unkeyed
  isSeen_iff _ _ h := (tracks_updateAll h).isSeen_eq_ok_true_iff
  path_eq _ s h := ⟨(tracks_updateAll h).path_eq, s.depth_eq_length_path,
    s.parent?_eq_getLast?_path⟩
  context_eq _ _ h := (tracks_updateAll h).context_eq
  same updates others s t hs ht hmarks hchanges hcontexts := by
    have hpaths := forall₂_foldl_apply .nil hchanges
    rw [← (tracks_updateAll hs).path_eq, ← (tracks_updateAll ht).path_eq] at hpaths
    exact (tracks_updateAll hs).same (tracks_updateAll ht) hmarks hpaths hcontexts
  same_of_eq updates others s t hs ht hmarks hchanges hcontexts := by
    have hpath : t.path = s.path := by
      rw [(tracks_updateAll hs).path_eq, (tracks_updateAll ht).path_eq, hchanges]
    have hpaths : List.Forall₂ (fun a b => Value.same a b = true) s.path t.path := by
      rw [hpath, List.forall₂_same]
      exact fun node _ => node.same_self
    exact (tracks_updateAll hs).same (tracks_updateAll ht) hmarks hpaths hcontexts

-- The integer one has the key of `truth true`, and the mark may come before or after the push.
example : (do
    let s ← empty.updateAll (.new (.plain .none)) [.mark (.truth true), .push (.int 7)]
    let t ← empty.updateAll (.new (.plain .none)) [.push (.int 7), .mark (.int 1), .mark (.int 1)]
    return State.same Context.same Value.same s t) = .ok true := rfl

end Scene

end GraphFold
