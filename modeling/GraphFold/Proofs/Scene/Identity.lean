/-
GraphFold.Proofs.Scene.Identity — the keys of nodes are a sound equality for seen
sets.

The key of a node is often not the node: an object or a syntax node may carry one,
and a place has one made of its owner and its index. Still nodes that are the same
have keys that a seen set takes for one (`Scene.key_alike`), so no state tells such
nodes apart. Sameness is an equivalence of keys, and it is what a seen set goes by.
Places of one kind share a key exactly if they have one owner and one index; in a
session that means one name and one position.

  §1 Keys   — nodes that are the same have keys that are alike.
  §2 States — so they have been seen together, and marking them comes to the same.
  §3 Places — the keys of places, by owners and by names.
  §4 Nodes  — `Scene.identity_keys_sound`.
-/
import GraphFold.Proofs.Session.Owners
import GraphFold.Proofs.State.Updates
import GraphFold.Proofs.SyntaxTree.Nodes
import GraphFold.Proofs.Walk.Agreement

namespace GraphFold

/-! ## §1 Keys -/

/-- Two keys have one code, and are alike in what keeps them out of sets. -/
structure Key.Like (a b : Key) : Prop where
  code_eq : a.code = b.code
  unhashablePart?_eq : a.unhashablePart? = b.unhashablePart?

/-- Values that are the same have one class, unless they are numbers. -/
theorem Value.className_eq_of_same {v w : Value} (h : v.same w = true)
    (hv : v.numeral? = Option.none) : v.className = w.className := by
  cases v with
  | truth | int | real => cases hv
  | object a =>
    cases w with
    | object b => exact congrArg ObjectClass.name (ObjectRef.same_iff.1 h).1
    | _ => cases h
  | syntaxNode m =>
    cases w with
    | syntaxNode n =>
      obtain rfl : m = n := by simpa [same] using h
      rfl
    | _ => cases h
  | _ => cases w <;> first | rfl | cases h

/-- A context is equal to itself. -/
theorem Context.same_self (c : Context) : c.same c = true := by
  cases c with
  | plain v => exact v.same_self
  | vertices name graph => exact OrderedMap.same_self (fun row => beq_self_eq_true row) graph.rows
  | schema name s => exact OrderedMap.same_self Value.same_self s.types
  | other cls => exact beq_self_eq_true cls.serial

namespace Scene

variable {scene : Scene} {v w : Value}

theorem ofHashable_alike (h : v.same w = true) :
    Alike Key.Like (key.ofHashable v) (key.ofHashable w) := by
  obtain ⟨hcode, hpart⟩ := Value.like_of_same h
  unfold key.ofHashable
  rw [hpart]
  cases hw : w.unhashablePart? with
  | none => exact .ok ⟨hcode, hpart⟩
  | some cls =>
    have hv : v.numeral? = none := by
      cases hn : v.numeral? with
      | none => rfl
      | some n =>
        rw [← hpart, Value.unhashablePart?_of_numeral? hn] at hw
        cases hw
    rw [Value.className_eq_of_same h hv]
    exact .error _

theorem alike_refl {r : Except Fault Key} : Alike Key.Like r r := by
  cases r with
  | ok k => exact .ok ⟨rfl, rfl⟩
  | error e => exact .error e

/-- Nodes that are the same have keys that are alike, or none for the same reason. -/
theorem key_alike (scene : Scene) (h : v.same w = true) :
    Alike Key.Like (scene.key v) (scene.key w) := by
  cases v with
  | treeNode t index | graphNode t index =>
    cases w <;> simp [Value.same] at h
    obtain ⟨hcode, hpart⟩ := Value.like_of_same h.2
    exact .ok ⟨by simp [Key.code, h.1, hcode], hpart⟩
  | object a =>
    cases w with
    | object b =>
      by_cases hkeyed : a.cls.hasKey = true
      · -- Objects with keys of their own do not go by names.
        have hunnamed : a.cls.goesByName = false := by
          rw [ObjectClass.goesByName, beq_iff_eq.1 hkeyed]
          rfl
        obtain rfl : a = b := by simpa [Value.same, ObjectRef.same, hunnamed] using h
        exact alike_refl
      · have hcls := (ObjectRef.same_iff.1 h).1
        rw [key, if_neg hkeyed, key, if_neg (hcls ▸ hkeyed)]
        exact ofHashable_alike h
    | _ => cases h
  | syntaxNode m =>
    cases w with
    | syntaxNode n =>
      obtain rfl : m = n := by simpa [Value.same] using h
      exact alike_refl
    | _ => cases h
  | _ => cases w <;> first | exact ofHashable_alike h | cases h

/-- A node brings its key with it. -/
def CarriesKey (scene : Scene) : Value → Prop
  | .object o => o.cls.hasKey = true
  | .syntaxNode n => scene.HasOwnKey n
  | _ => False

theorem identity_of_key_eq {k : Key} (hkey : scene.key v = .ok k)
    (hk : k.unhashablePart? = none) : scene.identity v = .ok k := by
  simp only [identity, hkey, Bind.bind, Except.bind, hk]
  rfl

/-- A hashable node that brings no key with it has one all the same. -/
theorem keyed_of_hashable (scene : Scene) (hv : v.unhashablePart? = none)
    (hown : ¬ scene.CarriesKey v) : scene.Keyed v := by
  have hself : key.ofHashable v = .ok (.value v) := by rw [key.ofHashable, hv]
  cases v with
  | treeNode t index | graphNode t index => exact ⟨_, identity_of_key_eq rfl hv⟩
  | object o =>
    have hkey : scene.key (.object o) = .ok (.value (.object o)) := by
      have hkey' : ¬ o.cls.hasKey = true := hown
      rw [key, if_neg hkey', hself]
    exact ⟨_, identity_of_key_eq hkey hv⟩
  | syntaxNode n => exact ⟨_, scene.identity_syntaxNode hown⟩
  | _ => exact ⟨_, identity_of_key_eq hself hv⟩

/-! ## §2 States -/

/-- The same of the keys that a seen set takes. -/
theorem identity_alike (scene : Scene) (h : v.same w = true) :
    Alike (fun a b => compare a b = .eq) (scene.identity v) (scene.identity w) := by
  refine (scene.key_alike h).bind fun a b hab => ?_
  rw [hab.unhashablePart?_eq]
  cases b.unhashablePart? with
  | none => exact .ok (Key.compare_eq_iff.2 hab.code_eq)
  | some cls => exact .error _

/-- Nodes that are the same have been seen together. -/
theorem isSeen_eq_of_same (scene : Scene) (s : ValueState) (h : v.same w = true) :
    scene.isSeen s v = scene.isSeen s w :=
  ((scene.identity_alike h).map fun _ _ hab => s.isSeen_congr hab).eq

/-- The same keys have been seen, and the rest is equal. -/
def SameState : ValueState → ValueState → Prop :=
  State.Matches fun s t => ∀ key, s.contains key = t.contains key

theorem sameState_mark (s : ValueState) {a b : Key} (hab : compare a b = .eq) :
    SameState (s.mark a) (s.mark b) := by
  refine ⟨⟨rfl, fun key => ?_⟩, rfl⟩
  have hcongr : compare a key = compare b key := Std.TransCmp.congr_left hab
  show (s.mark a).isSeen key = (s.mark b).isSeen key
  rw [State.isSeen_mark, State.isSeen_mark, hcongr]

/-- Such states are equal. -/
theorem SameState.same {a b : ValueState} (h : SameState a b) :
    State.same Context.same Value.same a b = true := by
  have hpaths : b.path = a.path := by rw [State.path, State.path, h.ancestors_eq]
  rw [State.same_iff, hpaths, List.forall₂_same, ← h.context_eq]
  exact ⟨a.context.same_self, h.seen, fun node _ => node.same_self⟩

/-! ## §3 Places -/

/-- Both nodes have keys, and a seen set takes these for one. -/
def EqualKeys (scene : Scene) (v w : Value) : Prop :=
  ∃ a b, scene.key v = .ok a ∧ scene.key w = .ok b ∧ compare a b = .eq

theorem equalKeys_iff {a b : Key} (ha : scene.key v = .ok a) (hb : scene.key w = .ok b) :
    scene.EqualKeys v w ↔ compare a b = .eq := by
  constructor
  · rintro ⟨a', b', ha', hb', h⟩
    rw [ha] at ha'
    rw [hb] at hb'
    cases ha'
    cases hb'
    exact h
  · exact fun h => ⟨a, b, ha, hb, h⟩

/-- The owner of a place, by its serial number. -/
def ownerSerial? : Value → Option Nat
  | .treeNode t _ => some t.serial
  | .graphNode g _ => some g.serial
  | _ => none

variable {i j : Value}

/-- The keys of places tell the kind, the owner and the index. -/
theorem compare_place_iff {kind kind' : PlaceKind} {m n : Nat} {owner other : String} :
    compare (Key.place kind m owner i) (.place kind' n other j) = .eq ↔
      kind = kind' ∧ m = n ∧ i.same j = true := by
  rw [Key.compare_eq_iff_same]
  simp [Key.same, and_assoc]

theorem equalKeys_treeNode_iff {t u : Owner ArrayTree} :
    scene.EqualKeys (.treeNode t i) (.treeNode u j) ↔ t.serial = u.serial ∧ i.same j = true := by
  rw [equalKeys_iff rfl rfl, compare_place_iff]
  simp

theorem equalKeys_graphNode_iff {g h : Owner (Option CompressedGraph)} :
    scene.EqualKeys (.graphNode g i) (.graphNode h j) ↔ g.serial = h.serial ∧ i.same j = true := by
  rw [equalKeys_iff rfl rfl, compare_place_iff]
  simp

/-- The key of a place is made of its owner and its index. -/
theorem exists_key_of_ownerSerial? (scene : Scene) {n : Nat} (h : ownerSerial? v = some n) :
    ∃ kind owner index, scene.key v = .ok (.place kind n owner index) := by
  cases v <;> cases h
  · exact ⟨_, _, _, rfl⟩
  · exact ⟨_, _, _, rfl⟩

/-- Places of different owners have different keys, whatever their kinds and indices. -/
theorem not_equalKeys_of_ne {m n : Nat} (hv : ownerSerial? v = some m)
    (hw : ownerSerial? w = some n) (hne : m ≠ n) : ¬ scene.EqualKeys v w := by
  obtain ⟨kind, owner, index, hkey⟩ := scene.exists_key_of_ownerSerial? hv
  obtain ⟨kind', owner', index', hkey'⟩ := scene.exists_key_of_ownerSerial? hw
  rw [equalKeys_iff hkey hkey', Key.compare_eq_iff]
  intro h
  have hserial : (m : Int) = n := by
    cases kind <;> cases kind' <;> simp only [Key.code, List.cons.injEq] at h <;> exact h.2.1
  exact hne (Int.ofNat.inj hserial)

/-- What is made of a position that exists is made of the number. -/
theorem eq_of_map_nodePosition? {size : Nat} {index : Index.Numeral} {f : Index.Numeral → Value}
    (h : (nodePosition? size index).map f = .ok v) : v = f (.int index.toInt) := by
  unfold nodePosition? at h
  split at h <;> cases h
  rfl

/-- The key of a node that is read by name and position is made of the owner of that name. -/
theorem exists_key_of_nodeAt {name : String} {index : Index.Numeral}
    (h : scene.nodeAt name (.ok index) = .ok v) :
    ∃ a kind owner, scene.artefacts[name]? = some a ∧ a.placeKind? = some kind ∧
      scene.key v = .ok (.place kind a.serial owner (.int index.toInt)) := by
  unfold nodeAt artefact at h
  cases ha : scene.artefacts[name]? with
  | none => rw [ha] at h; cases h
  | some a =>
    rw [ha] at h
    cases a with
    | tree t =>
      obtain rfl : v = .treeNode t (.int index.toInt) := eq_of_map_nodePosition? h
      exact ⟨.tree t, .tree, t.name, rfl, rfl, rfl⟩
    | graph g =>
      obtain rfl : v = .graphNode (g.holding (some g.content)) (.int index.toInt) :=
        eq_of_map_nodePosition? h
      exact ⟨.graph g, .graph, g.name, rfl, rfl, rfl⟩
    | schema | state => cases h

/-- Nodes read by name have equal keys exactly if they are read of one name at one position. -/
def NamedApart (scene : Scene) : Prop :=
  ∀ (name other : String) (i j : Index.Numeral) (v w : Value),
    scene.nodeAt name (.ok i) = .ok v → scene.nodeAt other (.ok j) = .ok w →
    (scene.EqualKeys v w ↔ name = other ∧ i.toInt = j.toInt)

theorem same_int_iff {k l : Int} : (Value.int k).same (.int l) = true ↔ k = l := by
  simp [Value.same, Value.sameNumber, Value.numeral?, Index.Numeral.exact, Index.Numeral.toInt]

theorem Numbered.namedApart (h : scene.Numbered) : scene.NamedApart := by
  intro name other i j v w hv hw
  obtain ⟨a, kind, owner, ha, hkind, hkey⟩ := exists_key_of_nodeAt hv
  obtain ⟨b, kind', owner', hb, hkind', hkey'⟩ := exists_key_of_nodeAt hw
  rw [equalKeys_iff hkey hkey', compare_place_iff, same_int_iff]
  constructor
  · rintro ⟨-, hserial, hindex⟩
    exact ⟨h.name_eq name other a b ha hb (by rw [hkind]; rfl) hserial, hindex⟩
  · rintro ⟨rfl, hindex⟩
    -- One name stands for one owner.
    obtain rfl : a = b := Option.some.inj (ha.symm.trans hb)
    exact ⟨Option.some.inj (hkind.symm.trans hkind'), rfl, hindex⟩

/-! ## §4 Nodes -/

/-- The keys of nodes are a sound equality for seen sets. -/
structure SoundKeys (scene : Scene) : Prop where
  /-- Sameness is an equivalence of values. -/
  same_self : ∀ v : Value, v.same v = true
  same_symm : ∀ v w : Value, v.same w = true → w.same v = true
  same_trans : ∀ u v w : Value, u.same v = true → v.same w = true → u.same w = true
  /-- It is one of keys, -/
  keySame_self : ∀ a : Key, a.same a = true
  keySame_symm : ∀ a b : Key, a.same b = true → b.same a = true
  keySame_trans : ∀ a b c : Key, a.same b = true → b.same c = true → a.same c = true
  /-- where it is what a seen set goes by: after a key is recorded those have been seen that are the
  same, and those seen before. -/
  isSeen_mark : ∀ (s : ValueState) (a b : Key),
    (s.mark a).isSeen b = (a.same b || s.isSeen b)
  /-- A hashable node has a key, if not one that it brings with it. -/
  keyed : ∀ v : Value, v.unhashablePart? = none → ¬ scene.CarriesKey v → scene.Keyed v
  /-- Nodes that are the same have keys that a seen set takes for one, or none for the same
  reason. -/
  key_alike : ∀ v w : Value, v.same w = true →
    Alike (fun a b => compare a b = .eq) (scene.key v) (scene.key w)
  /-- No state tells such nodes apart, -/
  isSeen_eq : ∀ (s : ValueState) (v w : Value), v.same w = true →
    scene.isSeen s v = scene.isSeen s w
  /-- and marking one or the other comes to the same: context and ancestors are equal, and the same
  keys have been seen. -/
  mark_alike : ∀ (s : ValueState) (v w : Value), v.same w = true →
    Alike SameState (scene.mark s v) (scene.mark s w)
  /-- So the states made are equal. -/
  mark_same : ∀ (s : ValueState) (v w : Value), v.same w = true →
    Alike (fun a b => State.same Context.same Value.same a b = true) (scene.mark s v)
      (scene.mark s w)
  /-- Two places in trees have equal keys exactly if they have one owner and one index. -/
  treeNode_iff : ∀ (t u : Owner ArrayTree) (i j : Value),
    scene.EqualKeys (.treeNode t i) (.treeNode u j) ↔ t.serial = u.serial ∧ i.same j = true
  /-- So have two places in graphs. -/
  graphNode_iff : ∀ (g h : Owner (Option CompressedGraph)) (i j : Value),
    scene.EqualKeys (.graphNode g i) (.graphNode h j) ↔ g.serial = h.serial ∧ i.same j = true
  /-- Places of different owners never have equal keys. -/
  owners_apart : ∀ (v w : Value) (m n : Nat), ownerSerial? v = some m → ownerSerial? w = some n →
    m ≠ n → ¬ scene.EqualKeys v w
  /-- In a session that starts in the scene, with nothing made yet, serial numbers do stand for
  owners: whatever its steps, nodes have equal keys exactly if they are read of one name at one
  position. -/
  named_apart : (∀ name : String, scene.artefacts[name]? = none) →
    ∀ (capacity : Capacity) (steps : List Step),
      ((Session.start scene capacity).after steps).scene.NamedApart

/-- Sameness is an equivalence, of values of any depth and of their keys; seen sets go by it, and
nodes that are the same have the same key, although the key of a node is often not the node. So no
state tells them apart. The keys of places tell exactly their owners and indices. -/
theorem identity_keys_sound (scene : Scene) : scene.SoundKeys where
  same_self := Value.same_self
  same_symm _ _ := Value.same_symm
  same_trans _ _ _ := Value.same_trans
  keySame_self := Key.same_self
  keySame_symm _ _ := Key.same_symm
  keySame_trans _ _ _ := Key.same_trans
  isSeen_mark s a b := by
    rw [State.isSeen_mark]
    congr 1
    rw [Bool.eq_iff_iff, beq_iff_eq, Key.compare_eq_iff_same]
  keyed _ := scene.keyed_of_hashable
  key_alike _ _ h := (scene.key_alike h).imp fun _ _ hab => Key.compare_eq_iff.2 hab.code_eq
  isSeen_eq s _ _ := scene.isSeen_eq_of_same s
  mark_alike s _ _ h := (scene.identity_alike h).map fun _ _ => sameState_mark s
  mark_same s _ _ h := (scene.identity_alike h).map fun _ _ hab => (sameState_mark s hab).same
  treeNode_iff _ _ _ _ := equalKeys_treeNode_iff
  graphNode_iff _ _ _ _ := equalKeys_graphNode_iff
  owners_apart _ _ _ _ := not_equalKeys_of_ne
  named_apart h _ steps := (Session.numbered_after (numbered_of_unnamed h) steps).namedApart

end Scene

end GraphFold
