/-
GraphFold.Proofs.Registry.Listing — the classes listed as registered, and their
order, follow from the calls made so far.

A call on a class makes it live or not, whether the call succeeds or fails: a
class that is registered a second time was live already, and one that is dropped
a second time was not. So the last call on a class decides (`Scene.liveAfter`).
The registry keeps its classes in the order in which they became live, and
overwriting leaves a class where it is (`Scene.Orders`, an invariant of single
calls). The listing sorts them by name and leaves the order of namesakes alone.

  §1 Names    — a listing sorts, and is stable.
  §2 Calls    — `RegistryChange`, and what it makes of the keys.
  §3 History  — `Scene.liveAfter`, `Scene.BeganAt`.
  §4 Orders   — the keys of the registry in the order of their beginnings.
  §5 Listings — `Session.listing_follows_history`.
-/
import GraphFold.Proofs.Registry.History
import Mathlib.Data.List.Pairwise

namespace GraphFold

/-! ## §1 Names -/

namespace Registry

variable {C F : Type} (r : Registry C F) (qualifiedName : C → String)

theorem le_trans_name (a b c : C) :
    decide (qualifiedName a ≤ qualifiedName b) = true →
      decide (qualifiedName b ≤ qualifiedName c) = true →
        decide (qualifiedName a ≤ qualifiedName c) = true := by
  simp only [decide_eq_true_eq]
  exact String.le_trans

theorem le_total_name (a b : C) :
    (decide (qualifiedName a ≤ qualifiedName b) || decide (qualifiedName b ≤ qualifiedName a)) =
      true := by
  simpa using String.le_total (qualifiedName a) (qualifiedName b)

/-- The classes listed are those of the registry. -/
theorem listing_perm : (r.listing qualifiedName).Perm r.keys := List.mergeSort_perm ..

/-- They come by their names. -/
theorem pairwise_listing :
    (r.listing qualifiedName).Pairwise fun a b => qualifiedName a ≤ qualifiedName b := by
  refine (List.pairwise_mergeSort (le_trans_name qualifiedName) (le_total_name qualifiedName)
    r.keys).imp ?_
  simp

/-- Those of one name come in the order of the registry. -/
theorem filter_listing (name : String) :
    (r.listing qualifiedName).filter (fun cls => qualifiedName cls == name) =
      r.keys.filter fun cls => qualifiedName cls == name := by
  have hsorted : (r.keys.filter fun cls => qualifiedName cls == name).Pairwise
      fun a b => decide (qualifiedName a ≤ qualifiedName b) = true := by
    refine List.pairwise_iff_forall_sublist.2 fun {a b} hab => ?_
    have hname : ∀ cls ∈ [a, b], qualifiedName cls = name := fun cls hcls =>
      eq_of_beq (List.mem_filter.1 (hab.subset hcls)).2
    rw [hname a (by simp), hname b (by simp)]
    simp
  have hkept := List.sublist_mergeSort (le_trans_name qualifiedName) (le_total_name qualifiedName)
    hsorted List.filter_sublist
  have hsame : (r.keys.filter fun cls => qualifiedName cls == name).Sublist
      ((r.listing qualifiedName).filter fun cls => qualifiedName cls == name) := by
    simpa [listing, List.filter_filter] using hkept.filter fun cls => qualifiedName cls == name
  exact (hsame.eq_of_length ((r.listing_perm qualifiedName).filter _).length_eq.symm).symm

/-- A listing goes by the classes of the registry alone. -/
theorem listing_congr {other : Registry C F} (h : other.keys = r.keys) :
    other.listing qualifiedName = r.listing qualifiedName := by
  rw [listing, h, listing]

end Registry

/-! ## §2 Calls -/

/-- A call that changes the registry; a class may be registered without an adapter. -/
inductive RegistryChange where
  | register (key : RegistrationKey) (adapter : Option Adapter) (overwrite : Bool)
  | unregister (key : RegistrationKey)

namespace RegistryChange

/-- The key a call is about. -/
def key : RegistryChange → RegistrationKey
  | register key _ _ | unregister key => key

/-- Whether a call registers its class. -/
def registers : RegistryChange → Bool
  | register _ _ _ => true
  | unregister _ => false

/-- The step of a session that makes the call. -/
def step : RegistryChange → Step
  | register key adapter overwrite => .register key adapter overwrite
  | unregister key => .unregister key

/-- What a call makes of the registry, where its key is this class. -/
def apply (r : ValueRegistry) (cls : NodeClass) :
    RegistryChange → Except (RegistryError NodeClass) ValueRegistry
  | register _ adapter overwrite => Registry.register r cls adapter overwrite
  | unregister _ => Registry.unregister r cls

/-- The classes of the registry after a call on this class, whether it succeeds or fails. -/
def keysAfter (cls : NodeClass) (keys : List NodeClass) : RegistryChange → List NodeClass
  | register _ _ _ => if cls ∈ keys then keys else keys ++ [cls]
  | unregister _ => keys.filter (· ≠ cls)

variable {r next : ValueRegistry} {cls : NodeClass} {call : RegistryChange}

theorem keys_of_apply_eq_ok (h : call.apply r cls = .ok next) :
    next.keys = call.keysAfter cls r.keys := by
  cases call with
  | register key adapter overwrite =>
    rw [apply, Registry.register] at h
    split at h
    · cases h
    · cases h
      rw [keysAfter]
      split
      · exact OrderedMap.keys_insert_of_mem ‹_› adapter
      · exact OrderedMap.keys_insert_of_not_mem ‹_› adapter
  | unregister key =>
    rw [apply, Registry.unregister] at h
    split at h
    · cases h
      exact OrderedMap.keys_erase r cls
    · cases h

/-- A call fails only where it has nothing to do. -/
theorem keysAfter_of_apply_eq_error {error : RegistryError NodeClass}
    (h : call.apply r cls = .error error) : call.keysAfter cls r.keys = r.keys := by
  cases call with
  | register key adapter overwrite =>
    rw [apply, Registry.register] at h
    split at h
    · rename_i hlive
      rw [Bool.and_eq_true] at hlive
      exact if_pos (OrderedMap.contains_iff.1 hlive.1)
    · cases h
  | unregister key =>
    rw [apply, Registry.unregister] at h
    split at h
    · cases h
    · rename_i hdead
      refine List.filter_eq_self.2 fun other hother => decide_eq_true ?_
      rintro rfl
      exact hdead (OrderedMap.contains_iff.2 hother)

end RegistryChange

namespace Session

/-- What comes of a call. -/
def changed (σ : Session) : RegistryChange → Reported Session
  | .register key adapter overwrite => σ.register key adapter overwrite
  | .unregister key => σ.unregister key

variable {σ : Session} {cls : NodeClass} {call : RegistryChange}

theorem perform_change (σ : Session) (call : RegistryChange) :
    σ.perform call.step =
      match σ.changed call with
      | .ok next => (next, done)
      | .error e => (σ, refused e) := by
  cases call with
  | register key adapter overwrite =>
    simp only [RegistryChange.step, perform, carryOut, changed]
    cases σ.register key adapter overwrite <;> rfl
  | unregister key =>
    simp only [RegistryChange.step, perform, carryOut, changed]
    cases σ.unregister key <;> rfl

theorem changed_of_class (hkey : σ.scene.registeredClass? call.key = some cls) :
    σ.changed call = σ.withRegistry (call.apply σ.registry cls) := by
  have hread := registrant_of_class hkey
  cases call <;> rw [RegistryChange.key] at hread
  · rw [changed, register, hread]
    rfl
  · rw [changed, unregister, hread]
    rfl

/-- A call on anything but a class fails. -/
theorem exists_changed_of_registeredClass?_eq_none
    (h : σ.scene.registeredClass? call.key = none) : ∃ error, σ.changed call = .error error := by
  rw [Scene.registeredClass?] at h
  cases hread : registrant σ.scene call.key with
  | error e =>
    refine ⟨e, ?_⟩
    cases call <;> rw [RegistryChange.key] at hread
    · rw [changed, register, hread]
      rfl
    · rw [changed, unregister, hread]
      rfl
  | ok x =>
    rw [hread] at h
    have hclass : x.class? = none := h
    cases call with
    | register key adapter overwrite =>
      rw [RegistryChange.key] at hread
      refine ⟨notClass, ?_⟩
      simp only [changed, register, hread, Bind.bind, Except.bind, hclass]
      rfl
    | unregister key => exact exists_unregister_of_notClass hread hclass

/-- The classes of the registry after a call. -/
theorem keys_perform (σ : Session) (call : RegistryChange) :
    (σ.perform call.step).1.scene = σ.scene ∧
      (σ.perform call.step).1.registry.keys =
        ((σ.scene.registeredClass? call.key).map fun cls =>
          call.keysAfter cls σ.registry.keys).getD σ.registry.keys := by
  rw [perform_change]
  cases hkey : σ.scene.registeredClass? call.key with
  | none =>
    obtain ⟨error, herror⟩ := exists_changed_of_registeredClass?_eq_none hkey
    rw [herror]
    exact ⟨rfl, rfl⟩
  | some cls =>
    rw [changed_of_class hkey]
    cases happly : call.apply σ.registry cls with
    | error error => exact ⟨rfl, (RegistryChange.keysAfter_of_apply_eq_error happly).symm⟩
    | ok next => exact ⟨rfl, RegistryChange.keys_of_apply_eq_ok happly⟩

end Session

/-! ## §3 History -/

namespace Scene

/-- Whether a class is registered after some calls: whether the last call on it registers it. At the
start only the class of all syntax nodes is registered. -/
def liveAfter (scene : Scene) (calls : List RegistryChange) (cls : NodeClass) : Bool :=
  calls.foldl
    (fun live call => if scene.registeredClass? call.key = some cls then call.registers else live)
    (cls = syntaxRoot)

/-- The registration of a class that lasts after some calls began with the call of this number, or
at the start if that is zero. The class has been registered since, and it was not before. -/
structure BeganAt (scene : Scene) (calls : List RegistryChange) (cls : NodeClass) (n : Nat) :
    Prop where
  le : n ≤ calls.length
  since : ∀ k, n ≤ k → k ≤ calls.length → scene.liveAfter (calls.take k) cls = true
  before : ∀ m, n = m + 1 → scene.liveAfter (calls.take m) cls = false

variable {scene : Scene} {calls : List RegistryChange} {call : RegistryChange} {cls : NodeClass}
  {m n : Nat}

theorem liveAfter_concat :
    scene.liveAfter (calls ++ [call]) cls =
      if scene.registeredClass? call.key = some cls then call.registers
      else scene.liveAfter calls cls := by
  rw [liveAfter, List.foldl_append]
  rfl

/-- The last call on a class decides. -/
theorem liveAfter_concat_self (h : scene.registeredClass? call.key = some cls) :
    scene.liveAfter (calls ++ [call]) cls = call.registers := by
  rw [liveAfter_concat, if_pos h]

/-- It began once. -/
theorem BeganAt.unique (hm : scene.BeganAt calls cls m) (hn : scene.BeganAt calls cls n) :
    m = n := by
  -- Whichever began later was not live just before.
  have hle : ∀ m n, scene.BeganAt calls cls m → scene.BeganAt calls cls n → m ≤ n := by
    intro m n hm hn
    by_contra hlt
    obtain ⟨k, rfl⟩ : ∃ k, m = k + 1 := ⟨m - 1, by omega⟩
    have hlive := hn.since k (by omega) (by have := hm.le; omega)
    rw [hm.before k rfl] at hlive
    cases hlive
  exact Nat.le_antisymm (hle m n hm hn) (hle n m hn hm)

/-- A class is live after the first calls of some as it was when these were all. -/
theorem liveAfter_take_concat {k : Nat} (hk : k ≤ calls.length) :
    scene.liveAfter ((calls ++ [call]).take k) cls = scene.liveAfter (calls.take k) cls := by
  rw [List.take_append_of_le_length hk]

theorem liveAfter_take_length :
    scene.liveAfter ((calls ++ [call]).take calls.length) cls = scene.liveAfter calls cls := by
  rw [liveAfter_take_concat (Nat.le_refl _), List.take_length]

theorem liveAfter_take_of_length_lt {k : Nat} (hk : calls.length < k) :
    scene.liveAfter ((calls ++ [call]).take k) cls = scene.liveAfter (calls ++ [call]) cls := by
  rw [List.take_of_length_le (by simp; omega)]

/-- A class that was live before a call, and is after it, is still in the same registration. -/
theorem beganAt_concat_of_live (hlive : scene.liveAfter calls cls = true)
    (hafter : scene.liveAfter (calls ++ [call]) cls = true) :
    scene.BeganAt (calls ++ [call]) cls n ↔ scene.BeganAt calls cls n := by
  constructor
  · rintro ⟨hle, hsince, hbefore⟩
    have hn : n ≤ calls.length := by
      by_contra hlater
      have hdead := hbefore calls.length (by simp at hle; omega)
      rw [liveAfter_take_length, hlive] at hdead
      cases hdead
    refine ⟨hn, fun k hk hlength => ?_, fun m hm => ?_⟩
    · rw [← liveAfter_take_concat hlength]
      exact hsince k hk (by simp; omega)
    · rw [← liveAfter_take_concat (by omega)]
      exact hbefore m hm
  · rintro ⟨hle, hsince, hbefore⟩
    refine ⟨by simp; omega, fun k hk _ => ?_, fun m hm => ?_⟩
    · rcases Nat.lt_or_ge calls.length k with hlast | hlength
      · rw [liveAfter_take_of_length_lt hlast, hafter]
      · rw [liveAfter_take_concat hlength]
        exact hsince k hk hlength
    · rw [liveAfter_take_concat (by omega)]
      exact hbefore m hm

/-- A class that was not is in a new one. -/
theorem beganAt_concat_of_not_live (hlive : scene.liveAfter calls cls = false)
    (hafter : scene.liveAfter (calls ++ [call]) cls = true) :
    scene.BeganAt (calls ++ [call]) cls n ↔ n = calls.length + 1 := by
  constructor
  · rintro ⟨hle, hsince, -⟩
    by_contra hearlier
    have hn : n ≤ calls.length := by
      simp at hle
      omega
    have hdead := hsince calls.length hn (by simp)
    rw [liveAfter_take_length, hlive] at hdead
    cases hdead
  · rintro rfl
    refine ⟨by simp, fun k hk _ => ?_, fun m hm => ?_⟩
    · rw [liveAfter_take_of_length_lt hk, hafter]
    · cases hm
      rw [liveAfter_take_length, hlive]

/-- Every class that is live has been so since some call, or since the start. -/
theorem exists_beganAt (h : scene.liveAfter calls cls = true) : ∃ n, scene.BeganAt calls cls n := by
  induction calls using List.reverseRecOn with
  | nil =>
    refine ⟨0, Nat.le_refl _, fun k _ _ => ?_, nofun⟩
    rwa [List.take_nil]
  | append_singleton calls call ih =>
    cases hlive : scene.liveAfter calls cls with
    | true =>
      obtain ⟨n, hn⟩ := ih hlive
      exact ⟨n, (beganAt_concat_of_live hlive h).2 hn⟩
    | false => exact ⟨_, (beganAt_concat_of_not_live hlive h).2 rfl⟩

/-! ## §4 Orders -/

/-- These are the classes that are registered after some calls, in the order in which their
registrations began. -/
structure Orders (scene : Scene) (calls : List RegistryChange) (keys : List NodeClass) : Prop where
  nodup : keys.Nodup
  mem_iff : ∀ cls, cls ∈ keys ↔ scene.liveAfter calls cls = true
  ordered : keys.Pairwise fun a b =>
    ∀ m n, scene.BeganAt calls a m → scene.BeganAt calls b n → m < n

theorem orders_nil (scene : Scene) : scene.Orders [] [syntaxRoot] where
  nodup := by simp
  mem_iff cls := by simp [Scene.liveAfter]
  ordered := List.pairwise_singleton ..

variable {keys : List NodeClass}

/-- Classes that were live before a call, and are after it, keep their order. -/
theorem Orders.pairwise_concat (h : scene.Orders calls keys) {kept : List NodeClass}
    (hkept : kept.Sublist keys)
    (hlive : ∀ cls ∈ kept, scene.liveAfter (calls ++ [call]) cls = true) :
    kept.Pairwise fun a b =>
      ∀ m n, scene.BeganAt (calls ++ [call]) a m → scene.BeganAt (calls ++ [call]) b n → m < n := by
  refine (h.ordered.sublist hkept).imp_of_mem fun {a b} ha hb hab m n hm hn => ?_
  have hold : ∀ cls ∈ kept, scene.liveAfter calls cls = true := fun cls hcls =>
    (h.mem_iff cls).1 (hkept.subset hcls)
  exact hab m n ((beganAt_concat_of_live (hold a ha) (hlive a ha)).1 hm)
    ((beganAt_concat_of_live (hold b hb) (hlive b hb)).1 hn)

/-- A call that makes no class live leaves the order of the others. -/
theorem Orders.concat_of_sublist (h : scene.Orders calls keys) {kept : List NodeClass}
    (hkept : kept.Sublist keys)
    (hmem : ∀ cls, cls ∈ kept ↔ scene.liveAfter (calls ++ [call]) cls = true) :
    scene.Orders (calls ++ [call]) kept where
  nodup := h.nodup.sublist hkept
  mem_iff := hmem
  ordered := h.pairwise_concat hkept fun cls => (hmem cls).1

/-- A class that becomes live comes last. -/
theorem Orders.concat_of_new (h : scene.Orders calls keys) (hnew : cls ∉ keys)
    (hmem : ∀ other, other ∈ keys ++ [cls] ↔ scene.liveAfter (calls ++ [call]) other = true) :
    scene.Orders (calls ++ [call]) (keys ++ [cls]) where
  nodup := by
    rw [List.nodup_append]
    refine ⟨h.nodup, by simp, fun a ha b hb => ?_⟩
    rw [List.mem_singleton.1 hb]
    rintro rfl
    exact hnew ha
  mem_iff := hmem
  ordered := by
    have hkept : ∀ other ∈ keys, scene.liveAfter (calls ++ [call]) other = true :=
      fun other hother => (hmem other).1 (List.mem_append_left _ hother)
    refine List.pairwise_append.2
      ⟨h.pairwise_concat (.refl _) hkept, List.pairwise_singleton .., ?_⟩
    intro a ha b hb m n hm hn
    rw [List.mem_singleton.1 hb] at hn
    have hdead : scene.liveAfter calls cls = false :=
      Bool.eq_false_iff.2 fun hlive => hnew ((h.mem_iff cls).2 hlive)
    have hlast := (beganAt_concat_of_not_live hdead
      ((hmem cls).1 (List.mem_append_right _ (List.mem_singleton_self _)))).1 hn
    have hearlier := ((beganAt_concat_of_live ((h.mem_iff a).1 ha) (hkept a ha)).1 hm).le
    omega

/-- Step lemma: the classes of the registry are in order after another call. -/
theorem Orders.concat (h : scene.Orders calls keys) (call : RegistryChange) :
    scene.Orders (calls ++ [call])
      (((scene.registeredClass? call.key).map fun cls => call.keysAfter cls keys).getD keys) := by
  have hmem := h.mem_iff
  cases hkey : scene.registeredClass? call.key with
  | none => exact h.concat_of_sublist (.refl _) fun cls => by simp [liveAfter_concat, hkey, hmem]
  | some cls =>
    rw [Option.map_some, Option.getD_some]
    cases call with
    | register key adapter overwrite =>
      rw [RegistryChange.keysAfter]
      split
      · rename_i hlive
        refine h.concat_of_sublist (.refl _) fun other => ?_
        rw [liveAfter_concat, hkey, hmem]
        split
        · rename_i hsame
          cases hsame
          simpa [RegistryChange.registers] using (hmem cls).1 hlive
        · rfl
      · rename_i hnew
        refine h.concat_of_new hnew fun other => ?_
        rw [liveAfter_concat, hkey, List.mem_append, hmem, List.mem_singleton]
        by_cases hsame : cls = other
        · simp [hsame, RegistryChange.registers]
        · simp [hsame, Ne.symm hsame]
    | unregister key =>
      refine h.concat_of_sublist List.filter_sublist fun other => ?_
      rw [liveAfter_concat, hkey, RegistryChange.keysAfter, List.mem_filter, hmem]
      by_cases hsame : cls = other
      · simp [hsame, RegistryChange.registers]
      · simp [hsame, Ne.symm hsame]

end Scene

/-! ## §5 Listings -/

namespace Session

/-- The session after some calls. -/
def afterChanges (σ : Session) (calls : List RegistryChange) : Session :=
  calls.foldl (fun σ call => (σ.perform call.step).1) σ

theorem afterChanges_concat (σ : Session) (calls : List RegistryChange) (call : RegistryChange) :
    σ.afterChanges (calls ++ [call]) = ((σ.afterChanges calls).perform call.step).1 := by
  rw [afterChanges, List.foldl_append]
  rfl

/-- After any calls the registry has its classes in the order in which their registrations
began. -/
theorem orders_afterChanges (scene : Scene) (capacity : Capacity) (calls : List RegistryChange) :
    ((start scene capacity).afterChanges calls).scene = scene ∧
      scene.Orders calls ((start scene capacity).afterChanges calls).registry.keys := by
  induction calls using List.reverseRecOn with
  | nil => exact ⟨rfl, scene.orders_nil⟩
  | append_singleton calls call ih =>
    obtain ⟨hscene, horders⟩ := ih
    obtain ⟨hscene', hkeys⟩ := keys_perform ((start scene capacity).afterChanges calls) call
    rw [afterChanges_concat]
    refine ⟨hscene'.trans hscene, ?_⟩
    rw [hkeys, hscene]
    exact horders.concat call

end Session

/-- These are the classes that are registered after some calls, each once, by name, and those of one
name in the order in which their registrations began. -/
structure Scene.Lists (scene : Scene) (calls : List RegistryChange) (listed : List NodeClass) :
    Prop where
  nodup : listed.Nodup
  mem_iff : ∀ cls, cls ∈ listed ↔ scene.liveAfter calls cls = true
  byName : listed.Pairwise fun a b => a.qualifiedName ≤ b.qualifiedName
  began : ∀ cls ∈ listed, ∃! n, scene.BeganAt calls cls n
  namesakes : listed.Pairwise fun a b => a.qualifiedName = b.qualifiedName →
    ∀ m n, scene.BeganAt calls a m → scene.BeganAt calls b n → m < n

theorem Scene.Orders.lists {scene : Scene} {calls : List RegistryChange} {r : ValueRegistry}
    (h : scene.Orders calls r.keys) :
    scene.Lists calls (Registry.listing r NodeClass.qualifiedName) := by
  have hperm := Registry.listing_perm r NodeClass.qualifiedName
  have hmem : ∀ cls, cls ∈ Registry.listing r NodeClass.qualifiedName ↔
      scene.liveAfter calls cls = true := fun cls => hperm.mem_iff.trans (h.mem_iff cls)
  refine ⟨hperm.nodup_iff.2 h.nodup, hmem, Registry.pairwise_listing r _, fun cls hcls => ?_, ?_⟩
  · obtain ⟨n, hn⟩ := Scene.exists_beganAt ((hmem cls).1 hcls)
    exact ⟨n, hn, fun m hm => hm.unique hn⟩
  · -- Namesakes stand in the listing as they do in the registry.
    refine List.pairwise_iff_forall_sublist.2 fun {a b} hab hname => ?_
    have hnamed : [a, b].Sublist (r.keys.filter fun cls => cls.qualifiedName == b.qualifiedName) := by
      rw [← Registry.filter_listing]
      simpa [hname] using hab.filter fun cls => cls.qualifiedName == b.qualifiedName
    exact List.pairwise_iff_forall_sublist.1 h.ordered (hnamed.trans List.filter_sublist)

/-- Of two classes that are listed one comes first. -/
theorem pair_sublist_or {listed : List NodeClass} {a b : NodeClass} (ha : a ∈ listed)
    (hb : b ∈ listed) (hne : a ≠ b) : [a, b].Sublist listed ∨ [b, a].Sublist listed := by
  have _ : Std.Symm fun a b : NodeClass => [a, b].Sublist listed ∨ [b, a].Sublist listed :=
    ⟨fun _ _ => Or.symm⟩
  have hpairs : listed.Pairwise fun a b => [a, b].Sublist listed ∨ [b, a].Sublist listed :=
    List.pairwise_iff_forall_sublist.2 .inl
  exact hpairs.forall ha hb hne

namespace Scene

variable {scene : Scene} {calls : List RegistryChange} {listed : List NodeClass} {cls : NodeClass}

/-- A class that became live with the last call comes after its namesakes. -/
theorem Lists.sublist_of_new {call : RegistryChange} (h : scene.Lists (calls ++ [call]) listed)
    (hdead : scene.liveAfter calls cls = false) (hcls : cls ∈ listed) {other : NodeClass}
    (hother : other ∈ listed) (hlive : scene.liveAfter calls other = true)
    (hname : other.qualifiedName = cls.qualifiedName) : [other, cls].Sublist listed := by
  have hne : other ≠ cls := by
    rintro rfl
    rw [hdead] at hlive
    cases hlive
  refine (pair_sublist_or hother hcls hne).resolve_right fun hswapped => ?_
  have hafter := (h.mem_iff other).1 hother
  obtain ⟨m, hm⟩ := exists_beganAt hafter
  have hlast := (beganAt_concat_of_not_live hdead ((h.mem_iff cls).1 hcls)).2 rfl
  have hlt := List.pairwise_iff_forall_sublist.1 h.namesakes hswapped hname.symm _ m hlast hm
  have hle := ((beganAt_concat_of_live hlive hafter).1 hm).le
  omega

/-- A class that is dropped and registered again comes after its namesakes. -/
theorem Lists.sublist_renewed {key : RegistrationKey} {adapter : Option Adapter} {overwrite : Bool}
    (h : scene.Lists (calls ++ [.unregister key, .register key adapter overwrite]) listed)
    (hkey : scene.registeredClass? key = some cls) (hcls : cls ∈ listed) {other : NodeClass}
    (hother : other ∈ listed) (hne : other ≠ cls)
    (hname : other.qualifiedName = cls.qualifiedName) : [other, cls].Sublist listed := by
  rw [List.append_cons] at h
  have hdead : scene.liveAfter (calls ++ [.unregister key]) cls = false :=
    liveAfter_concat_self hkey
  -- The last call is on the class, so the other one was live before it.
  have hlive := (h.mem_iff other).1 hother
  rw [liveAfter_concat, RegistryChange.key, hkey,
    if_neg fun hsame => hne (Option.some.inj hsame).symm] at hlive
  exact h.sublist_of_new hdead hcls hother hlive hname

end Scene

namespace Session

/-- Registering a class anew in place of its registration leaves the listing. -/
theorem listing_overwritten {σ : Session} {key : RegistrationKey} {cls : NodeClass}
    (adapter : Option Adapter) (hkey : σ.scene.registeredClass? key = some cls)
    (hlisted : cls ∈ Registry.listing σ.registry NodeClass.qualifiedName) :
    Registry.listing (σ.perform (.register key adapter true)).1.registry NodeClass.qualifiedName =
      Registry.listing σ.registry NodeClass.qualifiedName := by
  have hkeys := (keys_perform σ (.register key adapter true)).2
  have hlive := (Registry.listing_perm ..).mem_iff.1 hlisted
  rw [RegistryChange.key, hkey, Option.map_some, Option.getD_some, RegistryChange.keysAfter,
    if_pos hlive] at hkeys
  exact Registry.listing_congr _ _ hkeys

theorem lists_afterChanges (scene : Scene) (capacity : Capacity) (calls : List RegistryChange) :
    scene.Lists calls
      (Registry.listing ((start scene capacity).afterChanges calls).registry
        NodeClass.qualifiedName) :=
  (orders_afterChanges scene capacity calls).2.lists

/-- A call that fails leaves the session as it was. -/
theorem perform_change_of_error {σ : Session} {call : RegistryChange} {error : ErrorReport}
    (h : (σ.perform call.step).2.result = .error error) : (σ.perform call.step).1 = σ := by
  rw [perform_change] at h ⊢
  cases houtcome : σ.changed call with
  | error e => rfl
  | ok next =>
    rw [houtcome] at h
    cases h

/-- The classes listed as registered follow from the calls made so far. They are those whose last
call registered them, each listed once, by qualified name, and namesakes in the order in which their
registrations began. So a call that fails changes nothing, a class keeps its place when it is
overwritten, and it comes after all its namesakes when it is dropped and registered again. -/
theorem listing_follows_history (scene : Scene) (capacity : Capacity)
    (calls : List RegistryChange) :
    let σ := (start scene capacity).afterChanges calls
    let listed := Registry.listing σ.registry NodeClass.qualifiedName
    (σ.perform .registered).2.result = .ok (.texts (listed.map NodeClass.tag)) ∧
      scene.Lists calls listed ∧
      (∀ (call : RegistryChange) error, (σ.perform call.step).2.result = .error error →
        (σ.perform call.step).1 = σ) ∧
      (∀ key cls adapter, scene.registeredClass? key = some cls → cls ∈ listed →
        Registry.listing (σ.perform (.register key adapter true)).1.registry
          NodeClass.qualifiedName = listed) ∧
      ∀ key cls adapter overwrite, scene.registeredClass? key = some cls →
        let renewed := Registry.listing
          ((start scene capacity).afterChanges
            (calls ++ [.unregister key, .register key adapter overwrite])).registry
          NodeClass.qualifiedName
        cls ∈ renewed ∧ ∀ other ∈ renewed, other ≠ cls →
          other.qualifiedName = cls.qualifiedName → [other, cls].Sublist renewed := by
  obtain ⟨hscene, horders⟩ := orders_afterChanges scene capacity calls
  refine ⟨rfl, horders.lists, fun _ _ => perform_change_of_error,
    fun key cls adapter hkey hlisted => listing_overwritten adapter (by rwa [hscene]) hlisted,
    fun key cls adapter overwrite hkey => ?_⟩
  intro renewed
  have hlists : scene.Lists (calls ++ [.unregister key, .register key adapter overwrite]) renewed :=
    lists_afterChanges scene capacity _
  have hcls : cls ∈ renewed := by
    rw [hlists.mem_iff, List.append_cons]
    exact Scene.liveAfter_concat_self hkey
  exact ⟨hcls, fun other hother hne hname => hlists.sublist_renewed hkey hcls hother hne hname⟩

/-- A class of this tag that is called a twin. -/
def twin (tag : String) : ObjectClass := ⟨tag, "Twin", "Twin", [], .absent, .itself, true⟩

/-- A scene with two of them. -/
def twinScene : Scene := { Scene.empty with classes := [twin "TwinA", twin "TwinB"] }

/-- The twins share their name. The one registered first keeps its place when it is overwritten, and
comes last when it is dropped and registered again. -/
theorem listing_follows_history_twins :
    let calls : List RegistryChange :=
      [.register (.tagged "TwinB") none false, .register (.tagged "TwinA") none false]
    let σ := (start twinScene ⟨0, by decide⟩).afterChanges calls
    Registry.listing (σ.perform (.register (.tagged "TwinB") none true)).1.registry
        NodeClass.qualifiedName = Registry.listing σ.registry NodeClass.qualifiedName ∧
      [NodeClass.described (twin "TwinA"), .described (twin "TwinB")].Sublist
        (Registry.listing
          ((start twinScene ⟨0, by decide⟩).afterChanges
            (calls ++ [.unregister (.tagged "TwinB"), .register (.tagged "TwinB") none false])
            ).registry
          NodeClass.qualifiedName) := by
  intro calls σ
  obtain ⟨-, hlists, -, hoverwriting, hrenewing⟩ :=
    listing_follows_history twinScene ⟨0, by decide⟩ calls
  have hkey : twinScene.registeredClass? (.tagged "TwinB") = some (.described (twin "TwinB")) := by
    decide +kernel
  have hlisted := (hlists.mem_iff (.described (twin "TwinB"))).2 (by decide +kernel)
  refine ⟨hoverwriting _ _ none hkey hlisted, ?_⟩
  obtain ⟨-, hlast⟩ := hrenewing _ _ none false hkey
  refine hlast _ ?_ (by decide +kernel) rfl
  exact ((lists_afterChanges ..).mem_iff _).2 (by decide +kernel)

end Session

end GraphFold
