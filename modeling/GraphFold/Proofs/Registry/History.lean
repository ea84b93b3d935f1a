/-
GraphFold.Proofs.Registry.History — what is registered follows from the calls
made so far.

A class is live after some calls if the last of them that succeeded on it was a
registration; at the start the class of all syntax nodes is. Whether the next
call succeeds, and which adapter is found for a node, depends on this alone.
Calls that fail leave no trace.

  §1 Registries — one call on a registry that is known by its adapters.
  §2 Calls      — `RegistryCall`, and the records of a session.
  §3 Sessions   — one call in a session.
  §4 History    — `Session.registry_reflects_history`.
-/
import GraphFold.OrderedMap.Lemmas
import GraphFold.Session
import Mathlib.Data.List.Induction
import Mathlib.Logic.Function.Basic

namespace GraphFold

/-! ## §1 Registries -/

namespace Registry

variable {C F : Type} [DecidableEq C] {r : Registry C F} {adapters : C → Option F}

/-- The registry has an adapter for exactly the classes this function gives one to. -/
def Holds (r : Registry C F) (adapters : C → Option F) : Prop :=
  ∀ cls, r.find? cls = (adapters cls).map some

theorem Holds.contains (h : r.Holds adapters) (cls : C) :
    OrderedMap.contains r cls = (adapters cls).isSome := by
  have hnone : r.find? cls = none ↔ cls ∉ r.keys := OrderedMap.find?_eq_none_iff
  rw [h cls, ← OrderedMap.contains_iff] at hnone
  cases hc : adapters cls <;> simp_all

theorem Holds.unique {others : C → Option F} (h : r.Holds adapters) (h' : r.Holds others) :
    adapters = others := by
  funext cls
  exact Option.map_injective (fun _ _ => Option.some.inj) ((h cls).symm.trans (h' cls))

/-- A new adapter takes the place of the old one, and no other class notices. -/
theorem Holds.insert (h : r.Holds adapters) (cls : C) (adapter : F) :
    Registry.Holds (OrderedMap.insert r cls (some adapter))
      (Function.update adapters cls (some adapter)) := by
  intro other
  by_cases hother : other = cls
  · subst hother
    rw [OrderedMap.find?_insert_self, Function.update_self]
    rfl
  · rw [OrderedMap.find?_insert_of_ne r _ hother, Function.update_of_ne hother, h other]

theorem Holds.erase (h : r.Holds adapters) (cls : C) :
    Registry.Holds (OrderedMap.erase r cls) (Function.update adapters cls none) := by
  intro other
  by_cases hother : other = cls
  · subst hother
    rw [OrderedMap.find?_erase_self, Function.update_self]
    rfl
  · rw [OrderedMap.find?_erase_of_ne r hother, Function.update_of_ne hother, h other]

/-- The adapter found is that of the first class in the order that has one. -/
theorem Holds.resolve (h : r.Holds adapters) (order : List C) :
    r.resolve order = (order.find? fun cls => (adapters cls).isSome).bind adapters := by
  induction order with
  | nil => rfl
  | cons cls order ih =>
    rw [Registry.resolve, List.findSome?_cons, h cls, List.find?_cons]
    cases hcls : adapters cls with
    | none => exact ih
    | some adapter => simp [hcls]

end Registry

/-! ## §2 Calls -/

/-- A call that changes the registry. -/
inductive RegistryCall where
  | register (key : RegistrationKey) (adapter : Adapter) (overwrite : Bool)
  | unregister (key : RegistrationKey)

namespace RegistryCall

/-- The key a call is about. -/
def key : RegistryCall → RegistrationKey
  | register key _ _ | unregister key => key

/-- The adapter a call gives to its class, if any. -/
def adapter? : RegistryCall → Option Adapter
  | register _ adapter _ => some adapter
  | unregister _ => none

/-- The step of a session that makes the call. -/
def step : RegistryCall → Step
  | register key adapter overwrite => .register key (some adapter) overwrite
  | unregister key => .unregister key

end RegistryCall

/-- The class a key stands for, if it stands for one. -/
def Scene.registeredClass? (scene : Scene) (key : RegistrationKey) : Option NodeClass :=
  (Session.registrant scene key).toOption.bind Session.Registrant.class?

/-- What a call and its report say of a class: which adapter it has from then on, if any. A call
that failed or was about something else says nothing. -/
def recordedFor (scene : Scene) (cls : NodeClass) :
    RegistryCall × StepReport → Option (Option Adapter)
  | (call, report) =>
    if scene.registeredClass? call.key = some cls ∧ report.result.isOk then
      some call.adapter?
    else
      none

/-- The adapters at the start: only the class of all syntax nodes has one. -/
def startAdapters (cls : NodeClass) : Option Adapter :=
  if cls = syntaxRoot then some .syntaxTree else none

/-- The adapter of the latest registration of a class that is still live: what the last record says
that says anything of it. -/
def latestAdapter (scene : Scene) (records : List (RegistryCall × StepReport)) (cls : NodeClass) :
    Option Adapter :=
  (records.reverse.findSome? (recordedFor scene cls)).getD (startAdapters cls)

theorem latestAdapter_concat (scene : Scene) (records : List (RegistryCall × StepReport))
    (record : RegistryCall × StepReport) (cls : NodeClass) :
    latestAdapter scene (records ++ [record]) cls =
      (recordedFor scene cls record).getD (latestAdapter scene records cls) := by
  rw [latestAdapter, List.reverse_append, List.reverse_singleton, List.singleton_append,
    List.findSome?_cons]
  cases recordedFor scene cls record <;> rfl

namespace Session

/-- The session after some calls. -/
def afterCalls (σ : Session) (calls : List RegistryCall) : Session :=
  calls.foldl (fun σ call => (σ.perform call.step).1) σ

/-- The calls with their reports. -/
def recordCalls (σ : Session) (calls : List RegistryCall) : List (RegistryCall × StepReport) :=
  calls.zip (σ.performAll (calls.map RegistryCall.step))

theorem afterCalls_concat (σ : Session) (calls : List RegistryCall) (call : RegistryCall) :
    σ.afterCalls (calls ++ [call]) = ((σ.afterCalls calls).perform call.step).1 := by
  rw [afterCalls, List.foldl_append]
  rfl

theorem recordCalls_concat (σ : Session) (calls : List RegistryCall) (call : RegistryCall) :
    σ.recordCalls (calls ++ [call]) =
      σ.recordCalls calls ++ [(call, ((σ.afterCalls calls).perform call.step).2)] := by
  induction calls generalizing σ with
  | nil => rfl
  | cons first calls ih =>
    exact congrArg (_ :: ·) (ih (σ.perform first.step).1)

/-! ## §3 Sessions -/

/-- What comes of a call. -/
def outcome (σ : Session) : RegistryCall → Reported Session
  | .register key adapter overwrite => σ.register key (some adapter) overwrite
  | .unregister key => σ.unregister key

/-- The report on a call that succeeded. -/
def done : StepReport := ⟨.ok .nothing, none⟩

/-- The report on a call that failed. -/
def refused (error : ErrorReport) : StepReport := ⟨.error error, none⟩

/-- Only a call that succeeds changes the session. -/
theorem perform_step (σ : Session) (call : RegistryCall) :
    σ.perform call.step =
      match σ.outcome call with
      | .ok next => (next, done)
      | .error e => (σ, refused e) := by
  cases call with
  | register key adapter overwrite =>
    simp only [RegistryCall.step, perform, carryOut, outcome]
    cases σ.register key (some adapter) overwrite <;> rfl
  | unregister key =>
    simp only [RegistryCall.step, perform, carryOut, outcome]
    cases σ.unregister key <;> rfl

variable {σ : Session} {key : RegistrationKey} {cls : NodeClass} {adapter : Adapter}
  {overwrite : Bool} {adapters : NodeClass → Option Adapter} {call : RegistryCall}

theorem registrant_of_class (h : σ.scene.registeredClass? key = some cls) :
    registrant σ.scene key = .ok (.tagged (.cls cls)) := by
  rw [Scene.registeredClass?] at h
  cases hread : registrant σ.scene key with
  | error e => simp [hread, Except.toOption] at h
  | ok x =>
    rw [hread] at h
    cases x with
    | value v => cases h
    | tagged t =>
      cases t with
      | cls c => cases h; rfl
      | function name => cases h
      | constant unhashable => cases h

/-- A class that is live is not registered again, unless this is said to overwrite. -/
theorem perform_register (h : σ.registry.Holds adapters)
    (hkey : σ.scene.registeredClass? key = some cls) (adapter : Adapter) (overwrite : Bool) :
    σ.perform (.register key (some adapter) overwrite) =
      if (adapters cls).isSome && !overwrite then
        (σ, refused (RegistryError.alreadyRegistered cls).report)
      else
        ({ σ with registry := OrderedMap.insert σ.registry cls (some adapter) }, done) := by
  refine (σ.perform_step (.register key adapter overwrite)).trans ?_
  have houtcome : σ.outcome (.register key adapter overwrite) =
      σ.withRegistry (Registry.register σ.registry cls (some adapter) overwrite) := by
    rw [outcome, register, registrant_of_class hkey]
    rfl
  rw [houtcome, Registry.register, h.contains]
  cases (adapters cls).isSome && !overwrite <;> rfl

/-- A class that is not live is not dropped. -/
theorem perform_unregister (h : σ.registry.Holds adapters)
    (hkey : σ.scene.registeredClass? key = some cls) :
    σ.perform (.unregister key) =
      if (adapters cls).isSome then
        ({ σ with registry := OrderedMap.erase σ.registry cls }, done)
      else
        (σ, refused (RegistryError.notRegistered cls).report) := by
  refine (σ.perform_step (.unregister key)).trans ?_
  have houtcome : σ.outcome (.unregister key) =
      σ.withRegistry (Registry.unregister σ.registry cls) := by
    rw [outcome, unregister, registrant_of_class hkey]
    rfl
  rw [houtcome, Registry.unregister, h.contains]
  cases (adapters cls).isSome <;> rfl

/-- What is not a class is not registered. -/
theorem register_of_notClass {x : Registrant} (hkey : registrant σ.scene key = .ok x)
    (hclass : x.class? = none) :
    σ.register key (some adapter) overwrite = .error notClass := by
  simp only [register, hkey, Bind.bind, Except.bind, hclass]
  rfl

/-- Nor is it dropped. -/
theorem exists_unregister_of_notClass {x : Registrant} (hkey : registrant σ.scene key = .ok x)
    (hclass : x.class? = none) : ∃ error, σ.unregister key = .error error := by
  cases x with
  | tagged t =>
    cases t with
    | cls c => cases hclass
    | function name => exact ⟨notRegistered name, by rw [unregister, hkey]; rfl⟩
    | constant unhashable =>
      cases unhashable with
      | none => exact ⟨lacking, by rw [unregister, hkey]; rfl⟩
      | some cls => exact ⟨.ofFault (.unhashableKey cls), by rw [unregister, hkey]; rfl⟩
  | value v =>
    simp only [unregister, hkey, Bind.bind, Except.bind]
    cases v.unhashablePart? with
    | some cls => exact ⟨_, rfl⟩
    | none => cases orFault (σ.scene.attributeOf v "__qualname__") <;> exact ⟨_, rfl⟩

/-- A call on anything but a class fails. -/
theorem exists_perform_of_registeredClass?_eq_none
    (h : σ.scene.registeredClass? call.key = none) :
    ∃ error, σ.perform call.step = (σ, refused error) := by
  suffices hfails : ∃ error, σ.outcome call = .error error by
    obtain ⟨error, herror⟩ := hfails
    exact ⟨error, by rw [perform_step, herror]⟩
  rw [Scene.registeredClass?] at h
  cases hread : registrant σ.scene call.key with
  | error e =>
    refine ⟨e, ?_⟩
    cases call <;> rw [RegistryCall.key] at hread
    · rw [outcome, register, hread]
      rfl
    · rw [outcome, unregister, hread]
      rfl
  | ok x =>
    rw [hread] at h
    have hclass : x.class? = none := h
    cases call with
    | register key adapter overwrite => exact ⟨notClass, register_of_notClass hread hclass⟩
    | unregister key => exact exists_unregister_of_notClass hread hclass

theorem recordedFor_refused (scene : Scene) (cls : NodeClass) (call : RegistryCall)
    (error : ErrorReport) : recordedFor scene cls (call, refused error) = none :=
  if_neg fun h => Bool.false_ne_true h.2

/-- A call that succeeds changes what is known of its class only. -/
theorem recordedFor_done (hkey : σ.scene.registeredClass? call.key = some cls) :
    (fun other => (recordedFor σ.scene other (call, done)).getD (adapters other)) =
      Function.update adapters cls call.adapter? := by
  funext other
  by_cases hother : other = cls
  · subst hother
    rw [Function.update_self, recordedFor, if_pos ⟨hkey, rfl⟩, Option.getD_some]
  · have hnot : ¬ σ.scene.registeredClass? call.key = some other := fun h =>
      hother (Option.some.inj (h.symm.trans hkey))
    rw [Function.update_of_ne hother, recordedFor, if_neg fun h => hnot h.1, Option.getD_none]

/-- A call on a class is refused, or it gives the class its adapter or takes it away. -/
theorem perform_of_class (h : σ.registry.Holds adapters)
    (hkey : σ.scene.registeredClass? call.key = some cls) :
    (∃ error, σ.perform call.step = (σ, refused error)) ∨
      ∃ registry : ValueRegistry, registry.Holds (Function.update adapters cls call.adapter?) ∧
        σ.perform call.step = ({ σ with registry := registry }, done) := by
  cases call with
  | register key adapter overwrite =>
    have hperform := perform_register h hkey adapter overwrite
    split at hperform
    · exact .inl ⟨_, hperform⟩
    · exact .inr ⟨_, h.insert cls adapter, hperform⟩
  | unregister key =>
    have hperform := perform_unregister h hkey
    split at hperform
    · exact .inr ⟨_, h.erase cls, hperform⟩
    · exact .inl ⟨_, hperform⟩

/-- Step lemma: after a call the registry has the adapter that the record speaks of, and the others
as before. -/
theorem holds_perform (h : σ.registry.Holds adapters) (call : RegistryCall) :
    (σ.perform call.step).1.scene = σ.scene ∧
      (σ.perform call.step).1.registry.Holds fun cls =>
        (recordedFor σ.scene cls (call, (σ.perform call.step).2)).getD (adapters cls) := by
  have hkept : ∀ error, σ.perform call.step = (σ, refused error) →
      (σ.perform call.step).1.scene = σ.scene ∧
        (σ.perform call.step).1.registry.Holds fun cls =>
          (recordedFor σ.scene cls (call, (σ.perform call.step).2)).getD (adapters cls) := by
    intro error herror
    simp only [herror, recordedFor_refused, Option.getD_none]
    exact ⟨trivial, h⟩
  cases hkey : σ.scene.registeredClass? call.key with
  | none =>
    obtain ⟨error, herror⟩ := exists_perform_of_registeredClass?_eq_none hkey
    exact hkept error herror
  | some cls =>
    rcases perform_of_class h hkey with ⟨error, herror⟩ | ⟨registry, hholds, hdone⟩
    · exact hkept error herror
    · rw [hdone, recordedFor_done hkey]
      exact ⟨rfl, hholds⟩

/-! ## §4 History -/

theorem holds_standard : ValueRegistry.standard.Holds startAdapters := by
  intro cls
  by_cases hcls : cls = syntaxRoot
  · subst hcls
    simp [ValueRegistry.standard, startAdapters]
  · simp [ValueRegistry.standard, startAdapters, hcls, Ne.symm hcls]

/-- At the start syntax nodes have an adapter, and after some calls those that the records speak
of have. -/
theorem holds_afterCalls (scene : Scene) (capacity : Capacity) (calls : List RegistryCall) :
    ((start scene capacity).afterCalls calls).scene = scene ∧
      ((start scene capacity).afterCalls calls).registry.Holds
        (latestAdapter scene ((start scene capacity).recordCalls calls)) := by
  induction calls using List.reverseRecOn with
  | nil => exact ⟨rfl, holds_standard⟩
  | append_singleton calls call ih =>
    obtain ⟨hscene, hholds⟩ := ih
    obtain ⟨hscene', hholds'⟩ := holds_perform hholds call
    rw [afterCalls_concat, recordCalls_concat]
    refine ⟨hscene'.trans hscene, fun cls => ?_⟩
    rw [hholds' cls, latestAdapter_concat, hscene]

/-- The first class in an order that is live. -/
def firstLive (latest : NodeClass → Option Adapter) (order : List NodeClass) : Option NodeClass :=
  order.find? fun cls => (latest cls).isSome

/-- A change of one class is seen in an order only if the class is the first live one before or
after it. -/
theorem bind_firstLive_update {latest : NodeClass → Option Adapter} {changed : Option Adapter}
    {order : List NodeClass} (hbefore : firstLive latest order ≠ some cls)
    (hafter : firstLive (Function.update latest cls changed) order ≠ some cls) :
    (firstLive latest order).bind latest =
      (firstLive (Function.update latest cls changed) order).bind
        (Function.update latest cls changed) := by
  induction order with
  | nil => rfl
  | cons first order ih =>
    rw [firstLive, List.find?_cons] at hbefore hafter ⊢
    rw [firstLive, List.find?_cons]
    by_cases hfirst : first = cls
    · subst hfirst
      rw [Function.update_self] at hafter ⊢
      cases hlive : latest first with
      | some a => simp [hlive] at hbefore
      | none =>
        cases hchanged : changed with
        | some a => simp [hchanged] at hafter
        | none =>
          rw [hlive] at hbefore
          rw [hchanged] at hafter ih
          exact ih hbefore hafter
    · rw [Function.update_of_ne hfirst] at hafter ⊢
      cases hlive : latest first with
      | some a => simp [hlive, Function.update_of_ne hfirst]
      | none =>
        rw [hlive] at hbefore hafter
        exact ih hbefore hafter

/-- A session answers calls, and finds adapters, by the latest adapters of its live classes. -/
structure GoesBy (σ : Session) (latest : NodeClass → Option Adapter) : Prop where
  registers : ∀ key cls adapter, σ.scene.registeredClass? key = some cls →
    (σ.perform (.register key (some adapter) false)).2 =
      if (latest cls).isSome then refused (RegistryError.alreadyRegistered cls).report else done
  overwrites : ∀ key cls adapter, σ.scene.registeredClass? key = some cls →
    (σ.perform (.register key (some adapter) true)).2 = done
  unregisters : ∀ key cls, σ.scene.registeredClass? key = some cls →
    (σ.perform (.unregister key)).2 =
      if (latest cls).isSome then done else refused (RegistryError.notRegistered cls).report
  keyless : ∀ key x adapter overwrite, registrant σ.scene key = .ok x → x.class? = none →
    (σ.perform (.register key (some adapter) overwrite)).2 = refused notClass
  failing : ∀ (call : RegistryCall) error, (σ.perform call.step).2.result = .error error →
    (σ.perform call.step).1 = σ
  finds : ∀ order, σ.registry.resolve order = (firstLive latest order).bind latest

theorem goesBy_of_holds (h : σ.registry.Holds adapters) : σ.GoesBy adapters where
  registers key cls adapter hkey := by
    rw [perform_register h hkey]
    cases hlive : (adapters cls).isSome <;> rfl
  overwrites key cls adapter hkey := by
    rw [perform_register h hkey, Bool.not_true, Bool.and_false]
    rfl
  unregisters key cls hkey := by
    rw [perform_unregister h hkey]
    cases hlive : (adapters cls).isSome <;> rfl
  keyless key x adapter overwrite hkey hclass := by
    have hfails : σ.outcome (.register key adapter overwrite) = .error notClass :=
      register_of_notClass hkey hclass
    have hperform := σ.perform_step (.register key adapter overwrite)
    rw [hfails] at hperform
    exact congrArg Prod.snd hperform
  failing call error herror := by
    rw [perform_step] at herror ⊢
    cases houtcome : σ.outcome call with
    | error e => rfl
    | ok next =>
      rw [houtcome] at herror
      cases herror
  finds order := h.resolve order

/-- After any calls on the registry, the adapter of a class is that of the last call that succeeded
on it, and by this the session goes on. One more call can change what the children of a node are
only if its class is the first live one above the node, before or after it. -/
theorem registry_reflects_history (scene : Scene) (capacity : Capacity)
    (calls : List RegistryCall) :
    ((start scene capacity).afterCalls calls).scene = scene ∧
      ((start scene capacity).afterCalls calls).GoesBy
        (latestAdapter scene ((start scene capacity).recordCalls calls)) ∧
      ∀ (call : RegistryCall) (node : Value) (s : ValueState),
        scene.children ((start scene capacity).afterCalls calls).registry node s ≠
            scene.children ((start scene capacity).afterCalls (calls ++ [call])).registry node s →
          ∃ cls, scene.registeredClass? call.key = some cls ∧
            (firstLive (latestAdapter scene ((start scene capacity).recordCalls calls))
                node.nodeClass.order = some cls ∨
              firstLive (latestAdapter scene ((start scene capacity).recordCalls (calls ++ [call])))
                node.nodeClass.order = some cls) := by
  obtain ⟨hscene, hholds⟩ := holds_afterCalls scene capacity calls
  refine ⟨hscene, goesBy_of_holds hholds, fun call node s hchanged => ?_⟩
  obtain ⟨-, hholds'⟩ := holds_afterCalls scene capacity (calls ++ [call])
  rw [afterCalls_concat] at hchanged hholds'
  generalize (start scene capacity).afterCalls calls = σ at hscene hholds hchanged hholds' ⊢
  have hkept : ∀ error, ¬ σ.perform call.step = (σ, refused error) := fun error herror =>
    hchanged (by rw [herror])
  cases hkey : σ.scene.registeredClass? call.key with
  | none =>
    obtain ⟨error, herror⟩ := exists_perform_of_registeredClass?_eq_none hkey
    exact absurd herror (hkept error)
  | some cls =>
    rcases perform_of_class hholds hkey with ⟨error, herror⟩ | ⟨registry, hregistry, hdone⟩
    · exact absurd herror (hkept error)
    refine ⟨cls, hscene ▸ hkey, Classical.byContradiction fun hneither => hchanged ?_⟩
    rw [not_or] at hneither
    rw [hdone] at hholds' ⊢
    rw [hholds'.unique hregistry] at hneither
    have hsame : σ.registry.resolve node.nodeClass.order =
        registry.resolve node.nodeClass.order := by
      rw [hholds.resolve, hregistry.resolve]
      exact bind_firstLive_update hneither.1 hneither.2
    rw [Scene.children, Scene.children, hsame]

/-- An adapter for objects and one for integers: truth values have that of the integers, which are
not registered twice, while truth values are not registered at all. -/
theorem registry_reflects_history_bases :
    let near := Adapter.scripted .none .kids .list
    let σ := (start .empty ⟨0, by decide⟩).afterCalls
      [.register (.tagged "object") .syntaxTree false, .register (.tagged "int") near false]
    Scene.empty.registeredClass? (.tagged "int") = some .integer ∧
      Scene.empty.registeredClass? (.tagged "bool") = some .truth ∧
      (σ.perform (.register (.tagged "int") (some near) false)).2 =
        refused (RegistryError.alreadyRegistered NodeClass.integer).report ∧
      (σ.perform (.register (.tagged "int") (some near) true)).2 = done ∧
      (σ.perform (.unregister (.tagged "bool"))).2 =
        refused (RegistryError.notRegistered NodeClass.truth).report ∧
      σ.registry.resolve NodeClass.truth.order = some near := by
  intro near σ
  obtain ⟨hscene, hgoesBy, -⟩ := registry_reflects_history .empty ⟨0, by decide⟩
    [.register (.tagged "object") .syntaxTree false, .register (.tagged "int") near false]
  have hint : σ.scene.registeredClass? (.tagged "int") = some .integer := by
    rw [hscene]
    decide +kernel
  have hbool : σ.scene.registeredClass? (.tagged "bool") = some .truth := by
    rw [hscene]
    decide +kernel
  refine ⟨hscene ▸ hint, hscene ▸ hbool, ?_, hgoesBy.overwrites _ _ near hint, ?_, ?_⟩
  · exact (hgoesBy.registers _ _ near hint).trans (if_pos (by decide +kernel))
  · exact (hgoesBy.unregisters _ _ hbool).trans (if_neg (Bool.eq_false_iff.1 (by decide +kernel)))
  · have hlive : firstLive (latestAdapter Scene.empty ((start .empty ⟨0, by decide⟩).recordCalls
        [.register (.tagged "object") .syntaxTree false, .register (.tagged "int") near false]))
        NodeClass.truth.order = some .integer := by decide +kernel
    have hlatest : latestAdapter Scene.empty ((start .empty ⟨0, by decide⟩).recordCalls
        ([.register (.tagged "object") .syntaxTree false] ++
          [.register (.tagged "int") near false])) .integer = some near := by
      rw [recordCalls_concat, latestAdapter_concat, recordedFor, if_pos (by decide +kernel)]
      rfl
    rw [hgoesBy.finds, hlive]
    exact hlatest

end Session

end GraphFold
