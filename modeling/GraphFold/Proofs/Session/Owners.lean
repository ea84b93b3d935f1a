/-
GraphFold.Proofs.Session.Owners — in a session everything that is made has a serial
number of its own.

Places are told apart by the serial numbers of their owners. These stand for the
owners only if no two trees or graphs share one. A step of a session leaves the
things that are named, makes one more with the next number, or gives a state
another name (`Scene.Grows`); so all numbers are below the count, and nothing but a
state goes by two names (`Scene.Numbered`).

  §1 Numbers — `Scene.Numbered`.
  §2 Growth  — what a step may do to a scene, and that it keeps the numbering.
  §3 Steps   — every step of a session lets its scene grow.
  §4 Runs    — `Session.after`, `Session.numbered_after`.
-/
import GraphFold.Session
import Std.Data.HashMap.Lemmas

namespace GraphFold

/-! ## §1 Numbers -/

namespace Artefact

/-- The serial number of a named thing. -/
def serial : Artefact → Nat
  | tree o => o.serial
  | graph o => o.serial
  | schema o => o.serial
  | state o => o.serial

/-- What kind of places a named thing owns. -/
def placeKind? : Artefact → Option PlaceKind
  | tree _ => some .tree
  | graph _ => some .graph
  | schema _ | state _ => none

end Artefact

namespace Scene

/-- All things named have numbers below the next one, and an owner of places shares its number with
nothing that goes by another name. -/
structure Numbered (scene : Scene) : Prop where
  lt_owners : ∀ (name : String) (a : Artefact), scene.artefacts[name]? = some a →
    a.serial < scene.owners
  name_eq : ∀ (name other : String) (a b : Artefact), scene.artefacts[name]? = some a →
    scene.artefacts[other]? = some b → a.placeKind?.isSome = true → a.serial = b.serial →
    name = other

theorem numbered_of_unnamed {scene : Scene}
    (h : ∀ name : String, scene.artefacts[name]? = none) :
    scene.Numbered where
  lt_owners name a ha := by rw [h] at ha; cases ha
  name_eq name other a b ha := by rw [h] at ha; cases ha

/-! ## §2 Growth -/

/-- What a step may do to a scene. -/
inductive Grows (scene : Scene) : Scene → Prop
  | unchanged : Grows scene scene
  /-- Something with the next number is named. -/
  | adds (name : String) (a : Artefact) (h : a.serial = scene.owners) :
    Grows scene { scene.bind name a with owners := scene.owners + 1 }
  /-- A state that has a name gets another. -/
  | renames {name : String} {s : Owner ValueState}
    (h : scene.artefacts[name]? = some (.state s)) (other : String) :
    Grows scene (scene.bind other (.state { s with name := other }))

theorem artefact_bind (scene : Scene) (name other : String) (a : Artefact) :
    (scene.bind name a).artefacts[other]? =
      if name = other then some a else scene.artefacts[other]? := by
  simp [bind, Std.HashMap.getElem?_insert]

theorem Numbered.adds {scene : Scene} (h : scene.Numbered) (name : String) {a : Artefact}
    (ha : a.serial = scene.owners) :
    Numbered { scene.bind name a with owners := scene.owners + 1 } where
  lt_owners other b hb := by
    rw [artefact_bind] at hb
    split at hb
    · cases hb
      exact ha ▸ Nat.lt_succ_self _
    · exact Nat.lt_succ_of_lt (h.lt_owners other b hb)
  name_eq first second b c hb hc hplaces hserial := by
    rw [artefact_bind] at hb hc
    split at hb <;> split at hc
    · rename_i hfirst hsecond
      rw [← hfirst, ← hsecond]
    · cases hb
      exact absurd (hserial.symm.trans ha) (Nat.ne_of_lt (h.lt_owners _ _ hc))
    · cases hc
      exact absurd (hserial.trans ha) (Nat.ne_of_lt (h.lt_owners _ _ hb))
    · exact h.name_eq first second b c hb hc hplaces hserial

theorem Numbered.renames {scene : Scene} (h : scene.Numbered) {name : String}
    {s : Owner ValueState} (hs : scene.artefacts[name]? = some (.state s)) (other : String) :
    Numbered (scene.bind other (.state { s with name := other })) where
  lt_owners third b hb := by
    rw [artefact_bind] at hb
    split at hb
    · cases hb
      exact h.lt_owners name (.state s) hs
    · exact h.lt_owners third b hb
  name_eq first second b c hb hc hplaces hserial := by
    rw [artefact_bind] at hb hc
    split at hb
    · cases hb
      cases hplaces
    · split at hc
      · cases hc
        -- The number is that of the state, so the owner would be the state.
        obtain rfl := h.name_eq first name b _ hb hs hplaces hserial
        rw [hs] at hb
        cases hb
        cases hplaces
      · exact h.name_eq first second b c hb hc hplaces hserial

theorem Numbered.grows {scene next : Scene} (h : scene.Numbered) (hnext : scene.Grows next) :
    next.Numbered := by
  cases hnext with
  | unchanged => exact h
  | adds name a ha => exact h.adds name ha
  | renames hs other => exact h.renames hs other

end Scene

/-! ## §3 Steps -/

namespace Session

/-- Whatever session comes of this, its scene has grown from that of the first one. -/
def GrowsTo (σ : Session) (r : Reported (Session × Reply)) : Prop :=
  ∀ next reply, r = .ok (next, reply) → σ.scene.Grows next.scene

variable {σ : Session}

theorem growsTo_unchanged (reply : Reply) : σ.GrowsTo (.ok (σ, reply)) := by
  intro next reply' h
  cases h
  exact .unchanged

theorem growsTo_throw (e : ErrorReport) : σ.GrowsTo (throw e) := nofun

theorem growsTo_bind {α : Type} {r : Reported α} {f : α → Reported (Session × Reply)}
    (h : ∀ a, r = .ok a → σ.GrowsTo (f a)) : σ.GrowsTo (r >>= f) := by
  intro next reply hnext
  cases r with
  | error e => cases hnext
  | ok a => exact h a rfl next reply hnext

theorem growsTo_add {α : Type} (kind : Owner α → Artefact)
    (hkind : ∀ o, (kind o).serial = o.serial) (name : String) (content : α) (reply : Reply) :
    σ.GrowsTo (.ok (σ.add kind name content, reply)) := by
  intro next reply' h
  cases h
  exact .adds name _ (hkind _)

theorem growsTo_keep (name : String) (s : ValueState) : σ.GrowsTo (.ok (σ.keep name s)) :=
  growsTo_add .state (fun _ => rfl) name s _

theorem growsTo_keepMarked (name : String) {s : Owner ValueState} {source : String}
    (hs : σ.scene.artefacts[source]? = some (.state s)) (node : Value) :
    σ.GrowsTo (σ.keepMarked name s node) := by
  refine growsTo_bind fun seen _ => ?_
  cases seen with
  | false => exact growsTo_bind fun marked _ => growsTo_keep name marked
  | true =>
    intro next reply h
    cases h
    exact .renames hs name

theorem growsTo_keepSchema (name : String) (s : Schema) : σ.GrowsTo (σ.keepSchema name s) :=
  growsTo_bind fun _ _ => growsTo_add .schema (fun _ => rfl) name s _

/-- A state is read by its name. -/
theorem artefact_of_ownedState {name : String} {s : Owner ValueState}
    (h : σ.ownedState name = .ok s) : σ.scene.artefacts[name]? = some (.state s) := by
  unfold ownedState orFault Scene.state Scene.artefact at h
  cases ha : σ.scene.artefacts[name]? with
  | none => rw [ha] at h; cases h
  | some a =>
    rw [ha] at h
    cases a <;> cases h
    rfl

theorem scene_of_withRegistry {r : Except (RegistryError NodeClass) ValueRegistry}
    {next : Session} (h : σ.withRegistry r = .ok next) : next.scene = σ.scene := by
  cases r <;> cases h
  rfl

theorem scene_of_register {key : RegistrationKey} {adapter : Option Adapter} {overwrite : Bool}
    {next : Session} (h : σ.register key adapter overwrite = .ok next) :
    next.scene = σ.scene := by
  unfold register at h
  cases hread : registrant σ.scene key with
  | error e => rw [hread] at h; cases h
  | ok x =>
    simp only [hread, Bind.bind, Except.bind] at h
    cases hclass : x.class? with
    | none => rw [hclass] at h; cases h
    | some c => rw [hclass] at h; exact scene_of_withRegistry h

theorem scene_of_unregister {key : RegistrationKey} {next : Session}
    (h : σ.unregister key = .ok next) : next.scene = σ.scene := by
  unfold unregister at h
  cases hread : registrant σ.scene key with
  | error e => rw [hread] at h; cases h
  | ok x =>
    simp only [hread, Bind.bind, Except.bind] at h
    split at h
    · split at h
      · cases h
      · cases hname : orFault (σ.scene.attributeOf _ "__qualname__") <;> rw [hname] at h <;> cases h
    case h_5 => exact scene_of_withRegistry h
    all_goals cases h

theorem growsTo_of_scene_eq {next : Session} (h : next.scene = σ.scene) (reply : Reply) :
    σ.GrowsTo (.ok (next, reply)) := by
  intro other reply' hother
  cases hother
  rw [h]
  exact .unchanged

/-- A step that is not a walk lets the scene grow. -/
theorem growsTo_carryOut (step : Step) : σ.GrowsTo (σ.carryOut step) := by
  cases step with
  | mark source node name =>
    refine growsTo_bind fun s hs => growsTo_bind fun v _ => ?_
    exact growsTo_keepMarked name (artefact_of_ownedState hs) v
  | newState c name => exact growsTo_bind fun _ _ => growsTo_keep name _
  | push source node name | withPath source nodes name | withContext source c name
  | withAncestors source other name =>
    exact growsTo_bind fun _ _ => growsTo_bind fun _ _ => growsTo_keep name _
  | tree source name | graph source name =>
    exact growsTo_bind fun _ _ => growsTo_add _ (fun _ => rfl) name _ _
  | collectTypes types name => exact growsTo_bind fun _ _ => growsTo_keepSchema name _
  | defineSchema objects scalars name =>
    simp only [carryOut]
    split
    · exact growsTo_keepSchema name _
    · exact growsTo_throw _
  | register key adapter overwrite =>
    exact growsTo_bind fun _ h => growsTo_of_scene_eq (scene_of_register h) _
  | unregister key => exact growsTo_bind fun _ h => growsTo_of_scene_eq (scene_of_unregister h) _
  | children node under =>
    cases under with
    | named name =>
      refine growsTo_bind fun _ _ => growsTo_bind fun _ _ => growsTo_bind fun _ _ => ?_
      exact growsTo_unchanged _
    | fresh c =>
      refine growsTo_bind fun _ _ => growsTo_bind fun _ _ => growsTo_bind fun _ _ => ?_
      exact growsTo_bind fun _ _ => growsTo_unchanged _
  | parse source =>
    simp only [carryOut]
    split
    · split
      · exact growsTo_throw _
      · exact growsTo_unchanged _
    · exact growsTo_throw _
  | asIndex x =>
    simp only [carryOut]
    split
    · exact growsTo_unchanged _
    · exact growsTo_throw _
  | _ =>
    -- The others report on the session and leave it as it is.
    repeat (first
      | exact growsTo_unchanged _
      | exact growsTo_throw _
      | refine growsTo_bind fun _ _ => ?_
      | split)

/-- A step lets the scene of a session grow. -/
theorem grows_perform (σ : Session) (step : Step) : σ.scene.Grows (σ.perform step).1.scene := by
  unfold perform
  split
  · exact .unchanged
  · exact .unchanged
  · split
    · rename_i next reply h
      exact growsTo_carryOut step next reply h
    · exact .unchanged

/-! ## §4 Runs -/

/-- The session after some steps. -/
def after (σ : Session) (steps : List Step) : Session :=
  steps.foldl (fun σ step => (σ.perform step).1) σ

/-- Whatever the steps, everything made in a session has a number of its own. -/
theorem numbered_after {σ : Session} (h : σ.scene.Numbered) (steps : List Step) :
    (σ.after steps).scene.Numbered := by
  induction steps generalizing σ with
  | nil => exact h
  | cons step later ih => exact ih (h.grows (σ.grows_perform step))

end Session

end GraphFold
