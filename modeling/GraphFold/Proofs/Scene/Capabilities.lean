/-
GraphFold.Proofs.Scene.Capabilities — which nodes can list their children, and
when a walk asks them to.

An adapter of the nearest registered class comes before what a node lists
itself, and a node with neither is not traversable. The lookup and the predicate
go by the same order (`Scene.LookupAgrees`). A walk looks the children of a node
up once for each call that is answered by going on, so it ends for want of them
exactly at the first such call of a node that is not traversable.

  §1 Registries — the nearest registered class.
  §2 Lookups    — `Scene.LookupAgrees`.
  §3 Walks      — the lookups of a walk, and where it ends for want of one.
  §4 Scenes     — `Scene.capabilities`.
-/
import GraphFold.OrderedMap.Lemmas
import GraphFold.Proofs.Scene.Faults
import GraphFold.Proofs.Walk.Coverage
import GraphFold.Scene.Reduction
import Mathlib.Data.List.Basic

namespace GraphFold

/-! ## §1 Registries -/

namespace Registry

variable {C F : Type} [DecidableEq C] {r : Registry C F}

/-- Every registered class has an adapter. -/
def Callable (r : Registry C F) : Prop := ∀ cls, r.find? cls ≠ some none

theorem find?_eq_none_of_contains {cls : C} (h : OrderedMap.contains r cls = false) :
    r.find? cls = none := by
  rw [OrderedMap.find?_eq_none_iff, ← OrderedMap.contains_iff, h]
  exact Bool.false_ne_true

theorem Callable.exists_adapter (hcallable : r.Callable) {cls : C}
    (h : OrderedMap.contains r cls = true) : ∃ adapter, r.find? cls = some (some adapter) := by
  match hfind : r.find? cls with
  | none =>
    exact absurd (OrderedMap.contains_iff.1 h) (OrderedMap.find?_eq_none_iff.1 hfind)
  | some none => exact absurd hfind (hcallable cls)
  | some (some adapter) => exact ⟨adapter, rfl⟩

/-- No class of the order is registered: nothing is found. -/
theorem resolve_eq_none {order : List C} (h : ∀ c ∈ order, OrderedMap.contains r c = false) :
    r.resolve order = none := by
  refine List.findSome?_eq_none_iff.2 fun c hc => ?_
  rw [find?_eq_none_of_contains (h c hc)]
  rfl

/-- What is found is the adapter of the nearest class that is registered. -/
theorem resolve_eq_some {before after : List C} {cls : C} {adapter : F}
    (hbefore : ∀ c ∈ before, OrderedMap.contains r c = false)
    (hfind : r.find? cls = some (some adapter)) :
    r.resolve (before ++ cls :: after) = some adapter := by
  have hnone : before.findSome? (fun cls => (r.find? cls).join) = none := resolve_eq_none hbefore
  rw [resolve, List.findSome?_append, hnone, List.findSome?_cons, hfind]
  rfl

theorem exists_find?_of_resolve {order : List C} {adapter : F}
    (h : r.resolve order = some adapter) :
    ∃ cls ∈ order, r.find? cls = some (some adapter) := by
  obtain ⟨cls, hcls, hjoin⟩ := List.exists_of_findSome?_eq_some h
  exact ⟨cls, hcls, Option.join_eq_some_iff.1 hjoin⟩

end Registry

/-! ## §2 Lookups -/

namespace Scene

variable {scene : Scene} {registry : ValueRegistry} {node : Value} {s : ValueState}

/-- Where no adapter is found, the attribute for children of the node decides: it is held, and a
function. -/
theorem isTraversable_of_unresolved (h : registry.resolve node.nodeClass.order = none) :
    isTraversable registry node =
      (node.childrenAttribute.isHeld && node.childrenAttribute.isCallable) := by
  rw [isTraversable, h]
  rfl

/-- The lookup of the children of a node under a state agrees with the predicate. -/
structure LookupAgrees (scene : Scene) (registry : ValueRegistry) (node : Value)
    (s : ValueState) : Prop where
  /-- The lookup fails for want of a way to list children exactly if there is none, unless this
  fault is one that the scene describes. -/
  incapable_iff : ¬ scene.Describes registry (.incapable node.className) → ∀ memory,
    (((scene.children registry node s).perform memory).1 = .error (.incapable node.className) ↔
      isTraversable registry node = false)
  /-- Then it does nothing else. -/
  incapable : isTraversable registry node = false →
    scene.children registry node s = throw (.incapable node.className)
  /-- The adapter of the nearest registered class decides, whatever the node lists itself. -/
  adapted : ∀ before cls after, node.nodeClass.order = before ++ cls :: after →
    (∀ c ∈ before, OrderedMap.contains registry c = false) →
    OrderedMap.contains registry cls = true →
    isTraversable registry node = true ∧ ∃ adapter, registry.find? cls = some (some adapter) ∧
      scene.children registry node s = scene.adapt node s adapter
  /-- If no class is registered, the node itself decides: it has to hold something in its attribute
  for children, and that has to be a function, which is called then. -/
  own : (∀ c ∈ node.nodeClass.order, OrderedMap.contains registry c = false) →
    (isTraversable registry node = true ↔
      node.childrenAttribute.isHeld = true ∧ node.childrenAttribute.isCallable = true) ∧
    (isTraversable registry node = true →
      scene.children registry node s = scene.ownChildren node s)

theorem children_of_not_isTraversable (h : isTraversable registry node = false) :
    scene.children registry node s = throw (.incapable node.className) := by
  unfold isTraversable at h
  unfold children
  cases hresolve : registry.resolve node.nodeClass.order with
  | some adapter =>
    rw [hresolve] at h
    cases h
  | none =>
    rw [hresolve] at h
    exact if_neg (Bool.eq_false_iff.1 h)

/-- The lookup of a node that is traversable does not fail for want of a way to list children. -/
theorem children_gives {cls : String} (h : ¬ scene.Describes registry (.incapable cls))
    (htraversable : isTraversable registry node = true) :
    (scene.children registry node s).Gives (.incapable cls) (Listing.Spares (.incapable cls)) := by
  unfold children
  split
  · rename_i adapter hresolve
    obtain ⟨_, _, hfind⟩ := Registry.exists_find?_of_resolve hresolve
    exact adapt_gives h hfind node s
  · rename_i hresolve
    rw [isTraversable_of_unresolved hresolve] at htraversable
    rw [if_pos htraversable]
    exact ownChildren_gives h node s

theorem lookupAgrees (scene : Scene) (hcallable : registry.Callable) (node : Value)
    (s : ValueState) : scene.LookupAgrees registry node s where
  incapable_iff h memory := by
    constructor
    · intro herror
      cases htraversable : isTraversable registry node with
      | false => rfl
      | true => exact absurd herror (children_gives h htraversable memory).1
    · intro hnot
      rw [children_of_not_isTraversable hnot]
      rfl
  incapable h := children_of_not_isTraversable h
  adapted before cls after horder hbefore hcontains := by
    obtain ⟨adapter, hfind⟩ := hcallable.exists_adapter hcontains
    have hresolve : registry.resolve node.nodeClass.order = some adapter :=
      horder ▸ Registry.resolve_eq_some hbefore hfind
    refine ⟨by rw [isTraversable, hresolve]; rfl, adapter, hfind, ?_⟩
    rw [children, hresolve]
  own hnone := by
    have hresolve := Registry.resolve_eq_none hnone
    rw [isTraversable_of_unresolved hresolve]
    refine ⟨Bool.and_eq_true_iff, fun hown => ?_⟩
    rw [children, hresolve]
    exact if_pos hown

end Scene

/-! ## §3 Walks -/

variable {N K S A V E W L : Type} [Ord K]

/-- The node whose children a call asks for: its own, if it was answered by going on from a
state. -/
def Call.asks? (call : Call N K S A V E) : Option N :=
  match call.answer with
  | .ok (.proceed _ (.ok _)) => some call.node
  | _ => none

theorem Call.asks?_eq_some {call : Call N K S A V E} {node : N} :
    call.asks? = some node ↔
      call.node = node ∧ ∃ value given, call.answer = .ok (.proceed value (.ok given)) := by
  unfold asks?
  constructor
  · intro h
    split at h
    · rename_i value given hanswer
      exact ⟨Option.some.inj h, value, given, hanswer⟩
    · cases h
  · rintro ⟨rfl, value, given, hanswer⟩
    rw [hanswer]

namespace Setting

variable {g : Setting N K S A V E W L} {c d last : Config N K S A V E W L}

/-- The nodes whose children a walk looks up are those its calls ask for, one by one. -/
theorem lookups_map_node (g : Setting N K S A V E W L) (budget : Nat) (root : N) (context : S)
    (value : A) (memory : W) (heard : L) :
    (g.reduce budget root context value memory heard).config.lookups.map Lookup.node =
      (g.reduce budget root context value memory heard).config.calls.filterMap Call.asks? := by
  have hfresh := fresh_reduce (g := g) budget root context value memory heard
  have hlookups := congrArg (List.map Prod.fst)
    (g.lookups_reduce budget root context value memory heard)
  rw [List.map_map, List.map_filterMap] at hlookups
  refine (Eq.trans rfl hlookups).trans (List.filterMap_congr fun call hcall => ?_)
  obtain ⟨key, hkey, _⟩ := hfresh call hcall
  rcases call with ⟨node, s, value, answer⟩
  simp only [lookup?, hkey, Call.asks?]
  rcases answer with e | ⟨_, _ | _⟩ | ⟨_, _⟩ | _ | _ <;> rfl

section Unable

variable {root : N} {context : S} {value : A} {memory : W} {heard : L} {budget : Nat}
  {call : Call N K S A V E} {e : E}

/-- A call that asks for children which cannot be looked up in any state ends the walk, before the
event of its node. -/
theorem step_of_unable (hmakes : g.Makes c call) (hasks : call.asks? = some call.node)
    (hunable : ∀ s, g.children call.node s = throw e) :
    ∃ s last, g.step c = .failed (.raised e) last ∧ last.calls = c.calls ++ [call] ∧
      last.lookups = c.lookups ++ [⟨call.node, s, none⟩] ∧ last.events = c.events := by
  obtain ⟨-, carried, given, hanswer⟩ := Call.asks?_eq_some.1 hasks
  obtain ⟨⟨hpending, hstate, hvalue, key, hkey, hseen⟩, hdepth, left, hcall⟩ := hmakes
  rw [hanswer] at hcall
  have hlookup : (g.children call.node ((given.mark key).withAncestors c.state.ancestors)).perform
      left = (.error e, left) := by
    rw [hunable]
    rfl
  refine ⟨(given.mark key).withAncestors c.state.ancestors, _, (step_of_pending hpending).trans
    (arrive_of_unlisted hkey hseen hdepth hcall hlookup), ?_⟩
  refine ⟨?_, by simp, rfl⟩
  rw [← hstate, ← hvalue, ← hanswer]
  simp

/-- So it is the last call of the walk. -/
theorem reduce_of_unable {i : Nat}
    (hi : (g.reduce budget root context value memory heard).config.calls[i]? = some call)
    (hasks : call.asks? = some call.node) (hunable : ∀ s, g.children call.node s = throw e) :
    ∃ n c s last, n < budget ∧ g.reduce n root context value memory heard = .unfinished c ∧
      g.CallsAt c call ∧
      c.calls = (g.reduce budget root context value memory heard).config.calls.take i ∧
      g.reduce budget root context value memory heard = .failed (.raised e) last ∧
      last.calls = c.calls ++ [call] ∧ last.lookups = c.lookups ++ [⟨call.node, s, none⟩] ∧
      last.events = c.events := by
  obtain ⟨n, c, hlt, hc, hmakes, hcalls, _⟩ := exists_makes rfl i call hi
  obtain ⟨s, last, hlast, hends⟩ := step_of_unable hmakes hasks hunable
  obtain ⟨k, rfl⟩ := Nat.exists_eq_add_of_lt hlt
  refine ⟨n, c, s, last, hlt, hc, hmakes.toCallsAt, hcalls, ?_, hends⟩
  rw [reduce, Nat.add_assoc, g.run_add_of_unfinished hc, g.run_succ_of_failed hlast]

/-- This error comes only from lookups, and those of certain nodes. -/
structure RaisedOnlyFor (g : Setting N K S A V E W L) (e : E) (blamed : N → Prop) : Prop where
  identity_ne : ∀ node, g.identity node ≠ .error e
  evaluator_spares : ∀ node s value, (g.evaluator node s value).Spares e
  blamed_of_lookup : ∀ node s memory,
    ((g.children node s).perform memory).1 = .error e → blamed node
  listing_spares : ∀ node s memory listing,
    ((g.children node s).perform memory).1 = .ok listing → listing.Spares e

variable {blamed : N → Prop}

theorem refusal?_ne_raised {node : N} {answer : Answer N K S A V} :
    g.refusal? node answer ≠ some (.raised e) := by
  unfold refusal?
  split <;> rcases answer with ⟨_, _ | _⟩ | ⟨_, _ | _⟩ | _ | _ <;> exact nofun

/-- Then nothing that is left of a listing fails with it. -/
theorem RaisedOnlyFor.framesAll_step (h : g.RaisedOnlyFor e blamed)
    (hc : FramesAll (Pulls.Spares e) c) (hstep : g.step c = .running d) :
    FramesAll (Pulls.Spares e) d := by
  refine hc.step hstep (fun pull later ending htop => ?_) fun node above pulls hpending hframes => ?_
  · exact ⟨fun other hother => htop.each other (List.mem_cons_of_mem _ hother), htop.ending⟩
  · obtain ⟨_, _, _, memory, _, _, _, _, hlookup, _⟩ := listed_of_opened hstep hpending hframes
    exact (h.listing_spares node _ memory (.ok pulls) (by rw [hlookup])).2 pulls rfl

/-- A step that fails with it has made a call that asks for the children of a node to blame. -/
theorem RaisedOnlyFor.exists_of_step (h : g.RaisedOnlyFor e blamed)
    (hc : FramesAll (Pulls.Spares e) c)
    (hstep : g.step c = .failed (.raised e) last) :
    ∃ call, last.calls = c.calls ++ [call] ∧ call.asks? = some call.node ∧ blamed call.node := by
  have hmove := g.move c
  rw [hstep] at hmove
  cases hmove with
  | handle node p hpending harrival =>
    cases harrival with
    | unkeyed _ hkey => exact absurd hkey (h.identity_ne node)
    | raised key _ memory hkey hseen hdepth hcall =>
      exact absurd (by rw [hcall]) (h.evaluator_spares node c.state c.value c.memory).1
    | refused key answer failure memory hkey hseen hdepth hcall hrefused =>
      exact absurd hrefused refusal?_ne_raised
    | unlisted key value given memory _ left hkey hseen hdepth hcall hlookup =>
      refine ⟨⟨node, c.state, c.value, .ok (.proceed value (.ok given))⟩, by simp, rfl, ?_⟩
      exact h.blamed_of_lookup node _ memory (by rw [hlookup])
    | notListed key value given memory _ left hkey hseen hdepth hcall hlookup =>
      exact absurd rfl (h.listing_spares node _ memory (.error e) (by rw [hlookup])).1
  | pullRaised above pull later ending outer _ memory hnone hframes hpull =>
    have hspares := (hc.top hframes).each pull (List.mem_cons_self ..)
    exact absurd (by rw [hpull]) (hspares c.memory).1
  | dropRaised above ending outer _ memory hnone hframes hending =>
    exact absurd (by rw [hending]) ((hc.top hframes).ending c.memory).1

/-- And so has a walk. -/
theorem RaisedOnlyFor.exists_of_reduce (h : g.RaisedOnlyFor e blamed)
    (hend : g.reduce budget root context value memory heard = .failed (.raised e) last) :
    ∃ earlier call, last.calls = earlier ++ [call] ∧ call.asks? = some call.node ∧
      blamed call.node := by
  obtain ⟨m, c, hm, hstep⟩ := g.exists_of_run_failed hend
  have hc := g.invariant_of_run
    (P := FramesAll (Pulls.Spares e))
    (fun _ _ hc hstep => h.framesAll_step hc hstep) (fun frame hframe => by cases hframe) hm
  exact ⟨c.calls, h.exists_of_step hc hstep⟩

end Unable

end Setting

/-! ## §4 Scenes -/

namespace Scene

variable {scene : Scene} {registry : ValueRegistry} {A : Type}

/-- In a walk over values this fault comes only from nodes that are not traversable, if neither the
scene nor the evaluator brings it up by itself. -/
theorem raisedOnlyFor {cls : String} (h : ¬ scene.Describes registry (.incapable cls))
    {evaluator : FoldOver A} (hspares : ∀ node s value,
      (evaluator node s value).Spares (.incapable cls))
    (limits : Limits) (listener : Option (Listener Value Heard)) :
    (scene.setting registry limits evaluator listener).RaisedOnlyFor (.incapable cls) fun node =>
      isTraversable registry node = false ∧ node.className = cls where
  identity_ne node := identity_ne_incapable h node
  evaluator_spares := hspares
  blamed_of_lookup node s memory herror := by
    cases htraversable : isTraversable registry node with
    | true => exact absurd herror (children_gives h htraversable memory).1
    | false =>
      refine ⟨rfl, ?_⟩
      have hthrow : (scene.children registry node s).perform memory =
          (.error (.incapable node.className), memory) := by
        rw [children_of_not_isTraversable htraversable]
        rfl
      dsimp only [setting] at herror
      rw [hthrow] at herror
      cases herror
      rfl
  listing_spares node s memory listing hlisting := by
    cases htraversable : isTraversable registry node with
    | true => exact (children_gives h htraversable memory).2 listing hlisting
    | false =>
      dsimp only [setting] at hlisting
      rw [children_of_not_isTraversable htraversable] at hlisting
      cases hlisting

/-- The lookup of the children of a node and the predicate on nodes agree, whichever adapters are
registered. A walk looks up the children of a node once for each call that is answered by going on,
and never else: not for nodes that were pruned or seen before or that gave the walk up. So a call of
a node that is not traversable, if it is answered by going on, is the last of the walk; the node was
new, its children are the last that were asked for, and there is no event of it. And a walk ends for
want of a way to list children only at such a call, unless the evaluator fails in this way or the
scene describes such a fault. -/
theorem capabilities (scene : Scene) (registry : ValueRegistry)
    (hcallable : Registry.Callable registry) :
    (∀ node s, scene.LookupAgrees registry node s) ∧
    ∀ (limits : Limits) (evaluator : FoldOver A) (listener : Option (Listener Value Heard))
      (budget : Nat) (start : Start A) (tracing : Bool) (o : ValueOutcome A),
      scene.reduce registry limits evaluator listener budget start tracing = o →
      o.config.lookups.map Lookup.node = o.config.calls.filterMap Call.asks? ∧
      (∀ i call, o.config.calls[i]? = some call → call.asks? = some call.node →
        isTraversable registry call.node = false →
        ∃ n c s last, n < budget ∧
          scene.reduce registry limits evaluator listener n start tracing = .unfinished c ∧
          (scene.setting registry limits evaluator listener).CallsAt c call ∧
          c.calls = o.config.calls.take i ∧
          o = .failed (.raised (.incapable call.node.className)) last ∧
          last.calls = c.calls ++ [call] ∧ last.lookups = c.lookups ++ [⟨call.node, s, none⟩] ∧
          last.events = c.events) ∧
      ∀ cls last, ¬ scene.Describes registry (.incapable cls) →
        (∀ node s value, (evaluator node s value).Spares (.incapable cls)) →
        o = .failed (.raised (.incapable cls)) last →
        ∃ earlier call, last.calls = earlier ++ [call] ∧ call.asks? = some call.node ∧
          isTraversable registry call.node = false ∧ call.node.className = cls := by
  refine ⟨fun node s => lookupAgrees scene hcallable node s, ?_⟩
  rintro limits evaluator listener budget start tracing o rfl
  refine ⟨Setting.lookups_map_node _ budget start.root start.context start.value
    (Memory.start tracing) Heard.nothing, fun i call hi hasks hnot => ?_, ?_⟩
  · exact Setting.reduce_of_unable hi hasks fun s => children_of_not_isTraversable hnot
  · exact fun cls last h hspares hend =>
      (raisedOnlyFor h hspares limits listener).exists_of_reduce hend

/-- A class that lacks an attribute for children, one below it, one whose objects list their
children, and one with a number in the place of a function. -/
def upperClass : ObjectClass := .ofName "Upper" []

def lowerClass : ObjectClass := .ofName "Lower" [upperClass]

def listingClass : ObjectClass := { ObjectClass.ofName "Listing" [] with children := .method }

def numberClass : ObjectClass := { ObjectClass.ofName "Number" [] with children := .number 7 }

/-- Only objects of the upper class have an adapter: it lists one that lists its children, and one
that holds a number. -/
def upperRegistry : ValueRegistry :=
  .singleton (.described upperClass) (some (.scripted .none (.fixed
    [.value (.object ⟨"a", listingClass, ""⟩), .value (.object ⟨"b", numberClass, ""⟩)]) .tuple))

theorem callable_upperRegistry : Registry.Callable upperRegistry := by
  intro cls
  by_cases h : NodeClass.described upperClass = cls <;>
    simp [upperRegistry, h]

/-- Leaves out the children of objects that list them, and goes on at all others. -/
def pruneListing : FoldOver Nat := fun node s count =>
  match node.childrenAttribute with
  | .method => pure (.prune (count + 1) (.ok s))
  | _ => pure (.proceed (count + 1) (.ok s))

/-- The adapter of the upper class is asked once, for an object of the lower one; the object that
lists its children is pruned and not asked; the other one ends the walk. -/
theorem upperRegistry_capabilities :
    Registry.Callable upperRegistry ∧
    (∀ s, empty.children upperRegistry (.object ⟨"c", lowerClass, ""⟩) s =
      empty.adapt (.object ⟨"c", lowerClass, ""⟩) s (.scripted .none
        (.fixed [.value (.object ⟨"a", listingClass, ""⟩), .value (.object ⟨"b", numberClass, ""⟩)])
        .tuple)) ∧
    ∃ (o : ValueOutcome Nat) (last : ValueConfig Nat),
      empty.reduce upperRegistry ⟨none, true⟩ pruneListing none 20
        ⟨.object ⟨"c", lowerClass, ""⟩, .plain .none, 0⟩ false = o ∧
      o = .failed (.raised (.incapable "Number")) last ∧
      o.config.calls.filterMap Call.asks? =
        [.object ⟨"c", lowerClass, ""⟩, .object ⟨"b", numberClass, ""⟩] ∧
      o.config.lookups.map Lookup.node =
        [.object ⟨"c", lowerClass, ""⟩, .object ⟨"b", numberClass, ""⟩] ∧
      o.config.events.map (fun e => e.kind) = [.descend, .prune] := by
  obtain ⟨hlookups, hwalks⟩ := capabilities (A := Nat) empty upperRegistry callable_upperRegistry
  refine ⟨callable_upperRegistry, fun s => ?_, ?_⟩
  · obtain ⟨_, adapter, hfind, hchildren⟩ := (hlookups (.object ⟨"c", lowerClass, ""⟩) s).adapted
      [.described lowerClass] (.described upperClass) [.any] rfl (by decide +kernel) rfl
    cases hfind
    exact hchildren
  · obtain ⟨hasked, -, -⟩ := hwalks ⟨none, true⟩ pruneListing none 20
      ⟨.object ⟨"c", lowerClass, ""⟩, .plain .none, 0⟩ false _ rfl
    exact ⟨_, _, rfl, rfl, rfl, hasked, rfl⟩

end Scene

end GraphFold
