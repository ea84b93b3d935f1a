/-
GraphFold.Proofs.Schema.TypeWalk — walks over the types of a schema.

With only syntax nodes registered, types and fields list their children
themselves, by the schema in the context. They are their own keys. So a walk
whose evaluator hands every state back is a walk over the type graph: it cannot
fail if every name it reaches resolves, and it comes to its end.

  §1 Nodes — keys and children of definitions.
  §2 Walks — `Evaluator.Steady`, `Scene.exists_typeWalk`.
-/
import GraphFold.Proofs.Schema.TypeGraph
import GraphFold.Proofs.Walk.BackEdges
import GraphFold.Proofs.Walk.Termination
import GraphFold.Scene.Reduction

namespace GraphFold

/-! ## §1 Nodes -/

/-- A definition is its own key. -/
theorem Scene.identity_of_isDefinition (scene : Scene) {v : Value} (hv : v.IsDefinition) :
    scene.identity v = .ok (.value v) := by
  cases v <;> cases hv <;> rfl

/-- No adapter is registered for definitions, which list their children themselves. -/
theorem Scene.children_of_isDefinition (scene : Scene) {v : Value} (hv : v.IsDefinition)
    (state : ValueState) : scene.children .standard v state = scene.ownChildren v state := by
  cases v <;> cases hv <;> exact scene.children_eq_own _ state rfl rfl

variable {A : Type} (scene : Scene) {s : Schema} {name root : String}

/-- The children of a node are those of the type graph, if every name that is reached resolves. -/
theorem Scene.perform_children (hs : s.WellNamed)
    (hresolves : ∀ a, s.Reaches root a → ∃ type, s.resolve a = .ok type) {v : Value}
    (hv : s.IsNode root v) {state : ValueState} (hcontext : state.context = .schema name s)
    (memory : Memory) :
    (scene.children .standard v state).perform memory =
      (.ok (.ok (.ofNodes (s.kids v))), memory) := by
  rw [scene.children_of_isDefinition (hv.isDefinition hs)]
  rcases hv.cases with ⟨f, rfl, hfield, hreach⟩ | ⟨a, _, ha⟩
  · obtain ⟨type, htype⟩ := hresolves _ (hreach.tail ⟨f, hfield, rfl, rfl⟩)
    have hkids : s.kids (.field f) = [type] := by simp only [Schema.kids, htype]
    simp only [ownChildren, hcontext, Context.resolveType, htype, hkids]
    rfl
  · rcases hs.resolve ha with rfl | ⟨fields, rfl⟩
    · rfl
    · rfl

/-! ## §2 Walks -/

/-- The evaluator answers about every node, and hands the state back as it was given. -/
def Evaluator.Steady (evaluator : FoldOver A) : Prop :=
  ∀ node state value memory, ∃ answer left,
    (evaluator node state value).perform memory = (.ok answer, left) ∧ answer.state? = some state

namespace Evaluator.Steady

variable {evaluator : FoldOver A}

theorem state?_eq (h : evaluator.Steady) {node : Value} {state given : ValueState} {value : A}
    {memory left : Memory} {answer : Answer Value Key Context A Value}
    (hcall : (evaluator node state value).perform memory = (.ok answer, left))
    (hgiven : answer.state? = some given) : given = state := by
  obtain ⟨answer', left', hanswer, hstate⟩ := h node state value memory
  rw [hcall] at hanswer
  cases hanswer
  rw [hgiven] at hstate
  exact Option.some.inj hstate

theorem keepsSeen (h : evaluator.Steady) : evaluator.KeepsSeen := by
  intro node state value memory answer left given hcall hgiven key hkey
  rw [h.state?_eq hcall hgiven]
  exact hkey

theorem addsNone (h : evaluator.Steady) : evaluator.AddsNone := by
  intro node state value memory answer left given hcall hgiven key hkey
  rw [h.state?_eq hcall hgiven] at hkey
  exact hkey

end Evaluator.Steady

variable {evaluator : FoldOver A} {limits : Limits} {listener : Option (Listener Value Heard)}

/-- The walk leaves the seen set alone, and definitions are told apart. -/
theorem Scene.plain (hs : s.WellNamed)
    (hresolves : ∀ a, s.Reaches root a → ∃ type, s.resolve a = .ok type)
    (hsteady : evaluator.Steady) :
    (scene.setting .standard limits evaluator listener).Plain (· = .schema name s)
      (s.IsNode root) s.kids where
  lists := by
    refine ⟨?_, fun v w hv hw => hv.of_mem_kids hs hw, ?_⟩
    · intro v state memory pulls left hv hcontext h
      have hchildren := scene.perform_children hs hresolves hv hcontext memory
      rw [show (scene.setting .standard limits evaluator listener).children v state =
        scene.children .standard v state from rfl, hchildren] at h
      cases h
      exact forall₂_yields_ofNodes (s.kids v)
    · intro v state value memory answer left given hcall hgiven hcontext
      rw [hsteady.state?_eq hcall hgiven]
      exact hcontext
  keeps := hsteady.keepsSeen
  adds := hsteady.addsNone
  keyed := by
    intro v w hv hw hsame
    obtain ⟨kv, kw, hkv, hkw, heq⟩ := hsame
    have hv' := hv.isDefinition hs
    have hw' := hw.isDefinition hs
    have hkv' : scene.identity v = .ok kv := hkv
    have hkw' : scene.identity w = .ok kw := hkw
    rw [scene.identity_of_isDefinition hv'] at hkv'
    rw [scene.identity_of_isDefinition hw'] at hkw'
    cases hkv'
    cases hkw'
    exact Value.eq_of_code_eq hv' hw' (Key.compare_eq_iff.1 heq)

/-- The walk cannot fail without a limit. -/
theorem Scene.total (hs : s.WellNamed)
    (hresolves : ∀ a, s.Reaches root a → ∃ type, s.resolve a = .ok type)
    (hsteady : evaluator.Steady) (hlimit : limits.maxDepth = none) :
    (scene.setting .standard limits evaluator listener).Total (· = .schema name s)
      (s.IsNode root) where
  identity v hv := ⟨_, scene.identity_of_isDefinition (hv.isDefinition hs)⟩
  limit := hlimit
  answers v state value memory _ hcontext := by
    obtain ⟨answer, left, hcall, hstate⟩ := hsteady v state value memory
    exact ⟨answer, left, state, hcall, hstate, hcontext⟩
  lookup v state memory hv hcontext := by
    exact ⟨_, _, scene.perform_children hs hresolves hv hcontext memory,
      Setting.delivers_ofNodes (s.kids v)⟩

/-- A walk over the types that are reached from a type comes to its end. -/
theorem Scene.exists_reduce_finished (hs : s.WellNamed)
    (hresolves : ∀ a, s.Reaches root a → ∃ type, s.resolve a = .ok type)
    (hsteady : evaluator.Steady) (hlimit : limits.maxDepth = none) {type : Value}
    (htype : s.resolve root = .ok type) (value : A) (memory : Memory) (heard : Heard) :
    ∃ n c, ∀ budget, n ≤ budget →
      (scene.setting .standard limits evaluator listener).reduce budget type (.schema name s) value
        memory heard = .finished c := by
  refine Setting.exists_reduce_finished (scene.plain hs hresolves hsteady).lists
    (scene.total hs hresolves hsteady hlimit) hsteady.keepsSeen (s.definitions.map .value) ?_
    (hs.isNode .refl htype) rfl value memory heard
  intro v own hv hown
  have hown' : scene.identity v = .ok own := hown
  rw [scene.identity_of_isDefinition (hv.isDefinition hs)] at hown'
  cases hown'
  exact ⟨_, List.mem_map_of_mem hv.mem_definitions, Std.ReflCmp.compare_self⟩

end GraphFold
