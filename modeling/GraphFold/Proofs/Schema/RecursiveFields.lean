/-
GraphFold.Proofs.Schema.RecursiveFields — the fields that close cycles.

The walk that collects recursive fields is pruned at a field whose type is among
its ancestors, so no opened node has a child on its own path. What is left when
these fields are deleted has no cycle; and each of them is on one, for a type
among the ancestors of a field leads to the owner of the field.

  §1 Answers — what the evaluator does at a node.
  §2 Fields  — `Config.appendedFields`, and their order.
  §3 Paths   — no opened node has a child on its path.
  §4 Cycles  — `Scene.recursiveFields_feedback`.
-/
import GraphFold.Proofs.Schema.TypeWalk
import GraphFold.Schema.Analysis
import Mathlib.Data.List.Basic

namespace GraphFold

open Schema (mem_kids_field mem_kids_objectType)

/-! ## §1 Answers -/

/-- The name of a field, with its owner. -/
def FieldDefinition.qualifiedName (f : FieldDefinition) : String := f.owner ++ "." ++ f.name

theorem mem_enclosingTypes {state : ValueState} {name : String} :
    name ∈ enclosingTypes state ↔ ∃ t, .objectType t ∈ state.ancestors ∧ t.name = name := by
  unfold enclosingTypes
  rw [List.mem_filterMap]
  constructor
  · rintro ⟨v, hv, hname⟩
    cases v <;> cases hname
    exact ⟨_, hv, rfl⟩
  · rintro ⟨t, ht, rfl⟩
    exact ⟨_, ht, rfl⟩

/-- At a field whose type encloses it the evaluator appends the name of the field and leaves its
type out; anywhere else it goes on with what it was handed. -/
theorem collectRecursive_cases (node : Value) (state : ValueState) (found : List String)
    (memory : Memory) :
    (∃ f, node = .field f ∧ f.typeName ∈ enclosingTypes state ∧
      (collectRecursive node state found).perform memory =
        (.ok (.prune (found ++ [f.qualifiedName]) (.ok state)), memory)) ∨
    ((∀ f, node = .field f → f.typeName ∉ enclosingTypes state) ∧
      (collectRecursive node state found).perform memory =
        (.ok (.proceed found (.ok state)), memory)) := by
  cases node with
  | field f =>
    by_cases hmem : f.typeName ∈ enclosingTypes state
    · refine .inl ⟨f, rfl, hmem, ?_⟩
      simp only [collectRecursive, List.contains_iff_mem, hmem, if_true]
      rfl
    · refine .inr ⟨fun f' hf' => by cases hf'; exact hmem, ?_⟩
      simp only [collectRecursive, List.contains_iff_mem, hmem, if_false]
      rfl
  | _ => exact .inr ⟨fun f hf => Value.noConfusion hf, rfl⟩

theorem steady_collectRecursive : Evaluator.Steady collectRecursive := by
  intro node state found memory
  rcases collectRecursive_cases node state found memory with ⟨f, _, _, h⟩ | ⟨_, h⟩
  · exact ⟨_, _, h, rfl⟩
  · exact ⟨_, _, h, rfl⟩

/-! ## §2 Fields -/

/-- The field a value is, if it is one. -/
def Value.field? : Value → Option FieldDefinition
  | .field f => some f
  | _ => Option.none

@[simp] theorem Value.field?_eq_some {v : Value} {f : FieldDefinition} :
    v.field? = some f ↔ v = .field f := by
  cases v <;> simp [field?]

/-- One call of an evaluator that collects names. -/
abbrev NameCall : Type := Call Value Key Context (List String) Value Fault

/-- The field a call was about, if its answer carries another value than it was handed. -/
def Call.appended? (call : NameCall) : Option FieldDefinition :=
  if call.answer.toOption.bind Answer.value? = some call.value then none else call.node.field?

/-- The fields at which a walk appended to its value, the first one first. -/
def Config.appendedFields (c : ValueConfig (List String)) : List FieldDefinition :=
  c.calls.filterMap Call.appended?

/-- The fields a walk arrived at, the first one first. -/
def Config.arrivedFields (c : ValueConfig (List String)) : List FieldDefinition :=
  c.arrivals.filterMap Value.field?

theorem Config.appendedFields_of_calls {c d : ValueConfig (List String)} {call : NameCall}
    (h : d.calls = c.calls ++ [call]) :
    d.appendedFields = c.appendedFields ++ call.appended?.toList := by
  rw [appendedFields, h, List.filterMap_append, appendedFields]
  cases hfield : call.appended? <;> simp [hfield]

theorem Call.node_of_appended? {call : NameCall} {f : FieldDefinition}
    (h : call.appended? = some f) : call.node = .field f := by
  unfold appended? at h
  split at h
  · cases h
  · exact Value.field?_eq_some.1 h

variable {g : Setting Value Key Context (List String) Value Fault Memory Heard}
  {c d : ValueConfig (List String)}

/-- A call of the evaluator appends and does not proceed, or proceeds and does not append. -/
theorem Call.appended?_cases (hg : g.evaluator = collectRecursive) {calls : List NameCall}
    (h : g.Answered calls) {call : NameCall} (hcall : call ∈ calls) :
    (∃ f, call.node = .field f ∧ f.typeName ∈ enclosingTypes call.state ∧
      call.appended? = some f ∧ ¬ call.Proceeds ∧
      call.answer.toOption.bind Answer.value? = some (call.value ++ [f.qualifiedName])) ∨
    ((∀ f, call.node = .field f → f.typeName ∉ enclosingTypes call.state) ∧
      call.appended? = none ∧ call.Proceeds ∧
      call.answer.toOption.bind Answer.value? = some call.value) := by
  obtain ⟨memory, left, hanswer⟩ := h call hcall
  obtain ⟨node, state, value, answer⟩ := call
  rw [hg] at hanswer
  rcases collectRecursive_cases node state value memory with ⟨f, rfl, hmem, h⟩ | ⟨hnot, h⟩
  · rw [h] at hanswer
    cases hanswer
    refine .inl ⟨f, rfl, hmem, ?_, ?_, rfl⟩
    · simp [appended?, Except.toOption, Answer.value?, Value.field?]
    · rintro ⟨_, _, heq⟩
      cases heq
  · rw [h] at hanswer
    cases hanswer
    exact .inr ⟨hnot, if_pos rfl, ⟨_, _, rfl⟩, rfl⟩

theorem mem_appendedFields (hg : g.evaluator = collectRecursive) (h : g.Answered c.calls)
    {f : FieldDefinition} :
    f ∈ c.appendedFields ↔
      ∃ call ∈ c.calls, call.node = .field f ∧ f.typeName ∈ enclosingTypes call.state := by
  rw [Config.appendedFields, List.mem_filterMap]
  constructor
  · rintro ⟨call, hcall, happended⟩
    rcases Call.appended?_cases hg h hcall with ⟨f', hnode, hmem, happended', _⟩ | ⟨_, hnone, _⟩
    · rw [happended'] at happended
      cases happended
      exact ⟨call, hcall, hnode, hmem⟩
    · rw [hnone] at happended
      cases happended
  · rintro ⟨call, hcall, hnode, hmem⟩
    rcases Call.appended?_cases hg h hcall with ⟨f', hnode', _, happended, _⟩ | ⟨hnot, _⟩
    · rw [hnode] at hnode'
      cases hnode'
      exact ⟨call, hcall, happended⟩
    · exact absurd hmem (hnot f hnode)

/-- The value is the names of the fields at which the walk appended. -/
theorem value_eq_appendedFields (hg : g.evaluator = collectRecursive) {n : Nat} {root : Value}
    {context : Context} {memory : Memory} {heard : Heard}
    (h : g.run n (.start root context [] memory heard) = .unfinished c) :
    g.Answered c.calls ∧ c.value = c.appendedFields.map FieldDefinition.qualifiedName := by
  refine g.invariant_of_run (P := fun c => g.Answered c.calls ∧
    c.value = c.appendedFields.map FieldDefinition.qualifiedName) ?_
    ⟨fun _ hcall => (by cases hcall), rfl⟩ h
  rintro c d ⟨hanswered, hvalue⟩ h
  have hanswered' := hanswered.step h
  refine ⟨hanswered', ?_⟩
  rcases Setting.value_of_step h with ⟨hcalls, hsame⟩ | ⟨node, answer, hcalls, hnext⟩
  · rw [hsame, hvalue, Config.appendedFields, Config.appendedFields, hcalls]
  · have hlast : (⟨node, c.state, c.value, .ok answer⟩ : NameCall) ∈ d.calls := by
      rw [hcalls]
      exact List.mem_append_right _ (List.mem_singleton_self _)
    rw [Config.appendedFields_of_calls hcalls]
    rcases Call.appended?_cases hg hanswered' hlast with
      ⟨f, _, _, happended, _, hval⟩ | ⟨_, hnone, _, hval⟩
    · have heq : d.value = c.value ++ [f.qualifiedName] :=
        Option.some.inj (hnext.symm.trans hval)
      rw [heq, happended, hvalue, Option.toList_some, List.map_append]
      rfl
    · have heq : d.value = c.value := Option.some.inj (hnext.symm.trans hval)
      rw [heq, hnone, hvalue, Option.toList_none, List.append_nil]

/-- The fields at which the walk appended come in the order in which it first arrived at them. -/
structure Ordered (g : Setting Value Key Context (List String) Value Fault Memory Heard)
    (c : ValueConfig (List String)) : Prop where
  seen : ∀ x ∈ c.arrivals, g.Seen c.state x
  arrived : ∀ f ∈ c.appendedFields, f ∈ c.arrivedFields
  pairwise : c.appendedFields.Pairwise fun a b =>
    c.arrivedFields.idxOf a < c.arrivedFields.idxOf b

/-- An order by first places stays one if the list goes on. -/
theorem pairwise_idxOf_append {α : Type} [DecidableEq α] {order later picked : List α}
    (hmem : ∀ a ∈ picked, a ∈ order)
    (h : picked.Pairwise fun a b => order.idxOf a < order.idxOf b) :
    picked.Pairwise fun a b => (order ++ later).idxOf a < (order ++ later).idxOf b := by
  refine h.imp_of_mem fun {a b} ha hb hab => ?_
  rw [List.idxOf_append_of_mem (hmem a ha), List.idxOf_append_of_mem (hmem b hb)]
  exact hab

/-- What comes last in the list may come last in an order by first places. -/
theorem pairwise_idxOf_concat {α : Type} [DecidableEq α] {order picked : List α} {x : α}
    (hmem : ∀ a ∈ picked, a ∈ order) (hx : x ∉ order)
    (h : picked.Pairwise fun a b => order.idxOf a < order.idxOf b) :
    (picked ++ [x]).Pairwise fun a b => (order ++ [x]).idxOf a < (order ++ [x]).idxOf b := by
  rw [List.pairwise_append]
  refine ⟨pairwise_idxOf_append hmem h, List.pairwise_singleton _ _, ?_⟩
  intro a ha b hb
  have hlt := List.idxOf_lt_length_of_mem (hmem a ha)
  rw [List.mem_singleton.1 hb, List.idxOf_append_of_mem (hmem a ha),
    List.idxOf_append_of_notMem hx]
  omega

/-- The walk arrives at a field that is called for the first time. -/
theorem Ordered.not_mem_of_called (hc : Ordered g c) {f : FieldDefinition} {key : Key}
    {answer : Answer Value Key Context (List String) Value} {given : ValueState}
    (hcalled : g.Called c d (.field f) key answer given) : f ∉ c.arrivedFields := by
  intro hmem
  obtain ⟨x, hx, hxf⟩ := List.mem_filterMap.1 hmem
  rw [Value.field?_eq_some.1 hxf] at hx
  obtain ⟨own, hown, hknown⟩ := hc.seen _ hx
  rw [hcalled.identity_eq] at hown
  cases hown
  rw [hcalled.unseen] at hknown
  cases hknown

theorem Ordered.step (hkeeps : g.evaluator.KeepsSeen) (hc : Ordered g c)
    (h : g.step c = .running d) : Ordered g d := by
  have harrivals := Setting.arrivals_of_step h
  have hseen : ∀ x ∈ d.arrivals, g.Seen d.state x := by
    intro x hx
    rw [harrivals] at hx
    rcases List.mem_append.1 hx with hold | hnew
    · exact (hc.seen x hold).step hkeeps h
    · exact (Setting.arrival_of_step (Option.mem_toList.1 hnew) h).seen
  have hfields : d.arrivedFields = c.arrivedFields ++ c.pending.toList.filterMap Value.field? := by
    rw [Config.arrivedFields, harrivals, List.filterMap_append, Config.arrivedFields]
  -- Arrivals alone do not matter.
  have hkept : d.appendedFields = c.appendedFields → Ordered g d := by
    intro hsame
    refine ⟨hseen, ?_, ?_⟩
    · intro f hf
      rw [hsame] at hf
      rw [hfields]
      exact List.mem_append_left _ (hc.arrived f hf)
    · rw [hsame, hfields]
      exact pairwise_idxOf_append hc.arrived hc.pairwise
  rcases Setting.called_of_step h with ⟨hcalls, _⟩ | ⟨node, key, answer, given, hcalled⟩
  · exact hkept (by rw [Config.appendedFields, hcalls, Config.appendedFields])
  · have happended := Config.appendedFields_of_calls hcalled.calls_eq
    cases hfield : Call.appended? ⟨node, c.state, c.value, .ok answer⟩ with
    | none =>
      rw [hfield, Option.toList_none, List.append_nil] at happended
      exact hkept happended
    | some f =>
      obtain rfl : node = .field f := Call.node_of_appended? hfield
      have hlast : d.arrivedFields = c.arrivedFields ++ [f] := by
        rw [hfields, hcalled.pending_eq]
        rfl
      rw [hfield, Option.toList_some] at happended
      refine ⟨hseen, ?_, ?_⟩
      · intro f' hf'
        rw [happended] at hf'
        rw [hlast]
        rcases List.mem_append.1 hf' with hold | hnew
        · exact List.mem_append_left _ (hc.arrived f' hold)
        · exact List.mem_append_right _ hnew
      · rw [happended, hlast]
        exact pairwise_idxOf_concat hc.arrived (hc.not_mem_of_called hcalled) hc.pairwise

theorem Ordered.of_run (hkeeps : g.evaluator.KeepsSeen) {n : Nat} {root : Value}
    {context : Context} {memory : Memory} {heard : Heard}
    (h : g.run n (.start root context [] memory heard) = .unfinished c) : Ordered g c :=
  g.invariant_of_run (fun _ _ hc h => hc.step hkeeps h)
    ⟨fun _ hx => (by cases hx), fun _ hf => (by cases hf), List.Pairwise.nil⟩ h

/-- No field is appended twice. -/
theorem Ordered.nodup (hc : Ordered g c) : c.appendedFields.Nodup :=
  hc.pairwise.imp fun hlt heq => by
    rw [heq] at hlt
    exact Nat.lt_irrefl _ hlt

/-! ## §3 Paths -/

/-- A walk that collects recursive fields, over the types that are reached from the type of this
name. -/
structure Collects (g : Setting Value Key Context (List String) Value Fault Memory Heard)
    (s : Schema) (name root : String) (type : Value) : Prop where
  wellNamed : s.WellNamed
  resolve_eq : s.resolve root = .ok type
  plain : g.Plain (· = .schema name s) (s.IsNode root) s.kids
  evaluator_eq : g.evaluator = collectRecursive

variable {s : Schema} {name root : String} {type : Value} {memory : Memory} {heard : Heard}

namespace Collects

theorem isNode (h : Collects g s name root type) : s.IsNode root type :=
  h.wellNamed.isNode .refl h.resolve_eq

/-- The path of a node that is called leads to it from the root, and is seen. -/
theorem trail_of_call (h : Collects g s name root type)
    (hc : g.GetsTo type (.schema name s) [] memory heard c) {call : NameCall}
    (hcall : call ∈ c.calls) :
    Trail s.kids type (call.node :: call.state.ancestors) ∧
      ∀ a ∈ call.state.ancestors, g.Seen call.state a :=
  (hc.traced h.plain h.isNode rfl).calls call hcall

theorem isNode_of_mem_path (h : Collects g s name root type)
    (hc : g.GetsTo type (.schema name s) [] memory heard c) {call : NameCall}
    (hcall : call ∈ c.calls) : ∀ v ∈ call.node :: call.state.ancestors, s.IsNode root v :=
  (h.trail_of_call hc hcall).1.forall_mem h.isNode fun _ _ hb hkid =>
    hb.of_mem_kids h.wellNamed hkid

/-- When a type is called, none of its fields is above it: above a field is its owner, which has
been seen. -/
theorem field_not_mem_ancestors (h : Collects g s name root type)
    (hc : g.GetsTo type (.schema name s) [] memory heard c) (hfresh : g.Fresh c.calls)
    {call : NameCall} (hcall : call ∈ c.calls) {f : FieldDefinition}
    (hf : .field f ∈ s.kids call.node) : .field f ∉ call.state.ancestors := by
  intro hmem
  obtain ⟨htrail, hseen⟩ := h.trail_of_call hc hcall
  have hnode := h.isNode_of_mem_path hc hcall
  rcases (htrail.tail hmem).eq_root_or_mem_kids hmem with heq | ⟨p, hp, hkid⟩
  · exact h.wellNamed.ne_field h.resolve_eq f heq.symm
  · have howner := (hnode _ (List.mem_cons_self ..)).resolve_owner h.wellNamed hf
    have hother := (hnode p (List.mem_cons_of_mem _ hp)).resolve_owner h.wellNamed hkid
    rw [howner] at hother
    cases hother
    obtain ⟨key, hkey, hnew⟩ := hfresh call hcall
    obtain ⟨key', hkey', hold⟩ := hseen _ hp
    rw [hkey] at hkey'
    cases hkey'
    rw [hnew] at hold
    cases hold

/-- A node that was opened has no child on its path. -/
theorem kid_not_mem_path (h : Collects g s name root type)
    (hc : g.GetsTo type (.schema name s) [] memory heard c) (hanswered : g.Answered c.calls)
    (hfresh : g.Fresh c.calls) {call : NameCall} (hcall : call ∈ c.calls)
    (hproceeds : call.Proceeds) : ∀ kid ∈ s.kids call.node,
      kid ∉ call.node :: call.state.ancestors := by
  intro kid hkid hmem
  have hnode := h.isNode_of_mem_path hc hcall _ (List.mem_cons_self ..)
  have htrail := (h.trail_of_call hc hcall).1
  have hnot : ∀ f, call.node = .field f → f.typeName ∉ enclosingTypes call.state := by
    rcases Call.appended?_cases h.evaluator_eq hanswered hcall with
      ⟨f, _, _, _, hpruned, _⟩ | ⟨hnot, _⟩
    · exact absurd hproceeds hpruned
    · exact hnot
  rcases hnode.cases with ⟨f, hf, hfield, _⟩ | ⟨a, _, ha⟩
  · -- The type of a field: an object type would enclose it, and a scalar type has no children.
    rw [hf] at hkid
    have htype := mem_kids_field.1 hkid
    rcases List.mem_cons.1 hmem with heq | habove
    · exact h.wellNamed.ne_field htype f (heq.trans hf)
    · rcases h.wellNamed.resolve htype with rfl | ⟨fields, rfl⟩
      · obtain ⟨_, hnone⟩ := htrail.exists_mem_kids _ habove
        cases hnone
      · exact hnot f hf (mem_enclosingTypes.2 ⟨_, habove, rfl⟩)
  · rcases h.wellNamed.resolve ha with heq | ⟨fields, heq⟩
    · rw [heq] at hkid
      cases hkid
    · have hkid' := hkid
      rw [heq] at hkid'
      obtain ⟨f, hf, rfl⟩ := mem_kids_objectType.1 hkid'
      rcases List.mem_cons.1 hmem with hsame | habove
      · exact h.wellNamed.ne_field ha f hsame.symm
      · exact h.field_not_mem_ancestors hc hfresh hcall hkid habove

end Collects

/-! ## §4 Cycles -/

/-- What is accessible is on no cycle. -/
theorem not_transGen_of_acc {α : Type} {r : α → α → Prop} {a : α} (h : Acc r a) :
    ¬ Relation.TransGen r a a := by
  have hclosed := h.transGen
  clear h
  induction hclosed with
  | intro a _ ih => exact fun hcycle => ih a hcycle hcycle

/-- The value is none of these fields. -/
def Value.Kept (cut : List FieldDefinition) (v : Value) : Prop := ∀ f, v = .field f → f ∉ cut

/-- What is well-founded between the definitions is so between the names of types. -/
theorem Schema.acc_of_below {s : Schema} {cut : List FieldDefinition} {v : Value}
    (h : Acc (Setting.Below s.kids (Value.Kept cut)) v) {a : String}
    (ha : s.resolve a = .ok v) : Acc (Function.swap (s.LeadsWithout cut)) a := by
  have hclosed := h.transGen
  clear h
  induction hclosed generalizing a with
  | intro v _ ih =>
    refine .intro _ fun b hb => ?_
    obtain ⟨f, ⟨t, ht, hf⟩, hkept, rfl, rfl⟩ := hb
    rw [ha] at ht
    cases ht
    cases htype : s.resolve f.typeName with
    | error e =>
      refine .intro _ fun b hb => ?_
      obtain ⟨f', ⟨t', ht', _⟩, _, howner, _⟩ := hb
      rw [howner, htype] at ht'
      cases ht'
    | ok w =>
      refine ih w ?_ htype
      refine .tail (b := .field f) (.single ⟨?_, mem_kids_field.2 htype⟩)
        ⟨?_, mem_kids_objectType.2 ⟨f, hf, rfl⟩⟩
      · intro f' hf'
        cases hf'
        exact hkept
      · intro f' hf'
        cases hf'

namespace Collects

/-- A field at which the walk appended is on a cycle: its type is above it. -/
theorem reaches_of_mem_appendedFields (h : Collects g s name root type)
    (hc : g.GetsTo type (.schema name s) [] memory heard c) (hanswered : g.Answered c.calls)
    {f : FieldDefinition} (hf : f ∈ c.appendedFields) :
    s.HasField f ∧ s.Reaches root f.owner ∧ s.Reaches f.typeName f.owner := by
  obtain ⟨call, hcall, hnode, hmem⟩ := (mem_appendedFields h.evaluator_eq hanswered).1 hf
  obtain ⟨t, ht, hname⟩ := mem_enclosingTypes.1 hmem
  have hpath := h.isNode_of_mem_path hc hcall
  have hfield : s.IsNode root (.field f) := by
    rw [← hnode]
    exact hpath _ (List.mem_cons_self ..)
  have habove := List.mem_cons_of_mem call.node ht
  have hreaches := ((hpath _ habove).reaches_of_reflTransGen h.wellNamed
    ((h.trail_of_call hc hcall).1.reaches _ habove)).2
  rw [hnode] at hreaches
  refine ⟨hfield.1, hfield.2, ?_⟩
  rw [← hname]
  exact hreaches

/-- At the end of the walk every type that is reached has been called. If the field that leads to it
was left out, it is above that field. -/
theorem exists_call_of_reaches (h : Collects g s name root type)
    (hc : g.GetsTo type (.schema name s) [] memory heard c) (hanswered : g.Answered c.calls)
    (hpending : c.pending = none) (hframes : c.frames = []) {a : String} (ha : s.Reaches root a)
    {v : Value} (hv : s.resolve a = .ok v) : ∃ call ∈ c.calls, call.node = v := by
  obtain ⟨hroot, hcovered⟩ := hc.met h.plain h.isNode rfl
  have hcalled : ∀ x, s.IsNode root x → g.Seen c.state x → ∃ call ∈ c.calls, call.node = x :=
    fun x hx hseen => hc.exists_call h.plain h.isNode rfl hx hseen
  induction ha generalizing v with
  | refl =>
    rw [h.resolve_eq] at hv
    cases hv
    exact hcalled _ h.isNode (hroot.seen hpending hframes)
  | @tail a b hreach hleads ih =>
    have hb : s.IsNode root v := h.wellNamed.isNode (hreach.tail hleads) hv
    obtain ⟨f, ⟨t, ht, hf⟩, rfl, rfl⟩ := hleads
    obtain ⟨call, hcall, hnode⟩ := ih ht
    have hkid : .field f ∈ s.kids call.node := by
      rw [hnode]
      exact mem_kids_objectType.2 ⟨f, hf, rfl⟩
    have hproceeds : call.Proceeds := by
      rcases Call.appended?_cases h.evaluator_eq hanswered hcall with
        ⟨f', hfield, _⟩ | ⟨_, _, hproceeds, _⟩
      · exact absurd (hnode.symm.trans hfield) (h.wellNamed.ne_field ht f')
      · exact hproceeds
    obtain ⟨call', hcall', hnode'⟩ := hcalled (.field f) ⟨⟨t, ht, hf⟩, hreach⟩
      ((hcovered call hcall hproceeds _ hkid).seen hpending hframes)
    rcases Call.appended?_cases h.evaluator_eq hanswered hcall' with
      ⟨f', hfield, hmem, _⟩ | ⟨_, _, hproceeds', _⟩
    · rw [hnode'] at hfield
      cases hfield
      obtain ⟨t', ht', hname⟩ := mem_enclosingTypes.1 hmem
      have hsame : v = .objectType t' := by
        obtain ⟨a', _, ha'⟩ := h.isNode_of_mem_path hc hcall' _ (List.mem_cons_of_mem _ ht')
        rw [← hname, (h.wellNamed.objectType ha').1, ha'] at hv
        cases hv
        rfl
      refine hcalled v hb ?_
      rw [hsame]
      exact hc.seen_of_call h.plain hcall' ((h.trail_of_call hc hcall').2 _ ht')
    · refine hcalled v hb ((hcovered call' hcall' hproceeds' v ?_).seen hpending hframes)
      rw [hnode']
      exact mem_kids_field.2 hv

/-- Without the fields at which the walk appended there is no cycle among the types that are
reached. -/
theorem not_transGen_leadsWithout (h : Collects g s name root type) {budget : Nat}
    (hrun : g.reduce budget type (.schema name s) [] memory heard = .finished c)
    (hresolves : ∀ a, s.Reaches root a → ∃ type, s.resolve a = .ok type) {a : String}
    (ha : s.Reaches root a) :
    ¬ Relation.TransGen (s.LeadsWithout c.appendedFields) a a := by
  obtain ⟨n, hn, hpending, hframes⟩ := g.exists_of_run_finished hrun
  have hc : g.GetsTo type (.schema name s) [] memory heard c := ⟨n, hn⟩
  obtain ⟨hanswered, _⟩ := value_eq_appendedFields h.evaluator_eq hn
  have hfresh : g.Fresh c.calls := by
    have := g.fresh_reduce budget type (.schema name s) [] memory heard
    rw [hrun] at this
    exact this
  have hback : Setting.NoBackEdge s.kids (Value.Kept c.appendedFields) c.calls := by
    refine ⟨fun call hcall hproceeds => h.kid_not_mem_path hc hanswered hfresh hcall hproceeds, ?_⟩
    intro call hcall hpruned hkept
    rcases Call.appended?_cases h.evaluator_eq hanswered hcall with
      ⟨f, hnode, hmem, _⟩ | ⟨_, _, hproceeds, _⟩
    · exact hkept f hnode ((mem_appendedFields h.evaluator_eq hanswered).2
        ⟨call, hcall, hnode, hmem⟩)
    · exact hpruned hproceeds
  have hacc := Setting.acc_of_reduce_finished h.plain h.isNode rfl hrun hback
  obtain ⟨v, hv⟩ := hresolves a ha
  obtain ⟨call, hcall, rfl⟩ := h.exists_call_of_reaches hc hanswered hpending hframes ha hv
  rw [← Relation.transGen_swap]
  exact not_transGen_of_acc (Schema.acc_of_below (hacc call hcall) hv)

end Collects

/-- The result of collecting recursive fields is the list of the names of the fields at which the
walk appended, each field once, in the order in which the walk first arrived at them. They are
exactly a feedback set of the graph of the types that are reached: each of them is on a cycle, and
without them there is none. So the result is empty exactly if no type that is reached leads back to
itself. -/
theorem Scene.recursiveFields_feedback (scene : Scene) (name : String)
    (objects : OrderedMap String (OrderedMap String String)) (scalars : List String) (s : Schema)
    (root : String) (hs : Schema.ofDefinitions? objects scalars = .ok s)
    (hresolves : ∀ a, s.Reaches root a → ∃ type, s.resolve a = .ok type) :
    ∃ type n c, s.resolve root = .ok type ∧
      (∀ budget, n ≤ budget →
        scene.reduce .standard Policy.standard.limits collectRecursive none budget
          ⟨type, .schema name s, []⟩ false = .finished c ∧
        scene.recursiveFields ⟨.standard, .inForce none none, budget⟩ name s root =
          .ok (c.appendedFields.map FieldDefinition.qualifiedName)) ∧
      c.appendedFields.Nodup ∧
      (∀ f ∈ c.appendedFields, f ∈ c.arrivedFields) ∧
      (c.appendedFields.Pairwise fun a b =>
        c.arrivedFields.idxOf a < c.arrivedFields.idxOf b) ∧
      (∀ f ∈ c.appendedFields,
        s.HasField f ∧ s.Reaches root f.owner ∧ s.Reaches f.typeName f.owner) ∧
      (∀ a, s.Reaches root a → ¬ Relation.TransGen (s.LeadsWithout c.appendedFields) a a) ∧
      (c.appendedFields.map FieldDefinition.qualifiedName = [] ↔
        ∀ a, s.Reaches root a → ¬ Relation.TransGen s.Leads a a) := by
  obtain ⟨type, htype⟩ := hresolves root .refl
  have hnamed := Schema.wellNamed_of_ofDefinitions? hs
  have hends : ∃ n c, ∀ budget, n ≤ budget →
      scene.reduce .standard Policy.standard.limits collectRecursive none budget
        ⟨type, .schema name s, []⟩ false = .finished c :=
    scene.exists_reduce_finished hnamed hresolves steady_collectRecursive rfl htype _ _ _
  obtain ⟨n, c, hreduce⟩ := hends
  have hcollects : Collects (scene.setting .standard Policy.standard.limits collectRecursive none)
      s name root type :=
    ⟨hnamed, htype, scene.plain hnamed hresolves steady_collectRecursive, rfl⟩
  have hrun := hreduce n (Nat.le_refl n)
  obtain ⟨m, hm, hpending, hframes⟩ := Setting.exists_of_run_finished _ hrun
  obtain ⟨hanswered, hvalue⟩ := value_eq_appendedFields hcollects.evaluator_eq hm
  have hordered := Ordered.of_run hcollects.plain.keeps hm
  have hcycles := fun f hf => hcollects.reaches_of_mem_appendedFields ⟨m, hm⟩ hanswered (f := f) hf
  have hacyclic := fun a ha => hcollects.not_transGen_leadsWithout hrun hresolves (a := a) ha
  refine ⟨type, n, c, htype, ?_, hordered.nodup, hordered.arrived, hordered.pairwise, hcycles,
    hacyclic, ?_⟩
  · intro budget hle
    refine ⟨hreduce budget hle, ?_⟩
    unfold recursiveFields analyse
    rw [htype, ← hvalue]
    show scene.collected _ (scene.reduce .standard Policy.standard.limits collectRecursive none
      budget ⟨type, .schema name s, []⟩ false) = _
    rw [hreduce budget hle]
    rfl
  · rw [List.map_eq_nil_iff]
    constructor
    · intro hnone a ha hcycle
      refine hacyclic a ha (Relation.TransGen.mono ?_ a a hcycle)
      rintro _ _ ⟨f, hf, howner, htypeName⟩
      exact ⟨f, hf, by rw [hnone]; exact List.not_mem_nil, howner, htypeName⟩
    · intro hnone
      rw [List.eq_nil_iff_forall_not_mem]
      intro f hf
      obtain ⟨hfield, hreached, hback⟩ := hcycles f hf
      exact hnone f.owner hreached (.head' ⟨f, hfield, rfl, rfl⟩ hback)

/-- Users have friends and write posts, and posts have authors. Nothing leads to the last type. -/
def socialTypes : OrderedMap String (OrderedMap String String) :=
  .ofList [("Query", .ofList [("me", "User"), ("post", "Post")]),
    ("User", .ofList [("name", "String"), ("friends", "User"), ("posts", "Post")]),
    ("Post", .ofList [("title", "String"), ("author", "User")]),
    ("Orphan", .ofList [("id", "ID")])]

/-- The schema of these types. -/
def socialSchema : Schema :=
  ⟨.ofList ((Schema.standardScalars.map fun name => (name, .scalarType name)) ++
    socialTypes.entries.map fun (name, fields) => (name, .objectType (.ofFields name fields)))⟩

/-- Two fields lead back to a type above them, and without them there is no cycle. -/
theorem Scene.recursiveFields_feedback_social :
    Schema.ofDefinitions? socialTypes Schema.standardScalars = .ok socialSchema ∧
      (∀ a, socialSchema.Reaches "Query" a → ∃ type, socialSchema.resolve a = .ok type) ∧
      ∃ type c, socialSchema.resolve "Query" = .ok type ∧
        Scene.empty.reduce .standard Policy.standard.limits collectRecursive none 60
          ⟨type, .schema "" socialSchema, []⟩ false = .finished c ∧
        c.appendedFields.map FieldDefinition.qualifiedName = ["User.friends", "Post.author"] ∧
        ∀ a, socialSchema.Reaches "Query" a →
          ¬ Relation.TransGen (socialSchema.LeadsWithout c.appendedFields) a a := by
  have hschema : Schema.ofDefinitions? socialTypes Schema.standardScalars = .ok socialSchema := rfl
  have hresolves := socialSchema.exists_resolve_of_closes ["Query", "User", "Post", "String"]
    (by decide +kernel) (List.mem_cons_self ..)
  obtain ⟨type, n, c, htype, hends, _, _, _, _, hacyclic, _⟩ :=
    recursiveFields_feedback Scene.empty "" socialTypes Schema.standardScalars socialSchema "Query"
      hschema hresolves
  obtain rfl := Except.ok.inj htype
  have hevaluated : ∃ d,
      Scene.empty.reduce .standard Policy.standard.limits collectRecursive none 60
        ⟨.objectType (.ofFields "Query" (.ofList [("me", "User"), ("post", "Post")])),
          .schema "" socialSchema, []⟩ false = .finished d ∧
      d.appendedFields.map FieldDefinition.qualifiedName = ["User.friends", "Post.author"] :=
    ⟨_, rfl, rfl⟩
  obtain ⟨d, hd, hfields⟩ := hevaluated
  cases (Scene.empty.setting .standard Policy.standard.limits collectRecursive none).finished_unique
    hd (hends n (Nat.le_refl n)).1
  exact ⟨hschema, hresolves, _, c, rfl, hd, hfields, hacyclic⟩

end GraphFold
