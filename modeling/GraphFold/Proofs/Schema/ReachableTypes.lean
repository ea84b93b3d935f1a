/-
GraphFold.Proofs.Schema.ReachableTypes — the walks over a schema follow its
expansion.

A walk that goes on at every type lists types in the order in which they are
expanded: a type that is listed has been seen, and so has a field whose target
is being expanded or is listed. The two analyses differ at fields only. One goes
on at all of them, the other leaves out the targets of those whose target
encloses them; but such a target is listed, and would be skipped. So both walks
come to the same names, and to the same error.

  §1 Evaluators — `Evaluator.Tracks`.
  §2 Points     — `Charts`, what the walk knows at a point.
  §3 Nodes      — one type, one field.
  §4 Walks      — `comes_of_expands`, from a list of fields.
  §5 Analyses   — both of them follow the expansion.
-/
import GraphFold.Proofs.Schema.Expansion
import GraphFold.Proofs.Schema.RecursiveFields
import GraphFold.Proofs.Walk.Passage

namespace GraphFold

variable {A : Type}

/-! ## §1 Evaluators -/

/-- An evaluator that hands every state back and goes on everywhere, except perhaps at a field whose
target encloses it. What it folds fits the names of the types so far. -/
structure Evaluator.Tracks (evaluator : FoldOver A) (fits : A → List String → Prop) : Prop where
  type : ∀ a type state value memory listed,
    (type = .scalarType a ∨ ∃ fields, type = .objectType (.ofFields a fields)) → fits value listed →
    ∃ next left, (evaluator type state value).perform memory =
      (.ok (.proceed next (.ok state)), left) ∧ fits next (listed ++ [a])
  field : ∀ f state value memory listed, fits value listed → ∃ next left, fits next listed ∧
    ((evaluator (.field f) state value).perform memory =
        (.ok (.proceed next (.ok state)), left) ∨
      f.typeName ∈ enclosingTypes state ∧ (evaluator (.field f) state value).perform memory =
        (.ok (.prune next (.ok state)), left))

/-- The types that are collected are those listed. -/
theorem tracks_collectTypes : Evaluator.Tracks collectTypes (· = ·) where
  type a type state value memory listed htype hfits := by
    subst hfits
    rcases htype with rfl | ⟨fields, rfl⟩
    · exact ⟨_, _, rfl, rfl⟩
    · exact ⟨_, _, rfl, rfl⟩
  field f state value memory listed hfits := ⟨value, memory, hfits, .inl rfl⟩

/-- Collecting recursive fields goes on at all others. -/
theorem tracks_collectRecursive : Evaluator.Tracks collectRecursive fun _ _ => True where
  type a type state value memory listed htype _ := by
    rcases htype with rfl | ⟨fields, rfl⟩
    · exact ⟨_, _, rfl, trivial⟩
    · exact ⟨_, _, rfl, trivial⟩
  field f state value memory listed _ := by
    rcases collectRecursive_cases (.field f) state value memory with ⟨f', hf, hmem, h⟩ | ⟨_, h⟩
    · cases hf
      exact ⟨_, _, trivial, .inr ⟨hmem, h⟩⟩
    · exact ⟨_, _, trivial, .inl h⟩

/-! ## §2 Points -/

/-- A definition that is marked has been seen, and nothing else is new. -/
theorem isSeen_mark_definition {state : ValueState} {v w : Value} (hv : v.IsDefinition)
    (hw : w.IsDefinition) :
    (state.mark (.value v)).isSeen (.value w) = true ↔
      v = w ∨ state.isSeen (.value w) = true := by
  rw [State.isSeen_mark, Bool.or_eq_true, beq_iff_eq]
  refine or_congr ⟨fun h => Value.eq_of_code_eq hv hw (Key.compare_eq_iff.1 h), ?_⟩ Iff.rfl
  rintro rfl
  exact Std.ReflCmp.compare_self

/-- At this point of a walk these names are listed. The types listed have been seen and no others;
a field that has been seen has one of the expected targets. -/
structure Charts (s : Schema) (name : String) (fits : A → List String → Prop) (c : ValueConfig A)
    (listed expected : List String) : Prop where
  context_eq : c.state.context = .schema name s
  seen_iff : ∀ a type, s.resolve a = .ok type →
    (c.state.isSeen (.value type) = true ↔ a ∈ listed)
  target_mem : ∀ f, c.state.isSeen (.value (.field f)) = true → f.typeName ∈ expected
  enclosing_mem : ∀ a ∈ enclosingTypes c.state, a ∈ listed
  resolves : ∀ a ∈ listed, ∃ type, s.resolve a = .ok type
  fits_value : fits c.value listed

namespace Charts

variable {s : Schema} {name : String} {fits : A → List String → Prop} {c d : ValueConfig A}
  {listed expected : List String}

theorem of_eq (h : Charts s name fits c listed expected) (hstate : d.state = c.state)
    (hvalue : d.value = c.value) : Charts s name fits d listed expected where
  context_eq := hstate ▸ h.context_eq
  seen_iff := hstate ▸ h.seen_iff
  target_mem := hstate ▸ h.target_mem
  enclosing_mem := hstate ▸ h.enclosing_mem
  resolves := h.resolves
  fits_value := hvalue ▸ h.fits_value

theorem mono {others : List String} (h : Charts s name fits c listed expected)
    (hsub : expected ⊆ others) : Charts s name fits c listed others :=
  { h with target_mem := fun f hf => hsub (h.target_mem f hf) }

/-- Where a frame is dropped, nothing changes but what encloses the next nodes. -/
theorem drop {before : ValueConfig A} {earlier : List String}
    (h : Charts s name fits c listed expected)
    (hbefore : ∀ a ∈ enclosingTypes before.state, a ∈ earlier) (hsub : earlier ⊆ listed)
    {frames : List (Frame Value Fault Memory)} :
    Charts s name fits
      { c with frames := frames, state := c.state.withAncestors before.state.ancestors }
      listed expected where
  context_eq := h.context_eq
  seen_iff := h.seen_iff
  target_mem := h.target_mem
  enclosing_mem a ha := hsub (hbefore a ha)
  resolves := h.resolves
  fits_value := h.fits_value

/-- A new type is listed when it is marked, and it encloses what comes next. -/
theorem mark_type (hs : s.WellNamed) {a : String} {type : Value}
    (h : Charts s name fits c listed (listed ++ [a])) (hresolve : s.resolve a = .ok type)
    (hstate : d.state = ((c.state.mark (.value type)).withAncestors c.state.ancestors).push type)
    (hfits : fits d.value (listed ++ [a])) :
    Charts s name fits d (listed ++ [a]) (listed ++ [a]) where
  context_eq := by rw [hstate]; exact h.context_eq
  seen_iff b other hother := by
    rw [hstate, State.isSeen_push, State.isSeen_withAncestors,
      isSeen_mark_definition (hs.isDefinition hresolve) (hs.isDefinition hother),
      h.seen_iff b other hother, List.mem_append, List.mem_singleton, or_comm]
    refine or_congr Iff.rfl ⟨fun heq => ?_, fun heq => ?_⟩
    · rw [← hs.home_eq hother, ← heq, hs.home_eq hresolve]
    · rw [heq, hresolve] at hother
      exact Except.ok.inj hother
  target_mem f hf := by
    rw [hstate, State.isSeen_push, State.isSeen_withAncestors,
      isSeen_mark_definition (w := .field f) (hs.isDefinition hresolve) trivial] at hf
    rcases hf with heq | hf
    · exact absurd heq (hs.ne_field hresolve f)
    · exact h.target_mem f hf
  enclosing_mem b hb := by
    rw [hstate] at hb
    obtain ⟨t, ht, rfl⟩ := mem_enclosingTypes.1 hb
    rcases List.mem_cons.1 ht with rfl | ht
    · rw [(hs.objectType hresolve).1]
      exact List.mem_append_right _ List.mem_cons_self
    · exact List.mem_append_left _ (h.enclosing_mem _ (mem_enclosingTypes.2 ⟨t, ht, rfl⟩))
  resolves b hb := by
    rcases List.mem_append.1 hb with hb | hb
    · exact h.resolves b hb
    · rw [List.mem_singleton.1 hb]
      exact ⟨type, hresolve⟩
  fits_value := hfits

/-- When a field is marked, its target is expected, and is listed only if it was. -/
theorem mark_field (hs : s.WellNamed) {f : FieldDefinition}
    (h : Charts s name fits c listed listed)
    (hcontext : d.state.context = c.state.context)
    (hseen : ∀ key, d.state.isSeen key = (c.state.mark (.value (.field f))).isSeen key)
    (henclosing : enclosingTypes d.state = enclosingTypes c.state) (hfits : fits d.value listed) :
    Charts s name fits d listed (listed ++ [f.typeName]) where
  context_eq := hcontext.trans h.context_eq
  seen_iff b other hother := by
    rw [hseen, isSeen_mark_definition (v := .field f) trivial (hs.isDefinition hother),
      h.seen_iff b other hother]
    exact or_iff_right fun heq => hs.ne_field hother f heq.symm
  target_mem f' hf := by
    rw [hseen, isSeen_mark_definition (v := .field f) (w := .field f') trivial trivial] at hf
    rcases hf with heq | hf
    · cases heq
      exact List.mem_append_right _ List.mem_cons_self
    · exact List.mem_append_left _ (h.target_mem f' hf)
  enclosing_mem := henclosing ▸ h.enclosing_mem
  resolves := h.resolves
  fits_value := hfits

end Charts

/-! ## §3 Nodes -/

namespace Scene

variable (scene : Scene) {s : Schema} {name : String}

/-- The children of a type are its fields. -/
theorem perform_children_type (hs : s.WellNamed) {a : String} {type : Value}
    (hresolve : s.resolve a = .ok type) (state : ValueState) (memory : Memory) :
    (scene.children .standard type state).perform memory =
      (.ok (.ok (.ofNodes (type.fields.map .field))), memory) := by
  rw [scene.children_of_isDefinition (hs.isDefinition hresolve)]
  rcases hs.resolve hresolve with rfl | ⟨fields, rfl⟩
  · rfl
  · rfl

/-- The child of a field is its target, -/
theorem perform_children_field_of_ok {f : FieldDefinition} {type : Value}
    (hresolve : s.resolve f.typeName = .ok type) (state : ValueState)
    (hcontext : state.context = .schema name s) (memory : Memory) :
    (scene.children .standard (.field f) state).perform memory =
      (.ok (.ok (.ofNodes [type])), memory) := by
  rw [scene.children_of_isDefinition (v := .field f) trivial]
  simp only [ownChildren, hcontext, Context.resolveType, hresolve]
  rfl

/-- if there is such a type. -/
theorem perform_children_field_of_error {f : FieldDefinition} {e : SchemaError}
    (hresolve : s.resolve f.typeName = .error e) (state : ValueState)
    (hcontext : state.context = .schema name s) (memory : Memory) :
    (scene.children .standard (.field f) state).perform memory = (.error (.schema e), memory) := by
  rw [scene.children_of_isDefinition (v := .field f) trivial]
  simp only [ownChildren, hcontext, Context.resolveType, hresolve]
  rfl

end Scene

/-- A walk over types that follows the expansion: the names are those of a schema that was built
from definitions, and there is no limit. -/
structure FollowsTypes (g : Setting Value Key Context A Value Fault Memory Heard) (scene : Scene)
    (s : Schema) (fits : A → List String → Prop) : Prop where
  wellNamed : s.WellNamed
  identity_eq : g.identity = scene.identity
  children_eq : g.children = scene.children .standard
  unlimited : g.limits.maxDepth = none
  tracks : g.evaluator.Tracks fits

namespace FollowsTypes

variable {g : Setting Value Key Context A Value Fault Memory Heard} {scene : Scene} {s : Schema}
  {name : String} {fits : A → List String → Prop} {c d : ValueConfig A}
  {listed expected : List String} {result : Except SchemaError (List String)}

/-- From this point the walk folds what is at hand and then has listed these names, or it is given
up over this error. -/
def Comes (g : Setting Value Key Context A Value Fault Memory Heard) (s : Schema) (name : String)
    (fits : A → List String → Prop) (c : ValueConfig A) :
    Except SchemaError (List String) → Prop
  | .ok after => ∃ d, g.Passage c d ∧ Charts s name fits d after after
  | .error e => ∃ n d, g.run n c = .failed (.raised (.schema e)) d

theorem admits (hg : FollowsTypes g scene s fits) (depth : Nat) : g.limits.Admits depth := by
  intro limit hlimit
  rw [hg.unlimited] at hlimit
  cases hlimit

theorem identity_of_isDefinition (hg : FollowsTypes g scene s fits) {v : Value}
    (hv : v.IsDefinition) : g.identity v = .ok (.value v) := by
  rw [hg.identity_eq]
  exact scene.identity_of_isDefinition hv

/-- A definition that has been seen is skipped. -/
theorem exists_passage_of_seen (hg : FollowsTypes g scene s fits) {v : Value}
    (hv : v.IsDefinition) (hpending : c.pending = some v)
    (hseen : c.state.isSeen (.value v) = true) (hc : Charts s name fits c listed expected) :
    ∃ d, g.Passage c d ∧ Charts s name fits d listed expected := by
  have hstep := (Setting.step_of_pending hpending).trans
    (Setting.arrive_of_seen (hg.identity_of_isDefinition hv) hseen)
  exact ⟨_, .settled v hpending hstep (by simp), hc.of_eq (by simp) (by simp)⟩

/-- A new type is listed, if the walk goes through its fields as it comes to them. -/
theorem comes_of_type (hg : FollowsTypes g scene s fits) {a : String} {type : Value}
    (hpending : c.pending = some type) (hresolve : s.resolve a = .ok type) (hnew : a ∉ listed)
    (hc : Charts s name fits c listed (listed ++ [a]))
    (hsub : ∀ after, result = .ok after → listed ⊆ after)
    (hown : ∀ d : ValueConfig A, d.pending = none →
      (∃ put, d.frames = ⟨put, .ofNodes (type.fields.map .field)⟩ :: c.frames) →
      Charts s name fits d (listed ++ [a]) (listed ++ [a]) → Comes g s name fits d result) :
    Comes g s name fits c result := by
  have hdefinition := hg.wellNamed.isDefinition hresolve
  have hunseen : c.state.isSeen (.value type) = false :=
    Bool.eq_false_iff.2 fun hseen => hnew ((hc.seen_iff a type hresolve).1 hseen)
  obtain ⟨next, left, hcall, hfits⟩ := hg.tracks.type a type c.state c.value c.memory listed
    (hg.wellNamed.resolve hresolve) hc.fits_value
  have hlookup := scene.perform_children_type hg.wellNamed hresolve
    ((c.state.mark (.value type)).withAncestors c.state.ancestors) left
  rw [← hg.children_eq] at hlookup
  have hopened := (Setting.step_of_pending hpending).trans
    (Setting.arrive_of_opened (hg.identity_of_isDefinition hdefinition) hunseen (hg.admits _) hcall
      hlookup)
  obtain ⟨d, hstep, hnone, hframes, hcharts⟩ : ∃ d, g.step c = .running d ∧ d.pending = none ∧
      d.frames = ⟨c.state.ancestors, .ofNodes (type.fields.map .field)⟩ :: c.frames ∧
      Charts s name fits d (listed ++ [a]) (listed ++ [a]) :=
    ⟨_, hopened, by simp, rfl, hc.mark_type hg.wellNamed hresolve rfl (by simpa using hfits)⟩
  have hcomes := hown d hnone ⟨_, hframes⟩ hcharts
  cases result with
  | ok after =>
    obtain ⟨e, hpassage, he⟩ := hcomes
    exact ⟨_, .nested type _ _ _ hpending hstep hframes hpassage rfl,
      he.drop hc.enclosing_mem (hsub after rfl)⟩
  | error e =>
    obtain ⟨n, last, hn⟩ := hcomes
    exact ⟨n + 1, last, by rw [g.run_succ_of_running hstep, hn]⟩

/-- A new field at which the walk goes on comes to what its target comes to. -/
theorem comes_of_target (hg : FollowsTypes g scene s fits) {f : FieldDefinition} {type : Value}
    (hpending : c.pending = some (.field f)) (hresolve : s.resolve f.typeName = .ok type)
    (hunseen : c.state.isSeen (.value (.field f)) = false)
    (hc : Charts s name fits c listed listed) {next : A} {left : Memory}
    (hcall : (g.evaluator (.field f) c.state c.value).perform c.memory =
      (.ok (.proceed next (.ok c.state)), left))
    (hfits : fits next listed) (hsub : ∀ after, result = .ok after → listed ⊆ after)
    (htarget : ∀ d : ValueConfig A, d.pending = some type →
      Charts s name fits d listed (listed ++ [f.typeName]) → Comes g s name fits d result) :
    Comes g s name fits c result := by
  have hlookup := scene.perform_children_field_of_ok hresolve
    ((c.state.mark (.value (.field f))).withAncestors c.state.ancestors) hc.context_eq left
  rw [← hg.children_eq] at hlookup
  have hopened := (Setting.step_of_pending hpending).trans
    (Setting.arrive_of_opened (hg.identity_of_isDefinition (v := .field f) trivial) hunseen
      (hg.admits _) hcall hlookup)
  obtain ⟨d, hstep, hnone, hframes, hcharts⟩ : ∃ d, g.step c = .running d ∧ d.pending = none ∧
      d.frames = ⟨c.state.ancestors, .ofNodes [type]⟩ :: c.frames ∧
      Charts s name fits d listed (listed ++ [f.typeName]) :=
    ⟨_, hopened, by simp, rfl,
      hc.mark_field hg.wellNamed rfl (fun _ => rfl) rfl (by simpa using hfits)⟩
  obtain ⟨d', hd'⟩ : ∃ d', d' = { d with
    pending := some type, frames := ⟨c.state.ancestors, .ofNodes []⟩ :: c.frames } := ⟨_, rfl⟩
  have hcomes := htarget d' (by rw [hd']) (hcharts.of_eq (by rw [hd']) (by rw [hd']))
  cases result with
  | ok after =>
    obtain ⟨e, hpassage, he⟩ := hcomes
    have hdone : g.Passage e e := .done c.state.ancestors _ c.frames hpassage.pending_eq_none
      (by rw [hpassage.frames_eq, hd']; rfl)
    have hinner : g.Passage d e := .next _ _ _ _ _ type hnone hframes
      (by rw [hd']; rfl) (by rw [hd']; rfl) hpassage hdone
    exact ⟨_, .nested (.field f) _ _ _ hpending hstep hframes hinner rfl,
      he.drop hc.enclosing_mem (hsub after rfl)⟩
  | error e =>
    obtain ⟨n, last, hn⟩ := hcomes
    have hpull : g.step d = .running d' := by
      rw [Setting.step_of_ofNodes hnone hframes, hd']
    exact ⟨n + 1 + 1, last, by rw [g.run_succ_of_running hstep, g.run_succ_of_running hpull, hn]⟩

/-- A field whose target is listed adds nothing. -/
theorem comes_of_listed (hg : FollowsTypes g scene s fits) {f : FieldDefinition}
    (hpending : c.pending = some (.field f)) (hlisted : f.typeName ∈ listed)
    (hc : Charts s name fits c listed listed) : Comes g s name fits c (.ok listed) := by
  cases hseen : c.state.isSeen (.value (.field f)) with
  | true => exact hg.exists_passage_of_seen (v := .field f) trivial hpending hseen hc
  | false =>
    have hsub : listed ++ [f.typeName] ⊆ listed :=
      List.append_subset.2 ⟨List.Subset.refl _, List.cons_subset.2 ⟨hlisted, List.nil_subset _⟩⟩
    obtain ⟨next, left, hfits, hcall | ⟨-, hcall⟩⟩ :=
      hg.tracks.field f c.state c.value c.memory listed hc.fits_value
    · obtain ⟨type, hresolve⟩ := hc.resolves _ hlisted
      refine hg.comes_of_target hpending hresolve hseen hc hcall hfits
        (fun after hafter => Except.ok.inj hafter ▸ List.Subset.refl _) fun d hd hcharts => ?_
      exact hg.exists_passage_of_seen (hg.wellNamed.isDefinition hresolve) hd
        ((hcharts.seen_iff _ type hresolve).2 hlisted) (hcharts.mono hsub)
    · have hpruned := (Setting.step_of_pending hpending).trans
        (Setting.arrive_of_pruned (hg.identity_of_isDefinition (v := .field f) trivial) hseen
          (hg.admits _) hcall)
      refine ⟨_, .settled (.field f) hpending hpruned (by simp), ?_⟩
      refine (hc.mark_field hg.wellNamed ?_ ?_ ?_ ?_).mono hsub
      · simp
      · simp
      · rw [Config.report_state]
        rfl
      · simpa using hfits

/-- A field whose target is not listed is new, and the walk goes on at it. -/
theorem exists_call_of_new (hg : FollowsTypes g scene s fits) {f : FieldDefinition}
    (hnew : f.typeName ∉ listed) (hc : Charts s name fits c listed listed) :
    c.state.isSeen (.value (.field f)) = false ∧ ∃ next left, fits next listed ∧
      (g.evaluator (.field f) c.state c.value).perform c.memory =
        (.ok (.proceed next (.ok c.state)), left) := by
  refine ⟨Bool.eq_false_iff.2 fun hseen => hnew (hc.target_mem f hseen), ?_⟩
  obtain ⟨next, left, hfits, hcall | ⟨henclosing, -⟩⟩ :=
    hg.tracks.field f c.state c.value c.memory listed hc.fits_value
  · exact ⟨next, left, hfits, hcall⟩
  · exact absurd (hc.enclosing_mem _ henclosing) hnew

/-- If its target does not resolve, the walk is given up. -/
theorem comes_of_unknown (hg : FollowsTypes g scene s fits) {f : FieldDefinition}
    (hpending : c.pending = some (.field f)) (hnew : f.typeName ∉ listed) {e : SchemaError}
    (hresolve : s.resolve f.typeName = .error e) (hc : Charts s name fits c listed listed) :
    Comes g s name fits c (.error e) := by
  obtain ⟨hunseen, next, left, -, hcall⟩ := hg.exists_call_of_new hnew hc
  have hlookup := scene.perform_children_field_of_error hresolve
    ((c.state.mark (.value (.field f))).withAncestors c.state.ancestors) hc.context_eq left
  rw [← hg.children_eq] at hlookup
  have hfailed := (Setting.step_of_pending hpending).trans
    (Setting.arrive_of_unlisted (hg.identity_of_isDefinition (v := .field f) trivial) hunseen
      (hg.admits _) hcall hlookup)
  exact ⟨1, _, g.run_succ_of_failed hfailed 0⟩

/-- A field whose target is new comes to what the fields of the target come to. -/
theorem comes_of_new (hg : FollowsTypes g scene s fits) {f : FieldDefinition} {type : Value}
    (hpending : c.pending = some (.field f)) (hnew : f.typeName ∉ listed)
    (hresolve : s.resolve f.typeName = .ok type) (hc : Charts s name fits c listed listed)
    (hexpands : s.Expands (listed ++ [f.typeName]) (Schema.targets type) result)
    (hown : ∀ d : ValueConfig A, d.pending = none →
      (∃ put outer, d.frames = ⟨put, .ofNodes (type.fields.map .field)⟩ :: outer) →
      Charts s name fits d (listed ++ [f.typeName]) (listed ++ [f.typeName]) →
      Comes g s name fits d result) :
    Comes g s name fits c result := by
  obtain ⟨hunseen, next, left, hfits, hcall⟩ := hg.exists_call_of_new hnew hc
  have hsub : ∀ after, result = .ok after → listed ⊆ after := by
    rintro after rfl
    exact List.Subset.trans (List.subset_append_left ..) hexpands.subset
  refine hg.comes_of_target hpending hresolve hunseen hc hcall hfits hsub fun d hd hcharts => ?_
  exact hg.comes_of_type hd hresolve hnew hcharts hsub
    fun d' hnone ⟨put, hframes⟩ hcharts' => hown d' hnone ⟨put, _, hframes⟩ hcharts'

/-! ## §4 Walks -/

/-- Where the first field comes to a list, the walk goes on with the later ones. -/
theorem comes_of_first {v : Value} {put later : List Value}
    {outer : List (Frame Value Fault Memory)} {inner : List String} (hpending : c.pending = none)
    (hframes : c.frames = ⟨put, .ofNodes (v :: later)⟩ :: outer)
    (hfirst : Comes g s name fits
      { c with pending := some v, frames := ⟨put, .ofNodes later⟩ :: outer } (.ok inner))
    (hrest : ∀ e : ValueConfig A, e.pending = none → e.frames = ⟨put, .ofNodes later⟩ :: outer →
      Charts s name fits e inner inner → Comes g s name fits e result) :
    Comes g s name fits c result := by
  obtain ⟨d, hd⟩ : ∃ d, d = { c with
    pending := some v, frames := ⟨put, .ofNodes later⟩ :: outer } := ⟨_, rfl⟩
  rw [← hd] at hfirst
  have hstep : g.step c = .running d := by rw [Setting.step_of_ofNodes hpending hframes, hd]
  obtain ⟨e, hpassage, he⟩ := hfirst
  have hcomes := hrest e hpassage.pending_eq_none (by rw [hpassage.frames_eq, hd]; rfl) he
  cases result with
  | ok after =>
    obtain ⟨f, hlater, hf⟩ := hcomes
    exact ⟨f, .next put _ _ _ outer v hpending hframes (by rw [hd]; rfl) (by rw [hd]; rfl)
      hpassage hlater, hf⟩
  | error error =>
    obtain ⟨n, hn⟩ := hpassage.exists_run
    obtain ⟨m, last, hm⟩ := hcomes
    refine ⟨n + m + 1, last, ?_⟩
    rw [g.run_succ_of_running hstep, g.run_add_of_unfinished hn, hm]

/-- Where the first field comes to an error, the walk is given up. -/
theorem comes_of_first_error {v : Value} {put later : List Value}
    {outer : List (Frame Value Fault Memory)} {e : SchemaError} (hpending : c.pending = none)
    (hframes : c.frames = ⟨put, .ofNodes (v :: later)⟩ :: outer)
    (hfirst : Comes g s name fits
      { c with pending := some v, frames := ⟨put, .ofNodes later⟩ :: outer } (.error e)) : Comes g s name fits c (.error e) := by
  obtain ⟨n, last, hn⟩ := hfirst
  exact ⟨n + 1, last,
    by rw [g.run_succ_of_running (Setting.step_of_ofNodes hpending hframes), hn]⟩

/-- From the fields of a type the walk comes to the expansion of their targets. -/
theorem comes_of_expands (hg : FollowsTypes g scene s fits) {names : List String}
    (h : s.Expands listed names result) {fields : List FieldDefinition}
    (hnames : names = fields.map (·.typeName)) {put : List Value}
    {outer : List (Frame Value Fault Memory)} (hpending : c.pending = none)
    (hframes : c.frames = ⟨put, .ofNodes (fields.map .field)⟩ :: outer)
    (hc : Charts s name fits c listed listed) : Comes g s name fits c result := by
  induction h generalizing c fields put outer with
  | nil listed =>
    cases fields with
    | nil => exact ⟨c, .done put _ outer hpending hframes, hc⟩
    | cons => cases hnames
  | skip hlisted _ ih =>
    obtain ⟨f, fields, rfl, rfl, rfl⟩ := List.map_eq_cons_iff.1 hnames.symm
    refine comes_of_first hpending hframes ?_ fun e hnone he hcharts => ih rfl hnone he hcharts
    exact hg.comes_of_listed rfl hlisted (hc.of_eq rfl rfl)
  | unknown hnew hresolve =>
    obtain ⟨f, fields, rfl, rfl, rfl⟩ := List.map_eq_cons_iff.1 hnames.symm
    exact comes_of_first_error hpending hframes
      (hg.comes_of_unknown rfl hnew hresolve (hc.of_eq rfl rfl))
  | expand hnew hresolve hown _ ihown ihrest =>
    obtain ⟨f, fields, rfl, rfl, rfl⟩ := List.map_eq_cons_iff.1 hnames.symm
    refine comes_of_first hpending hframes ?_ fun e hnone he hcharts => ihrest rfl hnone he hcharts
    exact hg.comes_of_new rfl hnew hresolve (hc.of_eq rfl rfl) hown
      fun d hnone ⟨put, outer, hd⟩ hcharts => ihown rfl hnone hd hcharts
  | failed hnew hresolve hown ihown =>
    obtain ⟨f, fields, rfl, rfl, rfl⟩ := List.map_eq_cons_iff.1 hnames.symm
    exact comes_of_first_error hpending hframes
      (hg.comes_of_new rfl hnew hresolve (hc.of_eq rfl rfl) hown
        fun d hnone ⟨put, outer, hd⟩ hcharts => ihown rfl hnone hd hcharts)

/-- Nothing is charted at the start. -/
theorem charts_start (type : Value) {value : A} (hfits : fits value []) (memory : Memory)
    (heard : Heard) (root : String) :
    Charts s name fits (.start type (.schema name s) value memory heard) [] [root] where
  context_eq := rfl
  seen_iff a _ _ := by simp [Config.start]
  target_mem f hf := by simp [Config.start] at hf
  enclosing_mem := List.forall_mem_nil _
  resolves := List.forall_mem_nil _
  fits_value := hfits

/-- A walk that starts at a type comes to the expansion of its name. -/
theorem comes_of_start (hg : FollowsTypes g scene s fits) {root : String} {type : Value}
    (hresolve : s.resolve root = .ok type) (h : s.Expands [] [root] result) (name : String)
    {value : A} (hfits : fits value []) (memory : Memory) (heard : Heard) :
    Comes g s name fits (.start type (.schema name s) value memory heard) result := by
  have hown : s.Expands [root] (Schema.targets type) result := by
    cases h with
    | skip hlisted => cases hlisted
    | unknown _ herror =>
      rw [hresolve] at herror
      cases herror
    | expand _ hresolve' hown hrest =>
      rw [hresolve] at hresolve'
      cases hresolve'
      cases hrest
      exact hown
    | failed _ hresolve' hown =>
      rw [hresolve] at hresolve'
      cases hresolve'
      exact hown
  exact hg.comes_of_type rfl hresolve List.not_mem_nil (charts_start type hfits memory heard root)
    (fun _ _ => List.nil_subset _)
    fun d hnone ⟨put, hframes⟩ hcharts => hg.comes_of_expands hown rfl hnone hframes hcharts

end FollowsTypes

/-! ## §5 Analyses -/

namespace Scene

/-- Where no policy is given and none is the default, an analysis is one walk without a limit. -/
theorem analyse_of_resolve (scene : Scene) {s : Schema} {root : String} {type : Value}
    (hresolve : s.resolve root = .ok type) (collect : FoldOver (List String)) (name : String)
    (budget : Nat) :
    scene.analyse ⟨.standard, .inForce none none, budget⟩ collect name s root =
      scene.collected ⟨.standard, .inForce none none, budget⟩
        ((scene.setting .standard Policy.standard.limits collect none).run budget
          (.start type (.schema name s) [] (Memory.start false) .nothing)) := by
  rw [analyse, hresolve]
  rfl

/-- On any budget that is large enough, an analysis finds something that fits the names of an
expansion, or reports the error of the expansion. -/
def Finds (scene : Scene) (collect : FoldOver (List String)) (name : String) (s : Schema)
    (root : String) (fits : List String → List String → Prop) :
    Except SchemaError (List String) → Prop
  | .ok after => ∃ found enough, fits found after ∧ ∀ budget, enough ≤ budget →
      scene.analyse ⟨.standard, .inForce none none, budget⟩ collect name s root = .ok found
  | .error e => ∃ enough, ∀ budget, enough ≤ budget →
      scene.analyse ⟨.standard, .inForce none none, budget⟩ collect name s root =
        .error (.ofFault (.schema e))

/-- An analysis that goes on at every type comes to what the expansion of the root comes to. -/
theorem finds_of_expands (scene : Scene) {collect : FoldOver (List String)} {root : String}
    {s : Schema} {fits : List String → List String → Prop}
    {result : Except SchemaError (List String)} (hs : s.WellNamed) (hcollect : collect.Tracks fits)
    (hfits : fits [] []) (h : s.Expands [] [root] result) (name : String) :
    scene.Finds collect name s root fits result := by
  cases hresolve : s.resolve root with
  | error e =>
    cases h.unique (.unknown List.not_mem_nil hresolve)
    exact ⟨0, fun budget _ => by rw [analyse, hresolve]⟩
  | ok type =>
    have hg : FollowsTypes (scene.setting .standard Policy.standard.limits collect none) scene s
        fits := ⟨hs, rfl, rfl, rfl, hcollect⟩
    have hcomes := hg.comes_of_start hresolve h name hfits (Memory.start false) .nothing
    cases result with
    | ok after =>
      obtain ⟨c, hpassage, hc⟩ := hcomes
      obtain ⟨n, hn⟩ := hpassage.exists_run
      have hfinish := Setting.step_of_finish (g := scene.setting .standard Policy.standard.limits
        collect none) hpassage.pending_eq_none hpassage.frames_eq
      have hrun := Setting.run_add_of_unfinished (m := 1) _ hn
      rw [Setting.run_succ_of_finished _ hfinish] at hrun
      refine ⟨c.value, n + 1, hc.fits_value, fun budget hle => ?_⟩
      rw [analyse_of_resolve scene hresolve,
        Setting.run_of_le _ hle (by rw [hrun]; exact Outcome.ended_finished c), hrun]
      rfl
    | error e =>
      obtain ⟨n, c, hn⟩ := hcomes
      refine ⟨n, fun budget hle => ?_⟩
      rw [analyse_of_resolve scene hresolve,
        Setting.run_of_le _ hle (by rw [hn]; exact Outcome.ended_failed _ c), hn]
      rfl

/-- Both analyses of a schema follow the one expansion of the root. If all names that are reached
from the root resolve, the reachable types are the names of the expansion: each name that is
reached, once, the root first; and the recursive fields are found. If not, both analyses report the
name at which the expansion ends, which is the first that does not resolve. -/
theorem analyses_follow_expansion (scene : Scene) (name : String)
    (objects : OrderedMap String (OrderedMap String String)) (scalars : List String) (s : Schema)
    (root : String) (hs : Schema.ofDefinitions? objects scalars = .ok s) :
    ∃ result, s.Expands [] [root] result ∧ (∀ other, s.Expands [] [root] other → other = result) ∧
      ((∃ names, result = .ok names) ↔
        ∀ a, s.Reaches root a → ∃ type, s.resolve a = .ok type) ∧
      (∀ names, result = .ok names →
        names.Nodup ∧ names.head? = some root ∧ (∀ a, a ∈ names ↔ s.Reaches root a) ∧
        ∃ found enough, ∀ budget, enough ≤ budget →
          scene.reachableTypes ⟨.standard, .inForce none none, budget⟩ name s root = .ok names ∧
          scene.recursiveFields ⟨.standard, .inForce none none, budget⟩ name s root = .ok found) ∧
      (∀ e, result = .error e →
        ∃ a, s.Reaches root a ∧ s.resolve a = .error e ∧
          ∃ enough, ∀ budget, enough ≤ budget →
            scene.reachableTypes ⟨.standard, .inForce none none, budget⟩ name s root =
              .error (.plain .schema ("unknown type '" ++ a ++ "'")) ∧
            scene.recursiveFields ⟨.standard, .inForce none none, budget⟩ name s root =
              .error (.plain .schema ("unknown type '" ++ a ++ "'"))) := by
  have hnamed := Schema.wellNamed_of_ofDefinitions? hs
  obtain ⟨result, h⟩ := s.exists_expands _ [root] [] (Nat.lt_succ_self _)
  have hreachable := scene.finds_of_expands hnamed tracks_collectTypes rfl h name
  have hrecursive := scene.finds_of_expands hnamed tracks_collectRecursive trivial h name
  have herror : ∀ e, result = .error e → ∃ a, s.Reaches root a ∧ s.resolve a = .error e := by
    rintro e rfl
    obtain ⟨first, hfirst, a, hreaches, hresolve⟩ := h.exists_of_error hnamed
    rw [List.mem_singleton.1 hfirst] at hreaches
    exact ⟨a, hreaches, hresolve⟩
  refine ⟨result, h, fun other hother => hother.unique h, ⟨?_, ?_⟩, ?_, ?_⟩
  · rintro ⟨names, rfl⟩ a hreaches
    exact h.exists_resolve hnamed hreaches
  · intro hresolves
    cases result with
    | ok names => exact ⟨names, rfl⟩
    | error e =>
      obtain ⟨a, hreaches, hresolve⟩ := herror e rfl
      obtain ⟨type, htype⟩ := hresolves a hreaches
      rw [hresolve] at htype
      cases htype
  · rintro names rfl
    obtain ⟨_, n, rfl, hn⟩ := hreachable
    obtain ⟨found, m, -, hm⟩ := hrecursive
    exact ⟨(h.fills hnamed).nodup .nil, h.head?_eq, fun a => h.mem_iff_reaches hnamed, found,
      max n m, fun budget hle => ⟨hn budget (by omega), hm budget (by omega)⟩⟩
  · rintro e rfl
    obtain ⟨a, hreaches, hresolve⟩ := herror e rfl
    obtain ⟨n, hn⟩ := hreachable
    obtain ⟨m, hm⟩ := hrecursive
    obtain rfl := Schema.eq_of_resolve_eq_error hresolve
    exact ⟨a, hreaches, hresolve, max n m,
      fun budget hle => ⟨hn budget (by omega), hm budget (by omega)⟩⟩

/-- Two types that lead to each other, each with a field whose type is not defined, and one that
leads to itself. -/
def brokenTypes : OrderedMap String (OrderedMap String String) :=
  .ofList [("A", .ofList [("b", "B"), ("m", "Missing")]),
    ("B", .ofList [("a", "A"), ("n", "Nowhere")]),
    ("C", .ofList [("text", "Text"), ("next", "C"), ("note", "Text")])]

/-- The schema of these types. -/
def brokenSchema : Schema :=
  ⟨.ofList (("Text", .scalarType "Text") ::
    brokenTypes.entries.map fun (name, fields) => (name, .objectType (.ofFields name fields)))⟩

/-- From the first type, the field of the second is come to before the later field of the first.
From the third, all names resolve. -/
theorem analyses_follow_expansion_broken :
    Schema.ofDefinitions? brokenTypes ["Text"] = .ok brokenSchema ∧
      brokenSchema.Expands [] ["A"] (.error (.unknownType "Nowhere")) ∧
      brokenSchema.Expands [] ["C"] (.ok ["C", "Text"]) ∧
      ∃ found enough, ∀ budget, enough ≤ budget →
        Scene.empty.reachableTypes ⟨.standard, .inForce none none, budget⟩ "" brokenSchema "A" =
          .error (.plain .schema "unknown type 'Nowhere'") ∧
        Scene.empty.recursiveFields ⟨.standard, .inForce none none, budget⟩ "" brokenSchema "A" =
          .error (.plain .schema "unknown type 'Nowhere'") ∧
        Scene.empty.reachableTypes ⟨.standard, .inForce none none, budget⟩ "" brokenSchema "C" =
          .ok ["C", "Text"] ∧
        Scene.empty.recursiveFields ⟨.standard, .inForce none none, budget⟩ "" brokenSchema "C" =
          .ok found := by
  have hschema : Schema.ofDefinitions? brokenTypes ["Text"] = .ok brokenSchema := rfl
  have hfailed : brokenSchema.Expands [] ["A"] (.error (.unknownType "Nowhere")) := by
    refine .failed (by decide) rfl (.failed (by decide) rfl ?_)
    exact .skip (by decide) (.unknown (by decide) rfl)
  have hlisted : brokenSchema.Expands [] ["C"] (.ok ["C", "Text"]) := by
    refine .expand (by decide) rfl (.expand (by decide) rfl (.nil _) ?_) (.nil _)
    exact .skip (by decide) (.skip (by decide) (.nil _))
  obtain ⟨result, _, hunique, _, _, herror⟩ :=
    analyses_follow_expansion Scene.empty "" brokenTypes ["Text"] brokenSchema "A" hschema
  obtain ⟨a, _, hresolve, n, hn⟩ := herror _ (hunique _ hfailed).symm
  cases Schema.eq_of_resolve_eq_error hresolve
  obtain ⟨result', _, hunique', _, hnames, _⟩ :=
    analyses_follow_expansion Scene.empty "" brokenTypes ["Text"] brokenSchema "C" hschema
  obtain ⟨_, _, _, found, m, hm⟩ := hnames _ (hunique' _ hlisted).symm
  refine ⟨hschema, hfailed, hlisted, found, max n m, fun budget hle => ?_⟩
  obtain ⟨hreachable, hrecursive⟩ := hn budget (by omega)
  exact ⟨hreachable, hrecursive, hm budget (by omega)⟩

end Scene

end GraphFold
