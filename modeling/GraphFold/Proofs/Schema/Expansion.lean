/-
GraphFold.Proofs.Schema.Expansion — the recursive expansion of the types of a
schema.

To expand a list of names is to go through it in order. A name that is listed
already is skipped. Any other name is listed, and the types of its fields are
expanded, in the order in which they are declared, before the later names; the
first name that does not resolve ends the expansion. There is one result for
every list of names. If there is no error, the result lists the names that can
be reached and no others, each of them once; if there is one, it is about a name
that can be reached.

  §1 Expansions — `Schema.Expands`, and that it has one result.
  §2 Names      — which names are listed.
  §3 Errors     — which name an error is about.
-/
import GraphFold.Proofs.Schema.TypeGraph
import Mathlib.Data.List.Nodup

namespace GraphFold

/-- The fields of a type. -/
def Value.fields : Value → List FieldDefinition
  | .objectType t => t.fields
  | _ => []

namespace Schema

/-! ## §1 Expansions -/

/-- The names of the types of the fields of a type, as they are declared. -/
def targets (type : Value) : List String := type.fields.map (·.typeName)

/-- Expanding some names after others were listed comes to a list of all names listed by then, or
to an error. -/
inductive Expands (s : Schema) :
    List String → List String → Except SchemaError (List String) → Prop
  | nil (listed : List String) : Expands s listed [] (.ok listed)
  /-- A name that is listed is skipped. -/
  | skip {listed later : List String} {name : String} {result : Except SchemaError (List String)}
      (hlisted : name ∈ listed) (hrest : Expands s listed later result) :
      Expands s listed (name :: later) result
  /-- A new name that does not resolve ends the expansion. -/
  | unknown {listed later : List String} {name : String} {e : SchemaError}
      (hnew : name ∉ listed) (hresolve : s.resolve name = .error e) :
      Expands s listed (name :: later) (.error e)
  /-- A new name is listed, the types of its fields are expanded, and then the later names. -/
  | expand {listed inner later : List String} {name : String} {type : Value}
      {result : Except SchemaError (List String)} (hnew : name ∉ listed)
      (hresolve : s.resolve name = .ok type)
      (hown : Expands s (listed ++ [name]) (targets type) (.ok inner))
      (hrest : Expands s inner later result) : Expands s listed (name :: later) result
  /-- An error below a new name ends the expansion. -/
  | failed {listed later : List String} {name : String} {type : Value} {e : SchemaError}
      (hnew : name ∉ listed) (hresolve : s.resolve name = .ok type)
      (hown : Expands s (listed ++ [name]) (targets type) (.error e)) :
      Expands s listed (name :: later) (.error e)

namespace Expands

variable {s : Schema} {listed names : List String} {result : Except SchemaError (List String)}

/-- There is one result only. -/
theorem unique {other : Except SchemaError (List String)} (h : s.Expands listed names result)
    (hother : s.Expands listed names other) : result = other := by
  induction h generalizing other with
  | nil listed =>
    cases hother
    rfl
  | skip hlisted _ ih =>
    cases hother with
    | skip _ hrest => exact ih hrest
    | unknown hnew | expand hnew | failed hnew => exact absurd hlisted hnew
  | unknown hnew hresolve =>
    cases hother with
    | skip hlisted => exact absurd hlisted hnew
    | unknown _ hresolve' =>
      rw [hresolve] at hresolve'
      exact congrArg _ (Except.error.inj hresolve')
    | expand _ hresolve' | failed _ hresolve' =>
      rw [hresolve] at hresolve'
      cases hresolve'
  | expand hnew hresolve _ _ ihown ihrest =>
    cases hother with
    | skip hlisted => exact absurd hlisted hnew
    | unknown _ hresolve' =>
      rw [hresolve] at hresolve'
      cases hresolve'
    | expand _ hresolve' hown' hrest' =>
      rw [hresolve] at hresolve'
      cases hresolve'
      cases ihown hown'
      exact ihrest hrest'
    | failed _ hresolve' hown' =>
      rw [hresolve] at hresolve'
      cases hresolve'
      cases ihown hown'
  | failed hnew hresolve _ ihown =>
    cases hother with
    | skip hlisted => exact absurd hlisted hnew
    | unknown _ hresolve' =>
      rw [hresolve] at hresolve'
      cases hresolve'
    | expand _ hresolve' hown' =>
      rw [hresolve] at hresolve'
      cases hresolve'
      cases ihown hown'
    | failed _ hresolve' hown' =>
      rw [hresolve] at hresolve'
      cases hresolve'
      exact ihown hown'

/-- Names that are listed stay in their places. -/
theorem isPrefix {after : List String} (h : s.Expands listed names (.ok after)) :
    listed <+: after := by
  generalize hresult : (.ok after : Except SchemaError (List String)) = result at h
  induction h generalizing after with
  | nil listed =>
    cases hresult
    exact List.prefix_refl _
  | skip _ _ ih => exact ih hresult
  | unknown => cases hresult
  | expand _ _ _ _ ihown ihrest =>
    exact (List.prefix_append ..).trans ((ihown rfl).trans (ihrest hresult))
  | failed => cases hresult

theorem subset {after : List String} (h : s.Expands listed names (.ok after)) : listed ⊆ after :=
  h.isPrefix.subset

end Expands

/-- The names under which a schema holds types and that are not listed. -/
def unlisted (s : Schema) (listed : List String) : List String :=
  s.types.keys.filter (· ∉ listed)

theorem length_unlisted_le (s : Schema) {listed after : List String} (h : listed ⊆ after) :
    (s.unlisted after).length ≤ (s.unlisted listed).length := by
  have himp : ∀ name, decide (name ∉ after) = true → decide (name ∉ listed) = true :=
    fun name hname => decide_eq_true fun hmem => of_decide_eq_true hname (h hmem)
  exact (List.monotone_filter_right s.types.keys himp).length_le

/-- Listing a name that resolves leaves fewer. -/
theorem length_unlisted_concat_lt (s : Schema) {listed : List String} {name : String}
    {type : Value} (hnew : name ∉ listed) (hresolve : s.resolve name = .ok type) :
    (s.unlisted (listed ++ [name])).length < (s.unlisted listed).length := by
  have hkey : name ∈ s.types.keys := by
    by_contra hnone
    have hfound := find?_of_resolve hresolve
    rw [OrderedMap.find?_eq_none_iff.2 hnone] at hfound
    cases hfound
  have hfilter : s.unlisted (listed ++ [name]) = (s.unlisted listed).filter (· ≠ name) := by
    rw [unlisted, unlisted, List.filter_filter]
    refine List.filter_congr fun other _ => ?_
    rw [← Bool.decide_and]
    exact decide_eq_decide.2 (by rw [List.mem_append, List.mem_singleton, not_or, and_comm])
  rw [hfilter]
  refine List.length_filter_lt_length_iff_exists.2 ⟨name, ?_, by simp⟩
  exact List.mem_filter.2 ⟨hkey, decide_eq_true hnew⟩

/-- Every expansion comes to a result: below a new name fewer types are left to be listed. -/
theorem exists_expands (s : Schema) (bound : Nat) :
    ∀ names listed, (s.unlisted listed).length < bound → ∃ result, s.Expands listed names result := by
  induction bound with
  | zero => exact fun names listed hbound => absurd hbound (Nat.not_lt_zero _)
  | succ bound ih =>
    intro names
    induction names with
    | nil => exact fun listed _ => ⟨_, .nil listed⟩
    | cons name later ihlater =>
      intro listed hbound
      by_cases hlisted : name ∈ listed
      · obtain ⟨result, hrest⟩ := ihlater listed hbound
        exact ⟨result, .skip hlisted hrest⟩
      cases hresolve : s.resolve name with
      | error e => exact ⟨_, .unknown hlisted hresolve⟩
      | ok type =>
        have hfewer := s.length_unlisted_concat_lt hlisted hresolve
        obtain ⟨result, hown⟩ := ih (targets type) (listed ++ [name]) (by omega)
        cases result with
        | error e => exact ⟨_, .failed hlisted hresolve hown⟩
        | ok inner =>
          have hleft := s.length_unlisted_le hown.subset
          obtain ⟨result, hrest⟩ := ihlater inner (by omega)
          exact ⟨result, .expand hlisted hresolve hown hrest⟩

/-! ## §2 Names -/

/-- A type leads to the types of its fields. -/
theorem WellNamed.leads_of_mem_targets {s : Schema} (hs : s.WellNamed) {name target : String}
    {type : Value} (hresolve : s.resolve name = .ok type) (htarget : target ∈ targets type) :
    s.Leads name target := by
  cases type with
  | objectType t =>
    obtain ⟨f, hf, rfl⟩ := List.mem_map.1 htarget
    have howner := (hs.objectType hresolve).2 f hf
    exact ⟨f, ⟨t, by rw [howner]; exact hresolve, hf⟩, howner, rfl⟩
  | _ => cases htarget

theorem mem_targets_of_leads {s : Schema} {name target : String} {type : Value}
    (hleads : s.Leads name target) (hresolve : s.resolve name = .ok type) :
    target ∈ targets type := by
  obtain ⟨f, ⟨t, ht, hf⟩, rfl, rfl⟩ := hleads
  rw [ht] at hresolve
  cases hresolve
  exact List.mem_map_of_mem hf

namespace Expands

variable {s : Schema} {listed names after : List String}

/-- What an expansion comes to: no name is listed twice, all the names are listed, and a name that
was added resolves, can be reached from one of them, and has the types of its fields listed. -/
structure Fills (s : Schema) (listed names after : List String) : Prop where
  nodup : listed.Nodup → after.Nodup
  mem_of_mem : ∀ name ∈ names, name ∈ after
  reaches : ∀ a ∈ after, a ∉ listed → ∃ name ∈ names, s.Reaches name a
  closed : ∀ a ∈ after, a ∉ listed → ∃ type, s.resolve a = .ok type ∧ targets type ⊆ after

theorem fills (hs : s.WellNamed) (h : s.Expands listed names (.ok after)) :
    Fills s listed names after := by
  generalize hresult : (.ok after : Except SchemaError (List String)) = result at h
  induction h generalizing after with
  | nil listed =>
    cases hresult
    exact ⟨id, List.forall_mem_nil _, fun a ha hnew => absurd ha hnew,
      fun a ha hnew => absurd ha hnew⟩
  | @skip listed later name result hlisted hrest ih =>
    subst hresult
    have hfills := ih rfl
    refine ⟨hfills.nodup, List.forall_mem_cons.2 ⟨hrest.subset hlisted, hfills.mem_of_mem⟩,
      fun a ha hnew => ?_, hfills.closed⟩
    obtain ⟨other, hother, hreaches⟩ := hfills.reaches a ha hnew
    exact ⟨other, List.mem_cons_of_mem _ hother, hreaches⟩
  | unknown => cases hresult
  | @expand listed inner later name type result hnew hresolve hown hrest ihown ihrest =>
    subst hresult
    have hbelow := ihown rfl
    have hlater := ihrest rfl
    have hinner := hrest.subset
    have hname : name ∈ inner := hown.subset (List.mem_append_right _ List.mem_cons_self)
    have htargets : targets type ⊆ after := fun a ha => hinner (hbelow.mem_of_mem a ha)
    refine ⟨fun hnodup => hlater.nodup (hbelow.nodup ?_),
      List.forall_mem_cons.2 ⟨hinner hname, hlater.mem_of_mem⟩, fun a ha hafter => ?_,
      fun a ha hafter => ?_⟩
    · exact List.nodup_append.2 ⟨hnodup, List.nodup_singleton name, fun a ha b hb heq =>
        hnew (List.mem_singleton.1 hb ▸ heq ▸ ha)⟩
    · -- A name that was added is the new one, or was added below it or by the later names.
      by_cases hmem : a ∈ inner
      · by_cases heq : a = name
        · exact ⟨name, List.mem_cons_self, heq ▸ .refl⟩
        · obtain ⟨target, htarget, hreaches⟩ := hbelow.reaches a hmem (by simp [hafter, heq])
          exact ⟨name, List.mem_cons_self,
            .head (hs.leads_of_mem_targets hresolve htarget) hreaches⟩
      · obtain ⟨other, hother, hreaches⟩ := hlater.reaches a ha hmem
        exact ⟨other, List.mem_cons_of_mem _ hother, hreaches⟩
    · by_cases hmem : a ∈ inner
      · by_cases heq : a = name
        · exact ⟨type, heq ▸ hresolve, htargets⟩
        · obtain ⟨type', hresolve', hclosed⟩ := hbelow.closed a hmem (by simp [hafter, heq])
          exact ⟨type', hresolve', List.Subset.trans hclosed hinner⟩
      · exact hlater.closed a ha hmem
  | failed => cases hresult

/-- Expanding one name lists what can be reached from it, all of which resolves. -/
theorem mem_iff_reaches (hs : s.WellNamed) {root : String} (h : s.Expands [] [root] (.ok after))
    {a : String} : a ∈ after ↔ s.Reaches root a := by
  have hfills := h.fills hs
  constructor
  · intro ha
    obtain ⟨name, hname, hreaches⟩ := hfills.reaches a ha List.not_mem_nil
    rwa [List.mem_singleton.1 hname] at hreaches
  · intro hreaches
    induction hreaches with
    | refl => exact hfills.mem_of_mem root List.mem_cons_self
    | tail _ hleads ih =>
      obtain ⟨type, hresolve, htargets⟩ := hfills.closed _ ih List.not_mem_nil
      exact htargets (mem_targets_of_leads hleads hresolve)

theorem exists_resolve (hs : s.WellNamed) {root : String} (h : s.Expands [] [root] (.ok after))
    {a : String} (ha : s.Reaches root a) : ∃ type, s.resolve a = .ok type := by
  obtain ⟨type, hresolve, -⟩ :=
    (h.fills hs).closed a ((h.mem_iff_reaches hs).2 ha) List.not_mem_nil
  exact ⟨type, hresolve⟩

/-- The name itself comes first. -/
theorem head?_eq {root : String} (h : s.Expands [] [root] (.ok after)) :
    after.head? = some root := by
  cases h with
  | skip hlisted => cases hlisted
  | expand _ _ hown hrest =>
    cases hrest
    obtain ⟨rest, rfl⟩ := hown.isPrefix
    rfl

/-! ## §3 Errors -/

/-- An error is about a name that can be reached and does not resolve. -/
theorem exists_of_error (hs : s.WellNamed) {e : SchemaError}
    (h : s.Expands listed names (.error e)) :
    ∃ name ∈ names, ∃ a, s.Reaches name a ∧ s.resolve a = .error e := by
  generalize hresult : (.error e : Except SchemaError (List String)) = result at h
  induction h with
  | nil => cases hresult
  | skip _ _ ih =>
    obtain ⟨name, hname, hreached⟩ := ih hresult
    exact ⟨name, List.mem_cons_of_mem _ hname, hreached⟩
  | @unknown _ _ name _ _ hresolve =>
    cases hresult
    exact ⟨name, List.mem_cons_self, name, .refl, hresolve⟩
  | expand _ _ _ _ _ ihrest =>
    obtain ⟨name, hname, hreached⟩ := ihrest hresult
    exact ⟨name, List.mem_cons_of_mem _ hname, hreached⟩
  | @failed _ _ name _ _ _ hresolve _ ihown =>
    obtain ⟨target, htarget, a, hreaches, ha⟩ := ihown hresult
    exact ⟨name, List.mem_cons_self, a,
      .head (hs.leads_of_mem_targets hresolve htarget) hreaches, ha⟩

end Expands

/-- A name that does not resolve is reported as unknown. -/
theorem eq_of_resolve_eq_error {s : Schema} {name : String} {e : SchemaError}
    (h : s.resolve name = .error e) : e = .unknownType name := by
  unfold resolve at h
  split at h <;> cases h <;> rfl

end Schema

end GraphFold
