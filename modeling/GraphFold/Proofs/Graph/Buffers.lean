/-
GraphFold.Proofs.Graph.Buffers — which buffers make a graph.

Well-formed buffers are accepted, and of buffers that are not the first fault is
reported, with one exception. Whether the offsets decrease is read off the signs
of 64-bit differences, and a difference is positive again where an offset is
more than 2^63 below the one before. A drop like this passes for a rise, so
buffers are accepted that are not well formed.

  §1 Offsets    — differences without a sign.
  §2 Conditions — `CompressedGraph.WellFormed`, `ofBuffers?_reports_first`.
-/
import GraphFold.Proofs.Index.Entries
import GraphFold.Session

namespace GraphFold.CompressedGraph

open Index (Buffer Follows ReportsFirst)

/-! ## §1 Offsets -/

/-- The neighbours in a list of entries are in order if no 64-bit difference is negative. -/
theorem any_sub_neg_eq_false_iff (entries : List Int64) :
    (entries.zip entries.tail).any (fun (a, b) => b - a < 0) = false ↔
      (entries.map Int64.toInt).IsChain Follows := by
  induction entries with
  | nil => simp
  | cons a rest ih =>
    cases rest with
    | nil => simp
    | cons b rest =>
      rw [List.tail_cons, List.zip_cons_cons, List.any_cons, Bool.or_eq_false_iff, List.map_cons,
        List.map_cons, List.isChain_cons_cons, decide_eq_false_iff_not, Index.sub_neg_iff, not_not]
      exact and_congr_right fun _ => ih

theorem decreases_eq_false_iff (offsets : Buffer) :
    decreases offsets = false ↔ offsets.toInts.IsChain Follows :=
  any_sub_neg_eq_false_iff offsets.toList

/-- Entries in order lie between the first one and the last one. -/
theorem bounds_of_isChain_le {entries : List Int} {first last : Int}
    (h : entries.IsChain (· ≤ ·)) (hfirst : entries.head? = some first)
    (hlast : entries.getLast? = some last) : ∀ x ∈ entries, first ≤ x ∧ x ≤ last := by
  have hpairwise := List.isChain_iff_pairwise.1 h
  intro x hx
  obtain ⟨rest, rfl⟩ := List.head?_eq_some_iff.1 hfirst
  obtain ⟨before, hbefore⟩ := List.getLast?_eq_some_iff.1 hlast
  constructor
  · rcases List.mem_cons.1 hx with rfl | hx
    · exact Int.le_refl x
    · exact (List.pairwise_cons.1 hpairwise).1 x hx
  · rw [hbefore, List.pairwise_append] at hpairwise
    rw [hbefore, List.mem_append] at hx
    rcases hx with hx | hx
    · exact hpairwise.2.2 x hx last List.mem_cons_self
    · exact Int.le_of_eq (List.mem_singleton.1 hx)

/-- No offset is more than 2^63 below the one before. -/
def Gentle (offsets : Buffer) : Prop :=
  offsets.toInts.IsChain fun a b => a ≤ b + (Index.powerOfTwo 63 : Int)

/-- Offsets in order that start at 0 climb by less than 2^63, so no difference is negative. -/
theorem isChain_follows_of_le {offsets : Buffer} (hfirst : offsets.toInts.head? = some 0)
    (h : offsets.toInts.IsChain (· ≤ ·)) : offsets.toInts.IsChain Follows := by
  have hlow : ∀ x ∈ offsets.toInts, 0 ≤ x := by
    obtain ⟨rest, hrest⟩ := List.head?_eq_some_iff.1 hfirst
    have hlast := List.getLast?_eq_some_getLast (l := offsets.toInts) (by simp [hrest])
    exact fun x hx => (bounds_of_isChain_le h hfirst hlast x hx).1
  refine h.imp_of_mem_imp fun a b ha hb hle => .inl ⟨hle, ?_⟩
  obtain ⟨y, -, rfl⟩ := List.mem_map.1 hb
  have ha' := hlow a ha
  have hb' := (Index.toInt_bounds y).2
  omega

/-- Without great drops, offsets whose differences are not negative are in order. -/
theorem isChain_le_of_follows {offsets : Buffer} (hgentle : Gentle offsets)
    (h : offsets.toInts.IsChain Follows) : offsets.toInts.IsChain (· ≤ ·) := by
  rw [Gentle, List.isChain_iff_getElem] at hgentle
  rw [List.isChain_iff_getElem] at h ⊢
  exact fun i hi => (h i hi).le (hgentle i hi)

/-! ## §2 Conditions -/

/-- The buffers of a graph: offsets from 0 to the number of targets, in order, and targets that are
nodes. -/
structure WellFormed (g : CompressedGraph) : Prop where
  first : g.offsets.toInts.head? = some 0
  last : g.offsets.toInts.getLast? = some (g.edgeCount : Int)
  climbs : g.offsets.toInts.IsChain (· ≤ ·)
  targets : ∀ t ∈ g.targets.toInts, 0 ≤ t ∧ t < g.size

/-- The conditions on buffers, each with the error that reports it. The one on the order of the
offsets is left open. -/
def conditions (climbs : Prop) (offsets targets : Buffer) : List (CompressedGraphError × Prop) :=
  [(.noOffsets, 1 ≤ offsets.size),
    (.ends, offsets.toInts.head? = some 0),
    (.ends, offsets.toInts.getLast? = some (targets.size : Int)),
    (.decreasing, climbs),
    (.targetRange (offsets.size - 1),
      ∀ t ∈ targets.toInts, 0 ≤ t ∧ t < (offsets.size : Int) - 1)]

/-- An error that goes with a condition is reported as a wrong value. -/
theorem report_of_mem_conditions {climbs : Prop} {offsets targets : Buffer}
    {c : CompressedGraphError × Prop} (h : c ∈ conditions climbs offsets targets) :
    ∃ message, (GraphBuildError.graph c.1).report = .plain .value message := by
  simp only [conditions, List.mem_cons, List.not_mem_nil, or_false] at h
  rcases h with rfl | rfl | rfl | rfl | rfl <;> exact ⟨_, rfl⟩

/-- The conditions on well-formed buffers hold. -/
theorem WellFormed.forall_conditions {g : CompressedGraph} (h : g.WellFormed) :
    ∀ c ∈ conditions (g.offsets.toInts.IsChain (· ≤ ·)) g.offsets g.targets, c.2 := by
  have hsize : 1 ≤ g.offsets.size := by
    rw [← Buffer.length_toInts, Nat.succ_le_iff, List.length_pos_iff]
    intro hnil
    simpa [hnil] using h.first
  have htargets : ∀ t ∈ g.targets.toInts, 0 ≤ t ∧ t < (g.offsets.size : Int) - 1 := fun t ht => by
    have hnode := h.targets t ht
    rw [size] at hnode
    omega
  simp only [conditions, List.forall_mem_cons]
  exact ⟨hsize, h.first, h.last, h.climbs, htargets, by simp⟩

/-- With the signs of the differences for the order of the offsets, the first condition that fails
is reported. -/
theorem ofBuffers?_reportsFirst (offsets targets : Buffer) :
    ReportsFirst ⟨offsets, targets⟩ (conditions (offsets.toInts.IsChain Follows) offsets targets)
      (ofBuffers? offsets targets) := by
  rw [conditions, Buffer.head?_toInts, Buffer.getLast?_toInts, ofBuffers?]
  split
  case h_2 hnone =>
    refine .inr ⟨fun hsize => ?_, rfl⟩
    have hlast : offsets.size - 1 < offsets.size := Nat.sub_one_lt_of_lt hsize
    exact hnone _ _ (Array.getElem?_eq_getElem hsize)
      (Array.back?_eq_getElem?.trans (Array.getElem?_eq_getElem hlast))
  case h_1 first last hfirst hlast =>
    refine .inl ⟨(Array.getElem?_eq_some_iff.1 hfirst).1, ?_⟩
    rw [hfirst, hlast, Option.map_some, Option.map_some, Option.some.injEq, Option.some.injEq,
      ite_or]
    refine .ite Iff.rfl fun _ => .ite Iff.rfl fun _ => .ite ?_ fun _ => .ite ?_ fun _ => rfl
    · rw [← decreases_eq_false_iff, Bool.not_eq_false]
    · have hrange := Buffer.any_eq_true_iff (b := targets)
        (p := fun t => t < 0 || (offsets.size : Int) - 1 ≤ t)
      simpa using hrange

/-- Without great drops it may as well be the order itself. -/
theorem reportsFirst_of_gentle {offsets targets : Buffer} (h : Gentle offsets) :
    ReportsFirst ⟨offsets, targets⟩ (conditions (offsets.toInts.IsChain (· ≤ ·)) offsets targets)
      (ofBuffers? offsets targets) := by
  refine (ReportsFirst.cons_congr Iff.rfl fun _ => ?_).1 (ofBuffers?_reportsFirst offsets targets)
  refine ReportsFirst.cons_congr Iff.rfl fun hfirst => ReportsFirst.cons_congr Iff.rfl fun _ => ?_
  exact ReportsFirst.cons_congr ⟨isChain_le_of_follows h, isChain_follows_of_le hfirst⟩
    fun _ => Iff.rfl

/-- Well-formed buffers are accepted. -/
theorem WellFormed.ofBuffers?_eq {g : CompressedGraph} (h : g.WellFormed) :
    ofBuffers? g.offsets g.targets = .ok g := by
  have hgentle : Gentle g.offsets := h.climbs.imp fun a b hle => by omega
  exact (reportsFirst_of_gentle hgentle).eq_ok_iff.2 ⟨rfl, h.forall_conditions⟩

/-- Of the conditions on two buffers the first one that fails is reported, always as a wrong value,
and if none does, the graph has these buffers. The offsets count as being in order if no difference
of neighbours is negative in 64-bit arithmetic. This is the order of integers unless an offset is
more than 2^63 below the one before; and well-formed buffers are always accepted. -/
theorem ofBuffers?_reports_first (offsets targets : Buffer) :
    ReportsFirst ⟨offsets, targets⟩ (conditions (offsets.toInts.IsChain Follows) offsets targets)
        (ofBuffers? offsets targets) ∧
      (Gentle offsets → ReportsFirst ⟨offsets, targets⟩
        (conditions (offsets.toInts.IsChain (· ≤ ·)) offsets targets)
        (ofBuffers? offsets targets)) ∧
      (WellFormed ⟨offsets, targets⟩ → ofBuffers? offsets targets = .ok ⟨offsets, targets⟩) ∧
      ∀ error, ofBuffers? offsets targets = .error error →
        ∃ message, (GraphBuildError.graph error).report = .plain .value message := by
  refine ⟨ofBuffers?_reportsFirst offsets targets, reportsFirst_of_gentle,
    WellFormed.ofBuffers?_eq, fun error herror => ?_⟩
  obtain ⟨condition, hmem, -⟩ := (ofBuffers?_reportsFirst offsets targets).mem_of_error herror
  exact report_of_mem_conditions hmem

/-- In general it is not the order of integers: the drop from the greatest offset to -2 passes for
a rise, and the buffers are accepted. -/
theorem ofBuffers?_accepts_drop : ¬ ∀ offsets targets : Buffer, ReportsFirst ⟨offsets, targets⟩
    (conditions (offsets.toInts.IsChain (· ≤ ·)) offsets targets) (ofBuffers? offsets targets) := by
  intro hreports
  let offsets : Buffer := #[0, 9223372036854775807, -2, 0]
  have haccepted : ofBuffers? offsets #[] = .ok ⟨offsets, #[]⟩ := by decide +kernel
  have hconditions := ((hreports offsets #[]).eq_ok_iff.1 haccepted).2
  have horder : offsets.toInts.IsChain (· ≤ ·) :=
    hconditions (.decreasing, _) (by simp [conditions])
  exact absurd horder (by decide)

end GraphFold.CompressedGraph
