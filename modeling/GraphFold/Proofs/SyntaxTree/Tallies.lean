/-
GraphFold.Proofs.SyntaxTree.Tallies — both ways of counting come to one tally.

The classes met so far determine the tally: it holds each of them once, in the
order of the first meetings, with the number of its occurrences. Raising a count
in its place keeps this, and so does rebuilding the tally, where the entry that
is added last takes the place of the old one.

  §1 Meetings — `Tally.firstMeetings`.
  §2 Tallies  — `Tally.ofClasses`, and what it holds.
  §3 Counting — raising and rebuilding, and `Tally.Counts`.
-/
import GraphFold.OrderedMap.Lemmas
import GraphFold.SyntaxTree.Census
import Mathlib.Algebra.BigOperators.Group.List.Lemmas
import Mathlib.Data.List.Dedup

namespace GraphFold.Tally

/-! ## §1 Meetings -/

/-- Every class once, in the order of the first meetings. -/
def firstMeetings (classes : List String) : List String := classes.reverse.dedup.reverse

@[simp] theorem mem_firstMeetings {classes : List String} {cls : String} :
    cls ∈ firstMeetings classes ↔ cls ∈ classes := by
  simp [firstMeetings]

theorem nodup_firstMeetings (classes : List String) : (firstMeetings classes).Nodup :=
  List.nodup_reverse.2 (List.nodup_dedup _)

theorem firstMeetings_concat_of_mem {classes : List String} {cls : String} (h : cls ∈ classes) :
    firstMeetings (classes ++ [cls]) = firstMeetings classes := by
  rw [firstMeetings, List.reverse_concat, List.dedup_cons_of_mem (List.mem_reverse.2 h)]
  rfl

theorem firstMeetings_concat_of_not_mem {classes : List String} {cls : String}
    (h : cls ∉ classes) : firstMeetings (classes ++ [cls]) = firstMeetings classes ++ [cls] := by
  rw [firstMeetings, List.reverse_concat,
    List.dedup_cons_of_notMem fun hmem => h (List.mem_reverse.1 hmem), List.reverse_cons]
  rfl

/-! ## §2 Tallies -/

/-- The tally of classes that were met one after the other. -/
def ofClasses (classes : List String) : Tally :=
  ⟨(firstMeetings classes).map fun cls => (cls, classes.count cls), by
    rw [List.map_map, Function.comp_def, List.map_id']
    exact nodup_firstMeetings classes⟩

variable (classes : List String)

theorem entries_ofClasses : (ofClasses classes).entries =
    (firstMeetings classes).map fun cls => (cls, classes.count cls) := rfl

theorem keys_ofClasses : (ofClasses classes).keys = firstMeetings classes := by
  simp [ofClasses, OrderedMap.keys, Function.comp_def]

/-- A class counts as often as it was met. -/
theorem count_ofClasses (cls : String) : (ofClasses classes).count cls = classes.count cls := by
  by_cases hmet : cls ∈ classes
  · have hentry : (cls, classes.count cls) ∈ (ofClasses classes).entries :=
      List.mem_map_of_mem (mem_firstMeetings.2 hmet)
    rw [count, OrderedMap.find?_of_mem hentry]
    rfl
  · have hnone : (ofClasses classes).find? cls = none := by
      rw [OrderedMap.find?_eq_none_iff, keys_ofClasses, mem_firstMeetings]
      exact hmet
    rw [count, hnone, List.count_eq_zero_of_not_mem hmet]
    rfl

theorem count_ofClasses_map {α : Type} (classOf : α → String) (items : List α) (cls : String) :
    (ofClasses (items.map classOf)).count cls = items.countP fun item => classOf item = cls := by
  rw [count_ofClasses, List.count, List.countP_map]
  exact List.countP_congr fun item _ => by simp

/-- All counts together. -/
def total (t : Tally) : Nat := t.entries.foldr (fun entry others => entry.2 + others) 0

/-- The counts add up to the number of meetings. -/
theorem total_ofClasses : (ofClasses classes).total = classes.length := by
  have hperm : (firstMeetings classes).Perm classes.dedup :=
    (List.perm_ext_iff_of_nodup (nodup_firstMeetings classes) (List.nodup_dedup _)).2
      fun cls => by rw [mem_firstMeetings, List.mem_dedup]
  calc (ofClasses classes).total
    _ = ((firstMeetings classes).map fun cls => classes.count cls).sum := by
      rw [total, ofClasses, List.foldr_map, List.sum, List.foldr_map]
    _ = (classes.dedup.map fun cls => classes.count cls).sum := (hperm.map _).sum_eq
    _ = classes.length := List.sum_map_count_dedup_eq_length classes

/-! ## §3 Counting -/

/-- One more class is counted in its place, or comes last. -/
theorem raise_ofClasses (cls : String) :
    (ofClasses classes).raise cls = ofClasses (classes ++ [cls]) := by
  refine OrderedMap.ext ?_
  rw [raise, count_ofClasses]
  by_cases hmet : cls ∈ classes
  · rw [OrderedMap.entries_insert_of_mem (by rwa [keys_ofClasses, mem_firstMeetings]),
      OrderedMap.replaced, entries_ofClasses, entries_ofClasses, firstMeetings_concat_of_mem hmet,
      List.map_map]
    refine List.map_congr_left fun other _ => ?_
    by_cases heq : other = cls
    · simp [heq]
    · simp [heq, Ne.symm heq]
  · have hcount : ∀ other ∈ firstMeetings classes,
        (other, (classes ++ [cls]).count other) = (other, classes.count other) := by
      intro other hother
      have hne : cls ≠ other := fun heq => hmet (heq ▸ mem_firstMeetings.1 hother)
      simp [hne]
    rw [OrderedMap.entries_insert_of_not_mem (by rwa [keys_ofClasses, mem_firstMeetings]),
      entries_ofClasses, entries_ofClasses, firstMeetings_concat_of_not_mem hmet, List.map_append,
      List.map_congr_left hcount]
    simp [List.count_eq_zero_of_not_mem hmet]

/-- Rebuilding a tally puts the raised count where the old one was. -/
theorem rebuild_eq_raise (t : Tally) (cls : String) : t.rebuild cls = t.raise cls := by
  rw [rebuild, OrderedMap.ofList_append, OrderedMap.ofList_entries]
  rfl

/-- Folding classes in this way comes to their tally. -/
def Counts (next : Tally → String → Tally) : Prop :=
  ∀ classes : List String, classes.foldl next .empty = ofClasses classes

theorem counts_raise : Counts raise := by
  intro classes
  induction classes using List.reverseRecOn with
  | nil => rfl
  | append_singleton classes cls ih =>
    rw [List.foldl_append, ih]
    exact raise_ofClasses classes cls

theorem counts_rebuild : Counts rebuild := by
  intro classes
  induction classes using List.reverseRecOn with
  | nil => rfl
  | append_singleton classes cls ih =>
    rw [List.foldl_append, ih]
    exact (rebuild_eq_raise _ cls).trans (raise_ofClasses classes cls)

end GraphFold.Tally
