/-
GraphFold.Proofs.Census.Ranking — the order in which the counts are shown, and
how many of them.

A tally has every class once, so no two of its entries tie: ranked, each stands
strictly before the next. Membership and this order leave one list only. Of it
the command shows the entries up to an end that counts from the front, or from
the back if it is negative.

  §1 Order — `Tally.Precedes`.
  §2 Count — what the entries of a tally are.
  §3 Cuts  — `Index.upTo_eq`.
-/
import GraphFold.Index.Slice
import GraphFold.Proofs.SyntaxTree.Tallies
import Mathlib.Data.List.DropRight
import Mathlib.Data.Set.Card

namespace GraphFold

namespace Tally

/-! ## §1 Order -/

/-- The one entry is shown before the other: by the lesser of the pairs of the count, negated, and
the name. -/
def Precedes (a b : String × Nat) : Prop :=
  -(a.2 : Int) < -(b.2 : Int) ∨ a.2 = b.2 ∧ a.1 < b.1

/-- Entries of different classes that stand in the order of the ranking do so strictly. -/
theorem precedes_of_le {a b : String × Nat} (hne : a.1 ≠ b.1)
    (hle : (decide (b.2 < a.2) || (a.2 == b.2 && decide (a.1 ≤ b.1))) = true) : Precedes a b := by
  simp only [Bool.or_eq_true, Bool.and_eq_true, decide_eq_true_eq, beq_iff_eq] at hle
  rcases hle with hcount | ⟨hcount, hname⟩
  · exact .inl (by omega)
  · refine .inr ⟨hcount, ?_⟩
    by_contra hnot
    exact hne (String.le_antisymm hname (String.not_lt.1 hnot))

variable {t : Tally}

theorem mem_ranked {entry : String × Nat} : entry ∈ t.ranked ↔ entry ∈ t.entries :=
  List.mem_mergeSort

/-- Ranked, the entries of a tally stand strictly one before the other. -/
theorem pairwise_ranked (t : Tally) : t.ranked.Pairwise Precedes := by
  have hsorted : t.ranked.Pairwise fun a b =>
      (decide (b.2 < a.2) || (a.2 == b.2 && decide (a.1 ≤ b.1))) = true := by
    refine List.pairwise_mergeSort ?_ ?_ t.entries
    · intro a b c hab hbc
      simp only [Bool.or_eq_true, Bool.and_eq_true, decide_eq_true_eq, beq_iff_eq] at hab hbc ⊢
      rcases hab with hab | ⟨hab, hname⟩
      · exact .inl (by omega)
      · rcases hbc with hbc | ⟨hbc, hname'⟩
        · exact .inl (by omega)
        · exact .inr ⟨hab.trans hbc, String.le_trans hname hname'⟩
    · intro a b
      simp only [Bool.or_eq_true, Bool.and_eq_true, decide_eq_true_eq, beq_iff_eq]
      rcases Nat.lt_trichotomy a.2 b.2 with hlt | heq | hgt
      · exact .inr (.inl hlt)
      · exact (String.le_total a.1 b.1).imp (fun hle => .inr ⟨heq, hle⟩)
          fun hle => .inr ⟨heq.symm, hle⟩
      · exact .inl (.inl hgt)
  have hdistinct : (t.ranked.map Prod.fst).Nodup :=
    ((List.mergeSort_perm t.entries _).map Prod.fst).nodup_iff.2 t.nodup
  exact (hsorted.and (List.pairwise_map.1 hdistinct)).imp fun hab => precedes_of_le hab.2 hab.1

/-! ## §2 Count -/

theorem mem_entries_ofClasses {classes : List String} {cls : String} {n : Nat} :
    (cls, n) ∈ (ofClasses classes).entries ↔ 0 < n ∧ n = classes.count cls := by
  rw [ofClasses, List.mem_map]
  constructor
  · rintro ⟨_, hmet, heq⟩
    cases heq
    exact ⟨List.count_pos_iff.2 (mem_firstMeetings.1 hmet), rfl⟩
  · rintro ⟨hpos, rfl⟩
    exact ⟨cls, mem_firstMeetings.2 (List.count_pos_iff.1 hpos), rfl⟩

/-- A class counts as often as there are items of it, if each is listed once. -/
theorem count_map_eq_ncard {α : Type} {items : List α} {all : Set α} (hnodup : items.Nodup)
    (hmem : ∀ x, x ∈ items ↔ x ∈ all) (classOf : α → String) (cls : String) :
    (items.map classOf).count cls = {x | x ∈ all ∧ classOf x = cls}.ncard := by
  classical
  have hset : {x | x ∈ all ∧ classOf x = cls} =
      ((items.filter fun x => classOf x = cls).toFinset : Set α) := by
    ext x
    simp [hmem]
  rw [hset, Set.ncard_coe_finset, List.toFinset_card_of_nodup (hnodup.filter _),
    ← List.countP_eq_length_filter, List.count, List.countP_map]
  exact List.countP_congr fun x _ => by simp

/-- The ranking of the classes of some items has exactly these entries. -/
theorem mem_ranked_ofClasses_map {α : Type} {items : List α} {all : Set α} (hnodup : items.Nodup)
    (hmem : ∀ x, x ∈ items ↔ x ∈ all) (classOf : α → String) {cls : String} {n : Nat} :
    (cls, n) ∈ (ofClasses (items.map classOf)).ranked ↔
      0 < n ∧ n = {x | x ∈ all ∧ classOf x = cls}.ncard := by
  rw [mem_ranked, mem_entries_ofClasses, count_map_eq_ncard hnodup hmem]

end Tally

/-! ## §3 Cuts -/

/-- The entries before an end: so many from the front, or without so many at the back. -/
theorem Index.upTo_eq {α : Type} (xs : List α) (stop : Int) :
    upTo xs stop = if 0 ≤ stop then xs.take stop.toNat else xs.rdrop stop.natAbs := by
  unfold upTo cut
  split
  · rw [← List.take_eq_take_min]
  · rw [List.rdrop]
    congr 1
    omega

end GraphFold
