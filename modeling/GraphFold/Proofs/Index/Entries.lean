/-
GraphFold.Proofs.Index.Entries — the entries of index buffers as integers, and
checks that are made one after the other.

Every entry is an integer from -2^63 to 2^63 - 1. A difference of two entries
wraps around, so it has the sign of the true one only if that fits 64 bits.

  §1 Checks  — `ReportsFirst`.
  §2 Entries — bounds, differences and ways between buffers and integers.
  §3 Picking — positions and slices.
-/
import GraphFold.Index.Buffer
import Mathlib.Data.List.Chain

namespace GraphFold.Index

/-! ## §1 Checks -/

/-- The outcome of making `a` under conditions: `a` itself if all of them hold, and otherwise the
error that goes with the first one that does not. -/
def ReportsFirst {ε α : Type} (a : α) : List (ε × Prop) → Except ε α → Prop
  | [], outcome => outcome = .ok a
  | (error, condition) :: rest, outcome =>
    (condition ∧ ReportsFirst a rest outcome) ∨ (¬ condition ∧ outcome = .error error)

namespace ReportsFirst

variable {ε α : Type} {a b : α} {error : ε} {condition other : Prop}
  {conditions rest : List (ε × Prop)} {outcome : Except ε α}

/-- A branch that reports a condition that fails, before the others are looked at. -/
theorem ite {test : Prop} [Decidable test] (htest : test ↔ ¬ condition)
    (hrest : condition → ReportsFirst a rest outcome) :
    ReportsFirst a ((error, condition) :: rest) (if test then .error error else outcome) := by
  by_cases h : test
  · exact .inr ⟨htest.1 h, if_pos h⟩
  · have hcondition : condition := Classical.not_not.1 fun hnot => h (htest.2 hnot)
    exact .inl ⟨hcondition, by rw [if_neg h]; exact hrest hcondition⟩

/-- Something is made exactly if all conditions hold, and then it is `a`. -/
theorem eq_ok_iff (h : ReportsFirst a conditions outcome) :
    outcome = .ok b ↔ b = a ∧ ∀ c ∈ conditions, c.2 := by
  induction conditions with
  | nil =>
    cases h
    simp [eq_comm]
  | cons c rest ih =>
    rcases h with ⟨hc, hrest⟩ | ⟨hc, rfl⟩
    · simp [ih hrest, hc]
    · simp [hc]

/-- An error that is reported goes with one of the conditions. -/
theorem mem_of_error (h : ReportsFirst a conditions outcome) (he : outcome = .error error) :
    ∃ condition, (error, condition) ∈ conditions ∧ ¬ condition := by
  induction conditions with
  | nil =>
    cases h
    cases he
  | cons c rest ih =>
    rcases h with ⟨-, hrest⟩ | ⟨hc, hfail⟩
    · obtain ⟨condition, hmem, hnot⟩ := ih hrest
      exact ⟨condition, List.mem_cons_of_mem _ hmem, hnot⟩
    · cases hfail.symm.trans he
      exact ⟨c.2, List.mem_cons_self, hc⟩

/-- The first condition may be exchanged for an equivalent one, and so may the others where the
first one holds. -/
theorem cons_congr {rest' : List (ε × Prop)} (hcondition : condition ↔ other)
    (hrest : condition → (ReportsFirst a rest outcome ↔ ReportsFirst a rest' outcome)) :
    ReportsFirst a ((error, condition) :: rest) outcome ↔
      ReportsFirst a ((error, other) :: rest') outcome := by
  refine or_congr ?_ (by rw [hcondition])
  rw [← hcondition]
  exact and_congr_right hrest

/-- Reporting the errors as others changes nothing else. -/
theorem mapError {ε' : Type} (f : ε → ε') (h : ReportsFirst a conditions outcome) :
    ReportsFirst a (conditions.map fun c => (f c.1, c.2)) (outcome.mapError f) := by
  induction conditions with
  | nil =>
    cases h
    rfl
  | cons c rest ih =>
    rcases h with ⟨hc, hrest⟩ | ⟨hc, rfl⟩
    · exact .inl ⟨hc, ih hrest⟩
    · exact .inr ⟨hc, rfl⟩

end ReportsFirst

/-! ## §2 Entries -/

/-- An entry lies between -2^63 and 2^63 - 1. -/
theorem toInt_bounds (a : Int64) : -(powerOfTwo 63 : Int) ≤ a.toInt ∧ a.toInt < powerOfTwo 63 :=
  ⟨a.le_toInt, a.toInt_lt⟩

theorem holds_index_iff {i : Int} :
    Dtype.index.holds i = true ↔ -(powerOfTwo 63 : Int) ≤ i ∧ i < powerOfTwo 63 := by
  have hdef : Dtype.index.holds i =
      (decide (-(powerOfTwo 63 : Int) ≤ i) && decide (i ≤ (powerOfTwo 63 : Int) - 1)) := rfl
  rw [hdef, Bool.and_eq_true, decide_eq_true_eq, decide_eq_true_eq]
  omega

/-- The array of these entries. -/
def Given.ofInts (xs : List Int) : Given :=
  .array ⟨.index, [xs.length], .row (xs.map .leaf)⟩

/-- The second entry follows the first if their difference in 64-bit arithmetic is not to be
negative: it is not less, and not too far above; or it is so far below that the difference wraps
around. -/
def Follows (a b : Int) : Prop := a ≤ b ∧ b - a < powerOfTwo 63 ∨ b + powerOfTwo 63 < a

theorem sub_neg_iff {a b : Int64} : b - a < 0 ↔ ¬ Follows a.toInt b.toInt := by
  obtain ⟨ha, ha'⟩ := toInt_bounds a
  obtain ⟨hb, hb'⟩ := toInt_bounds b
  have hpower : (powerOfTwo 63 : Int) = 9223372036854775808 := rfl
  have hzero : (0 : Int64).toInt = 0 := rfl
  rw [Int64.lt_iff_toInt_lt, Int64.toInt_sub, hzero, Int.bmod_def, Follows]
  omega

theorem Follows.le {a b : Int} (h : Follows a b) (hdrop : a ≤ b + (powerOfTwo 63 : Int)) :
    a ≤ b := by
  rcases h with h | h <;> omega

namespace Buffer

@[simp] theorem length_toInts (b : Buffer) : b.toInts.length = b.size := by
  simp [toInts]

theorem getElem?_toInts (b : Buffer) (k : Nat) : b.toInts[k]? = b[k]?.map Int64.toInt := by
  simp [toInts]

theorem head?_toInts (b : Buffer) : b.toInts.head? = b[0]?.map Int64.toInt := by
  rw [List.head?_eq_getElem?, getElem?_toInts]

theorem getLast?_toInts (b : Buffer) : b.toInts.getLast? = b.back?.map Int64.toInt := by
  rw [List.getLast?_eq_getElem?, getElem?_toInts, length_toInts, Array.back?_eq_getElem?]

theorem any_eq_true_iff {b : Buffer} {p : Int → Bool} :
    b.any (fun x => p x.toInt) = true ↔ ¬ ∀ i ∈ b.toInts, p i = false := by
  rw [← Bool.not_eq_false, not_iff_not]
  rw [Array.any_eq_false, toInts]
  constructor
  · intro h i hi
    obtain ⟨x, hx, rfl⟩ := List.mem_map.1 hi
    obtain ⟨k, hk, rfl⟩ := List.getElem_of_mem hx
    simpa using h k hk
  · intro h k hk
    simpa using h _ (List.mem_map_of_mem (Array.getElem_mem_toList hk))

theorem toInts_inj {b c : Buffer} (h : b.toInts = c.toInts) : b = c :=
  Array.toList_inj.1 ((List.map_inj_right fun _ _ => Int64.toInt_inj.1).1 h)

/-- Integers that fit 64 bits are kept. -/
theorem toInts_ofInts {xs : List Int} (h : ∀ x ∈ xs, Dtype.index.holds x = true) :
    (ofInts xs).toInts = xs := by
  rw [toInts, ofInts, List.map_map]
  refine (List.map_congr_left fun x hx => ?_).trans (List.map_id xs)
  obtain ⟨hlow, hhigh⟩ := holds_index_iff.1 (h x hx)
  exact Int64.toInt_ofInt_of_le hlow hhigh

@[simp] theorem size_ofInts (xs : List Int) : (ofInts xs).size = xs.length := by
  simp [ofInts]

/-! ## §3 Picking -/

/-- The entry at a position of the buffer. -/
theorem entry?_natCast {b : Buffer} {k : Nat} {x : Int} (h : b.toInts[k]? = some x) :
    b.entry? k = .ok x := by
  have hlt : k < b.size := by
    rw [← length_toInts]
    exact (List.getElem?_eq_some_iff.1 h).1
  obtain ⟨a, ha, rfl⟩ := Option.map_eq_some_iff.1 ((getElem?_toInts b k).symm.trans h)
  unfold entry?
  rw [position?_natCast hlt]
  simp [ha]

end Buffer

/-- A slice between two positions, the second one in the sequence. -/
theorem toList_slice {α : Type} {xs : Array α} {start stop : Nat} (hstop : stop ≤ xs.size) :
    (slice xs start stop).toList = (xs.toList.take stop).drop start := by
  have hcut : ∀ k : Nat, cut xs.size (k : Int) = min k xs.size := fun k => by
    simp [cut]
  rw [slice, hcut, hcut, Nat.min_eq_left hstop, Array.toList_extract, List.extract_eq_drop_take']
  rcases Nat.le_total start xs.size with h | h
  · rw [Nat.min_eq_left h]
  · have hshort : (xs.toList.take stop).length ≤ xs.size := List.length_take_le' ..
    rw [Nat.min_eq_right h, List.drop_eq_nil_of_le hshort,
      List.drop_eq_nil_of_le (hshort.trans h)]

end GraphFold.Index
