/-
GraphFold.Proofs.Value.Sameness — sameness of values and of keys is an equivalence,
and it is what a seen set goes by.

Sameness mixes data by content, numbers by what they are, places by owner and
index, and objects by name or by themselves, inside tuples of any depth. The code
of a value carries the proofs: values that are the same have one code
(`Value.like_of_same`), and a code can be read back up to sameness, whatever stands
behind it (`Value.same_of_code_append`). So sameness is equality of codes
(`Value.same_iff_code_eq`), which gives all laws of an equivalence at once.

  §1 Numbers      — what tells a number, and its code.
  §2 One code     — what values that are the same share.
  §3 Reading back — values of one code are the same.
  §4 Laws         — reflexive, symmetric, transitive.
  §5 Keys         — `Key.same`, and the order of keys.
-/
import GraphFold.Proofs.Value.Codes

namespace GraphFold

/-! ## §1 Numbers -/

namespace Index.Numeral

theorem exact_fst (n : Numeral) : n.exact.1 = n.floor := by
  cases n <;> rfl

/-- A number is whole exactly if it is told by its integer part alone. -/
theorem isWhole_iff {n : Numeral} : n.isWhole = true ↔ n.exact.2 = 0 := by
  cases n with
  | truth | int => exact iff_of_true rfl rfl
  | real x =>
    show x.isWhole = true ↔ (if x.isWhole then 0 else x.bits.toNat) = 0
    split
    · rename_i h
      exact iff_of_true h rfl
    · rename_i h
      refine iff_of_false h fun hbits => h ?_
      have hzero : x.bits = 0 := UInt64.toNat_inj.1 hbits
      simp [Binary.isWhole, Binary.isFinite, Binary.scale, Binary.significand, Binary.fraction,
        hzero]

end Index.Numeral

/-- The code of a number is made of what tells it. -/
theorem numberCode_eq (n : Index.Numeral) :
    numberCode n = if n.exact.2 = 0 then [1, n.exact.1] else [15, n.exact.1, n.exact.2] := by
  rw [numberCode, n.exact_fst]
  by_cases h : n.isWhole = true
  · rw [if_pos h, if_pos (Index.Numeral.isWhole_iff.1 h)]
  · rw [if_neg h, if_neg fun h' => h (Index.Numeral.isWhole_iff.2 h')]

theorem numberCode_append_inj {m n : Index.Numeral} {a b : List Int}
    (h : numberCode m ++ a = numberCode n ++ b) : m.exact = n.exact ∧ a = b := by
  rw [numberCode_eq, numberCode_eq] at h
  split at h <;> split at h
  · rename_i hm hn
    simp only [List.cons_append, List.nil_append, List.cons.injEq, true_and] at h
    exact ⟨Prod.ext h.1 (hm.trans hn.symm), h.2⟩
  · simp at h
  · simp at h
  · simp only [List.cons_append, List.nil_append, List.cons.injEq, true_and] at h
    exact ⟨Prod.ext h.1 (Int.ofNat.inj h.2.1), h.2.2⟩

theorem numberCode_congr {m n : Index.Numeral} (h : m.exact = n.exact) :
    numberCode m = numberCode n := by
  rw [numberCode_eq, numberCode_eq, h]

/-- A code with another first number is not that of a number. -/
theorem cons_ne_numberCode_append {c : Int} (hc : c ≠ 1) (hc' : c ≠ 15) (n : Index.Numeral)
    (a b : List Int) : c :: a ≠ numberCode n ++ b := by
  rw [numberCode_eq]
  split <;> simp [hc, hc']

/-! ## §2 One code -/

namespace Value

theorem sameNumber_iff {v w : Value} : v.sameNumber w = true ↔
    ∃ m n, v.numeral? = some m ∧ w.numeral? = some n ∧ m.exact = n.exact := by
  unfold sameNumber
  split
  · rename_i m n hm hn
    simp [hm, hn]
  · rename_i h
    refine iff_of_false Bool.false_ne_true ?_
    rintro ⟨m, n, hm, hn, _⟩
    exact h m n hm hn

/-- A number is the same as another value exactly if both are one number. -/
theorem same_of_numeral? {v w : Value} {m : Index.Numeral} (h : v.numeral? = some m) :
    v.same w = v.sameNumber w := by
  cases v <;> simp [numeral?] at h <;> rw [same]

theorem code_of_numeral? {v : Value} {n : Index.Numeral} (h : v.numeral? = some n) :
    v.code = numberCode n := by
  cases v <;> simp [numeral?] at h <;> rw [code, h]

theorem unhashablePart?_of_numeral? {v : Value} {n : Index.Numeral} (h : v.numeral? = some n) :
    v.unhashablePart? = Option.none := by
  cases v <;> simp [numeral?] at h <;> rfl

/-- Only a number has the code of a number. -/
theorem exists_numeral?_of_code {w : Value} {m : Index.Numeral} {a b : List Int}
    (h : numberCode m ++ a = w.code ++ b) : ∃ n, w.numeral? = some n := by
  cases w with
  | truth _ | int _ | real _ => exact ⟨_, rfl⟩
  | _ => exact absurd h.symm (cons_ne_numberCode_append (by decide) (by decide) m _ a)

/-- What a value shares with one that is the same. -/
structure Like (v w : Value) : Prop where
  code_eq : v.code = w.code
  unhashablePart?_eq : v.unhashablePart? = w.unhashablePart?

theorem like_of_sameNumber {v w : Value} (h : v.sameNumber w = true) : v.Like w := by
  obtain ⟨m, n, hm, hn, hexact⟩ := sameNumber_iff.1 h
  refine ⟨?_, ?_⟩
  · rw [code_of_numeral? hm, code_of_numeral? hn, numberCode_congr hexact]
  · rw [unhashablePart?_of_numeral? hm, unhashablePart?_of_numeral? hn]

end Value

/-- Objects that are the same are of one class, and have one name if that goes by names. -/
theorem ObjectRef.same_iff {a b : ObjectRef} :
    a.same b = true ↔ a.cls = b.cls ∧ a.name = b.name ∧ (a.cls.goesByName = false → a.id = b.id) := by
  obtain ⟨id, cls, name⟩ := a
  obtain ⟨id', cls', name'⟩ := b
  cases hnamed : cls.goesByName
  · simp only [same, hnamed, Bool.false_eq_true, if_false, beq_iff_eq, mk.injEq, true_implies]
    exact ⟨fun ⟨hid, hcls, hname⟩ => ⟨hcls, hname, hid⟩,
      fun ⟨hcls, hname, hid⟩ => ⟨hid, hcls, hname⟩⟩
  · simp [same, hnamed]

theorem ObjectRef.code_eq_of_same {a b : ObjectRef} (h : a.same b = true) : a.code = b.code := by
  obtain ⟨hcls, hname, hid⟩ := same_iff.1 h
  unfold code
  rw [hcls, hname]
  split
  · rfl
  · rename_i hunnamed
    rw [hid (by rw [hcls]; exact Bool.eq_false_iff.2 hunnamed)]

theorem ObjectRef.same_of_code_append {a b : ObjectRef} {x y : List Int}
    (h : a.code ++ x = b.code ++ y) : a.same b = true ∧ x = y := by
  rw [same_iff]
  unfold code at h
  split at h <;> split at h <;>
    simp only [List.cons_append, List.cons.injEq, List.append_assoc, Int.reduceEq, false_and,
      true_and] at h
  · rename_i hnamed _
    obtain ⟨hcls, hafter⟩ := ObjectClass.code_append_inj _ _ _ _ h
    obtain ⟨hname, hxy⟩ := textCode_append_inj hafter
    exact ⟨⟨hcls, hname, fun hunnamed => by simp [hunnamed] at hnamed⟩, hxy⟩
  · obtain ⟨hcls, hafter⟩ := ObjectClass.code_append_inj _ _ _ _ h
    obtain ⟨hid, hlater⟩ := textCode_append_inj hafter
    obtain ⟨hname, hxy⟩ := textCode_append_inj hlater
    exact ⟨⟨hcls, hname, fun _ => hid⟩, hxy⟩

namespace Value

/-! The recursion is that of sameness, on the first value. Numbers leave it at once, for they are
compared across their classes. -/

mutual

/-- Values that are the same have one code. -/
theorem like_of_same : ∀ {v w : Value}, v.same w = true → v.Like w
  | none, w, h => by
    cases w with
    | none => exact ⟨rfl, rfl⟩
    | _ => cases h
  | truth b, w, h | int b, w, h | real b, w, h => like_of_sameNumber (by rwa [same] at h)
  | text s, w, h | vertex s, w, h | scalarType s, w, h | objectType s, w, h | field s, w, h
    | syntaxNode s, w, h => by
    cases w <;> simp [same] at h
    subst h
    exact ⟨rfl, rfl⟩
  | tuple items, w, h => by
    cases w with
    | tuple others =>
      obtain ⟨hlength, hcodes, hparts⟩ := like_of_sameAll items h
      exact ⟨by rw [code, code, hlength, hcodes], hparts⟩
    | _ => cases h
  | list items, w, h => by
    cases w with
    | list others =>
      obtain ⟨hlength, hcodes, _⟩ := like_of_sameAll items h
      exact ⟨by rw [code, code, hlength, hcodes], rfl⟩
    | _ => cases h
  | mapping entries, w, h => by
    cases w with
    | mapping others =>
      obtain ⟨hlength, hcodes⟩ := like_of_sameEntries entries h
      exact ⟨by rw [code, code, hlength, hcodes], rfl⟩
    | _ => cases h
  | treeNode owner index, w, h | graphNode owner index, w, h => by
    cases w <;> simp [same] at h
    obtain ⟨hserial, hindex⟩ := h
    obtain ⟨hcode, hpart⟩ := like_of_same hindex
    exact ⟨by rw [code, code, hserial, hcode], hpart⟩
  | object s, w, h => by
    cases w with
    | object t =>
      have hcode := ObjectRef.code_eq_of_same h
      have hcls := (ObjectRef.same_iff.1 h).1
      exact ⟨by rw [code, code, hcode], by rw [unhashablePart?, unhashablePart?, hcls]⟩
    | _ => cases h

theorem like_of_sameAll : ∀ (items : List Value) {others : List Value},
    same.sameAll items others = true →
    items.length = others.length ∧ code.codes items = code.codes others ∧
      unhashablePart?.first? items = unhashablePart?.first? others
  | [], [], _ => ⟨rfl, rfl, rfl⟩
  | [], _ :: _, h | _ :: _, [], h => by cases h
  | item :: later, other :: others, h => by
    obtain ⟨hitem, hlater⟩ := Bool.and_eq_true_iff.1 h
    obtain ⟨hcode, hpart⟩ := like_of_same hitem
    obtain ⟨hlength, hcodes, hparts⟩ := like_of_sameAll later hlater
    refine ⟨by simp [hlength], by rw [code.codes, code.codes, hcode, hcodes], ?_⟩
    rw [unhashablePart?.first?, unhashablePart?.first?, hpart, hparts]

theorem like_of_sameEntries : ∀ (entries : List (String × Value)) {others : List (String × Value)},
    same.sameEntries entries others = true →
    entries.length = others.length ∧ code.entryCodes entries = code.entryCodes others
  | [], [], _ => ⟨rfl, rfl⟩
  | [], _ :: _, h | _ :: _, [], h => by cases h
  | (name, value) :: later, (name', other) :: others, h => by
    obtain ⟨hentry, hlater⟩ := Bool.and_eq_true_iff.1 h
    obtain ⟨hname, hvalue⟩ := Bool.and_eq_true_iff.1 hentry
    obtain ⟨hcode, _⟩ := like_of_same hvalue
    obtain ⟨hlength, hcodes⟩ := like_of_sameEntries later hlater
    refine ⟨by simp [hlength], ?_⟩
    rw [code.entryCodes, code.entryCodes, beq_iff_eq.1 hname, hcode, hcodes]

end

/-! ## §3 Reading back -/

/-! The recursion is that of the code, on the first value. Each part leaves the code of what comes
after it, so two codes are compared together with whatever stands behind them. -/

mutual

/-- Values of one code are the same. -/
theorem same_of_code_append : ∀ {v w : Value} {a b : List Int},
    v.code ++ a = w.code ++ b → v.same w = true ∧ a = b
  | truth _, w, a, b, h | int _, w, a, b, h | real _, w, a, b, h => by
    obtain ⟨n, hn⟩ := exists_numeral?_of_code h
    rw [code_of_numeral? hn] at h
    obtain ⟨hexact, hab⟩ := numberCode_append_inj h
    rw [same_of_numeral? rfl]
    exact ⟨sameNumber_iff.2 ⟨_, n, rfl, hn, hexact⟩, hab⟩
  | none, w, a, b, h => by
    cases w <;> simp [code, cons_ne_numberCode_append] at h
    exact ⟨rfl, h⟩
  | text s, w, a, b, h | vertex s, w, a, b, h | scalarType s, w, a, b, h => by
    cases w <;> simp [code, cons_ne_numberCode_append] at h
    obtain ⟨rfl, hab⟩ := textCode_append_inj h
    exact ⟨by simp [same], hab⟩
  | tuple items, w, a, b, h | list items, w, a, b, h => by
    cases w <;> simp [code, cons_ne_numberCode_append] at h
    exact sameAll_of_codes_append items (by omega) h.2
  | mapping entries, w, a, b, h => by
    cases w <;> simp [code, cons_ne_numberCode_append] at h
    exact sameEntries_of_codes_append entries (by omega) h.2
  | treeNode owner index, w, a, b, h | graphNode owner index, w, a, b, h => by
    cases w <;> simp [code, cons_ne_numberCode_append] at h
    obtain ⟨hindex, hab⟩ := same_of_code_append (v := index) h.2
    refine ⟨?_, hab⟩
    simp only [same, hindex, Bool.and_true, beq_iff_eq]
    omega
  | objectType t, w, a, b, h => by
    cases w <;> simp [code, cons_ne_numberCode_append] at h
    obtain ⟨rfl, hab⟩ := ObjectType.code_append_inj _ _ _ _ h
    exact ⟨by simp [same], hab⟩
  | field f, w, a, b, h => by
    cases w <;> simp [code, cons_ne_numberCode_append] at h
    obtain ⟨rfl, hab⟩ := FieldDefinition.code_append_inj _ _ _ _ h
    exact ⟨by simp [same], hab⟩
  | syntaxNode n, w, a, b, h => by
    cases w <;> simp [code, cons_ne_numberCode_append] at h
    obtain ⟨rfl, hab⟩ := SyntaxRef.code_append_inj _ _ _ _ h
    exact ⟨by simp [same], hab⟩
  | object o, w, a, b, h => by
    cases w <;> simp [code, cons_ne_numberCode_append] at h
    exact ObjectRef.same_of_code_append h

theorem sameAll_of_codes_append : ∀ (items : List Value) {others : List Value} {a b : List Int},
    items.length = others.length → code.codes items ++ a = code.codes others ++ b →
    same.sameAll items others = true ∧ a = b
  | [], [], _, _, _, h => ⟨rfl, h⟩
  | [], _ :: _, _, _, hlength, _ | _ :: _, [], _, _, hlength, _ => by cases hlength
  | item :: later, other :: others, a, b, hlength, h => by
    rw [code.codes, code.codes, List.append_assoc, List.append_assoc] at h
    obtain ⟨hsame, hrest⟩ := same_of_code_append h
    obtain ⟨hall, hab⟩ := sameAll_of_codes_append later (Nat.succ.inj hlength) hrest
    exact ⟨by rw [same.sameAll, hsame, hall]; rfl, hab⟩

theorem sameEntries_of_codes_append : ∀ (entries : List (String × Value))
    {others : List (String × Value)} {a b : List Int},
    entries.length = others.length →
    code.entryCodes entries ++ a = code.entryCodes others ++ b →
    same.sameEntries entries others = true ∧ a = b
  | [], [], _, _, _, h => ⟨rfl, h⟩
  | [], _ :: _, _, _, hlength, _ | _ :: _, [], _, _, hlength, _ => by cases hlength
  | (name, value) :: later, (name', other) :: others, a, b, hlength, h => by
    simp only [code.entryCodes, List.append_assoc] at h
    obtain ⟨rfl, hafter⟩ := textCode_append_inj h
    obtain ⟨hsame, hrest⟩ := same_of_code_append hafter
    obtain ⟨hall, hab⟩ := sameEntries_of_codes_append later (Nat.succ.inj hlength) hrest
    exact ⟨by rw [same.sameEntries, hsame, hall]; simp, hab⟩

end

/-! ## §4 Laws -/

variable {u v w : Value}

/-- Sameness is equality of codes. -/
theorem same_iff_code_eq : v.same w = true ↔ v.code = w.code :=
  ⟨fun h => (like_of_same h).code_eq,
    fun h => (same_of_code_append (a := []) (b := []) (by rw [h])).1⟩

theorem same_self (v : Value) : v.same v = true := same_iff_code_eq.2 rfl

theorem same_symm (h : v.same w = true) : w.same v = true :=
  same_iff_code_eq.2 (same_iff_code_eq.1 h).symm

theorem same_trans (huv : u.same v = true) (hvw : v.same w = true) : u.same w = true :=
  same_iff_code_eq.2 ((same_iff_code_eq.1 huv).trans (same_iff_code_eq.1 hvw))

example : (Value.tuple [.truth true, .tuple [.int 0, .text "1"]]).same
    (.tuple [.int 1, .tuple [.truth false, .text "1"]]) = true := rfl

end Value

/-! ## §5 Keys -/

namespace Key

/-- Whether two keys are the same: the same value, or the place of one owner at the same index. -/
def same : Key → Key → Bool
  | value v, value w => v.same w
  | place kind serial _ index, place kind' serial' _ index' =>
    kind == kind' && serial == serial' && index.same index'
  | _, _ => false

/-- The code of a place starts with a number with which no code of a value does. -/
theorem code_value_ne {c : Int} (hc : c = 13 ∨ c = 14) (v : Value) (rest : List Int) :
    c :: rest ≠ v.code := by
  intro h
  cases v with
  | truth _ | int _ | real _ =>
    refine cons_ne_numberCode_append ?_ ?_ _ rest [] (by rw [h, Value.code, List.append_nil])
    all_goals omega
  | _ =>
    simp only [Value.code, List.cons.injEq] at h
    omega

/-- A seen set takes one key for another exactly if they are the same. -/
theorem compare_eq_iff_same {a b : Key} : compare a b = .eq ↔ a.same b = true := by
  rw [compare_eq_iff]
  cases a with
  | value v =>
    cases b with
    | value w => exact Value.same_iff_code_eq.symm
    | place kind serial owner index =>
      refine iff_of_false (fun h => ?_) Bool.false_ne_true
      cases kind
      · exact code_value_ne (.inl rfl) v _ h.symm
      · exact code_value_ne (.inr rfl) v _ h.symm
  | place kind serial owner index =>
    cases b with
    | value w =>
      refine iff_of_false (fun h => ?_) Bool.false_ne_true
      cases kind
      · exact code_value_ne (.inl rfl) w _ h
      · exact code_value_ne (.inr rfl) w _ h
    | place kind' serial' owner' index' =>
      have hindex := Value.same_iff_code_eq (v := index) (w := index')
      have hserial : (serial : Int) = serial' ↔ serial = serial' := Int.ofNat_inj
      cases kind <;> cases kind' <;> simp [code, same, hindex, hserial]

variable {a b c : Key}

theorem same_self (a : Key) : a.same a = true :=
  compare_eq_iff_same.1 Std.ReflCmp.compare_self

theorem same_symm (h : a.same b = true) : b.same a = true :=
  compare_eq_iff_same.1 (Std.OrientedCmp.eq_symm (compare_eq_iff_same.2 h))

theorem same_trans (hab : a.same b = true) (hbc : b.same c = true) : a.same c = true :=
  compare_eq_iff_same.1
    (Std.TransCmp.eq_trans (compare_eq_iff_same.2 hab) (compare_eq_iff_same.2 hbc))

end Key

end GraphFold
