/-
GraphFold.Proofs.Value.Codes — the codes of type definitions, of classes and of
syntax nodes can be read back.

A code starts with the lengths of its parts, so what follows it can be split
off: two codes with something behind them are equal only if the codes are and
so is the rest. Keys are ordered by their codes; the keys of two type
definitions, or of two syntax nodes that are their own keys, are equal exactly if
the definitions or the nodes are.

  §1 Codes — texts, lists, fields, object types, classes, syntax nodes.
  §2 Keys  — the order of keys, and the keys of definitions and syntax nodes.
-/
import GraphFold.Value.Key

namespace GraphFold

/-! ## §1 Codes -/

theorem textCode_append_inj {s t : String} {a b : List Int}
    (h : textCode s ++ a = textCode t ++ b) : s = t ∧ a = b := by
  simp only [textCode, List.cons_append, List.cons.injEq] at h
  obtain ⟨hlength, hrest⟩ := h
  have hlength' : s.toList.length = t.toList.length := by
    rw [String.length_toList, String.length_toList]
    exact Int.ofNat.inj hlength
  obtain ⟨hcodes, hab⟩ := List.append_inj hrest (by simpa using hlength')
  have hchars : s.toList = t.toList := by
    refine (List.map_inj_right ?_).1 hcodes
    intro c d hcd
    exact Char.toNat_inj.1 (Int.ofNat.inj hcd)
  exact ⟨String.toList_inj.1 hchars, hab⟩

/-- Lists are read back item by item, if their items are. -/
theorem listCode_append_inj {α : Type} {code : α → List Int}
    (hcode : ∀ x y a b, code x ++ a = code y ++ b → x = y ∧ a = b) {xs ys : List α}
    {a b : List Int} (h : listCode code xs ++ a = listCode code ys ++ b) : xs = ys ∧ a = b := by
  simp only [listCode, List.cons_append, List.cons.injEq] at h
  obtain ⟨hlength, hrest⟩ := h
  have hlength' : xs.length = ys.length := Int.ofNat.inj hlength
  clear hlength
  induction xs generalizing ys with
  | nil =>
    cases ys with
    | nil => exact ⟨rfl, hrest⟩
    | cons y ys => simp at hlength'
  | cons x xs ih =>
    cases ys with
    | nil => simp at hlength'
    | cons y ys =>
      simp only [List.flatMap_cons, List.append_assoc] at hrest
      obtain ⟨rfl, hlater⟩ := hcode x y _ _ hrest
      obtain ⟨rfl, hab⟩ := ih hlater (by simpa using hlength')
      exact ⟨rfl, hab⟩

theorem FieldDefinition.code_append_inj (f g : FieldDefinition) (a b : List Int)
    (h : f.code ++ a = g.code ++ b) : f = g ∧ a = b := by
  simp only [code, List.append_assoc] at h
  obtain ⟨howner, hafter⟩ := textCode_append_inj h
  obtain ⟨hname, hlater⟩ := textCode_append_inj hafter
  obtain ⟨htype, hab⟩ := textCode_append_inj hlater
  cases f
  cases g
  simp only at howner hname htype
  rw [howner, hname, htype]
  exact ⟨rfl, hab⟩

theorem ObjectType.code_append_inj (t u : ObjectType) (a b : List Int)
    (h : t.code ++ a = u.code ++ b) : t = u ∧ a = b := by
  simp only [code, List.append_assoc] at h
  obtain ⟨hname, hafter⟩ := textCode_append_inj h
  obtain ⟨hfields, hab⟩ := listCode_append_inj FieldDefinition.code_append_inj hafter
  cases t
  cases u
  simp only at hname hfields
  rw [hname, hfields]
  exact ⟨rfl, hab⟩

theorem Distinction.code_inj {x y : Distinction} (h : x.code = y.code) : x = y := by
  cases x <;> cases y <;> first | rfl | cases h

theorem ChildrenAttribute.code_append_inj {x y : ChildrenAttribute} {a b : List Int}
    (h : x.code ++ a = y.code ++ b) : x = y ∧ a = b := by
  cases x <;> cases y <;> simp [code] at h ⊢ <;> exact h

namespace ObjectClass

/-! The recursion is that of a class into the classes above it. -/

mutual

theorem code_append_inj : ∀ (c d : ObjectClass) (a b : List Int),
    c.code ++ a = d.code ++ b → c = d ∧ a = b
  | ⟨tag, name, qualifiedName, above, children, apart, isHashable⟩,
    ⟨tag', name', qualifiedName', above', children', apart', isHashable'⟩, a, b, h => by
    simp only [code, List.append_assoc, List.cons_append, List.nil_append] at h
    obtain ⟨htag, hafter⟩ := textCode_append_inj h
    obtain ⟨hname, hafter⟩ := textCode_append_inj hafter
    obtain ⟨hqualifiedName, hafter⟩ := textCode_append_inj hafter
    obtain ⟨hlength, hafter⟩ := List.cons.inj hafter
    obtain ⟨habove, hafter⟩ := codes_append_inj above above' (by omega) _ _ hafter
    obtain ⟨hchildren, hafter⟩ := ChildrenAttribute.code_append_inj hafter
    simp only [List.cons.injEq] at hafter
    obtain ⟨hapart, hflags, hab⟩ := hafter
    have hisHashable : isHashable = isHashable' := by
      cases isHashable <;> cases isHashable' <;> first | rfl | cases hflags
    rw [htag, hname, hqualifiedName, habove, hchildren, Distinction.code_inj hapart, hisHashable]
    exact ⟨rfl, hab⟩

theorem codes_append_inj : ∀ (cs ds : List ObjectClass), cs.length = ds.length →
    ∀ a b : List Int, code.codes cs ++ a = code.codes ds ++ b → cs = ds ∧ a = b
  | [], [], _, _, _, h => ⟨rfl, h⟩
  | [], _ :: _, hlength, _, _, _ | _ :: _, [], hlength, _, _, _ => by cases hlength
  | c :: cs, d :: ds, hlength, a, b, h => by
    simp only [code.codes, List.append_assoc] at h
    obtain ⟨rfl, hlater⟩ := code_append_inj c d _ _ h
    obtain ⟨rfl, hab⟩ := codes_append_inj cs ds (Nat.succ.inj hlength) a b hlater
    exact ⟨rfl, hab⟩

end

end ObjectClass

/-- Two texts and a third that may be missing are read back one by one. -/
theorem labels_append_inj {s t cls cls' : String} {x y : Option String} {a b : List Int}
    (h : textCode s ++ (textCode cls ++ ((match x with
        | none => [0]
        | some text => 1 :: textCode text) ++ a)) =
      textCode t ++ (textCode cls' ++ ((match y with
        | none => [0]
        | some text => 1 :: textCode text) ++ b))) : s = t ∧ cls = cls' ∧ x = y ∧ a = b := by
  obtain ⟨rfl, hrest⟩ := textCode_append_inj h
  obtain ⟨rfl, hlast⟩ := textCode_append_inj hrest
  refine ⟨rfl, rfl, ?_⟩
  rcases x with _ | text <;> rcases y with _ | text'
  · exact ⟨rfl, by simpa using hlast⟩
  · simp at hlast
  · simp at hlast
  · simp only [List.cons_append, List.cons.injEq, true_and] at hlast
    obtain ⟨rfl, hab⟩ := textCode_append_inj hlast
    exact ⟨rfl, hab⟩

theorem SyntaxRef.code_append_inj (m n : SyntaxRef) (a b : List Int)
    (h : m.code ++ a = n.code ++ b) : m = n ∧ a = b := by
  obtain ⟨place, cls, text?⟩ := m
  obtain ⟨place', cls', text?'⟩ := n
  -- The first number says which kind of place it is.
  unfold code at h
  rcases place with id | id | ⟨module, index⟩ | shared <;>
    rcases place' with id' | id' | ⟨module', index'⟩ | shared' <;>
    simp only [List.cons_append, List.cons.injEq, List.append_assoc, Int.reduceEq, false_and,
      true_and] at h
  case entry.entry =>
    obtain ⟨rfl, rfl, rfl, hab⟩ := labels_append_inj h.2
    exact ⟨by rw [Int.ofNat.inj h.1], hab⟩
  all_goals
    obtain ⟨rfl, rfl, rfl, hab⟩ := labels_append_inj h
    exact ⟨rfl, hab⟩

/-- The codes of syntax nodes tell them apart. -/
theorem SyntaxRef.eq_of_code_eq {a b : SyntaxRef} (h : a.code = b.code) : a = b :=
  (code_append_inj a b [] [] (by rw [h])).1

/-! ## §2 Keys -/

namespace Key

instance : Std.TransOrd Key := inferInstanceAs (Std.TransCmp (compareOn Key.code))

/-- Two keys are equal to a seen set exactly if their codes are equal. -/
theorem compare_eq_iff {a b : Key} : compare a b = .eq ↔ a.code = b.code := by
  show compare a.code b.code = .eq ↔ a.code = b.code
  exact Std.LawfulEqCmp.compare_eq_iff_eq

end Key

/-- Whether a value defines a type or a field of one. -/
def Value.IsDefinition : Value → Prop
  | .scalarType _ | .objectType _ | .field _ => True
  | _ => False

/-- The codes of type definitions tell them apart. -/
theorem Value.eq_of_code_eq {v w : Value} (hv : v.IsDefinition) (hw : w.IsDefinition)
    (h : v.code = w.code) : v = w := by
  cases v <;> cases hv <;> cases w <;> cases hw <;> simp [code] at h
  · exact congrArg _ (textCode_append_inj (a := []) (b := []) (by simpa using h)).1
  · exact congrArg _ (ObjectType.code_append_inj _ _ [] [] (by simpa using h)).1
  · exact congrArg _ (FieldDefinition.code_append_inj _ _ [] [] (by simpa using h)).1

/-- So do those of syntax nodes. -/
theorem Key.eq_of_compare_syntaxNode {a b : SyntaxRef}
    (h : compare (Key.value (.syntaxNode a)) (Key.value (.syntaxNode b)) = .eq) : a = b := by
  have hcode := Key.compare_eq_iff.1 h
  simp only [Key.code, Value.code, List.cons.injEq, true_and] at hcode
  exact SyntaxRef.eq_of_code_eq hcode

end GraphFold
