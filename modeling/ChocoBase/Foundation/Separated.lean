import Mathlib.Data.List.Basic

/-!
# Texts joined by a separator

Two lists with a separator between them.  The whole says where the second begins only if
the separator is in neither of them, or is known not to be in the second, as it is where
the second is a number.
-/

namespace ChocoBase.Foundation.Separated

variable {α : Type} {sep : α} {x y x' y' : List α}

/-- No other pair is joined to the same. -/
def JoinsUniquely (sep : α) (x y : List α) : Prop :=
  ∀ x' y', x' ++ sep :: y' = x ++ sep :: y → x' = x ∧ y' = y

theorem append_last_inj (hy : sep ∉ y) (hy' : sep ∉ y') (h : x' ++ sep :: y' = x ++ sep :: y) :
    x' = x ∧ y' = y := by
  rcases List.append_eq_append_iff.mp h with ⟨between, rfl, hright⟩ | ⟨between, rfl, hright⟩
  · rcases List.cons_eq_append_iff.mp hright with ⟨rfl, hsame⟩ | ⟨rest, rfl, hrest⟩
    · exact ⟨(List.append_nil _).symm, (List.cons.inj hsame).2.symm⟩
    · exact absurd (hrest ▸ List.mem_append_right _ List.mem_cons_self) hy'
  · rcases List.cons_eq_append_iff.mp hright with ⟨rfl, hsame⟩ | ⟨rest, rfl, hrest⟩
    · exact ⟨List.append_nil _, (List.cons.inj hsame).2⟩
    · exact absurd (hrest ▸ List.mem_append_right _ List.mem_cons_self) hy

theorem joinsUniquely_iff : JoinsUniquely sep x y ↔ sep ∉ x ∧ sep ∉ y := by
  constructor
  · intro h
    constructor
    · intro hmem
      obtain ⟨front, back, rfl⟩ := List.append_of_mem hmem
      have hother := (h front (back ++ sep :: y) (by simp)).1
      have hlength := congrArg List.length hother
      simp at hlength
    · intro hmem
      obtain ⟨front, back, rfl⟩ := List.append_of_mem hmem
      have hother := (h (x ++ sep :: front) back (by simp)).1
      have hlength := congrArg List.length hother
      simp at hlength
  · rintro ⟨hx, hy⟩ x' y' h
    rcases List.append_eq_append_iff.mp h with ⟨between, rfl, hright⟩ | ⟨between, rfl, hright⟩
    · rcases List.cons_eq_append_iff.mp hright with ⟨rfl, hsame⟩ | ⟨rest, rfl, -⟩
      · exact ⟨(List.append_nil _).symm, (List.cons.inj hsame).2.symm⟩
      · exact absurd (List.mem_append_right _ List.mem_cons_self) hx
    · rcases List.cons_eq_append_iff.mp hright with ⟨rfl, hsame⟩ | ⟨rest, rfl, hrest⟩
      · exact ⟨List.append_nil _, (List.cons.inj hsame).2⟩
      · exact absurd (hrest ▸ List.mem_append_right _ List.mem_cons_self) hy

/-! ## Numbers -/

theorem notMem_toString {c : Char} (h : c.isDigit = false) (n : Nat) : c ∉ (toString n).toList := by
  intro hmem
  have hdigits : c ∈ Nat.toDigits 10 n := by simpa using hmem
  rw [Nat.isDigit_of_mem_toDigits (by decide) (by decide) hdigits] at h
  cases h

theorem toString_inj {n m : Nat} (h : (toString n).toList = (toString m).toList) : n = m := by
  have hdigits : Nat.toDigits 10 n = Nat.toDigits 10 m := by simpa using h
  calc n = Nat.ofDigitChars 10 (Nat.toDigits 10 n) 0 := Nat.ofDigitChars_ten_toDigits.symm
    _ = Nat.ofDigitChars 10 (Nat.toDigits 10 m) 0 := by rw [hdigits]
    _ = m := Nat.ofDigitChars_ten_toDigits

end ChocoBase.Foundation.Separated
