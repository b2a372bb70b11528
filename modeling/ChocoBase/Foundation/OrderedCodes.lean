import ChocoBase.Foundation.Bytes
import Mathlib.Data.Set.Function
import Mathlib.Order.Compare

/-!
# Ordered prefix codes

Codes whose words can be followed by anything and still be told apart, and codes
that keep an order.  A code is prefix free when its words have one length, and when
every word ends with a letter that none of them has before its end.
-/

namespace ChocoBase.Foundation

/-! ## Prefix freedom -/

section Prefixes

variable {α β : Type} {S : Set α} {enc : α → List β}

/-- On a set, no word starts another word. -/
def PrefixFree (S : Set α) (enc : α → List β) : Prop :=
  ∀ a ∈ S, ∀ b ∈ S, enc a <+: enc b → a = b

theorem PrefixFree.injOn (h : PrefixFree S enc) : Set.InjOn enc S :=
  fun a ha b hb heq => h a ha b hb (heq ▸ List.prefix_refl _)

/-- A word that starts a text is the word that the text was made with. -/
theorem PrefixFree.prefix_append_iff (h : PrefixFree S enc) {a b : α} (ha : a ∈ S) (hb : b ∈ S)
    (rest : List β) : enc a <+: enc b ++ rest ↔ b = a := by
  constructor
  · intro hstarts
    have hword : enc b <+: enc b ++ rest := List.prefix_append _ _
    rcases Nat.le_total (enc a).length (enc b).length with hle | hle
    · exact (h a ha b hb (List.prefix_of_prefix_length_le hstarts hword hle)).symm
    · exact h b hb a ha (List.prefix_of_prefix_length_le hword hstarts hle)
  · rintro rfl
    exact List.prefix_append _ _

theorem prefixFree_of_length {n : Nat} (hinj : Set.InjOn enc S)
    (hlength : ∀ a ∈ S, (enc a).length = n) : PrefixFree S enc := by
  intro a ha b hb hstarts
  refine hinj ha hb (hstarts.eq_of_length ?_)
  rw [hlength a ha, hlength b hb]

theorem eq_of_prefix_stop {stop : β} {s s' : List β} (hs' : stop ∉ s')
    (h : s ++ [stop] <+: s' ++ [stop]) : s = s' := by
  obtain ⟨rest, hrest⟩ := h
  rcases List.eq_nil_or_concat rest with rfl | ⟨init, b, rfl⟩
  · rw [List.append_nil] at hrest
    exact List.append_cancel_right hrest
  · rw [List.concat_eq_append, ← List.append_assoc] at hrest
    obtain ⟨hinit, -⟩ := List.append_inj' hrest rfl
    refine absurd ?_ hs'
    rw [← hinit]
    simp

theorem prefixFree_of_stop {stop : β} (hinj : Set.InjOn enc S) (hstop : ∀ a ∈ S, stop ∉ enc a) :
    PrefixFree S fun a => enc a ++ [stop] :=
  fun _ ha b hb hstarts => hinj ha hb (eq_of_prefix_stop (hstop b hb) hstarts)

end Prefixes

/-! ## Order -/

section Order

/-- A code that keeps order and equality keeps comparisons. -/
theorem compareOfLessAndEq_congr {α β : Type} [LT α] [DecidableLT α] [DecidableEq α] [LT β]
    [DecidableLT β] [DecidableEq β] {x y : α} {x' y' : β} (hlt : x < y ↔ x' < y')
    (heq : x = y ↔ x' = y') : compareOfLessAndEq x y = compareOfLessAndEq x' y' := by
  simp only [compareOfLessAndEq, hlt, heq]

/-- A last letter below all others keeps the lexicographic order. -/
theorem append_stop_lt_iff {β : Type} [LinearOrder β] {stop : β} (hleast : ∀ b, stop ≤ b)
    {s s' : List β} (hs : stop ∉ s) (hs' : stop ∉ s') : s ++ [stop] < s' ++ [stop] ↔ s < s' := by
  induction s generalizing s' with
  | nil =>
      cases s' with
      | nil => simp
      | cons b s' =>
          have hlt : stop < b := lt_of_le_of_ne (hleast b) fun heq => hs' (heq ▸ List.mem_cons_self)
          simp [List.cons_lt_cons_iff, hlt]
  | cons a s ih =>
      obtain ⟨ha, hs⟩ := not_or.mp (mt List.mem_cons.mpr hs)
      cases s' with
      | nil =>
          have hnot : ¬a < stop := not_lt.mpr (hleast a)
          simp [List.cons_lt_cons_iff, hnot, Ne.symm ha]
      | cons b s' =>
          obtain ⟨-, hs'⟩ := not_or.mp (mt List.mem_cons.mpr hs')
          rw [List.cons_append, List.cons_append, List.cons_lt_cons_iff, List.cons_lt_cons_iff,
            ih hs hs']

/-- Between a word and what starts with it, everything starts with it. -/
theorem prefix_of_between {β : Type} [LinearOrder β] {word s rest : List β} (hnot : ¬s < word)
    (hlt : s < word ++ rest) : word <+: s := by
  induction word generalizing s with
  | nil => exact List.nil_prefix
  | cons b word ih =>
      cases s with
      | nil => exact absurd (List.nil_lt_cons b word) hnot
      | cons b' s =>
          rw [List.cons_append, List.cons_lt_cons_iff] at hlt
          rw [List.cons_lt_cons_iff, not_or, not_and] at hnot
          rcases hlt with hless | ⟨rfl, htail⟩
          · exact absurd hless hnot.1
          · exact List.cons_prefix_cons.mpr ⟨rfl, ih (hnot.2 rfl) htail⟩

theorem leValue_append (bs bs' : Bytes) :
    leValue (bs ++ bs') = leValue bs + 256 ^ bs.length * leValue bs' := by
  induction bs with
  | nil => simp [leValue]
  | cons b bs ih =>
      rw [List.cons_append, leValue, ih, leValue, List.length_cons, Nat.pow_succ]
      ring

theorem beValue_cons (b : UInt8) (bs : Bytes) :
    beValue (b :: bs) = b.toNat * 256 ^ bs.length + beValue bs := by
  rw [beValue, List.reverse_cons, leValue_append, List.length_reverse, beValue]
  simp only [leValue]
  ring

/-- Words of one width are ordered as the numbers that they spell. -/
theorem beValue_lt_iff {bs bs' : Bytes} (hlength : bs.length = bs'.length) :
    bs < bs' ↔ beValue bs < beValue bs' := by
  induction bs generalizing bs' with
  | nil =>
      obtain rfl := List.eq_nil_of_length_eq_zero hlength.symm
      simp
  | cons b bs ih =>
      obtain ⟨b', bs', rfl⟩ := List.exists_cons_of_length_eq_add_one hlength.symm
      have htail : bs.length = bs'.length := by simpa using hlength
      have hlow := beValue_lt bs
      have hlow' := beValue_lt bs'
      rw [List.cons_lt_cons_iff, ih htail, beValue_cons, beValue_cons, UInt8.lt_iff_toNat_lt,
        ← UInt8.toNat_inj, htail]
      rw [htail] at hlow
      rcases Nat.lt_trichotomy b.toNat b'.toNat with hlt | heq | hgt
      · have hstep : (b.toNat + 1) * 256 ^ bs'.length ≤ b'.toNat * 256 ^ bs'.length :=
          Nat.mul_le_mul_right _ hlt
        rw [Nat.succ_mul] at hstep
        exact ⟨fun _ => by omega, fun _ => .inl hlt⟩
      · rw [heq]
        simp
      · have hstep : (b'.toNat + 1) * 256 ^ bs'.length ≤ b.toNat * 256 ^ bs'.length :=
          Nat.mul_le_mul_right _ hgt
        rw [Nat.succ_mul] at hstep
        exact ⟨fun h => by omega, fun h => by omega⟩

theorem beBytes_lt_iff {width m n : Nat} (hm : m < 256 ^ width) (hn : n < 256 ^ width) :
    beBytes width m < beBytes width n ↔ m < n := by
  rw [beValue_lt_iff (by simp), beValue_beBytes, beValue_beBytes, Nat.mod_eq_of_lt hm,
    Nat.mod_eq_of_lt hn]

theorem beBytes_inj {width m n : Nat} (hm : m < 256 ^ width) (hn : n < 256 ^ width) :
    beBytes width m = beBytes width n ↔ m = n :=
  ⟨beBytes_injective hm hn, congrArg _⟩

end Order

end ChocoBase.Foundation
