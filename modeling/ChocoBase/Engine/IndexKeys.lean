import ChocoBase.Engine.Mutate
import ChocoBase.Foundation.OrderedCodes

/-!
# The keys of an index

An index holds the key of a column's value followed by the key of the row.  For
integers, booleans and texts without `NUL` the keys are ordered as the values are,
and what an index seek finds by a prefix are the rows that have the value.
-/

namespace ChocoBase.Engine

open ChocoBase.Foundation ChocoBase.Types ChocoBase.Plan

/-- The values of a type whose keys are ordered as they are. -/
inductive Keyed : ColumnType → Value → Prop
  | integer (n : Int64) : Keyed .integer (.integer n)
  | boolean (b : Bool) : Keyed .boolean (.boolean b)
  | text {s : String} (hnul : '\x00' ∉ s.toList) : Keyed .text (.text s)
  | json {s : String} (hnul : '\x00' ∉ s.toList) : Keyed .json (.json s)

/-! ## Integers -/

section Integers

variable {m n : Int64}

theorem xor_two_pow {a k : Nat} (h : a < 2 ^ k) : a ^^^ 2 ^ k = 2 ^ k + a := by
  have hor := Nat.two_pow_add_eq_or_of_lt h 1
  rw [Nat.mul_one] at hor
  rw [hor]
  refine Nat.eq_of_testBit_eq fun i => ?_
  rw [Nat.testBit_xor, Nat.testBit_or, Nat.testBit_two_pow]
  by_cases hi : k = i
  · subst hi
    simp [Nat.testBit_lt_two_pow h]
  · simp [hi]

/-- The number whose bytes are the key of an integer. -/
def flipped (n : Int64) : Nat := (n.toUInt64 ^^^ 0x8000000000000000).toNat

theorem flipped_lt (n : Int64) : flipped n < 256 ^ 8 := UInt64.toNat_lt _

/-- Flipping the sign bit adds half of the range. -/
theorem flipped_eq (n : Int64) : (flipped n : Int) = n.toInt + 2 ^ 63 := by
  have hxor : flipped n = n.toBitVec.toNat ^^^ 2 ^ 63 := rfl
  have hlt : n.toBitVec.toNat < 2 ^ 64 := n.toBitVec.isLt
  have hint : n.toInt = if 2 * n.toBitVec.toNat < 2 ^ 64 then (n.toBitVec.toNat : Int)
      else n.toBitVec.toNat - 2 ^ 64 := BitVec.toInt_eq_toNat_cond n.toBitVec
  rw [hxor, hint]
  by_cases hsign : n.toBitVec.toNat < 2 ^ 63
  · rw [if_pos (by omega), xor_two_pow hsign]
    omega
  · obtain ⟨a, ha⟩ := Nat.exists_eq_add_of_le (Nat.not_lt.mp hsign)
    have hsmall : a < 2 ^ 63 := by omega
    rw [if_neg (by omega), ha, ← xor_two_pow hsmall, Nat.xor_assoc, Nat.xor_self, Nat.xor_zero,
      xor_two_pow hsmall]
    omega

theorem flipped_lt_iff : flipped m < flipped n ↔ m < n := by
  have hm := flipped_eq m
  have hn := flipped_eq n
  rw [Int64.lt_iff_toInt_lt]
  omega

theorem flipped_injective : Function.Injective flipped := by
  intro m n h
  have hm := flipped_eq m
  have hn := flipped_eq n
  exact Int64.toInt_inj.mp (by omega)

theorem prefixFree_integer : PrefixFree Set.univ fun n => beBytes 8 (flipped n) := by
  refine prefixFree_of_length (fun m _ n _ heq => ?_) fun _ _ => beBytes_length _ _
  exact flipped_injective ((beBytes_inj (flipped_lt m) (flipped_lt n)).mp heq)

end Integers

/-! ## Texts -/

theorem utf8_eq (s : String) : utf8 s = s.toList.flatMap String.utf8EncodeChar := by
  rw [utf8, String.toUTF8, ← String.utf8Encode_toList]
  simp [List.utf8Encode]

/-- Only `NUL` is written with a zero byte. -/
theorem eq_nul_of_zero_mem {c : Char} (h : 0 ∈ String.utf8EncodeChar c) : c = '\x00' := by
  have hzero : ∀ k, (0 : UInt8) = UInt8.ofNat k ↔ k % 256 = 0 := by
    intro k
    rw [← UInt8.toNat_inj, UInt8.toNat_ofNat', eq_comm]
    rfl
  refine Char.ext (UInt32.toNat_inj.mp ?_)
  change c.val.toNat = 0
  rw [String.utf8EncodeChar.eq_def] at h
  dsimp only at h
  split_ifs at h <;> simp only [List.mem_cons, List.not_mem_nil, or_false, hzero] at h <;> omega

theorem zero_not_mem_utf8 {s : String} (h : '\x00' ∉ s.toList) : 0 ∉ utf8 s := by
  intro hmem
  rw [utf8_eq] at hmem
  obtain ⟨c, hc, hzero⟩ := List.mem_flatMap.mp hmem
  rw [eq_nul_of_zero_mem hzero] at hc
  exact h hc

/-- The terminator of a text's key keeps the order of the texts. -/
theorem cmpText_eq {s s' : String} (h : '\x00' ∉ s.toList) (h' : '\x00' ∉ s'.toList) :
    cmpText s s' = compareOfLessAndEq (utf8 s ++ [0]) (utf8 s' ++ [0]) :=
  compareOfLessAndEq_congr
    (append_stop_lt_iff (fun _ => UInt8.zero_le) (zero_not_mem_utf8 h) (zero_not_mem_utf8 h')).symm
    (List.append_left_inj [0]).symm

theorem prefixFree_text : PrefixFree {s : String | '\x00' ∉ s.toList} fun s => utf8 s ++ [0] :=
  prefixFree_of_stop utf8_injective.injOn fun _ => zero_not_mem_utf8

/-! ## Keys -/

section Keys

variable {ty : ColumnType} {v w : Value}

theorem Keyed.encodeKey_eq (h : Keyed ty v) : encodeKey v = some (seekKey v) := by
  cases h <;> rfl

/-- Keys are ordered as the values are. -/
theorem Keyed.sqlCmp_eq (hv : Keyed ty v) (hw : Keyed ty w) :
    sqlCmp v w = some (compareOfLessAndEq (seekKey v) (seekKey w)) := by
  cases hv with
  | integer m =>
      cases hw with
      | integer n =>
          refine congrArg some (compareOfLessAndEq_congr ?_ ?_)
          · exact (flipped_lt_iff.symm.trans (beBytes_lt_iff (flipped_lt m) (flipped_lt n)).symm)
          · exact (flipped_injective.eq_iff.symm.trans
              (beBytes_inj (flipped_lt m) (flipped_lt n)).symm)
  | boolean b =>
      cases hw with
      | boolean b' => cases b <;> cases b' <;> decide
  | text h =>
      cases hw with
      | text h' => exact congrArg some (cmpText_eq h h')
  | json h =>
      cases hw with
      | json h' => exact congrArg some (cmpText_eq h h')

/-- No key of a value starts the key of another value of its type. -/
theorem prefixFree_seekKey (ty : ColumnType) : PrefixFree {v | Keyed ty v} seekKey := by
  intro v hv w hw hstarts
  cases hv with
  | integer m =>
      cases hw with
      | integer n => rw [prefixFree_integer m trivial n trivial hstarts]
  | boolean b =>
      cases hw with
      | boolean b' =>
          revert hstarts
          cases b <;> cases b' <;> decide
  | text h =>
      cases hw with
      | text h' => rw [prefixFree_text _ h _ h' hstarts]
  | json h =>
      cases hw with
      | json h' => rw [prefixFree_text _ h _ h' hstarts]

/-- A key starts the entry of a value exactly if it is the key of that value, and then the
key of the row follows. -/
theorem entry_startsWith_iff (hv : Keyed ty v) (hw : Keyed ty w) {pk : Value} {key : Bytes}
    (hkey : encodeKey pk = some key) :
    ∃ kv kw entry, encodeKey v = some kv ∧ encodeKey w = some kw ∧
      encodeCompositeKey [w, pk] = some entry ∧
      sqlCmp v w = some (compareOfLessAndEq kv kw) ∧ (kv = kw ↔ v = w) ∧
      (kv.isPrefixOf entry ↔ w = v) ∧ (w = v → entry.drop kv.length = key) := by
  have hfree := prefixFree_seekKey ty
  refine ⟨seekKey v, seekKey w, seekKey w ++ key, hv.encodeKey_eq, hw.encodeKey_eq, ?_,
    hv.sqlCmp_eq hw, ⟨hfree.injOn.eq_iff hv hw |>.mp, congrArg seekKey⟩, ?_, ?_⟩
  · simp [encodeCompositeKey, hw.encodeKey_eq, hkey]
  · rw [List.isPrefixOf_iff_prefix]
    exact hfree.prefix_append_iff hv hw key
  · rintro rfl
    exact List.drop_left

/-- The key of a text starts no entry of a text that it starts. -/
theorem entry_startsWith_apple :
    ∃ kv kw entry, encodeKey (.text "app") = some kv ∧ encodeKey (.text "apple") = some kw ∧
      encodeCompositeKey [.text "apple", .integer 7] = some entry ∧
      sqlCmp (.text "app") (.text "apple") = some (compareOfLessAndEq kv kw) ∧
      (kv = kw ↔ Value.text "app" = .text "apple") ∧
      (kv.isPrefixOf entry ↔ Value.text "apple" = .text "app") ∧
      (Value.text "apple" = .text "app" →
        entry.drop kv.length = beBytes 8 (flipped 7)) :=
  entry_startsWith_iff (.text (by decide)) (.text (by decide)) rfl

end Keys

/-! ## Seeks -/

section Seeks

variable {ty : ColumnType} {v : Value} (schema : TableSchema)

/-- From the first entry that is not before a key, the entries with the key's value come
first, and the seek fetches the rows that they name. -/
theorem fetchEach_keyed (hv : Keyed ty v) {rows : List (Value × Bytes)}
    (hkeyed : ∀ r ∈ rows, Keyed ty r.1)
    (hsorted : rows.Pairwise fun r r' => seekKey r.1 ++ r.2 < seekKey r'.1 ++ r'.2)
    (hfrom : ∀ r ∈ rows, ¬seekKey r.1 ++ r.2 < seekKey v) :
    fetchEach schema (seekKey v) (.ok ()) (rows.map fun r => (seekKey r.1 ++ r.2, [])) =
      fetchEach schema [] (.ok ()) ((rows.filter fun r => r.1 = v).map fun r => (r.2, [])) := by
  induction rows with
  | nil => rfl
  | cons r rows ih =>
      obtain ⟨w, key⟩ := r
      obtain ⟨hw, hkeyed⟩ := List.forall_mem_cons.mp hkeyed
      obtain ⟨hfirst, hsorted⟩ := List.pairwise_cons.mp hsorted
      obtain ⟨hnot, hfrom⟩ := List.forall_mem_cons.mp hfrom
      have hstart := (prefixFree_seekKey ty).prefix_append_iff hv hw key
      rw [← List.isPrefixOf_iff_prefix] at hstart
      by_cases heq : w = v
      · subst heq
        have hstarts := hstart.mpr rfl
        rw [List.map_cons, List.filter_cons_of_pos (by simp), List.map_cons, fetchEach, fetchEach,
          ih hkeyed hsorted hfrom]
        simp [hstarts, List.isPrefixOf]
      · have hstarts := Bool.eq_false_iff.mpr (mt hstart.mp heq)
        -- Nothing after it has the value, or it would stand between the key and that entry.
        have hnone : rows.filter (fun r => r.1 = v) = [] := by
          refine List.filter_eq_nil_iff.mpr fun r hr hrv => heq (hstart.mp ?_)
          have hlt := hfirst r hr
          rw [of_decide_eq_true hrv] at hlt
          exact List.isPrefixOf_iff_prefix.mpr (prefix_of_between hnot hlt)
        rw [List.map_cons, List.filter_cons_of_neg (by simpa using heq), hnone, fetchEach]
        simp [hstarts, fetchEach]

end Seeks

end ChocoBase.Engine
