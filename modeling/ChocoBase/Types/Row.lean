import ChocoBase.Foundation.FloatBits
import ChocoBase.Types.Schema
import Mathlib.Data.List.Forall2
import Mathlib.Data.Nat.Bitwise

/-!
# Rows as bytes

A row starts with a bitmap of its nulls; the other values follow in the order of
the columns.  Decoding takes the types from the schema.
-/

namespace ChocoBase.Types

open ChocoBase.Foundation

/-- The first `n` bytes and the rest; slicing past the end panics. -/
def splitBytes (n : Nat) (data : Bytes) : Option (Bytes × Bytes) :=
  if n ≤ data.length then some (data.take n, data.drop n) else none

theorem splitBytes_append {n : Nat} {bs rest : Bytes} (h : bs.length = n) :
    splitBytes n (bs ++ rest) = some (bs, rest) := by
  subst h
  simp [splitBytes]

theorem splitBytes_eq_some {n : Nat} {data bs rest : Bytes}
    (h : splitBytes n data = some (bs, rest)) : bs.length = n ∧ data = bs ++ rest := by
  unfold splitBytes at h
  split at h
  next hle =>
    obtain ⟨rfl, rfl⟩ := Prod.mk.inj (Option.some.inj h)
    exact ⟨by simp [hle], (List.take_append_drop n data).symm⟩
  next => cases h

def readLe (n : Nat) (data : Bytes) : Option (Nat × Bytes) :=
  (splitBytes n data).map fun (bs, rest) => (leValue bs, rest)

theorem readLe_append {n v : Nat} {rest : Bytes} (h : v < 256 ^ n) :
    readLe n (leBytes n v ++ rest) = some (v, rest) := by
  simp [readLe, splitBytes_append, leValue_leBytes, Nat.mod_eq_of_lt h]

/-! ## The bitmap -/

/-- The byte whose bit `k` is `bits k`. -/
def bitmapByte (bits : Nat → Bool) : UInt8 := UInt8.ofNat (Nat.ofBits fun k : Fin 8 => bits k)

theorem testBit_bitmapByte (bits : Nat → Bool) {k : Nat} (hk : k < 8) :
    (bitmapByte bits).toNat.testBit k = bits k := by
  have hlt : (Nat.ofBits fun k : Fin 8 => bits k) < 2 ^ 8 := Nat.ofBits_lt_two_pow _
  rw [bitmapByte, UInt8.toNat_ofNat', Nat.mod_eq_of_lt hlt, Nat.testBit_ofBits_lt _ _ hk]

def isNullAt (values : Row) (i : Nat) : Bool :=
  match values[i]? with
  | some v => v.isNull
  | none => false

def nullBitmap (len : Nat) (values : Row) : Bytes :=
  (List.range len).map fun j => bitmapByte fun k => isNullAt values (8 * j + k)

/-- `bitmap[i / 8] & (1 << (i % 8)) != 0` -/
def nullBit (bitmap : Bytes) (i : Nat) : Option Bool :=
  bitmap[i / 8]?.map fun b => b.toNat.testBit (i % 8)

theorem nullBit_nullBitmap {len : Nat} {values : Row} {i : Nat} (h : i / 8 < len) :
    nullBit (nullBitmap len values) i = some (isNullAt values i) := by
  simp only [nullBit, nullBitmap, List.getElem?_map, List.getElem?_range h, Option.map_some]
  rw [testBit_bitmapByte _ (Nat.mod_lt i (by omega)), Nat.div_add_mod]

/-! ## Encoding -/

/-- A text of more than `u16::MAX` bytes fails an assertion. -/
def encodeValue : Value → Option Bytes
  | .null => some []
  | .integer n => some (leBytes 8 n.toUInt64.toNat)
  | .float x => some (leBytes 8 x.toBits.toNat)
  | .boolean b => some [if b then 1 else 0]
  | .text s | .json s =>
      let bytes := utf8 s
      if bytes.length ≤ 65535 then some (leBytes 2 bytes.length ++ bytes) else none
  | .vector xs => some (leBytes 2 xs.length ++ xs.flatMap fun x => leBytes 4 x.toBits.toNat)

def bitmapLen (schema : TableSchema) : Nat := (schema.columns.length + 7) / 8

def encodeRow (schema : TableSchema) (values : Row) : Option Bytes := do
  guard (∀ i < values.length, isNullAt values i = true → i / 8 < bitmapLen schema)
  let body ← values.mapM encodeValue
  return nullBitmap (bitmapLen schema) values ++ body.flatten

/-! ## Decoding -/

def decodeVector : Nat → Bytes → Option (List Float32 × Bytes)
  | 0, data => some ([], data)
  | n + 1, data => do
      let (bits, data) ← readLe 4 data
      let (xs, data) ← decodeVector n data
      return (Float32.ofBits (UInt32.ofNat bits) :: xs, data)

def decodeText (data : Bytes) : Option (String × Bytes) := do
  let (len, data) ← readLe 2 data
  let (bytes, data) ← splitBytes len data
  let s ← fromUtf8 bytes
  return (s, data)

def decodeValue : ColumnType → Bytes → Option (Value × Bytes)
  | .integer, data => do
      let (n, data) ← readLe 8 data
      return (.integer (UInt64.ofNat n).toInt64, data)
  | .float, data => do
      let (n, data) ← readLe 8 data
      return (.float (Float.ofBits (UInt64.ofNat n)), data)
  | .boolean, data => do
      let (n, data) ← readLe 1 data
      return (.boolean (n ≠ 0), data)
  | .text, data => do
      let (s, data) ← decodeText data
      return (.text s, data)
  | .json, data => do
      let (s, data) ← decodeText data
      return (.json s, data)
  | .vector _, data => do
      let (len, data) ← readLe 2 data
      let (xs, data) ← decodeVector len data
      return (.vector xs, data)

/-- The loop over the columns, from column `i` on. -/
def decodeColumns (bitmap : Bytes) : Nat → List Column → Bytes → Option Row
  | _, [], _ => some []
  | i, col :: cols, data => do
      if ← nullBit bitmap i then
        let rest ← decodeColumns bitmap (i + 1) cols data
        return .null :: rest
      else
        let (v, data) ← decodeValue col.ty data
        let rest ← decodeColumns bitmap (i + 1) cols data
        return v :: rest

def decodeRow (schema : TableSchema) (data : Bytes) : Option Row := do
  let (bitmap, data) ← splitBytes (bitmapLen schema) data
  decodeColumns bitmap 0 schema.columns data

/-! ## Typed rows are read back -/

/-- The value is one of the column's type, or null. -/
def Value.Typed : ColumnType → Value → Prop
  | _, .null => True
  | .integer, .integer _ => True
  | .float, .float _ => True
  | .text, .text _ => True
  | .boolean, .boolean _ => True
  | .json, .json _ => True
  | .vector _, .vector xs => xs.length < 65536
  | _, _ => False

def RowTyped (schema : TableSchema) (values : Row) : Prop :=
  List.Forall₂ (fun (c : Column) v => v.Typed c.ty) schema.columns values

theorem decodeVector_append (xs : List Float32) (rest : Bytes) :
    decodeVector xs.length ((xs.flatMap fun x => leBytes 4 x.toBits.toNat) ++ rest) =
      some (xs, rest) := by
  induction xs with
  | nil => rfl
  | cons x xs ih =>
      have hbits : readLe 4 (leBytes 4 x.toBits.toNat ++ ((xs.flatMap fun x =>
          leBytes 4 x.toBits.toNat) ++ rest)) = some (x.toBits.toNat, _) :=
        readLe_append x.toBits.toNat_lt
      simp [decodeVector, hbits, ih, ofBits_toBits32]

theorem decodeText_append {s : String} {rest : Bytes} (h : (utf8 s).length ≤ 65535) :
    decodeText (leBytes 2 (utf8 s).length ++ (utf8 s ++ rest)) = some (s, rest) := by
  have hlen : readLe 2 (leBytes 2 (utf8 s).length ++ (utf8 s ++ rest)) =
      some ((utf8 s).length, utf8 s ++ rest) := readLe_append (by omega)
  simp [decodeText, hlen, splitBytes_append]

theorem decodeValue_append {ty : ColumnType} {v : Value} (htyped : v.Typed ty)
    (hnull : v.isNull = false) {bytes : Bytes} (hencode : encodeValue v = some bytes)
    (rest : Bytes) : decodeValue ty (bytes ++ rest) = some (v, rest) := by
  cases v with
  | null => cases hnull
  | integer n =>
      cases ty <;> try cases htyped
      obtain rfl := Option.some.inj hencode
      have hread : readLe 8 (leBytes 8 n.toUInt64.toNat ++ rest) = some (n.toUInt64.toNat, rest) :=
        readLe_append n.toUInt64.toNat_lt
      simp only [decodeValue, hread, Option.bind_eq_bind, Option.bind_some, UInt64.ofNat_toNat,
        Int64.toInt64_toUInt64]
      rfl
  | float x =>
      cases ty <;> try cases htyped
      obtain rfl := Option.some.inj hencode
      have hread : readLe 8 (leBytes 8 x.toBits.toNat ++ rest) = some (x.toBits.toNat, rest) :=
        readLe_append x.toBits.toNat_lt
      simp [decodeValue, hread, ofBits_toBits]
  | boolean b =>
      cases ty <;> try cases htyped
      obtain rfl := Option.some.inj hencode
      cases b <;> simp [decodeValue, readLe, splitBytes, leValue]
  | text s =>
      cases ty <;> try cases htyped
      obtain ⟨hlen, hbytes⟩ := Option.ite_none_right_eq_some.mp hencode
      obtain rfl := Option.some.inj hbytes
      rw [List.append_assoc]
      simp [decodeValue, decodeText_append hlen]
  | json s =>
      cases ty <;> try cases htyped
      obtain ⟨hlen, hbytes⟩ := Option.ite_none_right_eq_some.mp hencode
      obtain rfl := Option.some.inj hbytes
      rw [List.append_assoc]
      simp [decodeValue, decodeText_append hlen]
  | vector xs =>
      cases ty <;> try cases htyped
      obtain rfl := Option.some.inj hencode
      have hlen : xs.length < 65536 := htyped
      rw [List.append_assoc]
      have hread := @readLe_append 2 xs.length
        ((xs.flatMap fun x => leBytes 4 x.toBits.toNat) ++ rest) (by omega)
      simp [decodeValue, hread, decodeVector_append]

theorem decodeColumns_append {bitmap : Bytes} {i : Nat} {cols : List Column} {values : Row}
    {bodies : List Bytes} (htyped : List.Forall₂ (fun (c : Column) v => v.Typed c.ty) cols values)
    (hbitmap : ∀ k < values.length, nullBit bitmap (i + k) = some (isNullAt values k))
    (hencode : values.mapM encodeValue = some bodies) :
    decodeColumns bitmap i cols bodies.flatten = some values := by
  induction htyped generalizing i bodies with
  | nil => rfl
  | @cons col v cols values hv _ ih =>
      rw [List.mapM_cons] at hencode
      obtain ⟨bytes, hbytes, hrest⟩ := Option.bind_eq_some_iff.mp hencode
      obtain ⟨bodies', hbodies, heq⟩ := Option.bind_eq_some_iff.mp hrest
      obtain rfl := Option.some.inj heq
      have hhead := hbitmap 0 (by simp)
      have htail := ih (i := i + 1) (fun k hk => by
        have h := hbitmap (k + 1) (by simpa using hk)
        rw [show i + 1 + k = i + (k + 1) by omega, h]
        rfl) hbodies
      rw [Nat.add_zero] at hhead
      have hnull : isNullAt (v :: values) 0 = v.isNull := rfl
      rw [hnull] at hhead
      cases hisNull : v.isNull with
      | true =>
          obtain rfl : v = .null := by cases v <;> first | rfl | cases hisNull
          obtain rfl := Option.some.inj hbytes
          rw [hisNull] at hhead
          simp [decodeColumns, hhead, htail]
      | false =>
          rw [hisNull] at hhead
          simp [decodeColumns, hhead, decodeValue_append hv hisNull hbytes, htail]

/-- A typed row is read back under the schema it was written with. -/
theorem decodeRow_encodeRow {schema : TableSchema} {values : Row} (htyped : RowTyped schema values)
    {data : Bytes} (hencode : encodeRow schema values = some data) :
    decodeRow schema data = some values := by
  have hlength := htyped.length_eq
  unfold encodeRow at hencode
  simp only [Option.bind_eq_bind, Option.bind_eq_some_iff] at hencode
  obtain ⟨-, -, bodies, hbodies, heq⟩ := hencode
  obtain rfl := Option.some.inj heq
  have hbitmap : (nullBitmap (bitmapLen schema) values).length = bitmapLen schema := by
    simp [nullBitmap]
  simp only [decodeRow, splitBytes_append hbitmap, Option.bind_eq_bind, Option.bind_some]
  refine decodeColumns_append htyped (fun k hk => ?_) hbodies
  rw [Nat.zero_add]
  refine nullBit_nullBitmap ?_
  unfold bitmapLen
  omega

/-! ## What is read is typed -/

theorem rowTyped_iff {schema : TableSchema} {row : Row} (hlength : row.length = schema.columns.length) :
    RowTyped schema row ↔ ∀ (i : Nat) (col : Column), schema.columns[i]? = some col →
      ∀ v, row[i]? = some v → v.Typed col.ty := by
  rw [RowTyped, List.forall₂_iff_get]
  constructor
  · rintro ⟨-, hget⟩ i col hcol v hv
    obtain ⟨hi, rfl⟩ := List.getElem?_eq_some_iff.mp hcol
    obtain ⟨hi', rfl⟩ := List.getElem?_eq_some_iff.mp hv
    exact hget i hi hi'
  · intro h
    exact ⟨hlength.symm, fun i hi hi' => h i _ (List.getElem?_eq_getElem hi) _
      (List.getElem?_eq_getElem hi')⟩

theorem readLe_lt {n v : Nat} {data rest : Bytes} (h : readLe n data = some (v, rest)) :
    v < 256 ^ n := by
  obtain ⟨⟨bs, rest'⟩, hsplit, heq⟩ := Option.map_eq_some_iff.mp h
  obtain ⟨rfl, rfl⟩ := Prod.mk.inj heq
  rw [← (splitBytes_eq_some hsplit).1]
  exact leValue_lt bs

theorem decodeVector_length {n : Nat} {data rest : Bytes} {xs : List Float32}
    (h : decodeVector n data = some (xs, rest)) : xs.length = n := by
  induction n generalizing data xs rest with
  | zero => cases h; rfl
  | succ n ih =>
      simp only [decodeVector, Option.bind_eq_bind, Option.bind_eq_some_iff] at h
      obtain ⟨⟨bits, data'⟩, -, ⟨ys, data''⟩, hrest, heq⟩ := h
      cases heq
      simp [ih hrest]

theorem typed_of_decodeValue {ty : ColumnType} {data rest : Bytes} {v : Value}
    (h : decodeValue ty data = some (v, rest)) : v.Typed ty := by
  cases ty <;>
    simp only [decodeValue, Option.bind_eq_bind, Option.bind_eq_some_iff] at h
  case vector dim =>
    obtain ⟨⟨len, data'⟩, hlen, ⟨xs, data''⟩, hxs, heq⟩ := h
    cases heq
    have hlt : len < 256 ^ 2 := readLe_lt hlen
    have hlength : xs.length = len := decodeVector_length hxs
    rwa [← hlength] at hlt
  all_goals
    obtain ⟨⟨n, data'⟩, -, heq⟩ := h
    cases heq
    trivial

theorem decodeColumns_typed {bitmap data : Bytes} {i : Nat} {cols : List Column} {row : Row}
    (h : decodeColumns bitmap i cols data = some row) :
    List.Forall₂ (fun (c : Column) v => v.Typed c.ty) cols row := by
  induction cols generalizing i data row with
  | nil => cases h; exact .nil
  | cons col cols ih =>
      simp only [decodeColumns, Option.bind_eq_bind, Option.bind_eq_some_iff] at h
      obtain ⟨isNull, -, h⟩ := h
      split at h
      · obtain ⟨rest, hrest, heq⟩ := Option.bind_eq_some_iff.mp h
        cases heq
        refine .cons ?_ (ih hrest)
        cases col.ty <;> trivial
      · obtain ⟨⟨v, data'⟩, hv, h⟩ := Option.bind_eq_some_iff.mp h
        obtain ⟨rest, hrest, heq⟩ := Option.bind_eq_some_iff.mp h
        cases heq
        exact .cons (typed_of_decodeValue hv) (ih hrest)

theorem rowTyped_of_decodeRow {schema : TableSchema} {data : Bytes} {row : Row}
    (h : decodeRow schema data = some row) : RowTyped schema row := by
  simp only [decodeRow, Option.bind_eq_bind, Option.bind_eq_some_iff] at h
  obtain ⟨⟨bitmap, rest⟩, -, h⟩ := h
  exact decodeColumns_typed h

end ChocoBase.Types
