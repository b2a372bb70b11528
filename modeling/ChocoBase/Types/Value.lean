import ChocoBase.Foundation.Bytes
import ChocoBase.Foundation.Exec

/-!
# Values

The values of columns, their order, and the keys they have in a tree.
-/

namespace ChocoBase.Types

open ChocoBase.Foundation

inductive ColumnType where
  | integer
  | float
  | text
  | boolean
  | json
  | vector (dim : Nat)
  deriving DecidableEq, Repr

inductive Value where
  | integer (n : Int64)
  | float (x : Float)
  | text (s : String)
  | boolean (b : Bool)
  | json (s : String)
  | vector (xs : List Float32)
  | null
  deriving DecidableEq

abbrev Row := List Value

/-! ## Strings as bytes -/

/-- `s.as_bytes()` -/
def utf8 (s : String) : Bytes := s.toUTF8.data.toList

/-- `String::from_utf8` -/
def fromUtf8 (bs : Bytes) : Option String := String.fromUTF8? ⟨bs.toArray⟩

@[simp] theorem fromUtf8_utf8 (s : String) : fromUtf8 (utf8 s) = some s := by
  simp [fromUtf8, utf8, String.fromUTF8?, s.isValidUTF8, String.fromUTF8]

theorem utf8_of_fromUtf8 {bs : Bytes} {s : String} (h : fromUtf8 bs = some s) : utf8 s = bs := by
  unfold fromUtf8 String.fromUTF8? at h
  split at h
  next hvalid =>
    obtain rfl := Option.some.inj h
    simp [utf8, String.fromUTF8]
  next => cases h

theorem utf8_injective : Function.Injective utf8 := fun s s' h =>
  Option.some.inj (by rw [← fromUtf8_utf8 s, h, fromUtf8_utf8])

theorem utf8_append (s s' : String) : utf8 (s ++ s') = utf8 s ++ utf8 s' := by
  simp [utf8]

/-! ## Equality and order -/

/-- `n as f64` -/
def toF64 (n : Int64) : Float :=
  if n < 0 then -(0 - n.toUInt64).toFloat else n.toUInt64.toFloat

namespace Value

def isNull : Value → Bool
  | null => true
  | _ => false

/-- The derived equality, in which a NaN differs from itself. -/
def eq : Value → Value → Bool
  | integer m, integer n => m == n
  | float x, float y => x == y
  | text s, text s' => s == s'
  | boolean b, boolean b' => b == b'
  | json s, json s' => s == s'
  | vector xs, vector ys => xs == ys
  | null, null => true
  | _, _ => false

end Value

/-- `partial_cmp`, with `none` for incomparable floats. -/
def partialCmp {α : Type} [LT α] [DecidableLT α] [BEq α] (x y : α) : Option Ordering :=
  if x < y then some .lt else if y < x then some .gt else if x == y then some .eq else none

/-- `partial_cmp` of slices: the first pair that is not equal decides. -/
def partialCmpVector : List Float32 → List Float32 → Option Ordering
  | [], [] => some .eq
  | [], _ :: _ => some .lt
  | _ :: _, [] => some .gt
  | x :: xs, y :: ys =>
      match partialCmp x y with
      | some .eq => partialCmpVector xs ys
      | other => other

def cmpText (s s' : String) : Ordering := compareOfLessAndEq (utf8 s) (utf8 s')

/-- Comparing values of different types panics. -/
def sqlCmp : Value → Value → Option Ordering
  | .integer m, .integer n => some (compare m n)
  | .float x, .float y => some ((partialCmp x y).getD .eq)
  | .integer m, .float y => some ((partialCmp (toF64 m) y).getD .eq)
  | .float x, .integer n => some ((partialCmp x (toF64 n)).getD .eq)
  | .text s, .text s' => some (cmpText s s')
  | .json s, .json s' => some (cmpText s s')
  | .boolean b, .boolean b' => some (compare b b')
  | .vector xs, .vector ys => some ((partialCmpVector xs ys).getD .eq)
  | _, _ => none

def sqlCmpNullable : Value → Value → Option Ordering
  | .null, .null => some .eq
  | .null, _ => some .lt
  | _, .null => some .gt
  | v, w => sqlCmp v w

/-! ## Keys -/

/-- `NULL` has no key: encoding it panics. -/
def encodeKey : Value → Option Bytes
  | .integer n => some (beBytes 8 (n.toUInt64 ^^^ 0x8000000000000000).toNat)
  | .float x => some (beBytes 8 x.toBits.toNat)
  | .boolean b => some [if b then 1 else 0]
  | .text s | .json s => some (utf8 s ++ [0])
  | .vector xs => some (xs.flatMap fun x => beBytes 4 x.toBits.toNat)
  | .null => none

def encodeCompositeKey (parts : List Value) : Option Bytes := do
  let keys ← parts.mapM encodeKey
  return keys.flatten

end ChocoBase.Types
