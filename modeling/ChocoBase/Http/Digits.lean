import ChocoBase.Foundation.Text
import ChocoBase.Plan.Text

/-!
# Numbers in requests

A number as it is written, of any size, and what is read of it: nothing where it does not
fit a machine word.
-/

namespace ChocoBase.Http

open ChocoBase.Foundation
open Text (Chars)
open Plan (parseUsize)

/-- The number that a text writes, of any size. -/
def number (s : Chars) : Option Nat :=
  let digits := if s.head? = some '+' then s.tail else s
  if !digits.isEmpty && digits.all Char.isDigit then
    some (digits.foldl (fun n c => 10 * n + (c.toNat - '0'.toNat)) 0)
  else none

theorem parseUsize_eq_some_iff {s : Chars} {n : Nat} :
    parseUsize s = some n ↔ number s = some n ∧ n < 2 ^ 64 := by
  simp only [parseUsize, number]
  generalize (if s.head? = some '+' then s.tail else s) = digits
  generalize digits.foldl (fun n c => 10 * n + (c.toNat - '0'.toNat)) 0 = value
  by_cases hdigits : (!digits.isEmpty && digits.all Char.isDigit) = true
  · rw [if_pos hdigits, if_pos hdigits, Option.some_inj]
    split <;> simp <;> omega
  · rw [if_neg hdigits, if_neg hdigits]
    simp

theorem parseUsize_eq_none_iff {s : Chars} :
    parseUsize s = none ↔ ∀ n, number s = some n → 2 ^ 64 ≤ n := by
  constructor
  · intro h n hn
    by_contra hsize
    rw [parseUsize_eq_some_iff.mpr ⟨hn, by omega⟩] at h
    cases h
  · intro h
    cases hs : parseUsize s with
    | none => rfl
    | some n =>
        obtain ⟨hn, hsize⟩ := parseUsize_eq_some_iff.mp hs
        exact absurd (h n hn) (by omega)

structure Digits where
  text : Chars
  text_ne_nil : text ≠ []
  isDigit : ∀ c ∈ text, c.isDigit

def Digits.value (d : Digits) : Nat :=
  d.text.foldl (fun n c => 10 * n + (c.toNat - '0'.toNat)) 0

theorem Digits.parseUsize_eq (d : Digits) :
    parseUsize d.text = if d.value < 2 ^ 64 then some d.value else none := by
  have hplus : d.text.head? ≠ some '+' := fun h =>
    absurd (d.isDigit _ (List.mem_of_head? h)) (by decide)
  have hdigits : (!d.text.isEmpty && d.text.all Char.isDigit) = true := by
    simpa [d.text_ne_nil] using d.isDigit
  simp only [parseUsize, if_neg hplus, hdigits]
  rfl

theorem Digits.dash_notMem (d : Digits) : '-' ∉ d.text := fun h =>
  absurd (d.isDigit _ h) (by decide)

theorem Digits.getD_parseUsize (d : Digits) (fallback : Nat) :
    (parseUsize d.text).getD fallback = if d.value < 2 ^ 64 then d.value else fallback := by
  rw [d.parseUsize_eq]
  split <;> rfl

end ChocoBase.Http
