import ChocoBase.Plan.Expr
import Mathlib.Data.List.Infix

/-!
# Patterns of LIKE

A pattern stands for the texts that are put together from one part for each of its
characters: any text for `%`, one character for `_`, and the character itself otherwise.
-/

namespace ChocoBase.Plan

open ChocoBase.Types

inductive StandsFor : Char → List Char → Prop
  | anything (part : List Char) : StandsFor '%' part
  | anyOne (c : Char) : StandsFor '_' [c]
  | itself {p : Char} (hmany : p ≠ '%') (hone : p ≠ '_') : StandsFor p [p]

/-- The parts of a text that the characters of a pattern stand for. -/
def Matches (text pattern : List Char) : Prop :=
  ∃ parts, parts.flatten = text ∧ List.Forall₂ StandsFor pattern parts

variable {text pattern rest pat : List Char} {p t : Char}

theorem matches_nil : Matches text [] ↔ text = [] := by
  constructor
  · rintro ⟨parts, rfl, hparts⟩
    cases hparts
    rfl
  · rintro rfl
    exact ⟨[], rfl, .nil⟩

theorem matches_cons : Matches text (p :: pat) ↔
    ∃ part rest, text = part ++ rest ∧ StandsFor p part ∧ Matches rest pat := by
  constructor
  · rintro ⟨parts, rfl, hparts⟩
    cases hparts with
    | cons hpart hrest => exact ⟨_, _, List.flatten_cons, hpart, _, rfl, hrest⟩
  · rintro ⟨part, rest, rfl, hpart, parts, rfl, hparts⟩
    exact ⟨part :: parts, List.flatten_cons, .cons hpart hparts⟩

/-- `%` leaves any end of the text to the rest of the pattern. -/
theorem matches_anything : Matches text ('%' :: pat) ↔ ∃ rest ∈ text.tails, Matches rest pat := by
  rw [matches_cons]
  constructor
  · rintro ⟨part, rest, rfl, -, hrest⟩
    exact ⟨rest, (List.mem_tails ..).mpr (List.suffix_append part rest), hrest⟩
  · rintro ⟨rest, hmem, hrest⟩
    obtain ⟨part, rfl⟩ := (List.mem_tails ..).mp hmem
    exact ⟨part, rest, rfl, .anything part, hrest⟩

/-- A trailing `%` takes the whole rest of the text. -/
theorem matches_trailing : Matches text ['%'] :=
  matches_anything.mpr ⟨[], (List.mem_tails ..).mpr (List.nil_suffix), matches_nil.mpr rfl⟩

theorem matches_one (hp : p ≠ '%') : Matches text (p :: pat) ↔
    ∃ t rest, text = t :: rest ∧ (p = '_' ∨ p = t) ∧ Matches rest pat := by
  rw [matches_cons]
  constructor
  · rintro ⟨part, rest, rfl, hpart, hrest⟩
    cases hpart with
    | anything => exact absurd rfl hp
    | anyOne c => exact ⟨c, rest, rfl, .inl rfl, hrest⟩
    | itself => exact ⟨p, rest, rfl, .inr rfl, hrest⟩
  · rintro ⟨t, rest, rfl, heq, hrest⟩
    refine ⟨[t], rest, rfl, ?_, hrest⟩
    by_cases hone : p = '_'
    · subst hone
      exact .anyOne t
    · obtain rfl := heq.resolve_left hone
      exact .itself hp hone

theorem likeMatchChars_iff : likeMatchChars text pattern = true ↔ Matches text pattern := by
  induction pattern generalizing text with
  | nil => simp [likeMatchChars, matches_nil]
  | cons p pat ih =>
      by_cases hp : p = '%'
      · subst hp
        unfold likeMatchChars
        rw [if_pos rfl, matches_anything]
        cases pat with
        | nil =>
            have htrailing : Matches text ['%'] := matches_trailing
            simpa using matches_anything.mp htrailing
        | cons p' pat => simp [ih]
      · rw [matches_one hp]
        cases text with
        | nil => simp [likeMatchChars, hp]
        | cons t text => simp [likeMatchChars, hp, ih]

/-- The matcher of `LIKE` accepts the texts that the pattern stands for. -/
theorem like_iff (text pattern : String) :
    likeMatchChars text.toList pattern.toList = true ↔ Matches text.toList pattern.toList :=
  likeMatchChars_iff

/-- On a text, `LIKE` and `NOT LIKE` say whether the pattern stands for it. -/
theorem evalLike_text {text pattern : String} {negated : Bool} :
    evalLike (.text text) pattern negated = .boolean true ↔
      (Matches text.toList pattern.toList ↔ negated = false) := by
  rw [← likeMatchChars_iff, evalLike]
  cases likeMatchChars text.toList pattern.toList <;> cases negated <;> simp

end ChocoBase.Plan
