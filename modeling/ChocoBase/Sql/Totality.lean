import ChocoBase.Foundation.Yields
import ChocoBase.Sql.WholeStatements

/-!
# The parser always answers

On every list of tokens that ends with the end mark, also where the mark stands
elsewhere too.  Every round of a loop takes a token, and expressions nest no deeper
than there are tokens.
-/

namespace ChocoBase.Sql.Parser

open ChocoBase.Foundation

/-- The reader never goes back, nor past the end mark. -/
def Forward {α : Type} (p : Parse α) : Prop :=
  ∀ s, Ended .eof s.left → ∀ a s', p s = (.ok a, s') → Ended .eof s'.left ∧ s'.left <:+ s.left

section Loops

variable {α β : Type} {f : Token → Option α} {body : α → Parse β}

theorem eat_consumes {p p' : Parser} {a : α} (hf : f .eof = none) (hp : Ended .eof p.left)
    (h : eat f p = (.ok (some a), p')) :
    Ended .eof p'.left ∧ p'.left.length + 1 = p.left.length := by
  obtain ⟨t, r, hview⟩ := hp.exists_cons
  rcases (eats hf).2 p t r hview (by
    by_cases ht : t = .eof
    · exact .inr ht
    · left
      rintro rfl
      exact absurd ((hview ▸ hp).tail (.inl ht)).length_pos (by simp)) with
    ⟨v, s', hv, heat, hs'⟩ | ⟨-, hnone⟩
  · rw [heat] at h
    cases h
    have ht : t ≠ .eof := by
      rintro rfl
      rw [hf] at hv
      cases hv
    rw [hview, hs']
    exact ⟨(hview ▸ hp).tail (.inl ht), rfl⟩
  · rw [hnone] at h
    cases h

/-- A loop has at most as many rounds as it takes tokens. -/
theorem whileSome_consumes (hf : f .eof = none) (hbody : ∀ a, Forward (body a)) {fuel : Nat}
    {p p' : Parser} {bs : List β} (hp : Ended .eof p.left)
    (h : whileSome (eat f) body fuel p = (.ok bs, p')) :
    bs.length + p'.left.length ≤ p.left.length := by
  induction fuel generalizing p bs with
  | zero => cases h
  | succ fuel ih =>
      rw [whileSome] at h
      obtain ⟨o, p₁, heat, h⟩ := Exec.exists_of_bind_ok h
      cases o with
      | none =>
          cases h
          rcases hv : f p.current.token with _ | v <;> simp [eat, hv] at heat
          rw [heat, List.length_nil, Nat.zero_add]
      | some a =>
          obtain ⟨hp₁, hone⟩ := eat_consumes hf hp heat
          obtain ⟨b, p₂, hb, h⟩ := Exec.exists_of_bind_ok h
          obtain ⟨hp₂, hsuffix⟩ := hbody a p₁ hp₁ b p₂ hb
          obtain ⟨rest, p₃, hrest, h⟩ := Exec.exists_of_bind_ok h
          cases h
          have hle := ih hp₂ hrest
          have hle' := hsuffix.length_le
          rw [List.length_cons]
          omega

end Loops

/--
On tokens that end with the end mark the parser returns a statement or an error, and a loop
of the parser takes a token in every round.
-/
theorem parser_total (d : Token → String) :
    (∀ tokens : List SpannedToken, Ended .eof (tokens.map SpannedToken.token) →
      (∃ stmt p, parseTokens d tokens = .ok (stmt, p) ∧ Ended .eof p.left ∧
        p.left <:+ tokens.map SpannedToken.token) ∨ ∃ e, parseTokens d tokens = .error e) ∧
    ∀ (α β : Type) (f : Token → Option α) (body : α → Parse β), f .eof = none →
      (∀ a, Forward (body a)) → ∀ p p' bs, Ended .eof p.left →
        whileEat f body p = (.ok bs, p') → bs.length + p'.left.length ≤ p.left.length := by
  refine ⟨fun tokens hended => ?_, fun α β f body hf hbody p p' bs hp h =>
    whileSome_consumes hf hbody hp h⟩
  obtain ⟨ts, hts⟩ := hended
  obtain ⟨p, hnew, hleft, hlength⟩ := new_left hts
  have hverdict := parseStatement_parses (d := d)
    (parseWhereExpr_parses (d := d) (Nat.le_refl tokens.length)) (Nat.le_refl tokens.length)
    p ⟨ts, hleft⟩ hlength.le
  simp only [parseTokens, hnew]
  rcases hp : parseStatement d (parseWhereExpr d tokens.length) tokens.length p with
    ⟨stmt | e | why, p'⟩ <;> rw [hp] at hverdict
  · rw [hts, ← hleft]
    exact .inl ⟨stmt, p', rfl, hverdict.1, hverdict.2.1⟩
  · exact .inr ⟨e, rfl⟩
  · exact hverdict.elim

/-- An end mark inside the statement is a token like others. -/
theorem parser_total_inner :
    (∃ stmt p, parseTokens (fun _ => "token") [⟨.commit, 0⟩, ⟨.eof, 6⟩, ⟨.commit, 7⟩, ⟨.eof, 13⟩] =
        .ok (stmt, p) ∧ Ended .eof p.left ∧ p.left <:+ [.commit, .eof, .commit, .eof]) ∨
      ∃ e, parseTokens (fun _ => "token") [⟨.commit, 0⟩, ⟨.eof, 6⟩, ⟨.commit, 7⟩, ⟨.eof, 13⟩] =
        .error e :=
  (parser_total fun _ => "token").1 _ ⟨[.commit, .eof, .commit], rfl⟩

end ChocoBase.Sql.Parser
