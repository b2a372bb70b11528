import ChocoBase.Sql.Spacing

/-!
# Texts that are read in one way only

In front of a text that opens, an exact text gives its tokens, and what follows is
read by itself.  So a text of exact parts is read if every part is.
-/

namespace ChocoBase.Sql

open ChocoBase.Foundation
open Text (Chars)

section Exact

variable (text : TextLibrary)

/-- In front of a text that opens, the text gives these tokens and no others. -/
def Exact (s : Chars) (ts : List Token) : Prop :=
  ∀ r ts', opens r → (Lexes text (s ++ r) ts' ↔ ∃ tr, ts' = ts ++ tr ∧ Lexes text r tr)

/-- In front of any text, the text gives these tokens and no others. -/
def Firm (s : Chars) (ts : List Token) : Prop :=
  ∀ r ts', Lexes text (s ++ r) ts' ↔ ∃ tr, ts' = ts ++ tr ∧ Lexes text r tr

/-- In front of a text that opens, the text cannot be read. -/
def Unread (s : Chars) : Prop := ∀ r ts, opens r → ¬Lexes text (s ++ r) ts

end Exact

variable {text : TextLibrary} {a b s : Chars} {c : Char} {cs rest : Chars} {ta tb ts : List Token}
  {t : Option Token}

/-- The first lexeme of a text is what it is. -/
theorem lexes_cons_iff (h : lexeme text c cs = .ok (t, rest)) :
    Lexes text (c :: cs) ts ↔ ∃ tr, ts = t.toList ++ tr ∧ Lexes text rest tr := by
  constructor
  · intro hlexes
    cases hlexes with
    | step hlexeme hrest =>
        rw [h] at hlexeme
        obtain ⟨rfl, rfl⟩ := Prod.mk.inj (Except.ok.inj hlexeme)
        exact ⟨_, rfl, hrest⟩
  · rintro ⟨tr, rfl, hrest⟩
    exact .step h hrest

theorem not_lexes_of_error {message : String} (h : lexeme text c cs = .error message) :
    ¬Lexes text (c :: cs) ts := by
  intro hlexes
  cases hlexes with
  | step hlexeme hrest =>
      rw [h] at hlexeme
      cases hlexeme

theorem Exact.append (ha : Exact text a ta) (hb : Exact text b tb) (h : opens b) :
    Exact text (a ++ b) (ta ++ tb) := by
  intro r ts' hr
  rw [List.append_assoc, ha _ _ (opens_append h hr)]
  simp only [hb r _ hr, List.append_assoc]
  exact ⟨fun ⟨_, h₁, tr, h₂, h₃⟩ => ⟨tr, h₂ ▸ h₁, h₃⟩, fun ⟨tr, h₁, h₂⟩ => ⟨_, h₁, tr, rfl, h₂⟩⟩

theorem Firm.append (ha : Firm text a ta) (hb : Exact text b tb) :
    Exact text (a ++ b) (ta ++ tb) := by
  intro r ts' hr
  rw [List.append_assoc, ha]
  simp only [hb r _ hr, List.append_assoc]
  exact ⟨fun ⟨_, h₁, tr, h₂, h₃⟩ => ⟨tr, h₂ ▸ h₁, h₃⟩, fun ⟨tr, h₁, h₂⟩ => ⟨_, h₁, tr, rfl, h₂⟩⟩

theorem Exact.reads (h : Exact text s ts) : Reads text s ts :=
  fun r ts' hr hrest => (h r _ hr).mpr ⟨ts', rfl, hrest⟩

theorem Exact.lexes_iff (h : Exact text s ts) {ts' : List Token} :
    Lexes text s ts' ↔ ts' = ts := by
  have hself := h [] ts' rfl
  rw [List.append_nil] at hself
  rw [hself]
  constructor
  · rintro ⟨tr, rfl, hnil⟩
    cases hnil
    exact List.append_nil _
  · rintro rfl
    exact ⟨[], (List.append_nil _).symm, .nil⟩

section Ascii

variable (hascii : text.LikeAscii)
include hascii

theorem exact_token {t : Token} (h : ReadsAs text s (some t)) : Exact text s [t] := by
  intro r ts' hr
  have hstop : readsOn text s r = false := by
    cases r with
    | nil => exact readsOn_nil s
    | cons c r =>
        obtain ⟨hword, hdigit, hother⟩ := isDelimiter hascii (c := c) (by simpa [opens] using hr)
        exact readsOn_head hascii h hword hdigit hother r
  obtain ⟨c, cs, rfl, hread⟩ := h
  exact lexes_cons_iff (lexeme_append (r := []) (by rwa [List.append_nil]) hstop)

theorem firm_own {s : String} (h : isOwn s) (hcloses : closes s.toList) :
    Firm text s.toList (ownTokens s) := by
  obtain ⟨hown, hlexes⟩ := lexes_ownTokens h
  have hchars := List.all_eq_true.mp hown
  intro r ts'
  constructor
  · exact lexes_own_inv hascii hchars (.inr fun _ => hcloses) hlexes
  · rintro ⟨tr, rfl, hrest⟩
    exact lexes_own hascii hchars hlexes (.inr hcloses) hrest

theorem exact_own {s : String} (h : isOwn s) : Exact text s.toList (ownTokens s) := by
  obtain ⟨hown, hlexes⟩ := lexes_ownTokens h
  have hchars := List.all_eq_true.mp hown
  intro r ts' hr
  constructor
  · exact lexes_own_inv hascii hchars (.inl hr) hlexes
  · rintro ⟨tr, rfl, hrest⟩
    exact lexes_own hascii hchars hlexes (.inl hr) hrest

/-- A text between others that a program writes itself. -/
theorem firm_separator {s : String} (h : isSeparator s) :
    Firm text s.toList (ownTokens s) ∧ ∀ r, opens (s.toList ++ r) := by
  obtain ⟨hown, hopens, hcloses⟩ := isSeparator_iff.mp h
  refine ⟨firm_own hascii hown hcloses, fun r => ?_⟩
  cases hlist : s.toList with
  | nil => rw [hlist] at hcloses; cases hcloses
  | cons c cs => rw [hlist] at hopens; exact hopens

theorem Firm.between {s : String} (ha : Firm text a ta) (hs : isSeparator s)
    (hb : Exact text b tb) : Firm text (a ++ b ++ s.toList) (ta ++ tb ++ ownTokens s) := by
  obtain ⟨hfirm, hopens⟩ := firm_separator hascii hs
  intro r ts'
  rw [List.append_assoc, List.append_assoc, ha]
  constructor
  · rintro ⟨_, rfl, hmiddle⟩
    obtain ⟨_, rfl, hback⟩ := (hb _ _ (hopens r)).mp hmiddle
    obtain ⟨tr, rfl, hrest⟩ := (hfirm _ _).mp hback
    exact ⟨tr, by simp only [List.append_assoc], hrest⟩
  · rintro ⟨tr, rfl, hrest⟩
    have hback := (hfirm r _).mpr ⟨tr, rfl, hrest⟩
    exact ⟨_, by simp only [List.append_assoc], (hb _ _ (hopens r)).mpr ⟨_, rfl, hback⟩⟩

theorem exact_join {s : String} (hs : isSeparator s) {parts : List Chars}
    {tokens : List (List Token)} (h : List.Forall₂ (Exact text) parts tokens) :
    Exact text (Text.join s.toList parts) ((ownTokens s).intercalate tokens) := by
  obtain ⟨hfirm, hopens⟩ := firm_separator hascii hs
  induction h with
  | nil => exact fun r ts' _ => ⟨fun h => ⟨ts', rfl, h⟩, fun ⟨tr, h, hrest⟩ => h ▸ hrest⟩
  | @cons part t parts tokens hpart hrest ih =>
      cases hrest with
      | nil => simpa [Text.join, List.intercalate] using hpart
      | cons hnext hrest =>
          have htail := hpart.append (hfirm.append ih) (hopens _)
          simpa [Text.join, List.intercalate] using htail

end Ascii

end ChocoBase.Sql
