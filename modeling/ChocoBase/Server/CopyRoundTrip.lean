import ChocoBase.Server.CopyRows
import ChocoBase.Server.StartupMessage

/-!
# Rows copied out and back in

A row comes back if each of its values is written as a field that is read as the value.
A field is neither escaped nor quoted, so this depends on its text alone, and on the
white space at the ends of the line.
-/

namespace ChocoBase.Server.PostgresWire

open ChocoBase.Foundation ChocoBase.Engine ChocoBase.Auth ChocoBase.Sql ChocoBase.Types
  ChocoBase.Catalog

open Text (Chars)

/-- The bodies of the messages of copy data. -/
def copyDataOf (messages : List BackendMessage) : List Bytes :=
  messages.filterMap fun
    | .copyData line => some (utf8 line)
    | _ => none

section RoundTrip

variable (host : Host) (schema : TableSchema) (ctx : ExecutionContext)

/-- The rows of an empty table when copies of these rows were sent to it. -/
def copiedBack (rows : List Row) : List Row :=
  (copyResult host false schema.name.toList (columnTexts schema) ctx (tableHandler host schema)
    (rows.length + 1)
    (copyDataOf (copyOutReply host (.ok (.rows (schema.columns.map Column.name) rows)))) []).2.2

/-- A row as it is read from its encoding. -/
def reread (row : Row) : Option Row := (encodeRow schema row).bind (decodeRow schema)

/-- These rows are inserted, and they are what is read. -/
def Reproduces (rows : List Row) : Prop :=
  copiedBack host schema ctx rows = rows ∧
    (copiedBack host schema ctx rows).map (reread schema) = rows.map some

/-- A row of the table, and a line that fits into a message. -/
structure RowOf (row : Row) : Prop where
  typed : RowTyped schema row
  encodes : (encodeRow schema row).isSome
  fits : fits (utf8 (copyLine host row))

/-- A field that is found again as it was written. -/
structure Tidy (field : Chars) : Prop where
  tight : Text.Tight host.text.isWhitespace field
  tab : '\t' ∉ field
  newline : '\n' ∉ field

/-- A field that becomes a string. -/
structure PlainField (field : Chars) : Prop extends Tidy host field where
  mark : isNullMark field = false
  integer : parseI64 field = none
  float : host.text.parseF64 (String.ofList field) = none

/-- Written as an integer, or as digits with a point and no sign. -/
def floatCopies (x : Float) : Prop :=
  match parseI64 (host.floatText x).toList with
  | some n => toF64 n = x
  | none =>
      (host.floatText x).toList.head?.any Char.isDigit ∧ '.' ∈ (host.floatText x).toList

def Copies (col : Column) : Value → Prop
  | .null | .integer _ => True
  | .boolean _ => False
  | .float x => floatCopies host x
  | v => PlainField host (copyText host v).toList ∧
      literalIn host.lib col (.stringLiteral (copyText host v)) = some v

/-- The fields of a row. -/
def rowTexts (row : Row) : List Chars := row.map fun v => (copyText host v).toList

structure RowCopies (row : Row) : Prop where
  values : List.Forall₂ (Copies host) schema.columns row
  first : (rowTexts host row).head? ≠ some []
  last : (rowTexts host row).getLast? ≠ some []
  mark : rowTexts host row ≠ [['\\', '.']]

end RoundTrip

/-! ## Fields of lines -/

section Lines

variable {host : Host} {columns : List Chars} {fields : List Chars} {line : Chars}

theorem rowFields_eq_some : rowFields host false columns line = some fields ↔
    (Text.splitOn '\t' (trimmed host line)).map (trimmed host) = fields ∧
      trimmed host line ≠ ['\\', '.'] ∧ trimmed host line ≠ [] ∧
      fields.length = columns.length := by
  simp only [rowFields, Bool.false_eq_true, if_false]
  constructor
  · intro h
    split at h
    · cases h
    · next hfits =>
        obtain rfl := Option.some.inj h
        rw [not_or, not_or, not_not] at hfits
        exact ⟨rfl, hfits⟩
  · rintro ⟨rfl, hmark, hne, hlength⟩
    rw [if_neg]
    rw [not_or, not_or, not_not]
    exact ⟨hmark, hne, hlength⟩

theorem tidy_rowFields (h : rowFields host false columns line = some fields) (hline : '\n' ∉ line) :
    ∀ field ∈ fields, Tidy host field := by
  obtain ⟨rfl, -⟩ := rowFields_eq_some.mp h
  intro field hfield
  obtain ⟨part, hpart, rfl⟩ := List.mem_map.mp hfield
  obtain ⟨htab, hinside⟩ := Text.mem_splitOn hpart
  have hsub : ∀ c ∈ trimmed host part, c ∈ part := fun c hc => (Text.trim_infix _ _).subset hc
  refine ⟨Text.tight_trim _ _, fun hmem => htab (hsub _ hmem), fun hmem => hline ?_⟩
  exact (Text.trim_infix _ line).subset (hinside.subset (hsub _ hmem))

theorem trimmed_tidy {field : Chars} (h : Tidy host field) : trimmed host field = field :=
  Text.trim_eq_self_iff.mpr h.tight

/-- A line of tidy fields that has no blanks at its ends. -/
theorem tight_join {texts : List Chars} (htidy : ∀ field ∈ texts, Tidy host field)
    (hne : texts ≠ []) (hfirst : texts.head? ≠ some []) (hlast : texts.getLast? ≠ some []) :
    Text.Tight host.text.isWhitespace (Text.join ['\t'] texts) := by
  obtain ⟨hstarts, hsuffix⟩ := Text.ends_join ['\t'] hne
  constructor
  · intro c hc
    obtain ⟨first, hhead⟩ := List.isSome_head?.mpr hne |> Option.isSome_iff_exists.mp
    obtain ⟨d, cs, rfl⟩ := List.exists_cons_of_ne_nil fun heq => hfirst (heq ▸ hhead)
    obtain ⟨more, hmore⟩ := hstarts _ hhead
    rw [← hmore] at hc
    exact (htidy _ (List.mem_of_mem_head? hhead)).tight.1 c hc
  · intro c hc
    obtain ⟨last, hlast'⟩ := List.getLast?_isSome.mpr hne |> Option.isSome_iff_exists.mp
    have hlast_ne : last ≠ [] := fun heq => hlast (heq ▸ hlast')
    obtain ⟨more, hmore⟩ := hsuffix _ hlast'
    rw [← hmore, List.getLast?_append_of_ne_nil _ hlast_ne] at hc
    exact (htidy _ (List.mem_of_getLast? hlast')).tight.2 c hc

/-- A blank at an end of a line is lost, and with it a field. -/
theorem rowFields_of_fewer {s : Chars} (hlength : (Text.splitOn '\t' line).length = columns.length)
    (hinside : trimmed host line <:+: s) (hcount : s.count '\t' < line.count '\t') :
    rowFields host false columns line = none := by
  cases hfields : rowFields host false columns line with
  | none => rfl
  | some fields =>
      obtain ⟨rfl, -, -, hfits⟩ := rowFields_eq_some.mp hfields
      rw [List.length_map, ← hlength, Text.length_splitOn, Text.length_splitOn] at hfits
      have hle := hinside.sublist.count_le '\t'
      omega

/-- The line of tidy fields is read as these fields, if it is read. -/
theorem rowFields_join (hspace : host.text.isWhitespace '\t' = true) {texts : List Chars}
    (htidy : ∀ field ∈ texts, Tidy host field) (hlength : texts.length = columns.length)
    (hne : texts ≠ []) :
    rowFields host false columns (Text.join ['\t'] texts) =
      if texts.head? ≠ some [] ∧ texts.getLast? ≠ some [] ∧ texts ≠ [['\\', '.']] then some texts
      else none := by
  have hsplit : Text.splitOn '\t' (Text.join ['\t'] texts) = texts :=
    Text.splitOn_join hne fun field hfield => (htidy field hfield).tab
  have hcolumns := (congrArg List.length hsplit).trans hlength
  split
  · next hgood =>
      obtain ⟨hfirst, hlast, hmark⟩ := hgood
      have htrim : trimmed host (Text.join ['\t'] texts) = Text.join ['\t'] texts :=
        Text.trim_eq_self_iff.mpr (tight_join htidy hne hfirst hlast)
      have hmap : texts.map (trimmed host) = texts :=
        (List.map_congr_left fun field hfield => trimmed_tidy (htidy field hfield)).trans
          (List.map_id' texts)
      refine rowFields_eq_some.mpr ⟨?_, fun heq => ?_, fun heq => ?_, hlength⟩
      · rw [htrim, hsplit, hmap]
      · rw [htrim] at heq
        rw [heq] at hsplit
        exact hmark hsplit.symm
      · rw [htrim] at heq
        rw [heq] at hsplit
        rw [← hsplit] at hfirst
        exact hfirst rfl
  · next hbad =>
      by_cases hmark : texts = [['\\', '.']]
      · subst hmark
        have htrim := trimmed_tidy (htidy _ List.mem_cons_self)
        exact if_pos (.inl htrim)
      by_cases hempty : texts = [[]]
      · subst hempty
        rfl
      by_cases hfirst : texts.head? = some []
      · obtain ⟨rest, rfl⟩ := List.head?_eq_some_iff.mp hfirst
        have hrest : rest ≠ [] := fun heq => hempty (heq ▸ rfl)
        have hjoin : Text.join ['\t'] ([] :: rest) = '\t' :: Text.join ['\t'] rest :=
          Text.join_cons hrest []
        refine rowFields_of_fewer (s := Text.join ['\t'] rest) hcolumns ?_ ?_
        · rw [hjoin, trimmed, Text.trim, Text.trimStart_cons, if_pos hspace]
          exact Text.trim_infix _ _
        · rw [hjoin, List.count_cons_self]
          exact Nat.lt_succ_self _
      · have hlast : texts.getLast? = some [] := by
          by_contra hlast
          exact hbad ⟨hfirst, hlast, hmark⟩
        obtain ⟨front, rfl⟩ := List.getLast?_eq_some_iff.mp hlast
        have hfront : front ≠ [] := by
          rintro rfl
          exact hempty rfl
        have hjoin : Text.join ['\t'] (front ++ [[]]) = Text.join ['\t'] front ++ ['\t'] :=
          Text.join_concat hfront []
        refine rowFields_of_fewer (s := Text.join ['\t'] front) hcolumns ?_ ?_
        · rw [hjoin, trimmed, Text.trim_concat hspace]
          exact Text.trim_infix _ _
        · rw [hjoin, List.count_append]
          simp

end Lines

/-! ## Values of fields -/

section Literals

variable {lib : Library} {col : Column} {v : Value}

theorem literalIn_string {s : String} (h : literalIn lib col (.stringLiteral s) = some v) :
    v = .text s ∨ v = .json s ∨ ∃ xs, v = .vector xs := by
  rw [literalIn_eq_some] at h
  cases hty : col.ty <;> rw [hty] at h <;> simp only [literalToValueTyped] at h
  case json =>
    split at h
    · cases h
    · exact .inr (.inl (Outcome.ok.inj h).symm)
  case vector =>
    split at h
    · cases h
    · split at h
      · cases h
      · exact .inr (.inr ⟨_, (Outcome.ok.inj h).symm⟩)
  all_goals exact .inl (Outcome.ok.inj h).symm

theorem literalIn_int (n : Int64) : literalIn lib col (.intLiteral n) =
    some (if col.ty = .float then .float (toF64 n) else .integer n) := by
  rw [literalIn_eq_some]
  cases hty : col.ty <;> rfl

theorem literalIn_float (x : Float) : literalIn lib col (.floatLiteral x) = some (.float x) := rfl

end Literals

section Values

variable {host : Host} {col : Column} {field : Chars} {v : Value}

theorem copyText_null : (copyText host .null).toList = ['\\', 'N'] := by simp [copyText]

/-- A text, a payload, a vector or a boolean is a string in a statement, or nothing. -/
theorem fieldIn_string (hv : v ≠ .null ∧ (∀ n, v ≠ .integer n) ∧ ∀ x, v ≠ .float x) :
    fieldIn host col field = some v ↔ isNullMark field = false ∧ parseI64 field = none ∧
      host.text.parseF64 (String.ofList field) = none ∧
      literalIn host.lib col (.stringLiteral (String.ofList field)) = some v := by
  obtain ⟨hnull, hint, hfloat⟩ := hv
  have hnumber : ∀ n, literalIn host.lib col (.intLiteral n) ≠ some v := by
    intro n h
    rw [literalIn_int] at h
    split at h
    · exact hfloat _ (Option.some.inj h).symm
    · exact hint _ (Option.some.inj h).symm
  rw [fieldIn, fieldExpr]
  cases hmark : isNullMark field with
  | true =>
      rw [if_pos rfl]
      refine ⟨fun h => absurd (Option.some.inj h).symm hnull, fun h => ?_⟩
      cases h.1
  | false =>
      rw [if_neg Bool.false_ne_true]
      cases hparse : parseI64 field with
      | some n => simpa using hnumber n
      | none =>
          cases hx : host.text.parseF64 (String.ofList field) with
          | none => simp
          | some x =>
              simp only [reduceCtorEq, false_and, and_false, iff_false]
              intro h
              obtain ⟨e, he, hvalue⟩ := Option.bind_eq_some_iff.mp h
              unfold numberLiteral at he
              split at he
              · exact hnumber _ (Option.some.inj he ▸ hvalue)
              · split at he
                · obtain ⟨y, -, rfl⟩ := Option.map_eq_some_iff.mp he
                  exact hfloat y (Option.some.inj hvalue).symm
                · cases he

variable (hascii : host.text.LikeAscii)
include hascii

theorem tidy_number {s : Chars} (h : NumberText s) : Tidy host s ∧ isNullMark s = false := by
  obtain ⟨-, hmem⟩ := h.mem
  have hspace : ∀ c ∈ s, host.text.isWhitespace c = false := by
    intro c hc
    rcases hmem c hc with hdigit | hother
    · exact isWhitespace_digit hascii hdigit
    · have hall : ∀ d ∈ "-.Nainf".toList, d.toNat < 128 ∧ asciiLibrary.isWhitespace d = false :=
        Text.forall_mem_of_all (by decide)
      rw [hascii.isWhitespace c (hall c hother).1, (hall c hother).2]
  have hnot : ∀ c, c.isDigit = false → c ∉ "-.Nainf".toList → c ∉ s := fun c hdigit hother hc =>
    (hmem c hc).elim (fun h => by rw [hdigit] at h; cases h) hother
  refine ⟨⟨⟨fun c hc => hspace c (List.mem_of_mem_head? hc),
    fun c hc => hspace c (List.mem_of_getLast? hc)⟩, hnot _ (by decide) (by decide),
    hnot _ (by decide) (by decide)⟩, ?_⟩
  rw [isNullMark, Bool.or_eq_false_iff, decide_eq_false_iff_not]
  constructor
  · rintro rfl
    exact hnot '\\' (by decide) (by decide) List.mem_cons_self
  · rw [Parser.eqIgnoreAsciiCase, decide_eq_false_iff_not]
    intro heq
    have hlower : s.map Char.toLower = "null".toList.map Char.toLower := by
      have hlist : ((String.ofList s).map Char.toLower).toList = ("null".map Char.toLower).toList :=
        congrArg String.toList heq
      simpa only [String.toList_map, String.toList_ofList] using hlist
    obtain ⟨c, hc, hu⟩ : ∃ c ∈ s, c.toLower = 'u' := by
      rw [← List.mem_map, hlower]
      decide
    have hall : ∀ n < 128, (Char.ofNat n).toLower = 'u' →
        (Char.ofNat n).isDigit = false ∧ Char.ofNat n ∉ "-.Nainf".toList := by decide
    have hlt : c.toNat < 128 := by
      rcases hmem c hc with hdigit | hother
      · simp only [Char.isDigit, Bool.and_eq_true, decide_eq_true_eq] at hdigit
        exact (UInt32.le_iff_toNat_le.mp hdigit.2).trans_lt (by decide)
      · have hall : ∀ d ∈ "-.Nainf".toList, d.toNat < 128 := Text.forall_mem_of_all (by decide)
        exact hall c hother
    obtain ⟨hdigit, hother⟩ := hall c.toNat hlt (by rwa [Char.ofNat_toNat])
    rw [Char.ofNat_toNat] at hdigit hother
    exact hnot c hdigit hother hc

variable (hwrites : WritesNumbers host)
include hwrites

/-- Only a text or a payload may be written as a field that is not found again. -/
theorem tidy_written (hv : (∀ s, v ≠ .text s) ∧ ∀ s, v ≠ .json s) :
    Tidy host (copyText host v).toList := by
  have hword : ∀ word : Chars, (∀ c ∈ word, c ∈ ['\\', 'N', 't', 'f']) → Tidy host word := by
    intro word hword
    have hall : ∀ c ∈ ['\\', 'N', 't', 'f'], c.toNat < 128 ∧ asciiLibrary.isWhitespace c = false :=
      Text.forall_mem_of_all (by decide)
    have hspace : ∀ c ∈ word, host.text.isWhitespace c = false := by
      intro c hc
      rw [hascii.isWhitespace c (hall c (hword c hc)).1, (hall c (hword c hc)).2]
    exact ⟨⟨fun c hc => hspace c (List.mem_of_mem_head? hc),
      fun c hc => hspace c (List.mem_of_getLast? hc)⟩,
      fun hc => absurd (hword _ hc) (by decide), fun hc => absurd (hword _ hc) (by decide)⟩
  cases v with
  | null =>
      rw [copyText_null]
      exact hword _ (Text.forall_mem_of_all (by decide))
  | integer n => exact (tidy_number hascii (numberText_int _)).1
  | float x => exact (tidy_number hascii (hwrites.text x)).1
  | boolean b => cases b <;> exact hword _ (by simp [copyText])
  | vector xs =>
      obtain ⟨htight, htab, hnewline⟩ := hwrites.vector xs
      exact ⟨htight, htab, hnewline⟩
  | text s => exact absurd rfl (hv.1 s)
  | json s => exact absurd rfl (hv.2 s)

/-- What a field was read as is written as a field that is found again. -/
theorem tidy_of_fieldIn (h : fieldIn host col field = some v) (hfield : Tidy host field) :
    Tidy host (copyText host v).toList := by
  have hstring (hv : v ≠ .null ∧ (∀ n, v ≠ .integer n) ∧ ∀ x, v ≠ .float x) :=
    literalIn_string ((fieldIn_string hv).mp h).2.2.2
  cases v with
  | text s =>
      rcases hstring (by simp) with heq | heq | ⟨xs, heq⟩ <;> cases heq
      rwa [copyText, String.toList_ofList]
  | json s =>
      rcases hstring (by simp) with heq | heq | ⟨xs, heq⟩ <;> cases heq
      rwa [copyText, String.toList_ofList]
  | _ => exact tidy_written hascii hwrites (by simp)

theorem tidy_of_copies (h : Copies host col v) : Tidy host (copyText host v).toList := by
  cases v with
  | text s => exact h.1.toTidy
  | json s => exact h.1.toTidy
  | _ => exact tidy_written hascii hwrites (by simp)

theorem tidy_of_forall₂ {cols : List Column} {row : Row}
    (h : List.Forall₂ (Copies host) cols row) : ∀ v ∈ row, Tidy host (copyText host v).toList := by
  induction h with
  | nil => exact nofun
  | cons hv _ ih => exact List.forall_mem_cons.mpr ⟨tidy_of_copies hascii hwrites hv, ih⟩

theorem fieldIn_float (x : Float) (hcol : col.ty = .float) :
    fieldIn host col (host.floatText x).toList = some (.float x) ↔ floatCopies host x := by
  have hmark := (tidy_number hascii (hwrites.text x)).2
  rw [fieldIn, fieldExpr, hmark, if_neg Bool.false_ne_true, floatCopies, String.ofList_toList]
  cases hparse : parseI64 (host.floatText x).toList with
  | some n => simp [literalIn_int, hcol]
  | none =>
      by_cases hnan : host.floatText x = "NaN"
      · have hnone : numberLiteral host.text "NaN".toList = none := rfl
        rw [hnan]
        refine ⟨fun h => ?_, fun h => absurd h.1 (by decide)⟩
        cases hx : host.text.parseF64 "NaN" with
        | some y =>
            rw [hx] at h
            simp only [hwrites.nan y hx, hnone] at h
            cases h
        | none =>
            rw [hx] at h
            rcases literalIn_string h with heq | heq | ⟨xs, heq⟩ <;> cases heq
      · rw [hwrites.parse x hnan]
        simp only [numberLiteral, hparse, String.ofList_toList, hwrites.parse x hnan]
        split
        · next hdigits => simpa [literalIn_float] using hdigits
        · next hdigits => simpa using hdigits

theorem fieldIn_copyText (htyped : v.Typed col.ty) (htidy : Tidy host (copyText host v).toList) :
    fieldIn host col (copyText host v).toList = some v ↔ Copies host col v := by
  have hstring (hv : v ≠ .null ∧ (∀ n, v ≠ .integer n) ∧ ∀ x, v ≠ .float x) :
      fieldIn host col (copyText host v).toList = some v ↔
        PlainField host (copyText host v).toList ∧
          literalIn host.lib col (.stringLiteral (copyText host v)) = some v := by
    rw [fieldIn_string hv, String.ofList_toList]
    constructor
    · rintro ⟨hmark, hint, hfloat, hvalue⟩
      exact ⟨⟨htidy, hmark, hint, by rwa [String.ofList_toList]⟩, hvalue⟩
    · rintro ⟨hplain, hvalue⟩
      have hfloat := hplain.float
      rw [String.ofList_toList] at hfloat
      exact ⟨hplain.mark, hplain.integer, hfloat, hvalue⟩
  cases v with
  | null =>
      rw [copyText_null]
      exact iff_of_true rfl trivial
  | integer n =>
      have hcol : col.ty = .integer := by
        cases hty : col.ty <;> rw [hty] at htyped <;> first | rfl | cases htyped
      have hmark := (tidy_number hascii (numberText_int n.toInt)).2
      refine iff_of_true ?_ trivial
      rw [copyText, fieldIn, fieldExpr, hmark, if_neg Bool.false_ne_true, parseI64_toString]
      simp [literalIn_int, hcol]
  | float x =>
      have hcol : col.ty = .float := by
        cases hty : col.ty <;> rw [hty] at htyped <;> first | rfl | cases htyped
      exact fieldIn_float hascii hwrites x hcol
  | boolean b =>
      refine iff_of_false (fun h => ?_) id
      rcases literalIn_string ((hstring (by simp)).mp h).2 with heq | heq | ⟨xs, heq⟩ <;> cases heq
  | text s => exact hstring (by simp)
  | json s => exact hstring (by simp)
  | vector xs => exact hstring (by simp)

end Values

/-! ## Rows -/

section Rows

variable {host : Host} {schema : TableSchema} {ctx : ExecutionContext} {row : Row}
  {rows : List Row}

theorem copyLine_eq (row : Row) :
    (copyLine host row).toList = Text.join ['\t'] (rowTexts host row) ++ ['\n'] := by
  rw [copyLine, String.toList_append, String.toList_intercalate, List.map_map]
  rfl

theorem mem_fieldRow {cols : List Column} {fields : List Chars}
    (h : fieldRow host cols fields = some row) {v : Value} (hv : v ∈ row) :
    ∃ col, ∃ field ∈ fields, fieldIn host col field = some v := by
  induction cols generalizing fields row with
  | nil =>
      obtain rfl : [] = row := Option.some.inj h
      cases hv
  | cons col cols ih =>
      cases fields with
      | nil =>
          obtain rfl : [] = row := Option.some.inj h
          cases hv
      | cons field fields =>
          obtain ⟨v', hvalue, h⟩ := Option.bind_eq_some_iff.mp h
          obtain ⟨rest, hrest, h⟩ := Option.bind_eq_some_iff.mp h
          obtain rfl := Option.some.inj h
          rcases List.mem_cons.mp hv with rfl | hv
          · exact ⟨col, field, List.mem_cons_self, hvalue⟩
          · obtain ⟨col', field', hmem, hvalue'⟩ := ih hrest hv
            exact ⟨col', field', List.mem_cons_of_mem _ hmem, hvalue'⟩

/-- The row that comes of a line of tidy fields. -/
def backRow (host : Host) (schema : TableSchema) (row : Row) : Option Row :=
  if (rowTexts host row).head? ≠ some [] ∧ (rowTexts host row).getLast? ≠ some [] ∧
      rowTexts host row ≠ [['\\', '.']] then fieldRow host schema.columns (rowTexts host row)
  else none

/-- The rows that come of a line. -/
def lineRows (host : Host) (schema : TableSchema) (row : Row) : List Row :=
  (messageRows host false (columnTexts schema) (utf8 (copyLine host row))).filterMap
    (fieldRow host schema.columns)

theorem finish_db {σ : Type} (sent : List BackendMessage) (r : Outcome IoErrorKind Nat × σ) :
    (finish sent r).2.2 = r.2 := by
  rcases r with ⟨n | e | why, s⟩ <;> rfl

theorem copyDataOf_copyOutReply (columns : List String) (rows : List Row) :
    copyDataOf (copyOutReply host (.ok (.rows columns rows))) =
      rows.map fun row => utf8 (copyLine host row) := by
  simp only [copyDataOf, copyOutReply, List.filterMap_append, List.filterMap_cons,
    List.filterMap_map, List.filterMap_nil, List.append_nil]
  exact congrFun List.filterMap_eq_map rows

variable (hascii : host.text.LikeAscii) (hwrites : WritesNumbers host)
  (hlossy : ∀ s, host.lossy (utf8 s) = s) (hnames : PlainNames host schema)

include hascii in
theorem messageRows_copyLine : messageRows host false (columnTexts schema) (utf8 (copyLine host row)) =
    (Text.splitOn '\n' (host.lossy (utf8 (copyLine host row))).toList).filterMap
      (rowFields host false (columnTexts schema)) := by
  refine messageRows_splitOn ?_ _
  rw [hascii.isWhitespace _ (by decide)]
  rfl

include hascii hwrites hnames in
/-- Every message is a line, and the rows of the lines are inserted. -/
theorem copiedBack_eq (hfits : ∀ row ∈ rows, fits (utf8 (copyLine host row))) :
    copiedBack host schema ctx rows = rows.flatMap (lineRows host schema) := by
  have hlengths : ∀ fields ∈ rows.flatMap (fun row =>
      messageRows host false (columnTexts schema) (utf8 (copyLine host row))),
      fields.length = schema.columns.length := by
    intro fields hfields
    obtain ⟨row, -, hfields⟩ := List.mem_flatMap.mp hfields
    obtain ⟨line, -, hline⟩ := List.mem_filterMap.mp hfields
    obtain ⟨-, -, -, hlength⟩ := rowFields_eq_some.mp hline
    rwa [columnTexts, List.length_map] at hlength
  have hsizes : ∀ chunk ∈ rows.map fun row => utf8 (copyLine host row), fits chunk := by
    intro chunk hchunk
    obtain ⟨row, hrow, rfl⟩ := List.mem_map.mp hchunk
    exact hfits row hrow
  rw [copiedBack, copyDataOf_copyOutReply, copyResult_eq hsizes (by simp), finish_db,
    List.flatMap_map, insertRows_table hascii hwrites hnames hlengths, List.nil_append,
    List.filterMap_flatMap]
  rfl

include hascii hwrites in
theorem tidy_of_mem_lineRows {row' : Row} (h : row' ∈ lineRows host schema row) :
    ∀ v ∈ row', Tidy host (copyText host v).toList := by
  intro v hv
  obtain ⟨fields, hfields, hrow⟩ := List.mem_filterMap.mp h
  rw [messageRows_copyLine hascii] at hfields
  obtain ⟨line, hline, hfields⟩ := List.mem_filterMap.mp hfields
  obtain ⟨col, field, hfield, hvalue⟩ := mem_fieldRow hrow hv
  exact tidy_of_fieldIn hascii hwrites hvalue
    (tidy_rowFields hfields (Text.mem_splitOn hline).1 field hfield)

include hascii hlossy in
theorem lineRows_tidy (htyped : RowTyped schema row) (hne : schema.columns ≠ [])
    (htidy : ∀ v ∈ row, Tidy host (copyText host v).toList) :
    lineRows host schema row = (backRow host schema row).toList := by
  have htexts : ∀ field ∈ rowTexts host row, Tidy host field := by
    intro field hfield
    obtain ⟨v, hv, rfl⟩ := List.mem_map.mp hfield
    exact htidy v hv
  have hlength : (rowTexts host row).length = (columnTexts schema).length := by
    rw [rowTexts, columnTexts, List.length_map, List.length_map, htyped.length_eq]
  have htexts_ne : rowTexts host row ≠ [] := by
    intro heq
    rw [heq, columnTexts, List.length_map, eq_comm] at hlength
    exact hne (List.length_eq_zero_iff.mp hlength)
  have hnewline : '\n' ∉ Text.join ['\t'] (rowTexts host row) := by
    intro hmem
    rcases Text.mem_join hmem with hsep | ⟨field, hfield, hc⟩
    · exact absurd hsep (by decide)
    · exact (htexts field hfield).newline hc
  have hspace : host.text.isWhitespace '\t' = true := by
    rw [hascii.isWhitespace _ (by decide)]
    rfl
  rw [lineRows, messageRows_copyLine hascii, hlossy, copyLine_eq, Text.splitOn_append,
    Text.splitOn_of_notMem hnewline, List.filterMap_append, List.filterMap_cons,
    rowFields_join hspace htexts hlength htexts_ne, Text.splitOn, List.filterMap_cons,
    rowFields_nil, backRow]
  by_cases hgood : (rowTexts host row).head? ≠ some [] ∧ (rowTexts host row).getLast? ≠ some [] ∧
      rowTexts host row ≠ [['\\', '.']]
  · rw [if_pos hgood, if_pos hgood]
    cases hrow : fieldRow host schema.columns (rowTexts host row) <;> simp [hrow]
  · rw [if_neg hgood, if_neg hgood]
    rfl

include hascii hwrites in
theorem backRow_eq_some (htyped : RowTyped schema row)
    (htidy : ∀ v ∈ row, Tidy host (copyText host v).toList) :
    backRow host schema row = some row ↔ RowCopies host schema row := by
  have hrow : ∀ (cols : List Column) (values : Row),
      List.Forall₂ (fun (c : Column) v => v.Typed c.ty) cols values →
      (∀ v ∈ values, Tidy host (copyText host v).toList) →
      (fieldRow host cols (rowTexts host values) = some values ↔
        List.Forall₂ (Copies host) cols values) := by
    intro cols values h
    induction h with
    | nil => exact fun _ => iff_of_true rfl .nil
    | @cons col v cols values hv hrest ih =>
        intro htidy
        have hvalue := fieldIn_copyText hascii hwrites hv (htidy v List.mem_cons_self)
        have hvalues := ih fun v hv => htidy v (List.mem_cons_of_mem _ hv)
        rw [List.forall₂_cons, ← hvalue, ← hvalues, rowTexts, List.map_cons, fieldRow]
        change (fieldIn host col (copyText host v).toList).bind (fun v' =>
          (fieldRow host cols (rowTexts host values)).bind fun rest => some (v' :: rest)) = _ ↔ _
        cases fieldIn host col (copyText host v).toList <;>
          cases fieldRow host cols (rowTexts host values) <;> simp
  have hvalues := hrow schema.columns row htyped htidy
  rw [backRow]
  constructor
  · intro h
    split at h
    · next hgood => exact ⟨hvalues.mp h, hgood.1, hgood.2.1, hgood.2.2⟩
    · cases h
  · intro h
    rw [if_pos ⟨h.first, h.last, h.mark⟩]
    exact hvalues.mpr h.values

end Rows

/-! ## The round trip -/

theorem filterMap_eq_self_iff {α : Type} {f : α → Option α} {list : List α} :
    list.filterMap f = list ↔ ∀ a ∈ list, f a = some a := by
  induction list with
  | nil => simp
  | cons a list ih =>
      rw [List.forall_mem_cons, ← ih, List.filterMap_cons]
      cases f a with
      | none =>
          have hlength := List.length_filterMap_le f list
          refine iff_of_false (fun heq => ?_) (by simp)
          have hlonger := congrArg List.length heq
          rw [List.length_cons] at hlonger
          exact absurd hlength (hlonger ▸ Nat.not_succ_le_self _)
      | some b => simp

section Main

variable {host : Host} (hascii : host.text.LikeAscii) (hwrites : WritesNumbers host)
  (hlossy : ∀ s, host.lossy (utf8 s) = s) {schema : TableSchema} (hnames : PlainNames host schema)
include hascii hwrites hlossy hnames

theorem copiedBack_eq_self_iff (ctx : ExecutionContext) {rows : List Row}
    (hrows : ∀ row ∈ rows, RowOf host schema row) :
    copiedBack host schema ctx rows = rows ↔ ∀ row ∈ rows, RowCopies host schema row := by
  have hback : (∀ row ∈ rows, ∀ v ∈ row, Tidy host (copyText host v).toList) →
      (rows.flatMap (lineRows host schema) = rows ↔ ∀ row ∈ rows, RowCopies host schema row) := by
    intro htidy
    have hlines : rows.flatMap (lineRows host schema) = rows.filterMap (backRow host schema) := by
      rw [List.filterMap_eq_flatMap_toList]
      exact List.flatMap_congr fun row hrow =>
        lineRows_tidy hascii hlossy (hrows row hrow).typed hnames.ne_nil (htidy row hrow)
    rw [hlines, filterMap_eq_self_iff]
    exact forall₂_congr fun row hrow =>
      backRow_eq_some hascii hwrites (hrows row hrow).typed (htidy row hrow)
  rw [copiedBack_eq hascii hwrites hnames fun row hrow => (hrows row hrow).fits]
  constructor
  · -- what comes back was read from fields, so the rows are of such values
    intro h
    refine (hback fun row hrow => ?_).mp h
    rw [← h] at hrow
    obtain ⟨row', -, hmem⟩ := List.mem_flatMap.mp hrow
    exact tidy_of_mem_lineRows hascii hwrites hmem
  · intro h
    exact (hback fun row hrow => tidy_of_forall₂ hascii hwrites (h row hrow).values).mpr h

end Main

/-! ## Rows that come back, and a row that does not -/

/-- A host that writes no number with a fraction and no vector. -/
def copyHost : Host := { utf8Host with floatText := fun _ => "NaN", debugVector := fun _ => "[]" }

theorem writesNumbers_copyHost : WritesNumbers copyHost where
  text _ := .nan
  parse _ h := absurd rfl h
  nan _ _ := rfl
  vector _ := show (Text.Tight asciiLibrary.isWhitespace "[]".toList ∧ '\t' ∉ "[]".toList ∧
    '\n' ∉ "[]".toList) from ⟨Text.tight_of_ends rfl rfl, by decide, by decide⟩

theorem namesColumn_copyHost {name : String} (h : isOwn name)
    (htokens : ownTokens name = [.identifier name]) :
    NamesColumn copyHost.text name.toList name :=
  namesColumn_own asciiLibrary_likeAscii h htokens rfl

def noteSchema : TableSchema :=
  ⟨"notes", [⟨"id", .integer, true, true⟩, ⟨"note", .text, false, false⟩], 3, false⟩

theorem plainNames_noteSchema : PlainNames copyHost noteSchema where
  table := (namesColumn_copyHost (by decide +kernel) (by decide +kernel)).table
  columns := by
    intro col hcol
    have hall : ∀ c ∈ noteSchema.columns, isOwn c.name ∧ ownTokens c.name = [.identifier c.name] := by
      decide +kernel
    exact namesColumn_copyHost (hall col hcol).1 (hall col hcol).2
  nodup := by decide
  ne_nil := List.cons_ne_nil _ _

end ChocoBase.Server.PostgresWire
