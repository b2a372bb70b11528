import ChocoBase.Server.CopyText
import ChocoBase.Server.Connections

/-!
# Copy data in messages

The rows are read message by message, so a row is found only in the message that
holds all of it.  Cuts behind the ends of lines are harmless; any other stream with a
row in it can be cut so that other rows are inserted.
-/

namespace ChocoBase.Server.PostgresWire

open ChocoBase.Foundation ChocoBase.Engine ChocoBase.Auth

open Text (Chars)

def newline : UInt8 := 10

/-- What is relied on of `String::from_utf8_lossy` and `char::is_whitespace`. -/
structure ReadsAscii (host : Host) : Prop where
  lossy_nil : (host.lossy []).toList = []
  /-- an ASCII byte is a character of its own, and parts what is before and behind it -/
  lossy_ascii : ∀ (before : Bytes) (b : UInt8) (behind : Bytes), b < 128 →
    (host.lossy (before ++ b :: behind)).toList =
      (host.lossy before).toList ++ Char.ofNat b.toNat :: (host.lossy behind).toList
  /-- a byte of a longer character is none by itself -/
  lossy_part : ∀ b : UInt8, 128 ≤ b → (host.lossy [b]).toList = ['\uFFFD']
  lossy_newline : ∀ body : Bytes, newline ∉ body → '\n' ∉ (host.lossy body).toList
  space : ∀ c ∈ ['\t', '\n', '\r'], host.text.isWhitespace c = true
  replacement : host.text.isWhitespace '\uFFFD' = false

section Cuts

variable (host : Host) (csv : Bool) (table : Chars) (columns : List Chars)
  (ctx : ExecutionContext)

/-- The messages that a stream may be cut into. -/
def Cut (stream : Bytes) (chunks : List Bytes) : Prop :=
  chunks.flatten = stream ∧ ∀ chunk ∈ chunks, fits chunk

/-- With both cuts the copy comes to the same, whatever the database. -/
def SameCopy (chunks chunks' : List Bytes) : Prop :=
  ∀ (σ : Type) (database : Handler calls σ) (fuel fuel' : Nat) (s : σ),
    chunks.length < fuel → chunks'.length < fuel' →
      copyResult host csv table columns ctx database fuel chunks s =
        copyResult host csv table columns ctx database fuel' chunks' s

/-- Every message but the last ends with a line. -/
def CutAtLines (chunks : List Bytes) : Prop :=
  ∀ chunk ∈ chunks.dropLast, chunk = [] ∨ chunk.getLast? = some newline

/-- A byte that reads as white space. -/
def blank (b : UInt8) : Bool := trimmed host (host.lossy [b]).toList = []

/--
No part of the stream holds a row of tab-separated fields; where a single field is a
row, no line has more than one byte that is not blank.
-/
def Uncuttable (stream : Bytes) : Prop :=
  if columns.length = 1 then ∀ part, part <:+: stream → fits part → newline ∉ part →
    part.countP (fun b => !blank host b) ≤ 1
  else ∀ part, part <:+: stream → fits part →
    ∀ line ∈ Text.lines (host.lossy part).toList, rowFields host false columns line = none

end Cuts

/-! ## The rows of a stream -/

section Rows

variable {host : Host} {csv : Bool} {columns : List Chars}

theorem messageRows_eq (hlib : ReadsAscii host) (body : Bytes) :
    messageRows host csv columns body =
      (Text.splitOn '\n' (host.lossy body).toList).filterMap (rowFields host csv columns) :=
  messageRows_splitOn (hlib.space '\r' (by simp)) body

/-- The end of a line parts the rows before it from those behind it. -/
theorem messageRows_newline (hlib : ReadsAscii host) (before behind : Bytes) :
    messageRows host csv columns (before ++ newline :: behind) =
      messageRows host csv columns before ++ messageRows host csv columns behind := by
  rw [messageRows_eq hlib, messageRows_eq hlib, messageRows_eq hlib,
    hlib.lossy_ascii before newline behind (by decide)]
  exact (congrArg _ (Text.splitOn_append '\n' _ _)).trans (List.filterMap_append)

theorem messageRows_nil (hlib : ReadsAscii host) : messageRows host csv columns [] = [] := by
  rw [messageRows_eq hlib, hlib.lossy_nil, Text.splitOn, List.filterMap_cons, rowFields_nil]
  rfl

theorem messageRows_cutAtLines (hlib : ReadsAscii host) {chunks : List Bytes}
    (h : CutAtLines chunks) :
    chunks.flatMap (messageRows host csv columns) =
      messageRows host csv columns chunks.flatten := by
  induction chunks with
  | nil => exact (messageRows_nil hlib).symm
  | cons chunk rest ih =>
      cases rest with
      | nil => simp
      | cons next rest =>
          have hrest := ih fun c hc => h c (List.mem_cons_of_mem _ hc)
          have hflatten : (chunk :: next :: rest).flatten = chunk ++ (next :: rest).flatten :=
            List.flatten_cons
          rw [List.flatMap_cons, hrest, hflatten]
          rcases h chunk List.mem_cons_self with rfl | hlast
          · rw [messageRows_nil hlib]
            rfl
          · obtain ⟨front, rfl⟩ := List.getLast?_eq_some_iff.mp hlast
            have hfront := @messageRows_newline host csv columns hlib front []
            rw [messageRows_nil hlib, List.append_nil] at hfront
            have hstream : front ++ [newline] ++ (next :: rest).flatten =
                front ++ newline :: (next :: rest).flatten := by simp
            rw [hfront, hstream, messageRows_newline hlib]

/-! ### Rows of single bytes -/

theorem lossy_singleton (hlib : ReadsAscii host) (b : UInt8) :
    ∃ c, (host.lossy [b]).toList = [c] := by
  by_cases hb : b < 128
  · have hread := hlib.lossy_ascii [] b [] hb
    rw [hlib.lossy_nil] at hread
    exact ⟨_, hread⟩
  · exact ⟨_, hlib.lossy_part b (UInt8.not_lt.mp hb)⟩

/-- A single character is a row where one field is, unless it is white space. -/
theorem rowFields_singleton (hlib : ReadsAscii host) (c : Char) :
    rowFields host false columns [c] =
      if host.text.isWhitespace c ∨ columns.length ≠ 1 then none else some [[c]] := by
  by_cases hc : host.text.isWhitespace c = true
  · have htrim : trimmed host [c] = [] := Text.trim_eq_nil_iff.mpr (by simpa using hc)
    rw [rowFields, if_pos (.inr (.inl htrim)), if_pos (.inl hc)]
  · have htrim : trimmed host [c] = [c] := by
      rw [trimmed, Text.trim, Text.trimStart_cons, if_neg hc]
      exact (Text.trimEnd_concat _ c []).trans (if_neg hc)
    have htab : c ≠ '\t' := by
      rintro rfl
      exact hc (hlib.space '\t' (by simp))
    have hfields : (Text.splitOn '\t' [c]).map (trimmed host) = [[c]] := by
      rw [Text.splitOn_of_notMem (by simpa using Ne.symm htab), List.map_singleton, htrim]
    simp only [rowFields, htrim, Bool.false_eq_true, if_false, hfields]
    simp [hc, eq_comm]

theorem blank_eq {b : UInt8} {c : Char} (hc : (host.lossy [b]).toList = [c]) :
    blank host b = host.text.isWhitespace c := by
  rw [Bool.eq_iff_iff, blank, hc, decide_eq_true_iff, trimmed, Text.trim_eq_nil_iff]
  simp

theorem messageRows_singleton (hlib : ReadsAscii host) (b : UInt8) :
    messageRows host false columns [b] =
      if blank host b ∨ columns.length ≠ 1 then [] else [[(host.lossy [b]).toList]] := by
  obtain ⟨c, hc⟩ := lossy_singleton hlib b
  rw [messageRows_eq hlib, blank_eq hc, hc]
  by_cases hnewline : c = '\n'
  · subst hnewline
    rw [if_pos (.inl (hlib.space '\n' (by simp))), Text.splitOn, if_pos rfl, Text.splitOn,
      List.filterMap_cons, List.filterMap_cons, rowFields_nil]
    rfl
  · rw [Text.splitOn_of_notMem (by simpa using Ne.symm hnewline), List.filterMap_cons,
      rowFields_singleton hlib]
    by_cases hnone : host.text.isWhitespace c = true ∨ columns.length ≠ 1
    · rw [if_pos hnone, if_pos hnone]
      rfl
    · rw [if_neg hnone, if_neg hnone]
      rfl

/-- With more columns than one, a message of one byte has no row. -/
theorem messageRows_singleton_of_ne (hlib : ReadsAscii host) (hcolumns : columns.length ≠ 1)
    (b : UInt8) : messageRows host false columns [b] = [] := by
  rw [messageRows_singleton hlib, if_pos (.inr hcolumns)]

/-- A message without the end of a line has one row at most. -/
theorem messageRows_line (hlib : ReadsAscii host) {part : Bytes} (hpart : newline ∉ part) :
    (messageRows host csv columns part).length ≤ 1 := by
  rw [messageRows_eq hlib, Text.splitOn_of_notMem (hlib.lossy_newline part hpart)]
  exact List.length_filterMap_le _ _

/-! ### Lines with one byte that is not blank -/

/-- White space is ASCII as far as it is read byte by byte. -/
theorem lossy_blank (hlib : ReadsAscii host) {b : UInt8} (hb : blank host b = true) :
    host.text.isWhitespace (Char.ofNat b.toNat) = true ∧ ∀ before behind : Bytes,
      (host.lossy (before ++ b :: behind)).toList =
        (host.lossy before).toList ++ Char.ofNat b.toNat :: (host.lossy behind).toList := by
  have hascii : b < 128 := by
    by_contra hhigh
    rw [blank_eq (hlib.lossy_part b (UInt8.not_lt.mp hhigh)), hlib.replacement] at hb
    cases hb
  have hread := hlib.lossy_ascii [] b [] hascii
  rw [hlib.lossy_nil] at hread
  exact ⟨blank_eq hread ▸ hb, fun before behind => hlib.lossy_ascii before b behind hascii⟩

theorem lossy_blanks (hlib : ReadsAscii host) {x : Bytes} (hx : ∀ b ∈ x, blank host b = true) :
    ∃ cs : Chars, (∀ c ∈ cs, host.text.isWhitespace c = true) ∧
      (∀ z, (host.lossy (x ++ z)).toList = cs ++ (host.lossy z).toList) ∧
      ∀ z, (host.lossy (z ++ x)).toList = (host.lossy z).toList ++ cs := by
  induction x with
  | nil => exact ⟨[], nofun, fun z => rfl, fun z => by rw [List.append_nil, List.append_nil]⟩
  | cons b x ih =>
      obtain ⟨cs, hcs, hfront, hback⟩ := ih fun d hd => hx d (List.mem_cons_of_mem _ hd)
      obtain ⟨hspace, hread⟩ := lossy_blank hlib (hx b List.mem_cons_self)
      have hx' : (host.lossy x).toList = cs := by
        have hself := hfront []
        rwa [List.append_nil, hlib.lossy_nil, List.append_nil] at hself
      refine ⟨Char.ofNat b.toNat :: cs, ?_, fun z => ?_, fun z => ?_⟩
      · intro c hc
        rcases List.mem_cons.mp hc with rfl | hc
        · exact hspace
        · exact hcs c hc
      · have hstart := hread [] (x ++ z)
        rw [hlib.lossy_nil, hfront z] at hstart
        exact hstart
      · rw [hread z x, hx']

theorem rowFields_congr {line line' : Chars} (h : trimmed host line = trimmed host line') :
    rowFields host csv columns line = rowFields host csv columns line' := by
  rw [rowFields, rowFields, h]

theorem messageRows_part (hlib : ReadsAscii host) {part : Bytes} (hpart : newline ∉ part) :
    messageRows host csv columns part =
      (rowFields host csv columns (host.lossy part).toList).toList := by
  rw [messageRows_eq hlib, Text.splitOn_of_notMem (hlib.lossy_newline part hpart),
    List.filterMap_cons]
  cases rowFields host csv columns (host.lossy part).toList <;> rfl

theorem messageRows_blanks (hlib : ReadsAscii host) {x : Bytes}
    (hx : ∀ b ∈ x, blank host b = true) :
    x.flatMap (fun b => messageRows host false columns [b]) = [] := by
  rw [List.flatMap_eq_nil_iff]
  intro b hb
  rw [messageRows_singleton hlib, if_pos (.inl (hx b hb))]

/-- A line with one such byte has the row of that byte. -/
theorem messageRows_few (hlib : ReadsAscii host) {part : Bytes} (hpart : newline ∉ part)
    (hfew : part.countP (fun b => !blank host b) ≤ 1) :
    messageRows host false columns part =
      part.flatMap fun b => messageRows host false columns [b] := by
  by_cases hall : ∀ b ∈ part, blank host b = true
  · obtain ⟨cs, hcs, hfront, -⟩ := lossy_blanks hlib hall
    have hread := hfront []
    rw [List.append_nil, hlib.lossy_nil, List.append_nil] at hread
    have htrim : trimmed host cs = [] := Text.trim_eq_nil_iff.mpr hcs
    rw [messageRows_part hlib hpart, messageRows_blanks hlib hall, hread, rowFields,
      if_pos (.inr (.inl htrim))]
    rfl
  · push Not at hall
    obtain ⟨b, hb, hne⟩ := hall
    obtain ⟨x, y, rfl⟩ := List.append_of_mem hb
    have hcount : x.countP (fun b => !blank host b) = 0 ∧ y.countP (fun b => !blank host b) = 0 := by
      rw [List.countP_append, List.countP_cons_of_pos (by simpa using hne)] at hfew
      omega
    have hx : ∀ d ∈ x, blank host d = true := by simpa [List.countP_eq_zero] using hcount.1
    have hy : ∀ d ∈ y, blank host d = true := by simpa [List.countP_eq_zero] using hcount.2
    obtain ⟨cs, hcs, hfront, -⟩ := lossy_blanks hlib hx
    obtain ⟨cs', hcs', -, hback⟩ := lossy_blanks hlib hy
    have hread : (host.lossy (x ++ b :: y)).toList = cs ++ ((host.lossy [b]).toList ++ cs') := by
      rw [hfront, ← List.singleton_append, hback]
    have hbyte : newline ∉ [b] := fun h =>
      hpart (List.mem_append_right x (List.mem_cons.mpr (.inl (List.mem_singleton.mp h))))
    rw [messageRows_part hlib hpart, hread, rowFields_congr (Text.trim_append hcs hcs' _),
      ← messageRows_part hlib hbyte, List.flatMap_append, List.flatMap_cons,
      messageRows_blanks hlib hx, messageRows_blanks hlib hy, List.nil_append, List.append_nil]

/-- So has a message of such lines. -/
theorem messageRows_bytes (hlib : ReadsAscii host) (chunk : Bytes)
    (h : ∀ part, part <:+: chunk → newline ∉ part →
      part.countP (fun b => !blank host b) ≤ 1) :
    messageRows host false columns chunk =
      chunk.flatMap fun b => messageRows host false columns [b] := by
  induction hlength : chunk.length using Nat.strong_induction_on generalizing chunk with
  | _ n ih =>
      by_cases hmem : newline ∈ chunk
      · obtain ⟨line, rest, rfl, hline⟩ := List.eq_append_cons_of_mem hmem
        have hsuffix : rest <:+: line ++ newline :: rest :=
          ((List.suffix_cons newline rest).trans (List.suffix_append _ _)).isInfix
        have hshort : rest.length < n := by
          rw [← hlength, List.length_append, List.length_cons]
          omega
        have hrest := ih rest.length hshort rest (fun part hpart => h part (hpart.trans hsuffix)) rfl
        have hempty : messageRows host false columns [newline] = [] := by
          have hparts := @messageRows_newline host false columns hlib [] []
          rwa [messageRows_nil hlib] at hparts
        rw [messageRows_newline hlib, hrest, List.flatMap_append, List.flatMap_cons, hempty,
          messageRows_few hlib hline (h line (List.prefix_append _ _).isInfix hline),
          List.nil_append]
      · exact messageRows_few hlib hmem (h chunk (List.infix_refl _) hmem)

end Rows

/-! ## Independence of the cuts -/

/-- A database that takes every statement and keeps its text. -/
def recorder : Handler calls (List String)
  | .execute sql _ => fun s => (.ok (.ok .ok), s ++ [sql])
  | _ => fun s => (.stop .misuse, s)

section Independence

variable {host : Host} {csv : Bool} {table : Chars} {columns : List Chars} {ctx : ExecutionContext}
  {stream : Bytes} {chunks chunks' : List Bytes}

theorem insertRows_recorder (copied : Nat) (rows : List (List Chars)) (s : List String) :
    (insertRows host columns table ctx copied rows).run recorder s =
      (.ok (copied + rows.length), s ++ rows.map (copyInsert host table columns)) := by
  induction rows generalizing copied s with
  | nil => rw [List.map_nil, List.append_nil]; rfl
  | cons fields rest ih =>
      rw [insertRows, Prog.run_bind, Exec.bind_apply, run_call]
      refine (ih (copied + 1) (s ++ [copyInsert host table columns fields])).trans ?_
      rw [List.append_assoc, List.length_cons, Nat.add_right_comm]
      rfl

theorem sameCopy_of_rows (hchunks : ∀ chunk ∈ chunks, fits chunk)
    (hchunks' : ∀ chunk ∈ chunks', fits chunk)
    (hrows : chunks.flatMap (messageRows host csv columns) =
      chunks'.flatMap (messageRows host csv columns)) :
    SameCopy host csv table columns ctx chunks chunks' := by
  intro σ database fuel fuel' s hfuel hfuel'
  rw [copyResult_eq hchunks hfuel, copyResult_eq hchunks' hfuel', hrows]

theorem SameCopy.length_eq (h : SameCopy host csv table columns ctx chunks chunks')
    (hchunks : ∀ chunk ∈ chunks, fits chunk) (hchunks' : ∀ chunk ∈ chunks', fits chunk) :
    (chunks.flatMap (messageRows host csv columns)).length =
      (chunks'.flatMap (messageRows host csv columns)).length := by
  have hsame := h _ recorder _ _ [] (Nat.lt_succ_self _) (Nat.lt_succ_self _)
  rw [copyResult_eq hchunks (Nat.lt_succ_self _), copyResult_eq hchunks' (Nat.lt_succ_self _),
    insertRows_recorder, insertRows_recorder] at hsame
  have hstatements := congrArg (fun r => r.2.2.length) hsame
  simpa [finish] using hstatements

def singles (bs : Bytes) : List Bytes := bs.map fun b => [b]

theorem singles_flatten (bs : Bytes) : (singles bs).flatten = bs := by
  induction bs with
  | nil => rfl
  | cons b bs ih => exact congrArg (b :: ·) ih

theorem singles_fits {bs chunk : Bytes} (h : chunk ∈ singles bs) : fits chunk := by
  obtain ⟨b, -, rfl⟩ := List.mem_map.mp h
  exact (by decide : 1 + 4 < 2 ^ 32)

theorem singles_rows (bs : Bytes) :
    (singles bs).flatMap (messageRows host csv columns) =
      bs.flatMap fun b => messageRows host csv columns [b] :=
  List.flatMap_map ..

/-- The stream byte by byte, but for one part that is a message. -/
def around (before part behind : Bytes) : List Bytes := singles before ++ part :: singles behind

theorem cut_around {before part behind : Bytes} (hpart : fits part) :
    Cut (before ++ part ++ behind) (around before part behind) := by
  constructor
  · rw [around, List.flatten_append, List.flatten_cons, singles_flatten, singles_flatten,
      List.append_assoc]
  · intro chunk hchunk
    rcases List.mem_append.mp hchunk with h | h
    · exact singles_fits h
    · rcases List.mem_cons.mp h with rfl | h
      · exact hpart
      · exact singles_fits h

theorem cut_singles (stream : Bytes) : Cut stream (singles stream) :=
  ⟨singles_flatten stream, fun _ => singles_fits⟩

/-- The part has as many rows as its bytes have. -/
theorem part_length
    (h : ∀ chunks chunks', Cut stream chunks → Cut stream chunks' →
      SameCopy host csv table columns ctx chunks chunks')
    {part : Bytes} (hinside : part <:+: stream) (hfits : fits part) :
    (messageRows host csv columns part).length =
      (part.flatMap fun b => messageRows host csv columns [b]).length := by
  obtain ⟨before, behind, rfl⟩ := hinside
  have hsame := (h _ _ (cut_around hfits) (cut_singles _)).length_eq (cut_around hfits).2
    (cut_singles _).2
  rw [around, List.flatMap_append, List.flatMap_cons, singles_rows, singles_rows, singles_rows,
    List.flatMap_append, List.flatMap_append] at hsame
  simp only [List.length_append] at hsame
  omega

theorem chunk_inside (h : chunks.flatten = stream) {chunk : Bytes} (hchunk : chunk ∈ chunks) :
    chunk <:+: stream := by
  obtain ⟨before, behind, rfl⟩ := List.append_of_mem hchunk
  refine ⟨before.flatten, behind.flatten, ?_⟩
  rw [← h, List.flatten_append, List.flatten_cons, List.append_assoc]

/-- The rows of the bytes are the rows of every cut. -/
theorem rows_of_bytes (hcut : Cut stream chunks)
    (h : ∀ chunk, chunk <:+: stream → fits chunk → messageRows host csv columns chunk =
      chunk.flatMap fun b => messageRows host csv columns [b]) :
    chunks.flatMap (messageRows host csv columns) =
      stream.flatMap fun b => messageRows host csv columns [b] := by
  rw [← hcut.1, ← List.flatMap_id, List.flatMap_assoc]
  exact List.flatMap_congr fun chunk hchunk =>
    h chunk (chunk_inside hcut.1 hchunk) (hcut.2 chunk hchunk)

theorem fits_of_inside {part chunk : Bytes} (hinside : part <:+: chunk) (h : fits chunk) :
    fits part := by
  have hlength := hinside.length_le
  unfold fits at h ⊢
  omega

/-- What an uncuttable part holds is what its bytes hold. -/
theorem Uncuttable.rows (hlib : ReadsAscii host) (h : Uncuttable host columns stream) {chunk : Bytes}
    (hinside : chunk <:+: stream) (hfits : fits chunk) :
    messageRows host false columns chunk =
      chunk.flatMap fun b => messageRows host false columns [b] := by
  unfold Uncuttable at h
  split at h
  · exact messageRows_bytes hlib chunk fun part hpart hnewline =>
      h part (hpart.trans hinside) (fits_of_inside hpart hfits) hnewline
  · next hcolumns =>
      rw [List.flatMap_eq_nil_iff.mpr fun b _ => messageRows_singleton_of_ne hlib hcolumns b]
      exact List.filterMap_eq_nil_iff.mpr (h chunk hinside hfits)

theorem bytes_length (hlib : ReadsAscii host) (hcolumns : columns.length = 1) (bs : Bytes) :
    (bs.flatMap fun b => messageRows host false columns [b]).length =
      bs.countP fun b => !blank host b := by
  induction bs with
  | nil => rfl
  | cons b bs ih =>
      rw [List.flatMap_cons, List.length_append, ih, messageRows_singleton hlib, List.countP_cons]
      cases blank host b with
      | false => simp [hcolumns, Nat.add_comm]
      | true => simp

theorem uncuttable_of_length (hlib : ReadsAscii host)
    (h : ∀ part, part <:+: stream → fits part → (messageRows host false columns part).length =
      (part.flatMap fun b => messageRows host false columns [b]).length) :
    Uncuttable host columns stream := by
  unfold Uncuttable
  split
  · next hcolumns =>
      intro part hpart hfits hnewline
      rw [← bytes_length hlib hcolumns, ← h part hpart hfits]
      exact messageRows_line hlib hnewline
  · next hcolumns =>
      intro part hpart hfits
      have hlength := h part hpart hfits
      rw [List.flatMap_eq_nil_iff.mpr fun b _ => messageRows_singleton_of_ne hlib hcolumns b]
        at hlength
      exact List.filterMap_eq_nil_iff.mp (List.length_eq_zero_iff.mp hlength)

/--
Two cuts behind the ends of lines come to the same.  All cuts of a stream do exactly
if it is uncuttable.
-/
theorem copyIn_independent_iff (hlib : ReadsAscii host) :
    (∀ chunks chunks', Cut stream chunks → Cut stream chunks' → CutAtLines chunks →
      CutAtLines chunks' → SameCopy host csv table columns ctx chunks chunks') ∧
    ((∀ chunks chunks', Cut stream chunks → Cut stream chunks' →
      SameCopy host false table columns ctx chunks chunks') ↔ Uncuttable host columns stream) := by
  refine ⟨fun chunks chunks' hcut hcut' hlines hlines' => ?_, fun h => ?_, fun h => ?_⟩
  · refine sameCopy_of_rows hcut.2 hcut'.2 ?_
    rw [messageRows_cutAtLines hlib hlines, messageRows_cutAtLines hlib hlines', hcut.1, hcut'.1]
  · exact uncuttable_of_length hlib fun part hpart hfits => part_length h hpart hfits
  · intro chunks chunks' hcut hcut'
    have hrows := fun {chunk} => @Uncuttable.rows host columns stream hlib h chunk
    refine sameCopy_of_rows hcut.2 hcut'.2 ?_
    rw [rows_of_bytes hcut fun _ => hrows, rows_of_bytes hcut' fun _ => hrows]

end Independence

/-! ## A row in two messages -/

/-- A host that reads ASCII, and marks every other byte. -/
def asciiHost : Host where
  __ := Running.plainHost
  lossy bytes := String.ofList (bytes.map fun b =>
    if b < 128 then Char.ofNat b.toNat else '\uFFFD')

theorem readsAscii_asciiHost : ReadsAscii asciiHost where
  lossy_nil := rfl
  lossy_ascii before b behind hb := by simp [asciiHost, hb]
  lossy_part b hb := by simp [asciiHost, UInt8.not_lt.mpr hb]
  lossy_newline body hbody h := by
    obtain ⟨b, hb, heq⟩ := List.mem_map.mp (String.toList_ofList ▸ h)
    have hnewline : b = newline := by
      split at heq
      · next hascii =>
          have hlt : b.toNat < 128 := UInt8.lt_iff_toNat_lt.mp hascii
          have hall : ∀ n < 128, Char.ofNat n = '\n' → n = 10 := by decide
          exact UInt8.toNat_inj.mp (hall b.toNat hlt heq)
      · exact absurd heq (by decide)
    exact hbody (hnewline ▸ hb)
  space := Text.forall_mem_of_all (by decide)
  replacement := by decide

theorem copyIn_independent_blank :
    (∀ chunks chunks', Cut [32, 10] chunks → Cut [32, 10] chunks' → CutAtLines chunks →
      CutAtLines chunks' → SameCopy asciiHost true ['t'] [['a']] .anonymous chunks chunks') ∧
    ((∀ chunks chunks', Cut [32, 10] chunks → Cut [32, 10] chunks' →
      SameCopy asciiHost false ['t'] [['a']] .anonymous chunks chunks') ↔
        Uncuttable asciiHost [['a']] [32, 10]) :=
  copyIn_independent_iff readsAscii_asciiHost

/-- The message `1` and the message `\t2` have no row, and the row of both is lost. -/
theorem copyIn_splits_row :
    ¬∀ stream chunks chunks', Cut stream chunks → Cut stream chunks' →
      SameCopy asciiHost false ['t'] [['a'], ['b']] .anonymous chunks chunks' := by
  intro h
  have hwhole : Cut [49, 9, 50, 10] [[49, 9, 50, 10]] := ⟨rfl, by simp [fits]⟩
  have hsplit : Cut [49, 9, 50, 10] [[49], [9, 50, 10]] := ⟨rfl, by simp [fits]⟩
  have hlength := (h _ _ _ hwhole hsplit).length_eq hwhole.2 hsplit.2
  exact absurd hlength (by decide +kernel)

end ChocoBase.Server.PostgresWire
