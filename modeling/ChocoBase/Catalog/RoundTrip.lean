import ChocoBase.Catalog.Catalog

/-!
# Reading records back

A record of less than 64 KiB decodes to what was encoded, but for the dimension of a
vector column, of which 16 bits are kept, and for the expressions of a policy.
-/

namespace ChocoBase.Catalog

open ChocoBase.Foundation ChocoBase.Storage ChocoBase.BTree ChocoBase.Sql ChocoBase.Types
  ChocoBase.Engine

theorem readString_append {s : String} {rest : Bytes} (h : (utf8 s).length < 2 ^ 16) :
    readString (writeString s ++ rest) = some (s, rest) := by
  rw [writeString, List.append_assoc, readString, readLe_append (by simpa using h)]
  simp [splitBytes_append]

theorem readBool_append (b : Bool) (rest : Bytes) :
    readBool (writeBool b ++ rest) = some (b, rest) := by
  cases b <;> rfl

theorem readPageNo_append (no : PageNo) (rest : Bytes) :
    readPageNo (leBytes 4 no.toNat ++ rest) = some (no, rest) := by
  rw [readPageNo, readLe_append (by simpa using no.toNat_lt)]
  simp

/-! ## Columns -/

/-- What is kept of a type. -/
def storedType : ColumnType → ColumnType
  | .vector dim => .vector (dim % 2 ^ 16)
  | ty => ty

def storedColumn (col : Column) : Column := { col with ty := storedType col.ty }

def storedSchema (schema : TableSchema) : TableSchema :=
  { schema with columns := schema.columns.map storedColumn }

theorem decodeType_append (ty : ColumnType) (rest : Bytes) :
    decodeType (encodeType ty ++ rest) = some (storedType ty, rest) := by
  cases ty with
  | vector dim =>
      have hread : readLe 2 (leBytes 2 dim ++ rest) = some (dim % 2 ^ 16, rest) := by
        simp [readLe, splitBytes_append, leValue_leBytes]
      simp [decodeType, encodeType, readByte, typeTag, hread, storedType]
  | _ => rfl

theorem decodeColumn_append {col : Column} {rest : Bytes} (h : (utf8 col.name).length < 2 ^ 16) :
    decodeColumn (encodeColumn col ++ rest) = some (storedColumn col, rest) := by
  simp only [encodeColumn, List.append_assoc, decodeColumn, readString_append h,
    Option.bind_eq_bind, Option.bind_some, decodeType_append, readBool_append]
  rfl

theorem decodeColumnList_append {cols : List Column} {rest : Bytes}
    (h : ∀ col ∈ cols, (utf8 col.name).length < 2 ^ 16) :
    decodeColumnList cols.length (cols.flatMap encodeColumn ++ rest) =
      some (cols.map storedColumn, rest) := by
  induction cols with
  | nil => rfl
  | cons col cols ih =>
      rw [List.length_cons, decodeColumnList, List.flatMap_cons, List.append_assoc,
        decodeColumn_append (h col List.mem_cons_self)]
      simp only [Option.bind_eq_bind, Option.bind_some,
        ih fun c hc => h c (List.mem_cons_of_mem _ hc)]
      rfl

/-! ## Tables -/

theorem mem_flatMap_length {α : Type} {f : α → Bytes} {a : α} {as : List α} (h : a ∈ as) :
    (f a).length ≤ (as.flatMap f).length := by
  obtain ⟨before, after, rfl⟩ := List.append_of_mem h
  rw [List.flatMap_append, List.flatMap_cons, List.length_append, List.length_append]
  omega

theorem length_le_flatMap {α : Type} {f : α → Bytes} (h : ∀ a, 0 < (f a).length) (as : List α) :
    as.length ≤ (as.flatMap f).length := by
  induction as with
  | nil => exact le_rfl
  | cons a as ih =>
      have ha := h a
      rw [List.flatMap_cons, List.length_append, List.length_cons]
      omega

theorem decode_encodeTable {schema : TableSchema}
    (h : (encodeTableRecord schema).length < 2 ^ 16) :
    decodeTableRecord (encodeTableRecord schema) = some (storedSchema schema) := by
  have hcolumn : ∀ col : Column, (utf8 col.name).length < (encodeColumn col).length := fun col => by
    cases hty : col.ty <;>
      simp [encodeColumn, encodeType, writeString, writeBool, hty] <;> omega
  have hlen : (utf8 schema.name).length + (schema.columns.flatMap encodeColumn).length < 2 ^ 16 := by
    simp only [encodeTableRecord, writeString, List.length_cons, List.length_append,
      leBytes_length] at h
    omega
  have hcount : schema.columns.length < 256 ^ 2 := by
    have hle := length_le_flatMap (fun col => (Nat.zero_le _).trans_lt (hcolumn col)) schema.columns
    omega
  have hnames : ∀ col ∈ schema.columns, (utf8 col.name).length < 2 ^ 16 := fun col hcol => by
    have hle := mem_flatMap_length (f := encodeColumn) hcol
    have hlt := hcolumn col
    omega
  simp only [decodeTableRecord, encodeTableRecord, recordKind, List.head?_cons, List.tail_cons,
    List.append_assoc, guard_true, readString_append (show (utf8 schema.name).length < 2 ^ 16 by omega),
    Option.bind_eq_bind, Option.bind_some, readPageNo_append, readLe_append hcount,
    decodeColumnList_append hnames]
  cases hrls : schema.rlsEnabled <;> simp [writeBool, storedSchema, hrls]

theorem leBytes_mod (width n : Nat) : leBytes width (n % 256 ^ width) = leBytes width n := by
  induction width generalizing n with
  | zero => rfl
  | succ width ih =>
      have hlow : UInt8.ofNat (n % 256 ^ (width + 1)) = UInt8.ofNat n := by
        rw [← UInt8.toNat_inj, UInt8.toNat_ofNat', UInt8.toNat_ofNat', Nat.pow_succ']
        exact Nat.mod_mul_right_mod n 256 (256 ^ width)
      have hhigh : n % 256 ^ (width + 1) / 256 = n / 256 % 256 ^ width := by
        rw [Nat.pow_succ', Nat.mod_mul_right_div_self]
      rw [leBytes, leBytes, hlow, hhigh, ih]

theorem encodeTable_stored (schema : TableSchema) :
    encodeTableRecord (storedSchema schema) = encodeTableRecord schema := by
  have htype : ∀ ty, encodeType (storedType ty) = encodeType ty := fun ty => by
    cases ty with
    | vector dim => exact congrArg (typeTag (.vector dim) :: ·) (leBytes_mod 2 dim)
    | _ => rfl
  have hcolumn : ∀ col, encodeColumn (storedColumn col) = encodeColumn col := fun col => by
    simp only [encodeColumn, storedColumn, htype]
  simp only [encodeTableRecord, storedSchema, List.length_map, List.flatMap_map, hcolumn]

/-- What was read back is stored as it is. -/
theorem stored_of_decodes {schema : TableSchema}
    (h : decodeTableRecord (encodeTableRecord schema) = some schema)
    (hsmall : (encodeTableRecord schema).length < 2 ^ 16) :
    schema.columns.map storedColumn = schema.columns := by
  have hstored := Option.some.inj ((decode_encodeTable hsmall).symm.trans h)
  exact congrArg TableSchema.columns hstored

theorem decodes_of_stored {schema : TableSchema}
    (h : schema.columns.map storedColumn = schema.columns)
    (hsmall : (encodeTableRecord schema).length < 2 ^ 16) :
    decodeTableRecord (encodeTableRecord schema) = some schema := by
  rw [decode_encodeTable hsmall, storedSchema, h]

theorem encodeTable_length_withRoot (schema : TableSchema) (root : PageNo) :
    (encodeTableRecord { schema with rootPage := root }).length =
      (encodeTableRecord schema).length := by
  simp [encodeTableRecord]

theorem encodeIndex_length_withRoot (schema : IndexSchema) (root : PageNo) :
    (encodeIndexRecord { schema with rootPage := root }).length =
      (encodeIndexRecord schema).length := by
  simp [encodeIndexRecord]

/-! ## Indexes and policies -/

theorem decode_encodeIndex {schema : IndexSchema}
    (h : (encodeIndexRecord schema).length < 2 ^ 16) :
    decodeIndexRecord (encodeIndexRecord schema) = some schema := by
  simp only [encodeIndexRecord, writeString, List.length_cons, List.length_append,
    leBytes_length] at h
  have hname : (utf8 schema.name).length < 2 ^ 16 := by omega
  have htable : (utf8 schema.table).length < 2 ^ 16 := by omega
  have hcolumn : (utf8 schema.column).length < 2 ^ 16 := by omega
  have hroot := readPageNo_append schema.rootPage []
  rw [List.append_nil] at hroot
  simp only [decodeIndexRecord, encodeIndexRecord, recordKind, List.head?_cons, List.tail_cons,
    List.append_assoc, guard_true, readString_append hname, readString_append htable,
    readString_append hcolumn, hroot, Option.bind_eq_bind, Option.bind_some]
  rfl

/-- What is read back of an expression. -/
def storedExpr (lib : Library) (e : Option Expr) : Option Expr :=
  (lib.parseExpr ((lib.exprText e).getD "")).join

def storedPolicy (lib : Library) (policy : PolicySchema) : PolicySchema :=
  { policy with
    usingExpr := storedExpr lib policy.usingExpr
    withCheck := storedExpr lib policy.withCheck }

theorem decode_encodePolicy {lib : Library} {policy : PolicySchema}
    (h : (encodePolicyRecord lib policy).length < 2 ^ 16) :
    decodePolicyRecord lib (encodePolicyRecord lib policy) = some (storedPolicy lib policy) := by
  simp only [encodePolicyRecord, writeString, List.length_cons, List.length_append,
    leBytes_length] at h
  have hcheck : readString (writeString ((lib.exprText policy.withCheck).getD "") ++ []) =
      some ((lib.exprText policy.withCheck).getD "", []) := readString_append (by omega)
  rw [List.append_nil] at hcheck
  have hcmd : decodeCmd (encodeCmd policy.cmd) = policy.cmd := by cases policy.cmd <;> rfl
  have htag : ∀ rest, readByte (encodeCmd policy.cmd :: rest) = some (encodeCmd policy.cmd, rest) :=
    fun _ => rfl
  simp only [decodePolicyRecord, encodePolicyRecord, recordKind, List.head?_cons, List.tail_cons,
    List.append_assoc, List.cons_append, List.nil_append, guard_true,
    readString_append (show (utf8 policy.name).length < 2 ^ 16 by omega),
    readString_append (show (utf8 policy.table).length < 2 ^ 16 by omega), htag,
    readString_append (show (utf8 ((lib.exprText policy.usingExpr).getD "")).length < 2 ^ 16 by omega),
    hcheck, hcmd, Option.bind_eq_bind, Option.bind_some]
  rfl

/-! ## Keys -/

theorem textKey_injective : Function.Injective textKey := fun _ _ h =>
  utf8_injective (List.append_cancel_right h)

theorem textKey_append_inj {start s s' : String} (h : textKey (start ++ s) = textKey (start ++ s')) :
    s = s' := by
  have hutf8 := congrArg utf8 (textKey_injective h)
  rw [utf8_append, utf8_append] at hutf8
  exact utf8_injective (List.append_cancel_left hutf8)

theorem tableKey_injective : Function.Injective tableKey := fun _ _ => textKey_append_inj

theorem indexKey_injective : Function.Injective indexKey := fun _ _ => textKey_append_inj

theorem policyKey_injective : Function.Injective policyKey := fun _ _ => textKey_append_inj

/-- The keys of different kinds start with different letters. -/
theorem head_textKey_append {start : String} {b : UInt8} {rest : Bytes} (h : utf8 start = b :: rest)
    (s : String) : (textKey (start ++ s)).head? = some b := by
  rw [textKey, utf8_append, h]
  rfl

theorem head_tableKey (s : String) : (tableKey s).head? = some 116 :=
  head_textKey_append (by decide : utf8 "table:" = [116, 97, 98, 108, 101, 58]) s

theorem head_indexKey (s : String) : (indexKey s).head? = some 105 :=
  head_textKey_append (by decide : utf8 "index:" = [105, 110, 100, 101, 120, 58]) s

theorem head_policyKey (s : String) : (policyKey s).head? = some 112 :=
  head_textKey_append (by decide : utf8 "policy:" = [112, 111, 108, 105, 99, 121, 58]) s

theorem tableKey_ne_indexKey (s s' : String) : tableKey s ≠ indexKey s' := fun h => by
  have hhead := congrArg List.head? h
  rw [head_tableKey, head_indexKey] at hhead
  exact absurd hhead (by decide)

theorem tableKey_ne_policyKey (s s' : String) : tableKey s ≠ policyKey s' := fun h => by
  have hhead := congrArg List.head? h
  rw [head_tableKey, head_policyKey] at hhead
  exact absurd hhead (by decide)

theorem indexKey_ne_policyKey (s s' : String) : indexKey s ≠ policyKey s' := fun h => by
  have hhead := congrArg List.head? h
  rw [head_indexKey, head_policyKey] at hhead
  exact absurd hhead (by decide)

/-! ## Records under their keys -/

section Filed

variable (lib : Library)

inductive Filed : Bytes → Bytes → Prop
  | table (schema : TableSchema)
      (hdecode : decodeTableRecord (encodeTableRecord schema) = some schema) :
      Filed (tableKey schema.name) (encodeTableRecord schema)
  | index (schema : IndexSchema)
      (hdecode : decodeIndexRecord (encodeIndexRecord schema) = some schema) :
      Filed (indexKey schema.name) (encodeIndexRecord schema)
  | policy (policy : PolicySchema) {payload : Bytes}
      (hdecode : decodePolicyRecord lib payload = some policy) :
      Filed (policyKey policy.name) payload

/-- The root of the tree that a record keeps. -/
def recordRoot (payload : Bytes) : Option PageNo :=
  match decodeTableRecord payload with
  | some schema => some schema.rootPage
  | none => (decodeIndexRecord payload).map IndexSchema.rootPage

variable {lib} {key payload : Bytes}

theorem kind_of_table {schema : TableSchema} (h : decodeTableRecord payload = some schema) :
    recordKind payload = some kindTable := by
  by_contra hkind
  simp [decodeTableRecord, hkind] at h

theorem kind_of_index {schema : IndexSchema} (h : decodeIndexRecord payload = some schema) :
    recordKind payload = some kindIndex := by
  by_contra hkind
  simp [decodeIndexRecord, hkind] at h

theorem kind_of_policy {policy : PolicySchema} (h : decodePolicyRecord lib payload = some policy) :
    recordKind payload = some kindPolicy := by
  by_contra hkind
  simp [decodePolicyRecord, hkind] at h

theorem Filed.of_table {schema : TableSchema} (h : Filed lib key payload)
    (hdecode : decodeTableRecord payload = some schema) :
    key = tableKey schema.name ∧ payload = encodeTableRecord schema := by
  cases h with
  | table schema' hdecode' =>
      obtain rfl := Option.some.inj (hdecode'.symm.trans hdecode)
      exact ⟨rfl, rfl⟩
  | index schema' hdecode' =>
      exact absurd (kind_of_table hdecode) (by rw [kind_of_index hdecode']; decide)
  | policy policy hdecode' =>
      exact absurd (kind_of_table hdecode) (by rw [kind_of_policy hdecode']; decide)

theorem Filed.of_index {schema : IndexSchema} (h : Filed lib key payload)
    (hdecode : decodeIndexRecord payload = some schema) :
    key = indexKey schema.name ∧ payload = encodeIndexRecord schema := by
  cases h with
  | table schema' hdecode' =>
      exact absurd (kind_of_index hdecode) (by rw [kind_of_table hdecode']; decide)
  | index schema' hdecode' =>
      obtain rfl := Option.some.inj (hdecode'.symm.trans hdecode)
      exact ⟨rfl, rfl⟩
  | policy policy hdecode' =>
      exact absurd (kind_of_index hdecode) (by rw [kind_of_policy hdecode']; decide)

theorem Filed.of_policy {policy : PolicySchema} (h : Filed lib key payload)
    (hdecode : decodePolicyRecord lib payload = some policy) : key = policyKey policy.name := by
  cases h with
  | table schema hdecode' =>
      exact absurd (kind_of_policy hdecode) (by rw [kind_of_table hdecode']; decide)
  | index schema hdecode' =>
      exact absurd (kind_of_policy hdecode) (by rw [kind_of_index hdecode']; decide)
  | policy policy' hdecode' =>
      obtain rfl := Option.some.inj (hdecode'.symm.trans hdecode)
      rfl

theorem small_of_fits {key payload : Bytes} (h : singleEntrySize key payload ≤ pageSize) :
    payload.length < 2 ^ 16 := by
  unfold singleEntrySize at h
  have hsize : pageSize = 4096 := rfl
  omega

theorem filed_table (schema : TableSchema)
    (h : singleEntrySize (tableKey schema.name) (encodeTableRecord schema) ≤ pageSize) :
    Filed lib (tableKey schema.name) (encodeTableRecord schema) := by
  have hdecode := decode_encodeTable (small_of_fits h)
  rw [← encodeTable_stored] at hdecode ⊢
  exact .table (storedSchema schema) hdecode

theorem filed_index (schema : IndexSchema)
    (h : singleEntrySize (indexKey schema.name) (encodeIndexRecord schema) ≤ pageSize) :
    Filed lib (indexKey schema.name) (encodeIndexRecord schema) :=
  .index schema (decode_encodeIndex (small_of_fits h))

theorem filed_policy (policy : PolicySchema)
    (h : singleEntrySize (policyKey policy.name) (encodePolicyRecord lib policy) ≤ pageSize) :
    Filed lib (policyKey policy.name) (encodePolicyRecord lib policy) :=
  .policy (storedPolicy lib policy) (decode_encodePolicy (small_of_fits h))

end Filed

end ChocoBase.Catalog
