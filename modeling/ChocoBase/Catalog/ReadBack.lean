import ChocoBase.Catalog.RoundTrip

/-!
# What a record is read back as

A vector keeps 16 bits of its dimension.  A policy keeps its expressions as JSON, and what
the JSON library does not read is read back as no expression at all.
-/

namespace ChocoBase.Catalog

open ChocoBase.Foundation ChocoBase.Storage ChocoBase.BTree ChocoBase.Sql ChocoBase.Types
  ChocoBase.Engine

/-! ## Expressions as JSON -/

/-- How a JSON text nests, and whether a number in it is not finite. -/
inductive Shape where
  | atom
  | notFinite
  | within (parts : List Shape)

namespace Shape

/-- A variant that has one field without a name. -/
def variant (s : Shape) : Shape := within [s]

/-- A variant that has fields with names. -/
def fields (parts : List Shape) : Shape := within [within parts]

mutual

def depth : Shape → Nat
  | atom => 0
  | notFinite => 0
  | within parts => depthOfAll parts + 1

def depthOfAll : List Shape → Nat
  | [] => 0
  | part :: parts => max (depth part) (depthOfAll parts)

end

mutual

def finite : Shape → Bool
  | atom => true
  | notFinite => false
  | within parts => allFinite parts

def allFinite : List Shape → Bool
  | [] => true
  | part :: parts => finite part && allFinite parts

end

end Shape

open Shape

def floatShape (x : Float) : Shape := if x.isFinite then atom else notFinite

def stringsShape (names : List String) : Shape := within (names.map fun _ => atom)

def typeShape : ColumnType → Shape
  | .vector _ => variant atom
  | _ => atom

def columnDefShape (column : ColumnDef) : Shape := within [atom, typeShape column.ty, atom, atom]

mutual

/-- The derived `Serialize` of an expression. -/
def exprShape : Expr → Shape
  | .column _ => variant atom
  | .qualifiedColumn _ _ => fields [atom, atom]
  | .intLiteral _ => variant atom
  | .floatLiteral x => variant (floatShape x)
  | .stringLiteral _ => variant atom
  | .boolLiteral _ => variant atom
  | .null => atom
  | .binaryOp _ left right => fields [atom, exprShape left, exprShape right]
  | .isNull expr _ => fields [exprShape expr, atom]
  | .inList expr list _ => fields [exprShape expr, within (exprShapes list), atom]
  | .inSubquery expr subquery _ => fields [exprShape expr, statementShape subquery, atom]
  | .exists subquery _ => fields [statementShape subquery, atom]
  | .like expr _ _ => fields [exprShape expr, atom, atom]
  | .aggregate func => variant (aggregateShape func)
  | .jsonExtract expr _ _ => fields [exprShape expr, atom, atom]
  | .vectorDistance _ left right => fields [atom, exprShape left, exprShape right]
  | .ftsMatch expr _ => fields [exprShape expr, atom]
  | .ftsRank expr _ => fields [exprShape expr, atom]
  | .ftsSnippet expr _ => fields [exprShape expr, atom]
  | .authUid => atom

def exprShapes : List Expr → List Shape
  | [] => []
  | e :: es => exprShape e :: exprShapes es

def rowShapes : List (List Expr) → List Shape
  | [] => []
  | row :: rows => within (exprShapes row) :: rowShapes rows

def assignmentShapes : List (String × Expr) → List Shape
  | [] => []
  | (_, value) :: rest => within [atom, exprShape value] :: assignmentShapes rest

def optionShape : Option Expr → Shape
  | none => atom
  | some e => exprShape e

def groupShape : Option (List Expr) → Shape
  | none => atom
  | some es => within (exprShapes es)

def aggregateShape : AggregateFunc → Shape
  | .countStar => atom
  | .count e => variant (exprShape e)
  | .sum e => variant (exprShape e)
  | .avg e => variant (exprShape e)
  | .min e => variant (exprShape e)
  | .max e => variant (exprShape e)

def itemShape : SelectItem → Shape
  | .all => atom
  | .expr e _ => fields [exprShape e, atom]

def itemShapes : List SelectItem → List Shape
  | [] => []
  | item :: items => itemShape item :: itemShapes items

def columnsShape : SelectColumns → Shape
  | .all => atom
  | .list names => variant (stringsShape names)
  | .items items => variant (within (itemShapes items))

def returningShape : Option SelectColumns → Shape
  | none => atom
  | some columns => columnsShape columns

def tableRefShape : TableRef → Shape
  | .table _ _ => fields [atom, atom]
  | .join left right _ condition =>
      fields [tableRefShape left, tableRefShape right, atom, optionShape condition]

def fromShape : Option TableRef → Shape
  | none => atom
  | some tableRef => tableRefShape tableRef

/-- The derived `Serialize` of a statement. -/
def statementShape : Statement → Shape
  | .createTable _ columns => fields [atom, within (columns.map columnDefShape)]
  | .dropTable _ => fields [atom]
  | .createIndex _ _ _ => fields [atom, atom, atom]
  | .dropIndex _ => fields [atom]
  | .insert _ columns rows returning =>
      fields [atom, columns.elim atom stringsShape, within (rowShapes rows),
        returningShape returning]
  | .select columns _ tableRef whereClause groupBy having orderBy _ =>
      fields [columnsShape columns, atom, fromShape tableRef, optionShape whereClause,
        groupShape groupBy, optionShape having, orderBy.elim atom fun _ => within [atom, atom],
        atom]
  | .update _ assignments whereClause returning =>
      fields [atom, within (assignmentShapes assignments), optionShape whereClause,
        returningShape returning]
  | .delete _ whereClause returning =>
      fields [atom, optionShape whereClause, returningShape returning]
  | .begin | .commit | .rollback => atom
  | .createUser _ _ _ => fields [atom, atom, atom]
  | .alterTableRls _ _ => fields [atom, atom]
  | .alterTableAddColumn _ column => fields [atom, columnDefShape column]
  | .alterTableDropColumn _ _ => fields [atom, atom]
  | .alterTableRename _ _ => fields [atom, atom]
  | .createPolicy _ _ _ usingExpr withCheck =>
      fields [atom, atom, atom, optionShape usingExpr, optionShape withCheck]
  | .dropPolicy _ _ => fields [atom, atom]
  | .explain statement => variant (statementShape statement)

end

/-- The JSON of the expression nests to the limit at most, and its numbers are finite. -/
def Readable (limit : Nat) (e : Option Expr) : Prop :=
  (optionShape e).depth ≤ limit ∧ (optionShape e).finite = true

instance (limit : Nat) (e : Option Expr) : Decidable (Readable limit e) :=
  inferInstanceAs (Decidable (_ ∧ _))

theorem readable_none (limit : Nat) : Readable limit none := ⟨Nat.zero_le _, rfl⟩

/--
What the JSON library does with an expression.  It reads back what nests to its limit at most
and has finite numbers; anything else is an error, also a number that was written as `null`.
-/
structure SerdeJson (lib : Library) (limit : Nat) (e : Option Expr) : Prop where
  reads : Readable limit e → ∃ s, lib.exprText e = some s ∧ lib.parseExpr s = some e
  fails : ¬Readable limit e → lib.parseExpr ((lib.exprText e).getD "") = none

section ReadBack

variable {lib : Library} {limit : Nat}

theorem storedExpr_of_readable {e : Option Expr} (h : SerdeJson lib limit e)
    (hreadable : Readable limit e) : storedExpr lib e = e := by
  obtain ⟨s, hs, hparse⟩ := h.reads hreadable
  rw [storedExpr, hs, Option.getD_some, hparse]
  rfl

theorem storedExpr_of_not_readable {e : Option Expr} (h : SerdeJson lib limit e)
    (hreadable : ¬Readable limit e) : storedExpr lib e = none := by
  rw [storedExpr, h.fails hreadable]
  rfl

theorem storedExpr_eq_iff {e : Option Expr} (h : SerdeJson lib limit e) :
    storedExpr lib e = e ↔ Readable limit e := by
  by_cases hreadable : Readable limit e
  · exact iff_of_true (storedExpr_of_readable h hreadable) hreadable
  · rw [storedExpr_of_not_readable h hreadable]
    refine iff_of_false (fun hnone => hreadable ?_) hreadable
    rw [← hnone]
    exact readable_none limit

/-- Where an expression is read back as none. -/
theorem storedExpr_eq_none_iff {e : Option Expr} (h : SerdeJson lib limit e) :
    storedExpr lib e = none ↔ e = none ∨ ¬Readable limit e := by
  by_cases hreadable : Readable limit e
  · rw [storedExpr_of_readable h hreadable]
    exact ⟨.inl, fun hor => hor.resolve_right (not_not.mpr hreadable)⟩
  · exact iff_of_true (storedExpr_of_not_readable h hreadable) (.inr hreadable)

/-- A vector's dimension fits in 16 bits. -/
def Narrow : ColumnType → Prop
  | .vector dim => dim < 2 ^ 16
  | _ => True

theorem storedType_eq_iff (ty : ColumnType) : storedType ty = ty ↔ Narrow ty := by
  cases ty with
  | vector dim =>
      rw [storedType, ColumnType.vector.injEq, Narrow]
      exact ⟨fun h => h ▸ Nat.mod_lt _ (by decide), Nat.mod_eq_of_lt⟩
  | _ => exact iff_of_true rfl trivial

theorem storedSchema_eq_iff (schema : TableSchema) :
    storedSchema schema = schema ↔ ∀ col ∈ schema.columns, Narrow col.ty := by
  have hcolumns : storedSchema schema = schema ↔ schema.columns.map storedColumn = schema.columns :=
    ⟨fun h => congrArg TableSchema.columns h, fun h => by rw [storedSchema, h]⟩
  conv_lhs => rw [hcolumns, ← List.map_id schema.columns, List.map_map]
  rw [List.map_inj_left]
  refine forall₂_congr fun col _ => ?_
  change storedColumn col = col ↔ Narrow col.ty
  rw [← storedType_eq_iff]
  exact ⟨fun h => congrArg Column.ty h, fun h => by rw [storedColumn, h]⟩

theorem storedPolicy_eq_iff {policy : PolicySchema}
    (husing : SerdeJson lib limit policy.usingExpr)
    (hcheck : SerdeJson lib limit policy.withCheck) :
    storedPolicy lib policy = policy ↔
      Readable limit policy.usingExpr ∧ Readable limit policy.withCheck := by
  rw [← storedExpr_eq_iff husing, ← storedExpr_eq_iff hcheck]
  constructor
  · intro h
    exact ⟨congrArg PolicySchema.usingExpr h, congrArg PolicySchema.withCheck h⟩
  · rintro ⟨h, h'⟩
    rw [storedPolicy, h, h']

/--
Of the records that fit in a page: a table is read back as it was if its vectors are narrow,
an index always, and a policy if both of its expressions are readable.  An expression that is
not is read back as none.
-/
theorem read_back_iff {table : TableSchema} {index : IndexSchema} {policy : PolicySchema}
    (htable : singleEntrySize (tableKey table.name) (encodeTableRecord table) ≤ pageSize)
    (hindex : singleEntrySize (indexKey index.name) (encodeIndexRecord index) ≤ pageSize)
    (hpolicy : singleEntrySize (policyKey policy.name) (encodePolicyRecord lib policy) ≤ pageSize)
    (husing : SerdeJson lib limit policy.usingExpr)
    (hcheck : SerdeJson lib limit policy.withCheck) :
    (decodeTableRecord (encodeTableRecord table) = some table ↔
      ∀ col ∈ table.columns, Narrow col.ty) ∧
    decodeIndexRecord (encodeIndexRecord index) = some index ∧
    (decodePolicyRecord lib (encodePolicyRecord lib policy) = some policy ↔
      Readable limit policy.usingExpr ∧ Readable limit policy.withCheck) ∧
    ∃ policy', decodePolicyRecord lib (encodePolicyRecord lib policy) = some policy' ∧
      (policy'.usingExpr = none ↔ policy.usingExpr = none ∨ ¬Readable limit policy.usingExpr) ∧
      (policy'.withCheck = none ↔ policy.withCheck = none ∨ ¬Readable limit policy.withCheck) := by
  have hdecode := decode_encodePolicy (small_of_fits hpolicy)
  refine ⟨?_, decode_encodeIndex (small_of_fits hindex), ?_, storedPolicy lib policy, hdecode,
    storedExpr_eq_none_iff husing, storedExpr_eq_none_iff hcheck⟩
  · rw [decode_encodeTable (small_of_fits htable), Option.some.injEq, storedSchema_eq_iff]
  · rw [hdecode, Option.some.injEq, storedPolicy_eq_iff husing hcheck]

end ReadBack

/-! ## Conditions that nest -/

/-- `a`, with this many `IS NULL` behind it. -/
def nest : Nat → Expr
  | 0 => .column "a"
  | n + 1 => .isNull (nest n) false

def isNullStart : String := "\x7b\"IsNull\":\x7b\"expr\":"

def isNullEnd : String := ",\"negated\":false\x7d\x7d"

def nestText : Nat → String
  | 0 => "\x7b\"Column\":\"a\"\x7d"
  | n + 1 => isNullStart ++ nestText n ++ isNullEnd

def nestOf : Expr → Option Nat
  | .column name => if name = "a" then some 0 else none
  | .isNull expr negated => if negated then none else (nestOf expr).map (· + 1)
  | _ => none

/-- The number of `IS NULL` in a text that nests to 128 levels at most. -/
def readNest (s : String) : Option Nat := (List.range 64).find? fun n => nestText n = s

/-- The JSON library on these conditions. -/
def nestLibrary : Library := { plainLibrary with
  exprText := fun
    | none => some "null"
    | some e => (nestOf e).map nestText
  parseExpr := fun s => if s = "null" then some none else (readNest s).map fun n => some (nest n) }

theorem nestOf_nest (n : Nat) : nestOf (nest n) = some n := by
  induction n with
  | zero => rfl
  | succ n ih =>
      change (nestOf (nest n)).map (· + 1) = some (n + 1)
      rw [ih]
      rfl

theorem exprText_nest (n : Nat) : nestLibrary.exprText (some (nest n)) = some (nestText n) :=
  congrArg (Option.map nestText) (nestOf_nest n)

theorem parseExpr_nestLibrary (s : String) : nestLibrary.parseExpr s =
    if s = "null" then some none else (readNest s).map fun n => some (nest n) := rfl

theorem serdeJson_none : SerdeJson nestLibrary 128 none where
  reads _ := ⟨"null", rfl, rfl⟩
  fails h := absurd (readable_none 128) h

theorem nestText_length (n : Nat) : (nestText n).length = 14 + 36 * n := by
  induction n with
  | zero => rfl
  | succ n ih =>
      have hstart : isNullStart.length = 18 := by decide
      have hend : isNullEnd.length = 18 := by decide
      rw [nestText, String.length_append, String.length_append, ih, hstart, hend]
      omega

theorem nestText_inj {m n : Nat} (h : nestText m = nestText n) : m = n := by
  have hlength := congrArg String.length h
  rw [nestText_length, nestText_length] at hlength
  omega

theorem nestText_ne_null (n : Nat) : nestText n ≠ "null" := fun h => by
  have hlength := congrArg String.length h
  have hnull : "null".length = 4 := rfl
  rw [nestText_length, hnull] at hlength
  omega

theorem readNest_nestText (n : Nat) :
    readNest (nestText n) = if n < 64 then some n else none := by
  split
  · next hlt =>
      refine List.find?_range_eq_some.mpr ⟨decide_eq_true rfl, List.mem_range.mpr hlt, ?_⟩
      intro m hm
      simpa using fun h => absurd (nestText_inj h) (by omega)
  · next hge =>
      refine List.find?_eq_none.mpr fun m hm => ?_
      have hlt := List.mem_range.mp hm
      simpa using fun h => absurd (nestText_inj h) (by omega)

theorem readable_nest_iff (n : Nat) : Readable 128 (some (nest n)) ↔ n < 64 := by
  have hdepth : (exprShape (nest n)).depth = 2 * n + 1 ∧ (exprShape (nest n)).finite = true := by
    induction n with
    | zero => exact ⟨rfl, rfl⟩
    | succ n ih =>
        constructor
        · change max (max (exprShape (nest n)).depth (max 0 0) + 1) 0 + 1 = _
          rw [ih.1]
          omega
        · change (((exprShape (nest n)).finite && (true && true)) && true) = true
          rw [ih.2]
          rfl
  rw [Readable, optionShape, hdepth.1, hdepth.2]
  simp only [and_true]
  omega

theorem serdeJson_nest (n : Nat) : SerdeJson nestLibrary 128 (some (nest n)) where
  reads h := by
    refine ⟨nestText n, exprText_nest n, ?_⟩
    rw [parseExpr_nestLibrary, if_neg (nestText_ne_null n), readNest_nestText,
      if_pos ((readable_nest_iff n).mp h), Option.map_some]
  fails h := by
    rw [exprText_nest, Option.getD_some, parseExpr_nestLibrary, if_neg (nestText_ne_null n),
      readNest_nestText, if_neg fun hlt => h ((readable_nest_iff n).mpr hlt), Option.map_none]

/-- A table with a vector of this many numbers. -/
def vectors (dim : Nat) : TableSchema :=
  ⟨"v", [⟨"id", .integer, true, true⟩, ⟨"e", .vector dim, false, false⟩], 3, false⟩

def nestPolicy (n : Nat) : PolicySchema := ⟨"p", "v", .select, some (nest n), none⟩

theorem storedPolicy_usingExpr (lib : Library) (policy : PolicySchema) :
    (storedPolicy lib policy).usingExpr = storedExpr lib policy.usingExpr := rfl

theorem nestPolicy_usingExpr (n : Nat) : (nestPolicy n).usingExpr = some (nest n) := rfl

theorem read_back_small :
    decodeTableRecord (encodeTableRecord (vectors 3)) = some (vectors 3) ∧
      decodePolicyRecord nestLibrary (encodePolicyRecord nestLibrary (nestPolicy 1)) =
        some (nestPolicy 1) := by
  have hsizes : singleEntrySize (tableKey "v") (encodeTableRecord (vectors 3)) ≤ pageSize ∧
      singleEntrySize (indexKey "i") (encodeIndexRecord ⟨"i", "v", "e", 4⟩) ≤ pageSize ∧
      singleEntrySize (policyKey "p") (encodePolicyRecord nestLibrary (nestPolicy 1)) ≤
        pageSize := by decide +kernel
  obtain ⟨htable, -, hpolicy, -⟩ := @read_back_iff nestLibrary 128 (vectors 3) ⟨"i", "v", "e", 4⟩
    (nestPolicy 1) hsizes.1 hsizes.2.1 hsizes.2.2 (serdeJson_nest 1) serdeJson_none
  refine ⟨htable.mpr ?_, hpolicy.mpr ⟨(readable_nest_iff 1).mpr (by decide), readable_none 128⟩⟩
  rintro col (_ | ⟨_, _ | ⟨_, hmem⟩⟩)
  · trivial
  · change 3 < 2 ^ 16
    decide
  · cases hmem

example : decodeTableRecord (encodeTableRecord (vectors 65536)) = some (vectors 0) := by
  decide +kernel

/-- A wide vector loses its dimension, and a condition that nests too deep is lost. -/
theorem not_read_back :
    (¬∀ table : TableSchema,
      singleEntrySize (tableKey table.name) (encodeTableRecord table) ≤ pageSize →
        decodeTableRecord (encodeTableRecord table) = some table) ∧
    ¬∀ policy : PolicySchema, SerdeJson nestLibrary 128 policy.usingExpr →
      SerdeJson nestLibrary 128 policy.withCheck →
      singleEntrySize (policyKey policy.name) (encodePolicyRecord nestLibrary policy) ≤ pageSize →
        ∀ policy', decodePolicyRecord nestLibrary (encodePolicyRecord nestLibrary policy) =
          some policy' → policy'.usingExpr = none → policy.usingExpr = none := by
  have hsizes : singleEntrySize (tableKey "v") (encodeTableRecord (vectors 65537)) ≤ pageSize ∧
      singleEntrySize (policyKey "p") (encodePolicyRecord nestLibrary (nestPolicy 64)) ≤
        pageSize := by decide +kernel
  constructor
  · intro h
    have hread := h (vectors 65537) hsizes.1
    rw [decode_encodeTable (small_of_fits hsizes.1), Option.some.injEq, storedSchema_eq_iff] at hread
    exact absurd (hread ⟨"e", .vector 65537, false, false⟩ (by simp [vectors])) (by
      change ¬65537 < 2 ^ 16
      decide)
  · intro h
    have husing : SerdeJson nestLibrary 128 (nestPolicy 64).usingExpr := by
      rw [nestPolicy_usingExpr]
      exact serdeJson_nest 64
    have hdeep : ¬Readable 128 (nestPolicy 64).usingExpr := by
      rw [nestPolicy_usingExpr, readable_nest_iff]
      decide
    have hnone : (storedPolicy nestLibrary (nestPolicy 64)).usingExpr = none := by
      rw [storedPolicy_usingExpr]
      exact storedExpr_of_not_readable husing hdeep
    have hlost := h (nestPolicy 64) husing serdeJson_none hsizes.2 _
      (decode_encodePolicy (small_of_fits hsizes.2)) hnone
    rw [nestPolicy_usingExpr] at hlost
    cases hlost

end ChocoBase.Catalog
