import ChocoBase.Engine.Membership
import ChocoBase.Http.StorageRoutes
import ChocoBase.Plan.Operators
import ChocoBase.Server.RestFilters

/-!
# Objects that expire

Every bucket has rules that say after how many days an object expires, for names with a
prefix.  The cleanup runs through the rules and removes what a rule finds, file and row,
before it looks at the next one.  A number of days is read as if it had no sign.
-/

namespace ChocoBase.Http

open ChocoBase.Foundation ChocoBase.Sql ChocoBase.Types ChocoBase.Plan ChocoBase.Auth
open Text (Chars)
open Server.Rest (escapeQuotes inQuotes)

/-! ## Rules and objects -/

/-- A row of `_storage_lifecycle_rules`. -/
structure LifecycleRule where
  bucketId : Chars
  namePrefix : Chars
  expiryDays : Int64

/-- A row of `_storage_objects`; the cleanup reads four of its columns. -/
structure StoredObject where
  id : Chars
  bucketId : Chars
  name : Chars
  ownerId : Value
  contentType : Value
  sizeBytes : Value
  metadata : Value
  createdAt : Int64
  updatedAt : Value

def objectsSchema : TableSchema where
  name := "_storage_objects"
  columns := [⟨"id", .text, true, true⟩, ⟨"bucket_id", .text, true, false⟩,
    ⟨"name", .text, true, false⟩, ⟨"owner_id", .integer, false, false⟩,
    ⟨"content_type", .text, true, false⟩, ⟨"size_bytes", .integer, true, false⟩,
    ⟨"metadata", .json, false, false⟩, ⟨"created_at", .integer, true, false⟩,
    ⟨"updated_at", .integer, true, false⟩]
  rootPage := 0
  rlsEnabled := false

def StoredObject.row (o : StoredObject) : Row :=
  [.text (String.ofList o.id), .text (String.ofList o.bucketId), .text (String.ofList o.name),
    o.ownerId, o.contentType, o.sizeBytes, o.metadata, .integer o.createdAt, o.updatedAt]

/-- The rows of objects and the files that are there. -/
structure StorageState where
  objects : List StoredObject
  files : List FilePath

/-! ## Statements of the cleanup -/

/-- The condition of the `SELECT`, as it is written. -/
def expiredText (bucketId : Chars) (cutoff : Nat) : Chars :=
  "bucket_id = ".toList ++ inQuotes (escapeQuotes bucketId) ++ " AND created_at < ".toList ++
    (toString cutoff).toList

def expiredExpr (bucketId : Chars) (cutoff : Nat) : Expr :=
  .binaryOp .and (.binaryOp .eq (.column "bucket_id") (.stringLiteral (String.ofList bucketId)))
    (.binaryOp .lt (.column "created_at") (.intLiteral (Int64.ofNat cutoff)))

/-- The condition of the `DELETE`, as it is written. -/
def idText (id : Chars) : Chars := "id = ".toList ++ inQuotes (escapeQuotes id)

def idExpr (id : Chars) : Expr :=
  .binaryOp .eq (.column "id") (.stringLiteral (String.ofList id))

section Cleanup

variable (lib : Library) (root : FilePath)

/-- The objects that a condition holds for, in the order of the table. -/
def selectObjects (predicate : Expr) : List StoredObject → Outcome ExecError (List StoredObject)
  | [] => .ok []
  | o :: objects => do
      let found ← filterRow lib objectsSchema predicate .admin o.row
      let selected ← selectObjects predicate objects
      return if found.isSome then o :: selected else selected

/-- The objects that are left when those that a condition holds for are deleted. -/
def deleteObjects (predicate : Expr) : List StoredObject → Outcome ExecError (List StoredObject)
  | [] => .ok []
  | o :: objects => do
      let found ← filterRow lib objectsSchema predicate .admin o.row
      let left ← deleteObjects predicate objects
      return if found.isSome then left else o :: left

def StoredObject.file (o : StoredObject) : FilePath := (root.join o.bucketId).join o.name

/-- The body of the inner loop: the file, the row and the count. -/
def removeObject (rule : LifecycleRule) (s : StorageState × Nat) (o : StoredObject) :
    Outcome Empty (StorageState × Nat) :=
  if rule.namePrefix.isPrefixOf o.name then
    let path := (root.join rule.bucketId).join o.name
    let files := s.1.files.filter (· ≠ path)
    match deleteObjects lib (idExpr o.id) s.1.objects with
    | .ok objects => .ok (⟨objects, files⟩, s.2 + 1)
    | .error _ => .ok (⟨s.1.objects, files⟩, s.2 + 1)
    | .stop why => .stop why
  else .ok s

/-- `expiry_days as u64 * 86400` -/
def expirySeconds (rule : LifecycleRule) : Outcome Empty Nat :=
  let seconds := rule.expiryDays.toUInt64.toNat * 86400
  if seconds < 2 ^ 64 then .ok seconds else .stop .overflow

/-- The body of the outer loop. -/
def cleanupRule (now : Nat) (s : StorageState × Nat) (rule : LifecycleRule) :
    Outcome Empty (StorageState × Nat) := do
  let seconds ← expirySeconds rule
  let cutoff := now - seconds
  match selectObjects lib (expiredExpr rule.bucketId cutoff) s.1.objects with
  | .ok found => found.foldlM (removeObject lib root rule) s
  | .error _ => return s
  | .stop why => .stop why

/-- What is left, and `deleted_count`. -/
def cleanupExpiredObjects (now : Nat) (rules : List LifecycleRule) (state : StorageState) :
    Outcome Empty (StorageState × Nat) :=
  rules.foldlM (cleanupRule lib root now) (state, 0)

/-! ## The texts of the statements -/

section Texts

open ChocoBase.Sql.Parser (parseWhereExpr parseWhereExpr_takes Printable tokensOf left endsAt)

variable {text : TextLibrary} {d : Token → String}

theorem reads_expiredText (hascii : text.LikeAscii) (bucketId : Chars) {cutoff : Nat}
    (hcutoff : cutoff < 2 ^ 63) :
    Reads text (expiredText bucketId cutoff) (tokensOf (expiredExpr bucketId cutoff)) := by
  have hint : (toString (Int64.ofNat cutoff).toInt).toList = (toString cutoff).toList := by
    rw [Int64.toInt_ofNat_of_lt hcutoff]
    rfl
  have hnumber := Server.Rest.reads_int hascii (Int64.ofNat cutoff)
  rw [hint] at hnumber
  have hfront : ownTokens "bucket_id = " = [.identifier "bucket_id", .eq] := by decide +kernel
  have hmiddle : ownTokens " AND created_at < " = [.and, .identifier "created_at", .lt] := by
    decide +kernel
  have hboth := (Server.Rest.reads_quoted hascii bucketId).between hascii
    (s := " AND created_at < ") (by decide +kernel) hnumber
  have hwhole := hboth.own_before hascii (s := "bucket_id = ") (by decide +kernel) (by decide)
  rw [hfront, hmiddle] at hwhole
  have happend : ∀ a b c e : Chars, a ++ (b ++ c ++ e) = a ++ b ++ c ++ e := by
    intro a b c e
    simp only [List.append_assoc]
  rw [happend] at hwhole
  exact hwhole

theorem reads_idText (hascii : text.LikeAscii) (id : Chars) :
    Reads text (idText id) (tokensOf (idExpr id)) := by
  have hfront : ownTokens "id = " = [.identifier "id", .eq] := by decide +kernel
  have hwhole := (Server.Rest.reads_quoted hascii id).own_before hascii (s := "id = ")
    (by decide +kernel) (by decide)
  rw [hfront] at hwhole
  exact hwhole

/-- What is read of the conditions are the expressions that are evaluated. -/
theorem expiredExpr_takes (bucketId : Chars) (cutoff : Nat) {fuel : Nat} (hfuel : 7 ≤ fuel) :
    Takes left (parseWhereExpr d fuel) (tokensOf (expiredExpr bucketId cutoff))
      (expiredExpr bucketId cutoff) (endsAt 0) :=
  parseWhereExpr_takes d (.binaryOp .and (.binaryOp .eq (.column _) (.stringLiteral _))
    (.binaryOp .lt (.column _) (.intLiteral _))) hfuel

theorem idExpr_takes (id : Chars) {fuel : Nat} (hfuel : 3 ≤ fuel) :
    Takes left (parseWhereExpr d fuel) (tokensOf (idExpr id)) (idExpr id) (endsAt 0) :=
  parseWhereExpr_takes d (.binaryOp .eq (.column _) (.stringLiteral _)) hfuel

end Texts

/-! ## What the statements find -/

variable {lib root} {now : Nat} {rule : LifecycleRule} {rules : List LifecycleRule}

theorem filterRow_of_eval {predicate : Expr} {o : StoredObject} {b : Bool}
    (h : evalWithContext lib objectsSchema o.row .admin predicate = .ok (.boolean b)) :
    filterRow lib objectsSchema predicate .admin o.row = .ok (if b then some o.row else none) := by
  rw [filterRow, evalInto, h]
  cases b <;> rfl

theorem eval_equals {l r : Expr} {o : StoredObject} {s s' : Chars}
    (hl : evalWithContext lib objectsSchema o.row .admin l = .ok (.text (String.ofList s)))
    (hr : evalWithContext lib objectsSchema o.row .admin r = .ok (.text (String.ofList s'))) :
    evalWithContext lib objectsSchema o.row .admin (.binaryOp .eq l r) =
      .ok (.boolean (decide (s = s'))) := by
  rw [evalWithContext, hl, hr]
  have hcmp : (cmpText (String.ofList s) (String.ofList s') == .eq) = decide (s = s') := by
    rw [beq_eq_decide]
    simp only [Engine.cmpText_eq_iff, String.ofList_inj]
  exact congrArg (fun b => Outcome.ok (Value.boolean b)) hcmp

theorem eval_less {l r : Expr} {o : StoredObject} {m n : Int64}
    (hl : evalWithContext lib objectsSchema o.row .admin l = .ok (.integer m))
    (hr : evalWithContext lib objectsSchema o.row .admin r = .ok (.integer n)) :
    evalWithContext lib objectsSchema o.row .admin (.binaryOp .lt l r) =
      .ok (.boolean (decide (m < n))) := by
  rw [evalWithContext, hl, hr]
  have hcmp : (compare m n == .lt) = decide (m < n) := by
    rw [beq_eq_decide]
    simp only [compare, compareOfLessAndEq]
    by_cases hlt : m < n
    · simp [hlt]
    · by_cases heq : m = n <;> simp [hlt, heq]
  exact congrArg (fun b => Outcome.ok (Value.boolean b)) hcmp

theorem filterRow_expired (bucketId : Chars) (cutoff : Nat) (o : StoredObject) :
    filterRow lib objectsSchema (expiredExpr bucketId cutoff) .admin o.row =
      .ok (if decide (o.bucketId = bucketId) && decide (o.createdAt < Int64.ofNat cutoff) then
        some o.row else none) := by
  have hbucket : evalWithContext lib objectsSchema o.row .admin
      (.binaryOp .eq (.column "bucket_id") (.stringLiteral (String.ofList bucketId))) =
      .ok (.boolean (decide (o.bucketId = bucketId))) := eval_equals rfl rfl
  have hcreated : evalWithContext lib objectsSchema o.row .admin
      (.binaryOp .lt (.column "created_at") (.intLiteral (Int64.ofNat cutoff))) =
      .ok (.boolean (decide (o.createdAt < Int64.ofNat cutoff))) := eval_less rfl rfl
  refine filterRow_of_eval ?_
  rw [expiredExpr, evalWithContext, hbucket, hcreated]
  simp only [Outcome.bind, evalBinop, isTruthy, Value.boolean.injEq, Bool.decide_eq_true]

theorem filterRow_id (id : Chars) (o : StoredObject) :
    filterRow lib objectsSchema (idExpr id) .admin o.row =
      .ok (if decide (o.id = id) then some o.row else none) := by
  have hid : evalWithContext lib objectsSchema o.row .admin (idExpr id) =
      .ok (.boolean (decide (o.id = id))) := eval_equals rfl rfl
  exact filterRow_of_eval hid

theorem selectObjects_eq {predicate : Expr} {p : StoredObject → Bool}
    (h : ∀ o, filterRow lib objectsSchema predicate .admin o.row =
      .ok (if p o then some o.row else none)) (objects : List StoredObject) :
    selectObjects lib predicate objects = .ok (objects.filter p) := by
  induction objects with
  | nil => rfl
  | cons o objects ih =>
      rw [selectObjects, h o, ih]
      cases hp : p o with
      | true => rw [List.filter_cons_of_pos hp]; rfl
      | false => rw [List.filter_cons_of_neg (by simp [hp])]; rfl

theorem deleteObjects_eq {predicate : Expr} {p : StoredObject → Bool}
    (h : ∀ o, filterRow lib objectsSchema predicate .admin o.row =
      .ok (if p o then some o.row else none)) (objects : List StoredObject) :
    deleteObjects lib predicate objects = .ok (objects.filter (!p ·)) := by
  induction objects with
  | nil => rfl
  | cons o objects ih =>
      rw [deleteObjects, h o, ih]
      cases hp : p o with
      | true => rw [List.filter_cons_of_neg (by simp [hp])]; rfl
      | false => rw [List.filter_cons_of_pos (by simp [hp])]; rfl

/-! ## What a rule removes -/

/-- The rule is one for the bucket and the name of the object. -/
def covers (rule : LifecycleRule) (o : StoredObject) : Bool :=
  decide (o.bucketId = rule.bucketId) && rule.namePrefix.isPrefixOf o.name

/-- `expiry_days as u64 * 86400`, of any size -/
def termSeconds (rule : LifecycleRule) : Nat := rule.expiryDays.toUInt64.toNat * 86400

def removes (now : Nat) (rule : LifecycleRule) (o : StoredObject) : Bool :=
  covers rule o && decide (o.createdAt < Int64.ofNat (now - termSeconds rule))

/-- The state without the objects of a list and their files. -/
def StorageState.without (root : FilePath) (s : StorageState) (removed : List StoredObject) :
    StorageState where
  objects := s.objects.filter fun o => removed.all fun r => o.id ≠ r.id
  files := s.files.filter fun path => removed.all fun r => path ≠ r.file root

theorem StorageState.without_nil (s : StorageState) : s.without root [] = s := by
  simp [without]

theorem StorageState.without_cons (s : StorageState) (o : StoredObject)
    (removed : List StoredObject) :
    s.without root (o :: removed) = (s.without root [o]).without root removed := by
  simp only [without, List.filter_filter, StorageState.mk.injEq]
  constructor <;> refine List.filter_congr fun x _ => ?_ <;>
    simp only [List.all_cons, List.all_nil, Bool.true_and, Bool.and_comm]

theorem removeObject_eq (s : StorageState) (count : Nat) {o : StoredObject}
    (hbucket : o.bucketId = rule.bucketId) :
    removeObject lib root rule (s, count) o =
      .ok (if rule.namePrefix.isPrefixOf o.name then (s.without root [o], count + 1)
        else (s, count)) := by
  unfold removeObject
  split
  · have hdelete : deleteObjects lib (idExpr o.id) s.objects =
        .ok (s.objects.filter fun r => !decide (r.id = o.id)) :=
      deleteObjects_eq (filterRow_id o.id) s.objects
    have hobjects : s.objects.filter (fun r => !decide (r.id = o.id)) =
        (s.without root [o]).objects := by
      refine List.filter_congr fun x _ => ?_
      simp
    have hfiles : s.files.filter (fun path =>
        decide (path ≠ (root.join rule.bucketId).join o.name)) = (s.without root [o]).files := by
      refine List.filter_congr fun x _ => ?_
      simp [StoredObject.file, hbucket]
    dsimp only
    rw [hdelete, hobjects, hfiles]
  · rfl

/-- The inner loop removes what has the prefix among the objects that were found. -/
theorem foldlM_removeObject (found : List StoredObject)
    (hbucket : ∀ o ∈ found, o.bucketId = rule.bucketId) (s : StorageState) (count : Nat) :
    found.foldlM (removeObject lib root rule) (s, count) =
      .ok (s.without root (found.filter (rule.namePrefix.isPrefixOf ·.name)),
        count + (found.filter (rule.namePrefix.isPrefixOf ·.name)).length) := by
  induction found generalizing s count with
  | nil => rw [List.filter_nil, StorageState.without_nil]; rfl
  | cons o found ih =>
      let named : StoredObject → Bool := fun o => rule.namePrefix.isPrefixOf o.name
      have hrest := ih fun r hr => hbucket r (List.mem_cons_of_mem _ hr)
      rw [List.foldlM_cons, removeObject_eq s count (hbucket o List.mem_cons_self)]
      refine Outcome.bind_eq_ok.mpr ⟨_, rfl, ?_⟩
      cases hname : rule.namePrefix.isPrefixOf o.name with
      | true =>
          rw [if_pos rfl, hrest, List.filter_cons_of_pos (p := named) hname,
            StorageState.without_cons s o (found.filter named), List.length_cons, Nat.add_assoc,
            Nat.add_comm 1]
      | false =>
          rw [if_neg (by simp), hrest, List.filter_cons_of_neg (p := named) (by simp [named, hname])]

/-! ## A whole run -/

/-- Some rule removes the object. -/
def swept (now : Nat) (rules : List LifecycleRule) (o : StoredObject) : Bool :=
  rules.any fun rule => removes now rule o

/-- The state without the objects that a test finds. -/
def StorageState.sweep (root : FilePath) (s : StorageState) (p : StoredObject → Bool) :
    StorageState where
  objects := s.objects.filter (!p ·)
  files := s.files.filter fun path => s.objects.all fun o => !p o || decide (path ≠ o.file root)

/-- The primary key tells objects apart. -/
def StorageState.Keyed (s : StorageState) : Prop := (s.objects.map (·.id)).Nodup

theorem StorageState.without_filter {s : StorageState} (hkeyed : s.Keyed)
    (p : StoredObject → Bool) : s.without root (s.objects.filter p) = s.sweep root p := by
  simp only [without, sweep, StorageState.mk.injEq]
  constructor
  · refine List.filter_congr fun o ho => ?_
    rw [Bool.eq_iff_iff]
    simp only [List.all_eq_true, List.mem_filter, decide_eq_true_eq, Bool.not_eq_true']
    constructor
    · intro h
      by_contra hp
      exact h o ⟨ho, by simpa using hp⟩ rfl
    · rintro hp r ⟨hr, hpr⟩ hid
      obtain rfl := List.inj_on_of_nodup_map hkeyed ho hr hid
      rw [hp] at hpr
      cases hpr
  · refine List.filter_congr fun path _ => ?_
    rw [List.all_filter]

theorem cleanupRule_eq {s : StorageState} (hkeyed : s.Keyed) (count : Nat)
    (hterm : termSeconds rule < 2 ^ 64) :
    cleanupRule lib root now (s, count) rule =
      .ok (s.sweep root (removes now rule), count + s.objects.countP (removes now rule)) := by
  have hfound : (s.objects.filter fun o => decide (o.bucketId = rule.bucketId) &&
        decide (o.createdAt < Int64.ofNat (now - termSeconds rule))).filter
          (rule.namePrefix.isPrefixOf ·.name) = s.objects.filter (removes now rule) := by
    rw [List.filter_filter]
    refine List.filter_congr fun o _ => ?_
    simp only [removes, covers]
    grind
  have hbucket : ∀ o ∈ s.objects.filter (fun o => decide (o.bucketId = rule.bucketId) &&
      decide (o.createdAt < Int64.ofNat (now - termSeconds rule))),
      o.bucketId = rule.bucketId := by
    intro o ho
    have hboth := (List.mem_filter.mp ho).2
    simp only [Bool.and_eq_true, decide_eq_true_eq] at hboth
    exact hboth.1
  have hseconds : expirySeconds rule = .ok (termSeconds rule) := if_pos hterm
  refine Outcome.bind_eq_ok.mpr ⟨_, hseconds, ?_⟩
  have hselect : selectObjects lib (expiredExpr rule.bucketId (now - termSeconds rule)) s.objects =
      .ok (s.objects.filter fun o => decide (o.bucketId = rule.bucketId) &&
        decide (o.createdAt < Int64.ofNat (now - termSeconds rule))) :=
    selectObjects_eq (filterRow_expired rule.bucketId _) s.objects
  dsimp only
  rw [hselect]
  dsimp only
  rw [foldlM_removeObject _ hbucket, hfound, StorageState.without_filter hkeyed,
    List.countP_eq_length_filter]

theorem cleanupRule_overflow (s : StorageState × Nat) (hterm : ¬termSeconds rule < 2 ^ 64) :
    cleanupRule lib root now s rule = .stop .overflow := by
  unfold cleanupRule expirySeconds
  rw [termSeconds] at hterm
  dsimp only
  rw [if_neg hterm]
  rfl

theorem StorageState.sweep_sweep (s : StorageState) (p q : StoredObject → Bool) :
    (s.sweep root p).sweep root q = s.sweep root fun o => p o || q o := by
  simp only [sweep, List.filter_filter, List.all_filter, StorageState.mk.injEq]
  constructor
  · refine List.filter_congr fun o _ => ?_
    cases p o <;> cases q o <;> rfl
  · refine List.filter_congr fun path _ => ?_
    rw [Bool.eq_iff_iff]
    simp only [Bool.and_eq_true, List.all_eq_true, ← forall₂_and]
    refine forall₂_congr fun o _ => ?_
    cases p o <;> cases q o <;> simp

theorem StorageState.sweep_keyed {s : StorageState} (hkeyed : s.Keyed) (p : StoredObject → Bool) :
    (s.sweep root p).Keyed :=
  hkeyed.sublist (List.filter_sublist.map _)

theorem countP_or (objects : List StoredObject) (p q : StoredObject → Bool) :
    objects.countP (fun o => p o || q o) = objects.countP p + (objects.filter (!p ·)).countP q := by
  induction objects with
  | nil => rfl
  | cons o objects ih => cases hp : p o <;> cases hq : q o <;> simp [hp, hq, ih] <;> omega

theorem cleanup_eq {s : StorageState} (hkeyed : s.Keyed)
    (hterms : ∀ rule ∈ rules, termSeconds rule < 2 ^ 64) :
    cleanupExpiredObjects lib root now rules s =
      .ok (s.sweep root (swept now rules), s.objects.countP (swept now rules)) := by
  have hrun : ∀ (s : StorageState) (count : Nat), s.Keyed →
      rules.foldlM (cleanupRule lib root now) (s, count) =
        .ok (s.sweep root (swept now rules), count + s.objects.countP (swept now rules)) := by
    induction rules with
    | nil =>
        intro s count _
        have hobjects : s.objects.filter (!swept now [] ·) = s.objects :=
          List.filter_eq_self.mpr fun o _ => rfl
        have hfiles : s.files.filter (fun path => s.objects.all fun o =>
            !swept now [] o || decide (path ≠ o.file root)) = s.files :=
          List.filter_eq_self.mpr fun path _ => List.all_eq_true.mpr fun o _ => rfl
        have hcount : s.objects.countP (swept now []) = 0 :=
          List.countP_eq_zero.mpr fun o _ => Bool.false_ne_true
        rw [StorageState.sweep, hobjects, hfiles, hcount]
        rfl
    | cons rule rules ih =>
        intro s count hkeyed
        have hrest := ih fun r hr => hterms r (List.mem_cons_of_mem _ hr)
        rw [List.foldlM_cons, cleanupRule_eq hkeyed count (hterms rule List.mem_cons_self)]
        refine Outcome.bind_eq_ok.mpr ⟨_, rfl, ?_⟩
        rw [hrest _ _ (StorageState.sweep_keyed hkeyed _), StorageState.sweep_sweep]
        have hcount : s.objects.countP (removes now rule) +
            (s.sweep root (removes now rule)).objects.countP (swept now rules) =
              s.objects.countP (swept now (rule :: rules)) :=
          (countP_or s.objects (removes now rule) (swept now rules)).symm
        rw [Nat.add_assoc, hcount]
        rfl
  have hzero := hrun s 0 hkeyed
  rwa [Nat.zero_add] at hzero

/-! ## What expired -/

/-- The object is older than a rule of its bucket and its name lets it be. -/
def Expires (now : Nat) (rule : LifecycleRule) (o : StoredObject) : Prop :=
  covers rule o = true ∧ o.createdAt.toInt + rule.expiryDays.toInt * 86400 < now

def Expired (now : Nat) (rules : List LifecycleRule) (o : StoredObject) : Prop :=
  ∃ rule ∈ rules, Expires now rule o

instance (now : Nat) (rules : List LifecycleRule) (o : StoredObject) :
    Decidable (Expired now rules o) := by
  unfold Expired Expires
  infer_instance

/-- Days that the code counts as they are. -/
def LifecycleRule.Counted (rule : LifecycleRule) : Prop :=
  0 ≤ rule.expiryDays.toInt ∧ rule.expiryDays.toInt * 86400 < 2 ^ 64

theorem termSeconds_eq {rule : LifecycleRule} (h : 0 ≤ rule.expiryDays.toInt) :
    (termSeconds rule : Int) = rule.expiryDays.toInt * 86400 := by
  have hdays : (rule.expiryDays.toUInt64.toNat : Int) = rule.expiryDays.toInt := by
    have hcond := BitVec.toInt_eq_toNat_cond rule.expiryDays.toBitVec
    have hnat : rule.expiryDays.toUInt64.toNat = rule.expiryDays.toBitVec.toNat := rfl
    have hint : rule.expiryDays.toInt = rule.expiryDays.toBitVec.toInt := rfl
    have hlt := rule.expiryDays.toBitVec.isLt
    split at hcond <;> omega
  rw [termSeconds, Nat.cast_mul, hdays]
  rfl

theorem counted_iff (rule : LifecycleRule) : rule.Counted ↔ termSeconds rule < 2 ^ 64 := by
  constructor
  · rintro ⟨hdays, hterm⟩
    have heq := termSeconds_eq hdays
    omega
  · intro hterm
    have hdays : 0 ≤ rule.expiryDays.toInt := by
      by_contra hneg
      have hcond := BitVec.toInt_eq_toNat_cond rule.expiryDays.toBitVec
      have hnat : rule.expiryDays.toUInt64.toNat = rule.expiryDays.toBitVec.toNat := rfl
      have hint : rule.expiryDays.toInt = rule.expiryDays.toBitVec.toInt := rfl
      rw [termSeconds] at hterm
      split at hcond <;> omega
    have heq := termSeconds_eq hdays
    exact ⟨hdays, by omega⟩

theorem removes_iff {o : StoredObject} (hnow : now < 2 ^ 63) :
    removes now rule o = true ↔
      covers rule o = true ∧ o.createdAt.toInt < (now - termSeconds rule : Nat) := by
  have hcutoff : (Int64.ofNat (now - termSeconds rule)).toInt = (now - termSeconds rule : Nat) :=
    Int64.toInt_ofNat_of_lt (by omega)
  rw [removes, Bool.and_eq_true, decide_eq_true_eq, Int64.lt_iff_toInt_lt, hcutoff]

theorem Expires.removes {o : StoredObject} (hnow : now < 2 ^ 63) (hcounted : rule.Counted)
    (h : Expires now rule o) : removes now rule o = true := by
  have hterm := termSeconds_eq hcounted.1
  obtain ⟨hcovers, hcreated⟩ := h
  exact (removes_iff hnow).mpr ⟨hcovers, by omega⟩

theorem expires_of_removes {o : StoredObject} (hnow : now < 2 ^ 63) (hcounted : rule.Counted)
    (hdated : ¬(now < termSeconds rule ∧ o.createdAt.toInt < 0)) (h : removes now rule o = true) :
    Expires now rule o := by
  have hterm := termSeconds_eq hcounted.1
  obtain ⟨hcovers, hcreated⟩ := (removes_iff hnow).mp h
  exact ⟨hcovers, by omega⟩

/-! ## Cleaning up exactly -/

/-- The storage as the routes keep it, and the time. -/
structure Storage where
  state : StorageState
  keyed : state.Keyed
  now : Nat
  now_lt : now < 2 ^ 63

/-- What expired is removed, file and row, everything else is left, and the count is right. -/
structure CleansUp (root : FilePath) (storage : Storage) (rules : List LifecycleRule)
    (after : StorageState) (count : Nat) : Prop where
  objects : after.objects = storage.state.objects.filter fun o => !decide (Expired storage.now rules o)
  count : count = storage.state.objects.countP fun o => decide (Expired storage.now rules o)
  removed : ∀ o ∈ storage.state.objects, Expired storage.now rules o → o.file root ∉ after.files
  created : ∀ path ∈ after.files, path ∈ storage.state.files
  others : ∀ path ∈ storage.state.files,
    (∀ o ∈ storage.state.objects, Expired storage.now rules o → path ≠ o.file root) →
      path ∈ after.files
  kept : ∀ o ∈ storage.state.objects, ¬Expired storage.now rules o →
    o.file root ∈ storage.state.files → o.file root ∈ after.files

structure Cleanable (root : FilePath) (storage : Storage) (rules : List LifecycleRule) : Prop where
  counted : ∀ rule ∈ rules, rule.Counted
  /-- An object dated before the epoch that a rule covers for longer than there is time since
  then has expired by another one. -/
  dated : ∀ o ∈ storage.state.objects, ∀ rule ∈ rules, covers rule o = true →
    storage.now < termSeconds rule → o.createdAt.toInt < 0 → Expired storage.now rules o
  /-- What is kept has no file in common with what expired. -/
  apart : ∀ o ∈ storage.state.objects, ∀ o' ∈ storage.state.objects,
    Expired storage.now rules o → ¬Expired storage.now rules o' →
      o'.file root ∈ storage.state.files → o'.file root ≠ o.file root

theorem swept_iff_expired {storage : Storage} (hcounted : ∀ rule ∈ rules, rule.Counted)
    {o : StoredObject} :
    (∀ rule ∈ rules, covers rule o = true → storage.now < termSeconds rule →
      o.createdAt.toInt < 0 → Expired storage.now rules o) ↔
      (swept storage.now rules o = true ↔ Expired storage.now rules o) := by
  have hnow := storage.now_lt
  rw [swept, List.any_eq_true]
  constructor
  · intro hdated
    constructor
    · rintro ⟨rule, hrule, hremoves⟩
      by_cases hold : storage.now < termSeconds rule ∧ o.createdAt.toInt < 0
      · exact hdated rule hrule ((removes_iff hnow).mp hremoves).1 hold.1 hold.2
      · exact ⟨rule, hrule, expires_of_removes hnow (hcounted rule hrule) hold hremoves⟩
    · rintro ⟨rule, hrule, hexpires⟩
      exact ⟨rule, hrule, hexpires.removes hnow (hcounted rule hrule)⟩
  · intro hiff rule hrule hcovers hterm hcreated
    exact hiff.mp ⟨rule, hrule, (removes_iff hnow).mpr ⟨hcovers, by omega⟩⟩

theorem mem_sweep_files {s : StorageState} {p : StoredObject → Bool} {path : FilePath} :
    path ∈ (s.sweep root p).files ↔
      path ∈ s.files ∧ ∀ o ∈ s.objects, p o = true → path ≠ o.file root := by
  simp only [StorageState.sweep, List.mem_filter, List.all_eq_true, Bool.or_eq_true,
    Bool.not_eq_true', decide_eq_true_eq]
  refine and_congr_right fun _ => forall₂_congr fun o _ => ?_
  cases p o <;> simp

/-- A run that does not overflow counts the days of every rule. -/
theorem termSeconds_of_ok {s r : StorageState × Nat}
    (h : rules.foldlM (cleanupRule lib root now) s = .ok r) :
    ∀ rule ∈ rules, termSeconds rule < 2 ^ 64 := by
  induction rules generalizing s with
  | nil => exact nofun
  | cons rule rules ih =>
      rw [List.foldlM_cons] at h
      obtain ⟨s', hrule, hrest⟩ := Outcome.bind_eq_ok.mp h
      have hterm : termSeconds rule < 2 ^ 64 := by
        by_contra hterm
        rw [cleanupRule_overflow s hterm] at hrule
        cases hrule
      exact List.forall_mem_cons.mpr ⟨hterm, ih hrest⟩

theorem cleansUp_sweep_iff {storage : Storage} (hcounted : ∀ rule ∈ rules, rule.Counted) :
    CleansUp root storage rules (storage.state.sweep root (swept storage.now rules))
      (storage.state.objects.countP (swept storage.now rules)) ↔ Cleanable root storage rules := by
  constructor
  · intro h
    have hswept : ∀ o ∈ storage.state.objects,
        (swept storage.now rules o = true ↔ Expired storage.now rules o) := by
      intro o ho
      have hmem : o ∈ storage.state.objects.filter (!swept storage.now rules ·) ↔
          o ∈ storage.state.objects.filter fun o => !decide (Expired storage.now rules o) := by
        rw [← h.objects]
        rfl
      simp only [List.mem_filter, ho, true_and, Bool.not_eq_true', decide_eq_false_iff_not] at hmem
      rw [← not_iff_not, ← hmem, Bool.not_eq_true]
    refine ⟨hcounted, fun o ho => (swept_iff_expired hcounted).mpr (hswept o ho), ?_⟩
    intro o ho o' ho' hexpired hkept hfile
    exact (mem_sweep_files.mp (h.kept o' ho' hkept hfile)).2 o ho ((hswept o ho).mpr hexpired)
  · rintro ⟨-, hdated, hapart⟩
    have hswept : ∀ o ∈ storage.state.objects,
        (swept storage.now rules o = true ↔ Expired storage.now rules o) :=
      fun o ho => (swept_iff_expired hcounted).mp (hdated o ho)
    have hdecide : ∀ o ∈ storage.state.objects,
        swept storage.now rules o = decide (Expired storage.now rules o) := by
      intro o ho
      rw [Bool.eq_iff_iff, hswept o ho, decide_eq_true_eq]
    refine ⟨?_, ?_, ?_, ?_, ?_, ?_⟩
    · exact List.filter_congr fun o ho => congrArg Bool.not (hdecide o ho)
    · refine List.countP_congr fun o ho => ?_
      rw [hdecide o ho]
    · intro o ho hexpired hfile
      exact (mem_sweep_files.mp hfile).2 o ho ((hswept o ho).mpr hexpired) rfl
    · exact fun path hpath => (mem_sweep_files.mp hpath).1
    · intro path hpath hothers
      exact mem_sweep_files.mpr ⟨hpath, fun o ho hsw => hothers o ho ((hswept o ho).mp hsw)⟩
    · intro o' ho' hkept hfile
      exact mem_sweep_files.mpr ⟨hfile, fun o ho hsw =>
        hapart o ho o' ho' ((hswept o ho).mp hsw) hkept hfile⟩

end Cleanup

/-- A rule of minus one day, which the route accepts. -/
def minusOneDay : LifecycleRule := ⟨"b".toList, [], -1⟩

end ChocoBase.Http
