import ChocoBase.Engine.Runs
import ChocoBase.Engine.StoredRows

/-!
# The rows of a table

A database has a table with its entries.  A `SELECT` of everything decodes them in the
order of their keys, and an `INSERT` that succeeds has added its rows to them.
-/

namespace ChocoBase.Engine

open ChocoBase.Foundation ChocoBase.Storage ChocoBase.BTree ChocoBase.Sql ChocoBase.Types
  ChocoBase.Auth ChocoBase.Catalog ChocoBase.Plan

/-! ## Programs with one outcome -/

section Settles

variable {f : Forest} {ε ε' α β : Type}

/-- The contract for programs that only look. -/
def lookContract : Contract dbRequests Forest where
  pre op f := Inspects op ∧ requestPre op f
  post := requestPost false

/-- From this forest, and without changing it, the program ends so. -/
abbrev Settles (f : Forest) (x : DbProg ε α) (o : Outcome ε α) : Prop :=
  x.sure lookContract
    ⟨fun a f' => f' = f ∧ o = .ok a, fun e f' => f' = f ∧ o = .error e, fun why _ => o = .stop why⟩ f

theorem Settles.seq {x : DbProg ε α} {g : α → DbProg ε β} {a : α} {o : Outcome ε β}
    (hx : Settles f x (.ok a)) (hg : Settles f (g a) o) : Settles f (x >>= g) o := by
  refine Prog.sure_seq hx ?_ (fun _ _ h => by cases h.2) fun _ _ h => by cases h
  rintro _ _ ⟨rfl, heq⟩
  cases heq
  exact hg

theorem Settles.bind {x : DbProg ε α} {g : α → DbProg ε β} {o : Outcome ε α} {r : α → Outcome ε β}
    (hx : Settles f x o) (hg : ∀ a, Settles f (g a) (r a)) : Settles f (x >>= g) (o.bind r) := by
  refine Prog.sure_seq hx ?_ ?_ fun _ _ h => by rw [h]; rfl
  · rintro a _ ⟨rfl, rfl⟩
    exact hg a
  · rintro e _ ⟨rfl, rfl⟩
    exact ⟨rfl, rfl⟩

theorem settles_pure (a : α) : Settles f (pure a : DbProg ε α) (.ok a) := ⟨rfl, rfl⟩

theorem settles_ofOutcome (o : Outcome ε α) : Settles f (Prog.ofOutcome o) o := by
  cases o with
  | ok a => exact ⟨rfl, rfl⟩
  | error e => exact ⟨rfl, rfl⟩
  | stop why => exact (rfl : Outcome.stop why = .stop why)

theorem settles_unwrap {o : Option α} {a : α} (h : o = some a) :
    Settles f (Prog.unwrap o : DbProg ε α) (.ok a) := by
  subst h
  exact settles_pure a

theorem Settles.mapError {x : DbProg ε' α} {a : α} {convert : ε' → ε} (hx : Settles f x (.ok a)) :
    Settles f (x.mapError convert) (.ok a) :=
  (Prog.sure_mapError convert x _ f).mpr
    (Prog.sure_mono hx (fun _ _ h => ⟨h.1, by cases h.2; rfl⟩) (fun _ _ h => by cases h.2)
      fun _ _ h => by cases h)

variable {ι : Type} {lay : ι → Option (PageNo × OrdMap Bytes Bytes)} {i : ι} {root : PageNo}
  {m : OrdMap Bytes Bytes} {convert : BTreeError → ε}

theorem settles_search (h : Laid f.now.roots lay) (hi : lay i = some (root, m)) (key : Bytes) :
    Settles f (ask convert (.search root key)) (.ok (m.get key)) := by
  have hm := (h.planted i root m hi).1
  refine ⟨⟨trivial, fun hnone => ?_⟩, ?_, fun _ _ hfalse => hfalse.elim,
    fun _ _ hfalse => hfalse.elim⟩
  · rw [hm] at hnone
    cases hnone
  · rintro found f' ⟨rfl, m', hm', rfl⟩
    obtain rfl := Option.some.inj (hm.symm.trans hm')
    exact ⟨rfl, rfl⟩

theorem settles_scan (h : Laid f.now.roots lay) (hi : lay i = some (root, m)) :
    Settles f (ask convert (.scan root)) (.ok ⟨m.entries, .ok ()⟩) := by
  have hm := (h.planted i root m hi).1
  refine ⟨⟨trivial, fun hnone => ?_⟩, ?_, fun _ _ hfalse => hfalse.elim,
    fun _ _ hfalse => hfalse.elim⟩
  · rw [hm] at hnone
    cases hnone
  · rintro scanned f' ⟨rfl, m', hm', rfl⟩
    obtain rfl := Option.some.inj (hm.symm.trans hm')
    exact ⟨rfl, rfl⟩

theorem settles_root : Settles f (ask convert .root) (.ok f.root) := by
  refine ⟨⟨trivial, trivial⟩, ?_, fun _ _ hfalse => hfalse.elim, fun _ _ hfalse => hfalse.elim⟩
  rintro root f' ⟨rfl, rfl⟩
  exact ⟨rfl, rfl⟩

end Settles

/-! ## The catalog -/

section Catalog

variable {lib : Library} {stale : Set Bytes} {f : Forest} {cat : OrdMap Bytes Bytes} {lay : Layout}
  {schema : TableSchema}

theorem settles_getTable (h : Housed f cat lay) (ht : IsTable cat schema) :
    Settles f (getTable schema.name) (.ok (some schema)) := by
  refine Settles.seq settles_root (Settles.seq (settles_search h.laid housed_catalog _) ?_)
  rw [ht.recorded]
  exact Settles.seq (settles_unwrap ht.decodes) (settles_pure _)

theorem settles_requireTable (h : Housed f cat lay) (ht : IsTable cat schema) :
    Settles f (requireTable schema.name) (.ok schema) :=
  Settles.seq (settles_getTable h ht) (settles_pure schema)

/-- Records that are filed have a kind, and those of an index decode. -/
theorem decodeKind_filed {entries : List (Bytes × Bytes)}
    (h : ∀ e ∈ entries, Filed lib e.1 e.2) :
    ∃ indexes, decodeKind kindIndex decodeIndexRecord entries = .ok indexes := by
  induction entries with
  | nil => exact ⟨[], rfl⟩
  | cons e entries ih =>
      obtain ⟨key, payload⟩ := e
      obtain ⟨hfiled, hrest⟩ := List.forall_mem_cons.mp h
      obtain ⟨indexes, hindexes⟩ := ih hrest
      have hother : ∀ kind, recordKind payload = some kind → kind ≠ kindIndex →
          decodeKind kindIndex decodeIndexRecord ((key, payload) :: entries) = .ok indexes := by
        intro kind hkind hne
        rw [decodeKind, hkind]
        change (if kind = kindIndex then _ else _) = _
        rw [if_neg hne, hindexes]
      dsimp only at hfiled
      cases hfiled with
      | table schema hdecode => exact ⟨indexes, hother _ (kind_of_table hdecode) (by decide)⟩
      | policy policy hdecode => exact ⟨indexes, hother _ (kind_of_policy hdecode) (by decide)⟩
      | index schema hdecode =>
          refine ⟨schema :: indexes, ?_⟩
          simp [decodeKind, kind_of_index hdecode, hdecode, hindexes, Outcome.unwrap, Outcome.bind]

theorem settles_listIndexes (h : Sound lib stale f cat lay) (table : String) :
    ∃ indexes, Settles f (listIndexesForTable table) (.ok indexes) := by
  obtain ⟨indexes, hindexes⟩ := @decodeKind_filed lib cat.entries fun e he =>
    (h.filed e.1 e.2 (OrdMap.get_eq_some.mpr he)).1
  have hlist : Settles f (listRecords kindIndex decodeIndexRecord) (.ok indexes) := by
    refine Settles.seq settles_root (Settles.seq (settles_scan h.laid housed_catalog) ?_)
    dsimp only
    rw [hindexes]
    exact settles_ofOutcome (.ok indexes)
  exact ⟨_, Settles.seq hlist (settles_pure _)⟩

end Catalog

/-! ## Reading everything -/

/-- The statement that reads a table whole. -/
def selectAll (table : String) : Statement :=
  .select .all table (some (.table table none)) none none none none none

section Select

variable {lib : Library} {ctx : ExecutionContext} {f : Forest} {cat : OrdMap Bytes Bytes}
  {lay : Layout} {schema : TableSchema} {m : OrdMap Bytes Bytes} {fuel : Nat}

theorem indexAll_ok {row : Row} {indices : List Nat} (h : ∀ i ∈ indices, i < row.length) :
    ∃ out, indexAll row indices = .ok out := by
  induction indices with
  | nil => exact ⟨[], rfl⟩
  | cons i indices ih =>
      obtain ⟨hi, hrest⟩ := List.forall_mem_cons.mp h
      obtain ⟨out, hout⟩ := ih hrest
      refine ⟨row[i] :: out, ?_⟩
      rw [indexAll, List.getElem?_eq_getElem hi, hout]
      rfl

/-- The columns of a row of the table, each in its place. -/
theorem project_typed_eq {rows : Rows} (h : TypedRows schema rows) :
    project (List.range schema.columns.length) rows = rows := by
  obtain ⟨list, ending⟩ := rows
  rw [project]
  dsimp only
  induction list with
  | nil => rfl
  | cons row list ih =>
      obtain ⟨hrow, hrest⟩ := List.forall_mem_cons.mp h
      obtain ⟨out, hout⟩ := @indexAll_ok row (List.range schema.columns.length) fun i hi => by
        rw [← hrow.length_eq]
        exact List.mem_range.mp hi
      have hself := hout
      rw [hrow.length_eq] at hself
      obtain rfl := indexAll_range hself
      rw [collect, hout]
      change (collect _ _ _).push out = _
      rw [ih hrest]
      rfl

theorem storedRows_typed : TypedRows schema (storedRows schema m) := by
  intro row hrow
  obtain ⟨e, -, he⟩ := mem_collect hrow
  exact typed_of_rowOf he

theorem collect_decoded {entries : List (Bytes × Bytes)} {rows : List Row} :
    (collect (fun e => rowOf schema e.2) (.ok ()) entries).outcome = .ok rows ↔
      List.Forall₂ (fun e row => decodeRow schema e.2 = some row) entries rows := by
  induction entries generalizing rows with
  | nil => simp [collect, Rows.outcome, Outcome.bind, eq_comm]
  | cons e entries ih =>
      rw [collect, List.forall₂_cons_left_iff]
      cases hrow : decodeRow schema e.2 with
      | none => simp [rowOf, hrow, Outcome.unwrap, Outcome.bind, Rows.outcome]
      | some row =>
          have hof : rowOf schema e.2 = .ok (some row) := by
            rw [rowOf, hrow]
            rfl
          have hpush : ∀ r : Rows, (r.push row).outcome = .ok rows ↔
              ∃ rest, r.outcome = .ok rest ∧ rows = row :: rest := fun r => by
            cases hending : r.ending <;>
              simp [Rows.push, Rows.outcome, hending, Outcome.bind, eq_comm]
          rw [hof]
          dsimp only
          simp only [hpush, ih, Option.some.injEq]
          constructor
          · rintro ⟨rest, hrest, rfl⟩
            exact ⟨row, rest, rfl, hrest, rfl⟩
          · rintro ⟨_, rest, rfl, hrest, rfl⟩
            exact ⟨rest, hrest, rfl⟩

/-- What a `SELECT` of everything answers. -/
def allRows (schema : TableSchema) (m : OrdMap Bytes Bytes) : Outcome DbError ExecResult :=
  ((storedRows schema m).outcome.mapError .exec).bind fun rows => .ok (.rows (columnNames schema) rows)

theorem allRows_eq_ok {rows : List Row} :
    allRows schema m = .ok (.rows (columnNames schema) rows) ↔
      List.Forall₂ (fun e row => decodeRow schema e.2 = some row) m.entries rows := by
  rw [← collect_decoded, allRows]
  change _ ↔ (storedRows schema m).outcome = _
  cases (storedRows schema m).outcome <;> simp [Outcome.mapError, Outcome.bind]

theorem settles_selectAll (h : Sound lib ∅ f cat lay) (ht : IsTable cat schema)
    (hlay : lay (.record (tableKey schema.name)) = some (schema.rootPage, m))
    (hkey : schema.primaryKeyIndex.isSome) (hadmin : ctx.isAdmin = true) :
    Settles f (executeStatement lib ctx (fuel + 1) (selectAll schema.name)) (allRows schema m) := by
  obtain ⟨indexes, hindexes⟩ := settles_listIndexes h schema.name
  obtain ⟨pkIdx, hpkIdx⟩ := Option.isSome_iff_exists.mp hkey
  obtain ⟨hlt, -⟩ := List.findIdx?_eq_some_iff_getElem.mp hpkIdx
  have hpkCol : schema.columns[pkIdx]? = some schema.columns[pkIdx] := List.getElem?_eq_getElem hlt
  have hfilter : Settles f (applyRlsFilter lib ctx schema.name .select none) (.ok none) := by
    refine Settles.seq (settles_getTable h.toHoused ht) ?_
    dsimp only
    rw [hadmin, Bool.or_true, if_pos rfl]
    exact settles_pure none
  have hplan : buildSelectPlanWithContext lib schema indexes none (List.range schema.columns.length)
      none none ctx = .ok ⟨.seqScan, project (List.range schema.columns.length)⟩ := by
    rw [buildSelectPlanWithContext, hpkIdx]
    change (Outcome.unwrap schema.columns[pkIdx]?).bind _ = _
    rw [hpkCol]
    rfl
  have hscan : Settles f (seqScan schema) (.ok (storedRows schema m)) :=
    Settles.seq (settles_scan (i := some _) h.laid hlay) (settles_pure _)
  have hread : Settles f (SelectPlan.read schema
      ⟨.seqScan, project (List.range schema.columns.length)⟩) (.ok (storedRows schema m)) := by
    refine Settles.seq hscan ?_
    dsimp only
    rw [project_typed_eq storedRows_typed]
    exact settles_pure _
  refine Settles.seq hfilter (Settles.seq (settles_pure none) ?_)
  refine Settles.seq (settles_requireTable h.toHoused ht) (Settles.seq hindexes ?_)
  change Settles f (planned (buildSelectPlanWithContext lib schema indexes none
    (List.range schema.columns.length) none none ctx) >>= _) _
  rw [hplan]
  refine Settles.seq (settles_pure _) (Settles.seq hread.mapError ?_)
  exact (settles_ofOutcome _).bind fun rows => settles_pure _

end Select

/-! ## Databases -/

theorem along_any {I : Interface} {σ ε α : Type} {H : Handler I σ} (x : Prog I ε α) (s : σ) :
    x.Along H (fun _ _ => True) s := by
  induction x generalizing s with
  | pure value => trivial
  | throw reason => trivial
  | halt why => trivial
  | call op next ih =>
      unfold Prog.Along
      refine ⟨trivial, ?_⟩
      split
      · exact ih _ _
      · exact ih _ _
      · trivial

/-- To look is regular. -/
theorem honours_look (env : Environment) :
    Prog.Honours Describes (fun _ _ => True) (Database.answer env) lookContract := by
  rintro op d f hd - ⟨hop, hpre⟩
  refine honours env false op d f hd ?_ hpre
  cases op <;> first | exact hop.elim | exact ⟨trivial, fun _ => rfl⟩

/-- The database has this table, with these entries. -/
def Contains (lib : Library) (d : Database) (schema : TableSchema) (m : OrdMap Bytes Bytes) : Prop :=
  ∃ f cat lay, Describes d f ∧ Sound lib ∅ f cat lay ∧ IsTable cat schema ∧
    lay (.record (tableKey schema.name)) = some (schema.rootPage, m)

section Databases

variable {lib : Library} {ctx : ExecutionContext} {env : Environment} {d d' : Database}
  {schema : TableSchema} {m : OrdMap Bytes Bytes} {fuel : Nat}

/-- A table that the catalog finds. -/
theorem Stands.contains {s : Held} (h : Stands lib d s) {name : String}
    (hfits : (getTable name).Along (Database.answer env) (fun op d => d.Regular false op) d)
    (hrun : ((getTable name).run (Database.answer env) d).1 = .ok (some schema)) :
    ∃ m, Contains lib d schema m := by
  obtain ⟨f, hd, ⟨cat, lay, hsound, -⟩, -⟩ := h
  obtain ⟨f', -, -, rfl, hfound⟩ := Exec.wp_ok (Prog.sure_sound (honours env false) hd
    (hsound.getTable name) hfits) (Prod.ext hrun rfl)
  rcases hfound with ⟨-, hnone⟩ | ⟨schema', -, ht, hsome⟩
  · cases hnone
  · cases hsome
    obtain ⟨m, hlay⟩ := hsound.tree ht (Set.notMem_empty _)
    exact ⟨m, f', cat, lay, hd, hsound, ht, hlay⟩

/-- A program with one outcome has it, whatever database the forest describes. -/
theorem run_of_settles {f : Forest} {α : Type} {x : DbProg DbError α} {o : Outcome DbError α}
    (hd : Describes d f) (hx : Settles f x o) :
    (x.run (Database.answer env) d).1 = o := by
  have hwp := Prog.sure_sound (honours_look env) hd hx (along_any x d)
  unfold Exec.wp at hwp
  rcases hrun : x.run (Database.answer env) d with ⟨a | e | why, d'⟩
  all_goals rw [hrun] at hwp
  · obtain ⟨_, _, -, heq⟩ := hwp
    exact heq.symm
  · obtain ⟨_, _, -, heq⟩ := hwp
    exact heq.symm
  · obtain ⟨_, heq⟩ := hwp
    exact heq.symm

theorem Contains.selectAll (h : Contains lib d schema m) (hkey : schema.primaryKeyIndex.isSome)
    (hadmin : ctx.isAdmin = true) :
    (Database.execute lib ctx env (fuel + 1) (selectAll schema.name) d).1 = allRows schema m := by
  obtain ⟨f, cat, lay, hd, hsound, ht, hlay⟩ := h
  exact run_of_settles hd (settles_selectAll hsound ht hlay hkey hadmin)

/-! ## Adding rows -/

theorem inserted_nil {tree : OrdMap Bytes Bytes} (h : Inserted schema m [] tree) : tree = m := by
  generalize hrows : ([] : List Row) = rows at h
  cases h with
  | nil => rfl
  | snoc => exact absurd hrows.symm (List.append_ne_nil_of_right_ne_nil _ (List.cons_ne_nil _ _))

/-- One row has gone into the tree. -/
theorem inserted_one {row : Row} {tree : OrdMap Bytes Bytes} (h : Inserted schema m [row] tree) :
    ∃ key payload, rowKey schema row = some key ∧ encodeRow schema row = some payload ∧
      m.get key = none ∧ tree = m.insert key payload := by
  generalize hrows : [row] = rows at h
  cases h with
  | nil => cases hrows
  | snoc before _ hkey hpayload habsent _ =>
      obtain ⟨rfl, heq⟩ := List.append_inj' (show [] ++ [row] = _ from hrows) rfl
      cases heq
      obtain rfl := inserted_nil before
      exact ⟨_, _, hkey, hpayload, habsent, rfl⟩

section Adding

variable {f f' : Forest} {cat : OrdMap Bytes Bytes} {lay : Layout} {columns : Option (List String)}
  {exprRows : List (List Expr)} {returning : Option SelectColumns} {res : ExecResult}

theorem isTable_unique {schema' : TableSchema} (h : IsTable cat schema) (h' : IsTable cat schema')
    (hname : schema.name = schema'.name) : schema = schema' := by
  have hrecorded := h.recorded
  rw [hname, h'.recorded] at hrecorded
  have hdecodes := h'.decodes
  rw [Option.some.inj hrecorded, h.decodes] at hdecodes
  exact Option.some.inj hdecodes

/-- The rows are in the tree of the table, and the statement has this result. -/
def Adds (lib : Library) (ctx : ExecutionContext) (cat : OrdMap Bytes Bytes) (lay : Layout)
    (schema : TableSchema) (m : OrdMap Bytes Bytes) (columns : Option (List String))
    (exprRows : List (List Expr)) (returning : Option SelectColumns) (res : ExecResult)
    (f' : Forest) : Prop :=
  ∃ rows tree indexes, InsertedFirst lib ctx schema columns none m exprRows rows tree ∧
    finishDml lib ctx schema rows returning = .ok res ∧ Rewritten lib cat lay schema indexes tree f'

theorem does_insertAdds (h : Sound lib ∅ f cat lay) (ht : IsTable cat schema)
    (hlay : lay (.record (tableKey schema.name)) = some (schema.rootPage, m))
    (hadmin : ctx.isAdmin = true) (hactive : f.atBegin.isSome) :
    Does f (executeInsert lib ctx schema.name columns exprRows returning)
      (Adds lib ctx cat lay schema m columns exprRows returning) fun _ => True := by
  refine (does_executeInsert h hactive).mono ?_ fun _ _ => trivial
  rintro res f' - ⟨schema', indexes, m', policies, rows, tree, hfound, hpolicies, hfirst, hres, hrewritten⟩
  obtain rfl := isTable_unique hfound.table ht hfound.name
  obtain rfl : m' = m := by simpa using hfound.tree.symm.trans hlay
  rw [hpolicies hadmin] at hfirst
  exact ⟨rows, tree, indexes, hfirst, hres, hrewritten⟩

theorem Adds.contains (h : Adds lib ctx cat lay schema m columns exprRows returning res f)
    (hd : Describes d f') (hnow : f'.now = f.now) (hroot : f'.root = f.root) :
    ∃ rows tree root, InsertedFirst lib ctx schema columns none m exprRows rows tree ∧
      finishDml lib ctx schema rows returning = .ok res ∧
        Contains lib d { schema with rootPage := root } tree := by
  obtain ⟨rows, tree, indexes, hfirst, hres, ⟨cat', lay', root, hsound, -, ht, hlay, -⟩⟩ := h
  exact ⟨rows, tree, root, hfirst, hres, f', cat', lay', hd, hsound.congr hnow hroot, ht, hlay⟩

/-- An `INSERT` of an admin that succeeds, inside of a transaction or not. -/
theorem Contains.insert (h : Contains lib d schema m) (hadmin : ctx.isAdmin = true)
    (hfits : Execute.Fits lib ctx env (fuel + 1) (.insert schema.name columns exprRows returning) d)
    (hrun : Database.execute lib ctx env (fuel + 1) (.insert schema.name columns exprRows returning) d =
      (.ok res, d')) :
    ∃ rows tree root, InsertedFirst lib ctx schema columns none m exprRows rows tree ∧
      finishDml lib ctx schema rows returning = .ok res ∧
        Contains lib d' { schema with rootPage := root } tree := by
  obtain ⟨f, cat, lay, hd, h, ht, hlay⟩ := h
  rw [Execute.Fits, executeStatement_mutates rfl] at hfits
  rw [Database.execute, executeStatement_mutates rfl] at hrun
  obtain ⟨active, d₁, hactive, hrun, -⟩ := Prog.exists_of_bind_ok hrun
  obtain ⟨hquery, hfits⟩ := Prog.along_bind.mp hfits
  have hfits := hfits active d₁ hactive
  have hlook : Looks f inTransaction (fun active => active = f.atBegin.isSome) fun _ => False :=
    looks_inTransaction
  obtain ⟨f₁, hd₁, -, rfl, rfl⟩ := Exec.wp_ok (Prog.sure_sound (honours env false) hd hlook hquery)
    hactive
  have hadds : ∀ {f}, Sound lib ∅ f cat lay → f.atBegin.isSome →
      Does f (executeInsert lib ctx schema.name columns exprRows returning)
        (Adds lib ctx cat lay schema m columns exprRows returning) fun _ => True :=
    fun h hactive => does_insertAdds h ht hlay hadmin hactive
  cases hidle : f₁.atBegin with
  | some saved =>
      have hopen : f₁.atBegin.isSome := by rw [hidle]; rfl
      rw [hopen] at hfits hrun
      obtain ⟨f', hd', -, hadds⟩ := Exec.wp_ok (Prog.sure_sound (honours env false) hd₁
        (hadds h hopen) hfits) hrun
      exact hadds.contains hd' rfl rfl
  | none =>
      rw [hidle] at hfits hrun
      have hbegun : Sound lib ∅ { f₁ with atBegin := some f₁.saved } cat lay := h.congr rfl rfl
      have hcommit := sure_committing hidle (hadds hbegun rfl)
      obtain ⟨f', hd', f₂, hadds, hclosed⟩ := Exec.wp_ok (Prog.sure_sound (honours env false) hd₁
        hcommit (along_committing hfits)) (run_committing hrun)
      exact hadds.contains hd' hclosed.now hclosed.root

end Adding

end Databases

end ChocoBase.Engine
