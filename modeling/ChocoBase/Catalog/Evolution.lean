import ChocoBase.Catalog.Dictionary
import ChocoBase.Engine.Reading

/-!
# How a dictionary evolves

What each successful statement makes of a dictionary, and what every statement keeps:
tables with one primary key and no two columns of one name, policies that ask for
nothing but queries, and the row-level security of a table that no statement names.
-/

namespace ChocoBase.Catalog

open ChocoBase.Foundation ChocoBase.Sql ChocoBase.Types ChocoBase.Engine

namespace Dictionary

/-- The ways in which a successful statement changes a dictionary. -/
inductive Evolves (lib : Library) (d : Dictionary) : Statement → Dictionary → Prop
  | createTable {name : String} {columns : List ColumnDef} (habsent : d.tables name = none)
      (hkey : (columns.filter fun c => c.primaryKey).length = 1) :
      Evolves lib d (.createTable name columns)
        (d.setTable name (some ⟨columns.map created, false⟩))
  | dropTable {name : String} :
      Evolves lib d (.dropTable name)
        ((d.withoutIndexes fun entry => entry.table = name).setTable name none)
  | createIndex {name table column : String} :
      Evolves lib d (.createIndex name table column) (d.setIndex name (some ⟨table, column⟩))
  | dropIndex {name : String} : Evolves lib d (.dropIndex name) (d.setIndex name none)
  | alterTableRls {table : String} {enabled : Bool} {entry : TableEntry}
      (hentry : d.tables table = some entry) :
      Evolves lib d (.alterTableRls table enabled)
        (d.setTable table (some { entry with rlsEnabled := enabled }))
  | addColumn {table : String} {column : ColumnDef} {entry : TableEntry}
      (hentry : d.tables table = some entry) (hfresh : ∀ c ∈ entry.columns, c.name ≠ column.name) :
      Evolves lib d (.alterTableAddColumn table column)
        (d.setTable table (some { entry with columns := entry.columns ++ [added column] }))
  | dropColumn {table column : String} {entry : TableEntry} {i : Nat} {col : Column}
      (hentry : d.tables table = some entry) (hcol : entry.columns[i]? = some col)
      (hkey : col.isPrimaryKey = false) :
      Evolves lib d (.alterTableDropColumn table column)
        ((d.withoutIndexes fun idx => idx.table = table && idx.column = column).setTable table
          (some { entry with columns := entry.columns.eraseIdx i }))
  | rename {table newName : String} {entry : TableEntry} (hentry : d.tables table = some entry)
      (habsent : d.tables newName = none) :
      Evolves lib d (.alterTableRename table newName)
        ((d.setTable table none).setTable newName (some entry))
  | createPolicy {name table : String} {cmd : PolicyCmd} {usingExpr withCheck : Option Expr}
      (habsent : d.policies name = none) :
      Evolves lib d (.createPolicy name table cmd usingExpr withCheck)
        (d.setPolicy name (some (storedPolicy lib ⟨name, table, cmd, usingExpr, withCheck⟩)))
  | dropPolicy {name table : String} :
      Evolves lib d (.dropPolicy name table) (d.setPolicy name none)
  | users {username password : String} {role : Option String} (habsent : d.tables usersTable = none) :
      Evolves lib d (.createUser username password role)
        (d.setTable usersTable (some ⟨usersColumns, false⟩))
  | same (stmt : Statement) : Evolves lib d stmt d

variable {lib : Library} {d d' : Dictionary} {stmt : Statement}

theorem evolves_of_after (h : d.after lib stmt = some d') : Evolves lib d stmt d' := by
  cases stmt with
  | createTable name columns =>
      obtain ⟨⟨habsent, hkey⟩, h⟩ := Option.ite_none_right_eq_some.mp h
      obtain rfl := Option.some.inj h
      exact .createTable habsent hkey
  | dropTable name =>
      obtain ⟨-, h⟩ := Option.ite_none_left_eq_some.mp h
      obtain rfl := Option.some.inj h
      exact .dropTable
  | createIndex name table column =>
      obtain ⟨-, h⟩ := Option.ite_none_right_eq_some.mp h
      obtain rfl := Option.some.inj h
      exact .createIndex
  | dropIndex name =>
      obtain ⟨-, h⟩ := Option.ite_none_left_eq_some.mp h
      obtain rfl := Option.some.inj h
      exact .dropIndex
  | alterTableRls table enabled =>
      obtain ⟨entry, hentry, rfl⟩ := Option.map_eq_some_iff.mp h
      exact .alterTableRls hentry
  | alterTableAddColumn table column =>
      obtain ⟨entry, hentry, h⟩ := Option.bind_eq_some_iff.mp h
      obtain ⟨hfresh, h⟩ := Option.ite_none_left_eq_some.mp h
      obtain rfl := Option.some.inj h
      exact .addColumn hentry fun c hc heq => hfresh (List.any_eq_true.mpr ⟨c, hc, by simpa using heq⟩)
  | alterTableDropColumn table column =>
      obtain ⟨entry, hentry, h⟩ := Option.bind_eq_some_iff.mp h
      obtain ⟨i, -, h⟩ := Option.bind_eq_some_iff.mp h
      obtain ⟨col, hcol, h⟩ := Option.bind_eq_some_iff.mp h
      obtain ⟨hkey, h⟩ := Option.ite_none_left_eq_some.mp h
      obtain rfl := Option.some.inj h
      exact .dropColumn hentry hcol (by simpa using hkey)
  | alterTableRename table newName =>
      obtain ⟨entry, hentry, h⟩ := Option.bind_eq_some_iff.mp h
      obtain ⟨habsent, h⟩ := Option.ite_none_right_eq_some.mp h
      obtain rfl := Option.some.inj h
      exact .rename hentry habsent
  | createPolicy name table cmd usingExpr withCheck =>
      obtain ⟨habsent, h⟩ := Option.ite_none_right_eq_some.mp h
      obtain rfl := Option.some.inj h
      exact .createPolicy habsent
  | dropPolicy name table =>
      obtain rfl := Option.some.inj h
      exact .dropPolicy
  | createUser username password role =>
      rw [after] at h
      by_cases habsent : d.tables usersTable = none
      · rw [if_pos habsent] at h
        obtain rfl := Option.some.inj h
        exact .users habsent
      · rw [if_neg habsent] at h
        obtain rfl := Option.some.inj h
        exact .same _
  | _ =>
      obtain rfl := Option.some.inj h
      exact .same _

end Dictionary

/-! ## Policies -/

namespace Dictionary

variable {lib : Library} {d d' : Dictionary} {stmt : Statement}

/-- The policies ask for nothing but queries. -/
def Asks (d : Dictionary) : Prop :=
  ∀ name policy, d.policies name = some policy → Asking policy.usingExpr

theorem setPolicy_eq_some {name name' : String} {entry : Option PolicySchema} {policy : PolicySchema} :
    (d.setPolicy name entry).policies name' = some policy ↔
      name' = name ∧ entry = some policy ∨ name' ≠ name ∧ d.policies name' = some policy := by
  by_cases heq : name' = name
  · simp [setPolicy, heq]
  · simp [setPolicy, heq]

theorem Evolves.asks (h : Evolves lib d stmt d') (hasks : d.Asks)
    (hcreate : ∀ name table cmd usingExpr withCheck,
      stmt = .createPolicy name table cmd usingExpr withCheck → Asking (storedExpr lib usingExpr)) :
    d'.Asks := by
  cases h with
  | createPolicy habsent =>
      intro name policy hpolicy
      rcases setPolicy_eq_some.mp hpolicy with ⟨-, hnew⟩ | ⟨-, hold⟩
      · obtain rfl := Option.some.inj hnew
        exact hcreate _ _ _ _ _ rfl
      · exact hasks name policy hold
  | dropPolicy =>
      intro name policy hpolicy
      rcases setPolicy_eq_some.mp hpolicy with ⟨-, hnew⟩ | ⟨-, hold⟩
      · cases hnew
      · exact hasks name policy hold
  | _ => exact hasks

end Dictionary

/-! ## Tables -/

namespace TableEntry

/-- One primary key that is not null, and no two columns of one name. -/
structure WellFormed (entry : TableEntry) : Prop where
  names : (entry.columns.map Column.name).Nodup
  key : (entry.columns.filter Column.isPrimaryKey).length = 1
  notNull : ∀ col ∈ entry.columns, col.isPrimaryKey = true → col.notNull = true

variable {entry : TableEntry}

theorem wellFormed_users : WellFormed ⟨usersColumns, false⟩ where
  names := by decide
  key := by decide
  notNull := by decide

theorem wellFormed_created {columns : List ColumnDef} (hnames : (columns.map ColumnDef.name).Nodup)
    (hkey : (columns.filter fun c => c.primaryKey).length = 1) :
    WellFormed ⟨columns.map Dictionary.created, false⟩ where
  names := by simpa [Function.comp_def, Dictionary.created, storedColumn] using hnames
  key := by simpa [List.filter_map, Function.comp_def, Dictionary.created, storedColumn] using hkey
  notNull := by
    intro col hcol hkey
    obtain ⟨c, -, rfl⟩ := List.mem_map.mp hcol
    have hkey : c.primaryKey = true := hkey
    simp [Dictionary.created, storedColumn, hkey]

theorem WellFormed.added (h : entry.WellFormed) {column : ColumnDef}
    (hfresh : ∀ c ∈ entry.columns, c.name ≠ column.name) (hkey : column.primaryKey = false) :
    WellFormed { entry with columns := entry.columns ++ [Dictionary.added column] } where
  names := by
    rw [List.map_append, List.nodup_append]
    refine ⟨h.names, List.nodup_singleton _, ?_⟩
    intro name hname name' hname'
    obtain ⟨c, hc, rfl⟩ := List.mem_map.mp hname
    obtain rfl := List.mem_singleton.mp hname'
    exact hfresh c hc
  key := by
    have hadded : (Dictionary.added column).isPrimaryKey = false := hkey
    rw [List.filter_append, List.filter_cons_of_neg (by simp [hadded]), List.filter_nil,
      List.append_nil]
    exact h.key
  notNull := by
    intro col hcol hprimary
    rcases List.mem_append.mp hcol with hcol | hcol
    · exact h.notNull col hcol hprimary
    · obtain rfl := List.mem_singleton.mp hcol
      rw [show (Dictionary.added column).isPrimaryKey = false from hkey] at hprimary
      cases hprimary

theorem WellFormed.dropped (h : entry.WellFormed) {i : Nat} {col : Column}
    (hcol : entry.columns[i]? = some col) (hkey : col.isPrimaryKey = false) :
    WellFormed { entry with columns := entry.columns.eraseIdx i } where
  names := h.names.sublist ((List.eraseIdx_sublist _ _).map _)
  key := by
    obtain ⟨hlt, rfl⟩ := List.getElem?_eq_some_iff.mp hcol
    have hsplit := h.key
    rw [← List.take_append_drop i entry.columns, List.drop_eq_getElem_cons hlt, List.filter_append,
      List.filter_cons_of_neg (by simp [hkey])] at hsplit
    rw [List.eraseIdx_eq_take_drop_succ, List.filter_append]
    exact hsplit
  notNull col hcol := h.notNull col ((List.eraseIdx_sublist _ _).subset hcol)

end TableEntry

namespace Dictionary

variable {lib : Library} {d d' : Dictionary} {stmt : Statement}

/-- A definition of columns that keeps the tables well-formed. -/
def Defines : Statement → Prop
  | .createTable _ columns => (columns.map ColumnDef.name).Nodup
  | .alterTableAddColumn _ column => column.primaryKey = false
  | _ => True

/-- All tables are well-formed. -/
def WellFormed (d : Dictionary) : Prop := ∀ name entry, d.tables name = some entry → entry.WellFormed

theorem setTable_eq_some {name name' : String} {new : Option TableEntry} {entry : TableEntry} :
    (d.setTable name new).tables name' = some entry ↔
      name' = name ∧ new = some entry ∨ name' ≠ name ∧ d.tables name' = some entry := by
  by_cases heq : name' = name
  · simp [setTable, heq]
  · simp [setTable, heq]

theorem WellFormed.setTable (h : d.WellFormed) {name : String} {new : Option TableEntry}
    (hnew : ∀ entry, new = some entry → entry.WellFormed) : (d.setTable name new).WellFormed := by
  intro name' entry hentry
  rcases setTable_eq_some.mp hentry with ⟨-, heq⟩ | ⟨-, hold⟩
  · exact hnew entry heq
  · exact h name' entry hold

theorem Evolves.wellFormed (h : Evolves lib d stmt d') (hwell : d.WellFormed)
    (hdefines : Defines stmt) : d'.WellFormed := by
  cases h with
  | createTable habsent hkey =>
      refine hwell.setTable ?_
      rintro _ ⟨⟩
      exact TableEntry.wellFormed_created hdefines hkey
  | dropTable => exact WellFormed.setTable hwell fun _ hnew => by cases hnew
  | alterTableRls hentry =>
      refine hwell.setTable ?_
      rintro _ ⟨⟩
      exact ⟨(hwell _ _ hentry).names, (hwell _ _ hentry).key, (hwell _ _ hentry).notNull⟩
  | addColumn hentry hfresh =>
      refine hwell.setTable ?_
      rintro _ ⟨⟩
      exact (hwell _ _ hentry).added hfresh hdefines
  | dropColumn hentry hcol hkey =>
      refine WellFormed.setTable hwell ?_
      rintro _ ⟨⟩
      exact (hwell _ _ hentry).dropped hcol hkey
  | rename hentry habsent =>
      refine (hwell.setTable fun _ hnew => by cases hnew).setTable ?_
      rintro _ ⟨⟩
      exact hwell _ _ hentry
  | users habsent =>
      refine hwell.setTable ?_
      rintro _ ⟨⟩
      exact TableEntry.wellFormed_users
  | _ => exact hwell

/-! ## Row-level security -/

/-- The statement may change the row-level security of this table. -/
def touches (table : String) : Statement → Bool
  | .alterTableRls table' _ | .dropTable table' | .alterTableRename table' _ => table' = table
  | _ => false

/-- Whether row-level security is enabled for a table. -/
def rls (d : Dictionary) (table : String) : Option Bool := (d.tables table).map TableEntry.rlsEnabled

theorem rls_setTable_of_ne {table name : String} (hne : table ≠ name) (new : Option TableEntry) :
    (d.setTable name new).rls table = d.rls table := by
  simp [rls, setTable, hne]

theorem rls_setTable {table name : String} {enabled : Bool} (h : d.rls table = some enabled)
    {new : Option TableEntry} (hnew : name = table → new.map TableEntry.rlsEnabled = some enabled) :
    (d.setTable name new).rls table = some enabled := by
  by_cases heq : name = table
  · subst heq
    simpa [rls, setTable] using hnew rfl
  · rw [rls_setTable_of_ne (Ne.symm heq), h]

theorem Evolves.rls (h : Evolves lib d stmt d') {table : String} {enabled : Bool}
    (hrls : d.rls table = some enabled) (htouches : touches table stmt = false) :
    d'.rls table = some enabled := by
  have hpresent : d.tables table ≠ none := fun hnone => by simp [Dictionary.rls, hnone] at hrls
  cases h with
  | createTable habsent hkey => exact rls_setTable hrls fun heq => (hpresent (heq ▸ habsent)).elim
  | dropTable => exact (rls_setTable_of_ne (by simpa [touches, eq_comm] using htouches) _).trans hrls
  | alterTableRls hentry =>
      exact (rls_setTable_of_ne (by simpa [touches, eq_comm] using htouches) _).trans hrls
  | addColumn hentry hfresh =>
      refine rls_setTable hrls ?_
      rintro rfl
      simpa [Dictionary.rls, hentry] using hrls
  | dropColumn hentry hcol hkey =>
      refine rls_setTable hrls ?_
      rintro rfl
      simpa [Dictionary.rls, hentry] using hrls
  | rename hentry habsent =>
      have hne : table ≠ _ := fun heq => hpresent (by rw [heq, habsent])
      rw [rls_setTable_of_ne hne, rls_setTable_of_ne (by simpa [touches, eq_comm] using htouches), hrls]
  | users habsent => exact rls_setTable hrls fun heq => (hpresent (heq ▸ habsent)).elim
  | _ => exact hrls

/-- These are the policies on a table. -/
def Restricts (d : Dictionary) (table : String) (policies : List PolicySchema) : Prop :=
  ∀ policy, policy ∈ policies ↔ d.policies policy.name = some policy ∧ policy.table = table

theorem Evolves.restricts (h : Evolves lib d stmt d') {table : String} {policies : List PolicySchema}
    (hlisted : d.Restricts table policies)
    (hcreate : ∀ name cmd usingExpr withCheck,
      stmt ≠ .createPolicy name table cmd usingExpr withCheck)
    (hdrop : ∀ policy ∈ policies, ∀ table', stmt ≠ .dropPolicy policy.name table') :
    d'.Restricts table policies := by
  intro policy
  cases h with
  | createPolicy habsent =>
      rw [hlisted, setPolicy_eq_some]
      refine and_congr_left fun htable => ⟨fun hold => .inr ⟨?_, hold⟩, ?_⟩
      · rintro rfl
        rw [habsent] at hold
        cases hold
      · rintro (⟨-, hnew⟩ | ⟨-, hold⟩)
        · obtain rfl := Option.some.inj hnew
          obtain rfl := htable
          exact (hcreate _ _ _ _ rfl).elim
        · exact hold
  | dropPolicy =>
      rw [setPolicy_eq_some]
      refine ⟨fun hmem => ⟨.inr ⟨?_, ((hlisted policy).mp hmem).1⟩, ((hlisted policy).mp hmem).2⟩, ?_⟩
      · rintro rfl
        exact hdrop policy hmem _ rfl
      · rintro ⟨⟨-, hnew⟩ | ⟨-, hold⟩, htable⟩
        · cases hnew
        · exact (hlisted policy).mpr ⟨hold, htable⟩
  | _ => exact hlisted policy

end Dictionary

end ChocoBase.Catalog
