import ChocoBase.Engine.Runs

/-!
# A database that was just created

Its catalog is sound: it has the users' table and nothing else.  The pages of that table
still wait to be written.
-/

namespace ChocoBase.Engine

open ChocoBase.Foundation ChocoBase.Storage ChocoBase.BTree ChocoBase.Sql ChocoBase.Types
  ChocoBase.Catalog ChocoBase.Plan

/-- No page of the file is in use. -/
def Forest.bare : Forest where
  now := ⟨fun _ => none, 0, true⟩
  atBegin := none
  clean := true
  root := 0
  subscribed := false
  transactionEvents := []
  delivered := []

theorem plants_empty : Plants 0 (fun _ => none) true .empty := by
  have hwf : Store.empty.Wf := Pager.created_serves.models.wf
  refine ⟨0, ⟨hwf, rfl, Multiset.nodup_zero, ?_, ?_, ?_⟩, 0, 0, rfl, ⟨?_, ?_⟩, fun _ => rfl⟩
  · exact fun _ hmem => absurd hmem (Multiset.notMem_zero _)
  · exact fun _ _ hmem => absurd hmem (Multiset.notMem_zero _)
  · exact fun _ hused => absurd rfl hused
  · exact fun _ hmem => absurd hmem (Multiset.notMem_zero _)
  · intro root m
    refine ⟨fun h => (by cases h), ?_⟩
    rintro ⟨T, hmem, -⟩
    exact absurd hmem (Multiset.notMem_zero _)

theorem describes_bare : Describes (.ofPager Pager.created) .bare where
  root := rfl
  subscribed := rfl
  transactionEvents := rfl
  delivered := rfl
  pager := ⟨[], Pager.created.file, false, .empty,
    ⟨Pager.created_serves.models, Pager.created_coherent, rfl, fun _ => rfl, by simp⟩, plants_empty,
    .outside rfl, fun _ => rfl⟩

/-- In which order dirty pages are visited is no matter. -/
theorem Describes.sorting {d : Database} {f : Forest} (h : Describes d f) :
    Describes d.sorting f := by
  obtain ⟨base, start, active, st, hholds, hin, hphase, hclean⟩ := h.pager
  have hsteady := Pager.Steady.of_orders hholds.models.coherent fun _ => .byInsertion
  have hmodels := hholds.models.of_same (hholds.models.settled.steady hsteady) hsteady.coherent
    hsteady.header (funext hsteady.content)
  exact ⟨h.root, h.subscribed, h.transactionEvents, h.delivered, base, start, active, st,
    ⟨hmodels, hholds.guarded.steady hsteady⟩, hin, hphase, hclean⟩

/-- Whether the nodes of a run fit their pages can be tried. -/
instance (strict : Bool) (op : dbRequests.Op) (d : Database) : Decidable (d.Regular strict op) :=
  inferInstanceAs (Decidable (Database.Regular strict (show DbRequest from op) d))

section Created

variable (lib : Library)

/-- The catalog is a new tree. -/
theorem sure_bootstrap :
    bootstrap.sure (forestContract false)
      ⟨fun _ f' => (∃ lay, Sound lib ∅ f' .empty lay) ∧ f'.atBegin = none, fun _ _ => False,
        fun _ _ => True⟩ .bare := by
  refine ⟨trivial, ?_, fun _ _ hfalse => hfalse.elim, fun _ _ hfalse => hfalse.elim⟩
  rintro _ f ⟨rfl, rfl⟩
  refine ⟨trivial, ?_, fun _ _ hfalse => hfalse.elim, fun _ _ _ => trivial⟩
  rintro root _ ⟨⟨hroot, -⟩, rfl⟩
  refine ⟨trivial, ?_, fun _ _ hfalse => hfalse.elim, fun _ _ hfalse => hfalse.elim⟩
  rintro _ _ rfl
  refine ⟨trivial, ?_, fun _ _ hfalse => hfalse.elim, fun _ _ hfalse => hfalse.elim⟩
  rintro _ _ ⟨rfl, rfl⟩
  refine ⟨trivial, ?_, fun _ _ hfalse => hfalse.elim, fun _ _ hfalse => hfalse.elim⟩
  rintro _ _ rfl
  refine ⟨⟨fun _ => none, ⟨⟨?_, ?_⟩, rfl⟩, ?_, fun _ _ => rfl⟩, rfl⟩
  · rintro (_ | o) no m ho
    · cases ho
      exact ⟨Roots.plant_same _, hroot⟩
    · cases ho
  · rintro (_ | o) (_ | o') no m m' ho ho'
    · rfl
    · cases ho'
    · cases ho
    · cases ho
  · intro key payload hget
    cases hget

theorem sure_prepare :
    prepare.sure (forestContract false)
      ⟨fun _ f' => (∃ cat lay, Sound lib ∅ f' cat lay) ∧ f'.atBegin = none, fun _ _ => True,
        fun _ _ => True⟩ .bare := by
  refine Prog.sure_seq (sure_bootstrap lib) ?_ (fun _ _ h => h.elim) fun _ _ h => h
  rintro _ f ⟨⟨lay, h⟩, hidle⟩
  refine (Prog.sure_bind _ _ _ _).mpr ⟨trivial, ?_, fun _ _ hfalse => hfalse.elim,
    fun _ _ hfalse => hfalse.elim⟩
  rintro _ f' rfl
  have h' : Sound lib ∅ { f with clean := true } .empty lay := h.congr rfl rfl
  refine (Prog.sure_mono (does_ensureAuthTable h') ?_ (fun _ _ _ => trivial) fun _ _ _ => trivial :
    ensureAuthTable.sure (forestContract false)
      ⟨fun _ f' => (∃ cat lay, Sound lib ∅ f' cat lay) ∧ f'.atBegin = none, fun _ _ => True,
        fun _ _ => True⟩ { f with clean := true })
  rintro _ f'' ⟨hworking, cat, lay', hsound, -⟩
  exact ⟨⟨cat, lay', hsound⟩, hworking.atBegin.trans hidle⟩

/-- With its pages written, a created database is at rest. -/
def prepareAndFlush : DbProg DbError Unit := do
  prepare
  ask fromPager .flush

/-- No transaction is open, and no page waits to be written. -/
structure AtRest (f : Forest) : Prop where
  exists_sound : ∃ cat lay, Sound lib ∅ f cat lay
  idle : f.atBegin = none
  clean : f.clean = true

theorem sure_prepareAndFlush :
    prepareAndFlush.sure (forestContract false)
      ⟨fun _ f' => AtRest lib f', fun _ _ => True, fun _ _ => True⟩ .bare := by
  refine Prog.sure_seq (sure_prepare lib) ?_ (fun _ _ h => h) fun _ _ h => h
  rintro _ f ⟨⟨cat, lay, h⟩, hidle⟩
  refine ⟨trivial, ?_, fun _ _ hfalse => hfalse.elim, fun _ _ hfalse => hfalse.elim⟩
  rintro _ f' rfl
  exact ⟨⟨cat, lay, h.congr rfl rfl⟩, hidle, rfl⟩

/-- The database that the run below leaves. -/
def createdAtRest (env : Environment) : Database :=
  (prepareAndFlush.run (Database.answer env) (Database.ofPager Pager.created).sorting).2

theorem createdAtRest_describes {env : Environment}
    (hok : (prepareAndFlush.run (Database.answer env)
      (Database.ofPager Pager.created).sorting).1 = .ok ())
    (hfits : prepareAndFlush.Along (Database.answer env) (fun op d => d.Regular false op)
      (Database.ofPager Pager.created).sorting) :
    ∃ f, Describes (createdAtRest env) f ∧ AtRest lib f :=
  Exec.wp_ok (Prog.sure_sound (honours env false) describes_bare.sorting
    (sure_prepareAndFlush lib) hfits)
    (Prod.ext hok rfl)

/-- With a password that is stored as it is. -/
theorem createdAtRest_plain : ∃ f, Describes (createdAtRest ⟨fun _ => 0, fun _ password => password,
    "postgres"⟩) f ∧ AtRest lib f :=
  createdAtRest_describes lib (by decide +kernel) (by decide +kernel)

end Created

end ChocoBase.Engine
