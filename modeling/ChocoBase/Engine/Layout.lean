import ChocoBase.Catalog.Catalog
import ChocoBase.Engine.Forest

/-!
# Trees and their owners

A tree belongs to the catalog, to a record of the catalog, or is new and has no
record yet.  A layout says where the tree of each owner lies and which map it stands
for.  A request works on the tree of one owner; the others stay where they are.
-/

namespace ChocoBase.Engine

open ChocoBase.Foundation ChocoBase.Storage ChocoBase.BTree

/-- The trees of some owners: their roots and their maps. -/
structure Laid {ι : Type} (roots : Roots) (lay : ι → Option (PageNo × OrdMap Bytes Bytes)) :
    Prop where
  planted : ∀ o no m, lay o = some (no, m) → roots no = some m ∧ no ≠ 0
  apart : ∀ o o' no m m', lay o = some (no, m) → lay o' = some (no, m') → o = o'

namespace Laid

variable {ι : Type} [DecidableEq ι] {roots : Roots} {lay : ι → Option (PageNo × OrdMap Bytes Bytes)}
  {o : ι} {root root' : PageNo} {m m' : OrdMap Bytes Bytes}

/-- A tree that is new takes the place of its owner's. -/
theorem plant (h : Laid roots lay) (hroot : roots.Fresh root) :
    Laid (roots.plant root m) (Function.update lay o (some (root, m))) where
  planted o' no m' ho' := by
    by_cases heq : o' = o
    · subst heq
      rw [Function.update_self, Option.some.injEq, Prod.mk.injEq] at ho'
      obtain ⟨rfl, rfl⟩ := ho'
      exact ⟨roots.plant_same, hroot.1⟩
    · rw [Function.update_of_ne heq] at ho'
      obtain ⟨hno, hzero⟩ := h.planted o' no m' ho'
      refine ⟨(roots.plant_of_ne fun hne => ?_).trans hno, hzero⟩
      rw [hne, hroot.2] at hno
      cases hno
  apart o₁ o₂ no m₁ m₂ h₁ h₂ := by
    have hold : ∀ o' m', lay o' = some (no, m') → no ≠ root := fun o' m' ho' heq => by
      have hno := (h.planted o' no m' ho').1
      rw [heq, hroot.2] at hno
      cases hno
    by_cases heq₁ : o₁ = o <;> by_cases heq₂ : o₂ = o
    · exact heq₁.trans heq₂.symm
    · rw [heq₁, Function.update_self, Option.some.injEq, Prod.mk.injEq] at h₁
      rw [Function.update_of_ne heq₂] at h₂
      exact absurd h₁.1.symm (hold o₂ m₂ h₂)
    · rw [heq₂, Function.update_self, Option.some.injEq, Prod.mk.injEq] at h₂
      rw [Function.update_of_ne heq₁] at h₁
      exact absurd h₂.1.symm (hold o₁ m₁ h₁)
    · rw [Function.update_of_ne heq₁] at h₁
      rw [Function.update_of_ne heq₂] at h₂
      exact h.apart o₁ o₂ no m₁ m₂ h₁ h₂

theorem fell (h : Laid roots lay) (ho : lay o = some (root, m)) :
    Laid (roots.fell root) (Function.update lay o none) where
  planted o' no m' ho' := by
    by_cases heq : o' = o
    · subst heq
      rw [Function.update_self] at ho'
      cases ho'
    · rw [Function.update_of_ne heq] at ho'
      obtain ⟨hno, hzero⟩ := h.planted o' no m' ho'
      refine ⟨(roots.fell_of_ne fun hne => ?_).trans hno, hzero⟩
      subst hne
      exact heq (h.apart o' o no m' m ho' ho)
  apart o₁ o₂ no m₁ m₂ h₁ h₂ := by
    have hold : ∀ o' m', Function.update lay o none o' = some (no, m') → lay o' = some (no, m') := by
      intro o' m' ho'
      by_cases heq : o' = o
      · subst heq
        rw [Function.update_self] at ho'
        cases ho'
      · rwa [Function.update_of_ne heq] at ho'
    exact h.apart o₁ o₂ no m₁ m₂ (hold o₁ m₁ h₁) (hold o₂ m₂ h₂)

theorem replant (h : Laid roots lay) (ho : lay o = some (root, m))
    (hroot' : (roots.fell root).Fresh root') :
    Laid ((roots.fell root).plant root' m') (Function.update lay o (some (root', m'))) := by
  have hlaid := (h.fell ho).plant (o := o) (m := m') hroot'
  rwa [Function.update_idem] at hlaid

/-- A tree changes hands. -/
theorem move (h : Laid roots lay) (o o' : ι) :
    Laid roots (Function.update (Function.update lay o' (lay o)) o none) := by
  have hold : ∀ o₁ no m₁, Function.update (Function.update lay o' (lay o)) o none o₁ = some (no, m₁) →
      ∃ o₂, lay o₂ = some (no, m₁) ∧ (o₁ = o' ∧ o₂ = o ∨ o₁ ≠ o' ∧ o₁ ≠ o ∧ o₂ = o₁) := by
    intro o₁ no m₁ h₁
    by_cases heq : o₁ = o
    · rw [heq, Function.update_self] at h₁
      cases h₁
    · rw [Function.update_of_ne heq] at h₁
      by_cases heq' : o₁ = o'
      · rw [heq', Function.update_self] at h₁
        exact ⟨o, h₁, .inl ⟨heq', rfl⟩⟩
      · rw [Function.update_of_ne heq'] at h₁
        exact ⟨o₁, h₁, .inr ⟨heq', heq, rfl⟩⟩
  refine ⟨fun o₁ no m₁ h₁ => ?_, fun o₁ o₂ no m₁ m₂ h₁ h₂ => ?_⟩
  · obtain ⟨o₂, ho₂, -⟩ := hold o₁ no m₁ h₁
    exact h.planted o₂ no m₁ ho₂
  · obtain ⟨p₁, hp₁, hcase₁⟩ := hold o₁ no m₁ h₁
    obtain ⟨p₂, hp₂, hcase₂⟩ := hold o₂ no m₂ h₂
    have heq := h.apart p₁ p₂ no m₁ m₂ hp₁ hp₂
    grind

end Laid

/-! ## What a statement may change -/

/-- Only trees have changed. -/
def Grown (f f' : Forest) : Prop :=
  ∃ roots tidy clean, f' = { f with now := { f.now with roots, tidy }, clean }

/-- The transaction and the channel are as they were; events may have been queued. -/
def Working (f f' : Forest) : Prop :=
  ∃ now clean root events, f' = { f with
    now, clean, root, transactionEvents := f.transactionEvents ++ events }

namespace Grown

variable {f f' f'' : Forest}

theorem refl (f : Forest) : Grown f f := ⟨_, _, _, rfl⟩

theorem trans (h : Grown f f') (h' : Grown f' f'') : Grown f f'' := by
  obtain ⟨_, _, _, rfl⟩ := h
  obtain ⟨_, _, _, rfl⟩ := h'
  exact ⟨_, _, _, rfl⟩

theorem working (h : Grown f f') : Working f f' := by
  obtain ⟨roots, tidy, clean, rfl⟩ := h
  exact ⟨_, _, _, [], by rw [List.append_nil]⟩

theorem root (h : Grown f f') : f'.root = f.root := by
  obtain ⟨_, _, _, rfl⟩ := h
  rfl

theorem catalogRoot (h : Grown f f') : f'.now.catalogRoot = f.now.catalogRoot := by
  obtain ⟨_, _, _, rfl⟩ := h
  rfl

theorem events (h : Grown f f') : f'.transactionEvents = f.transactionEvents := by
  obtain ⟨_, _, _, rfl⟩ := h
  rfl

end Grown

namespace Working

variable {f f' f'' : Forest}

theorem refl (f : Forest) : Working f f := (Grown.refl f).working

theorem trans (h : Working f f') (h' : Working f' f'') : Working f f'' := by
  obtain ⟨_, _, _, events, rfl⟩ := h
  obtain ⟨_, _, _, events', rfl⟩ := h'
  exact ⟨_, _, _, events ++ events', by rw [← List.append_assoc]⟩

theorem atBegin (h : Working f f') : f'.atBegin = f.atBegin := by
  obtain ⟨_, _, _, _, rfl⟩ := h
  rfl

theorem subscribed (h : Working f f') : f'.subscribed = f.subscribed := by
  obtain ⟨_, _, _, _, rfl⟩ := h
  rfl

theorem delivered (h : Working f f') : f'.delivered = f.delivered := by
  obtain ⟨_, _, _, _, rfl⟩ := h
  rfl

end Working

/-! ## Programs that work on trees -/

section Does

variable {f : Forest} {ε ε' α β : Type}

/-- The program returns what `P` says or an error as `E` says, and nobody notices before it is committed. -/
abbrev Does (f : Forest) (x : DbProg ε α) (P : α → Forest → Prop) (E : ε → Prop) : Prop :=
  x.sure (forestContract false)
    ⟨fun a f' => Working f f' ∧ P a f', fun e f' => Working f f' ∧ E e, fun _ _ => True⟩ f

/-- The program only looks. -/
abbrev Looks (f : Forest) (x : DbProg ε α) (P : α → Prop) (E : ε → Prop) : Prop :=
  Does f x (fun a f' => f' = f ∧ P a) E

variable {x : DbProg ε α} {g : α → DbProg ε β} {P : α → Forest → Prop} {Q : β → Forest → Prop}
  {E : ε → Prop}

theorem Does.seq (hx : Does f x P E) (hg : ∀ a f', Working f f' → P a f' → Does f' (g a) Q E) :
    Does f (x >>= g) Q E := by
  refine Prog.sure_seq hx ?_ (fun _ _ h => h) fun _ _ h => h
  rintro a f' ⟨hworking, hP⟩
  exact Prog.sure_mono (hg a f' hworking hP) (fun _ _ h => ⟨hworking.trans h.1, h.2⟩)
    (fun _ _ h => ⟨hworking.trans h.1, h.2⟩) fun _ _ h => h

theorem Looks.seq {R : α → Prop} (hx : Looks f x R E) (hg : ∀ a, R a → Does f (g a) Q E) :
    Does f (x >>= g) Q E := by
  refine Does.seq hx ?_
  rintro a f' - ⟨rfl, hR⟩
  exact hg a hR

theorem Does.mono {P' : α → Forest → Prop} {E' : ε → Prop} (hx : Does f x P E)
    (hP : ∀ a f', Working f f' → P a f' → P' a f') (hE : ∀ e, E e → E' e) : Does f x P' E' :=
  Prog.sure_mono hx (fun a f' h => ⟨h.1, hP a f' h.1 h.2⟩) (fun _ _ h => h.imp_right (hE _))
    fun _ _ h => h

theorem does_pure {a : α} (h : P a f) : Does f (pure a : DbProg ε α) P E := ⟨.refl f, h⟩

theorem looks_pure {R : α → Prop} {a : α} (h : R a) : Looks f (pure a : DbProg ε α) R E :=
  ⟨.refl f, rfl, h⟩

theorem does_throw {e : ε} (h : E e) : Does f (.throw e) P E := ⟨.refl f, h⟩

theorem does_unwrap {o : Option α} (h : ∀ a, o = some a → P a f) :
    Does f (Prog.unwrap o : DbProg ε α) P E := by
  cases o with
  | none => trivial
  | some a => exact ⟨.refl f, h a rfl⟩

theorem looks_unwrap (o : Option α) : Looks f (Prog.unwrap o : DbProg ε α) (fun a => o = some a) E :=
  does_unwrap fun _ h => ⟨rfl, h⟩

theorem looks_ofOutcome {o : Outcome ε α} (h : ∀ e, o = .error e → E e) :
    Looks f (Prog.ofOutcome o : DbProg ε α) (fun a => o = .ok a) E := by
  cases o with
  | ok a => exact ⟨.refl f, rfl, rfl⟩
  | error e => exact ⟨.refl f, h e rfl⟩
  | stop why => trivial

theorem Does.mapError {y : DbProg ε' α} {convert : ε' → ε} {E' : ε' → Prop} (hy : Does f y P E')
    (hE : ∀ e, E' e → E (convert e)) : Does f (y.mapError convert) P E :=
  (Prog.sure_mapError convert y _ f).mpr
    (Prog.sure_mono hy (fun _ _ h => h) (fun _ _ h => h.imp_right (hE _)) fun _ _ h => h)

/-- What never fails is never an error. -/
theorem does_attempt {E' : ε' → Prop} (hx : Does f x P fun _ => False) :
    Does f (x.attempt : DbProg ε' (Except ε α)) (fun r f' => ∃ a, r = .ok a ∧ P a f') E' :=
  (Prog.sure_attempt x _ f).mpr (Prog.sure_mono hx (fun a _ h => ⟨h.1, a, rfl, h.2⟩)
    (fun _ _ h => h.2.elim) fun _ _ h => h)

theorem does_ite {c : Prop} [Decidable c] {y : DbProg ε α} (hx : c → Does f x P E)
    (hy : ¬c → Does f y P E) : Does f (if c then x else y) P E := by
  split
  · next h => exact hx h
  · next h => exact hy h

/-- The loop keeps an invariant on the items done and its state. -/
theorem does_forEach {body : β → α → DbProg ε β} {items : List α}
    (inv : List α → β → Forest → Prop)
    (step : ∀ done item rest state f', items = done ++ item :: rest → Working f f' →
      inv done state f' → Does f' (body state item) (inv (done ++ [item])) E)
    (last : ∀ state f', inv items state f' → Q state f') {state : β} (first : inv [] state f) :
    Does f (Prog.forEach body items state) Q E := by
  let kept (done : List α) (state : β) (f' : Forest) : Prop := Working f f' ∧ inv done state f'
  have hfirst : kept [] state f := ⟨.refl f, first⟩
  have hlast : ∀ state f', kept items state f' → Working f f' ∧ Q state f' :=
    fun state f' h => ⟨h.1, last state f' h.2⟩
  refine Prog.sure_forEach kept ?_ hlast hfirst
  rintro done item rest state f' heq ⟨hworking, hinv⟩
  exact Prog.sure_mono (step done item rest state f' heq hworking hinv)
    (fun _ _ h => ⟨hworking.trans h.1, h.2⟩) (fun _ _ h => ⟨hworking.trans h.1, h.2⟩)
    fun _ _ h => h

/-! ## Programs that change nothing -/

/-- The request is answered without a change. -/
def Inspects : DbRequest → Prop
  | .search .. | .scan _ | .scanFrom .. | .catalogRoot | .inTransaction | .root | .now
  | .hashPassword _ | .defaultPassword => True
  | _ => False

/-- The program leaves everything as it is, also when it fails. -/
abbrev Views (f : Forest) (x : DbProg ε α) (P : α → Prop) (E : ε → Prop) : Prop :=
  x.sure (forestContract false)
    ⟨fun a f' => f' = f ∧ P a, fun e f' => f' = f ∧ E e, fun _ _ => True⟩ f

theorem sure_still {y : DbProg ε α} {Q : Exec.Post Forest ε α} (hy : y.Only Inspects)
    (h : y.sure (forestContract false) Q f) :
    y.sure (forestContract false)
      ⟨fun a f' => f' = f ∧ Q.ok a f', fun e f' => f' = f ∧ Q.error e f', Q.stop⟩ f := by
  induction y with
  | pure a => exact ⟨rfl, h⟩
  | throw e => exact ⟨rfl, h⟩
  | halt why => exact h
  | call op next ih =>
      obtain ⟨hop, hnext⟩ := hy
      obtain ⟨hpre, hvalue, hreason, hwhy⟩ := h
      refine ⟨hpre, fun value f' hpost => ?_, fun reason f' hpost => ?_, hwhy⟩
      · obtain rfl : f' = f := by cases op <;> first | exact hop.elim | exact hpost.1 | exact hpost
        exact ih _ (hnext _) (hvalue value f' hpost)
      · cases op <;> first | exact hop.elim | exact hpost.elim

theorem Looks.views {R : α → Prop} (h : Looks f x R E) (hx : x.Only Inspects) : Views f x R E :=
  Prog.sure_mono (sure_still hx h) (fun _ _ h => ⟨h.1, h.2.2.2⟩) (fun _ _ h => ⟨h.1, h.2.2⟩)
    fun _ _ h => h

namespace Views

variable {P' : α → Prop} {Q' : β → Prop} {E' : ε' → Prop}

theorem looks (h : Views f x P' E) : Looks f x P' E :=
  Prog.sure_mono h (fun _ _ h => ⟨h.1 ▸ .refl f, h⟩) (fun _ _ h => ⟨h.1 ▸ .refl f, h.2⟩)
    fun _ _ h => h

theorem seq (hx : Views f x P' E) (hg : ∀ a, P' a → Views f (g a) Q' E) :
    Views f (x >>= g) Q' E := by
  refine Prog.sure_seq hx ?_ (fun _ _ h => h) fun _ _ h => h
  rintro a f' ⟨rfl, ha⟩
  exact hg a ha

theorem mono {R : α → Prop} {F : ε → Prop} (hx : Views f x P' E) (hP : ∀ a, P' a → R a)
    (hE : ∀ e, E e → F e) : Views f x R F :=
  Prog.sure_mono hx (fun _ _ h => h.imp_right (hP _)) (fun _ _ h => h.imp_right (hE _)) fun _ _ h => h

theorem mapError {y : DbProg ε' α} {convert : ε' → ε} (hy : Views f y P' E')
    (hE : ∀ e, E' e → E (convert e)) : Views f (y.mapError convert) P' E :=
  (Prog.sure_mapError convert y _ f).mpr
    (Prog.sure_mono hy (fun _ _ h => h) (fun _ _ h => h.imp_right (hE _)) fun _ _ h => h)

end Views

theorem views_pure {R : α → Prop} {a : α} (h : R a) : Views f (pure a : DbProg ε α) R E := ⟨rfl, h⟩

theorem views_throw {R : α → Prop} {e : ε} (h : E e) : Views f (.throw e) R E := ⟨rfl, h⟩

theorem views_ite {R : α → Prop} {c : Prop} [Decidable c] {y : DbProg ε α}
    (hx : c → Views f x R E) (hy : ¬c → Views f y R E) : Views f (if c then x else y) R E := by
  split
  · next h => exact hx h
  · next h => exact hy h

theorem views_attempt {R : α → Prop} {E' : ε' → Prop} (hx : Views f x R fun _ => False) :
    Views f (x.attempt : DbProg ε' (Except ε α)) (fun r => ∃ a, r = .ok a ∧ R a) E' :=
  (Prog.sure_attempt x _ f).mpr (Prog.sure_mono hx (fun a _ h => ⟨h.1, a, rfl, h.2⟩)
    (fun _ _ h => h.2.elim) fun _ _ h => h)

theorem views_unwrap (o : Option α) : Views f (Prog.unwrap o : DbProg ε α) (fun a => o = some a) E := by
  cases o with
  | none => trivial
  | some a => exact ⟨rfl, rfl⟩

theorem views_ofOutcome {o : Outcome ε α} (h : ∀ e, o = .error e → E e) :
    Views f (Prog.ofOutcome o : DbProg ε α) (fun a => o = .ok a) E := by
  cases o with
  | ok a => exact ⟨rfl, rfl⟩
  | error e => exact ⟨rfl, h e rfl⟩
  | stop why => trivial

/-! ## Requests -/

variable {ι : Type} [DecidableEq ι] {lay : ι → Option (PageNo × OrdMap Bytes Bytes)} {o : ι}
  {root : PageNo} {m : OrdMap Bytes Bytes} {convert : BTreeError → ε}

theorem does_insert (h : Laid f.now.roots lay) (ho : lay o = some (root, m)) (key payload : Bytes) :
    Does f (ask convert (.insert root key payload))
      (fun root' f' => Grown f f' ∧ m.get key = none ∧ singleEntrySize key payload ≤ pageSize ∧
        Laid f'.now.roots (Function.update lay o (some (root', m.insert key payload))))
      fun e => e = convert (.rowTooLarge (singleEntrySize key payload) pageSize) ∧
          pageSize < singleEntrySize key payload ∨
        e = convert .duplicateKey ∧ m.get key ≠ none := by
  have hm := (h.planted o root m ho).1
  refine ⟨fun hnone => ?_, ?_, ?_, fun _ _ _ => trivial⟩
  · rw [hm] at hnone
    cases hnone
  · rintro root' f' ⟨m', hm', habsent, hsize, hfresh, rfl⟩
    obtain rfl := Option.some.inj (hm.symm.trans hm')
    have hgrown : Grown f ((f.fell root).plant root' (m.insert key payload)) := ⟨_, _, _, rfl⟩
    exact ⟨hgrown.working, hgrown, habsent, hsize, h.replant ho hfresh⟩
  · rintro e f' ⟨rfl, hreason⟩
    have hgrown : Grown f (f.withNow f.now) := ⟨_, _, _, rfl⟩
    refine ⟨hgrown.working, ?_⟩
    rcases hreason with ⟨rfl, hlarge⟩ | ⟨rfl, m', hm', hpresent⟩
    · exact .inl ⟨rfl, hlarge⟩
    · obtain rfl := Option.some.inj (hm.symm.trans hm')
      exact .inr ⟨rfl, hpresent⟩

theorem does_delete (h : Laid f.now.roots lay) (ho : lay o = some (root, m)) (key : Bytes) :
    Does f (ask convert (.delete root key))
      (fun found f' => Grown f f' ∧ found.1 = (m.get key).isSome ∧
        Laid f'.now.roots (Function.update lay o (some (found.2, m.erase key))))
      fun _ => False := by
  have hm := (h.planted o root m ho).1
  refine ⟨fun hnone => ?_, ?_, fun _ _ hfalse => hfalse.elim, fun _ _ _ => trivial⟩
  · rw [hm] at hnone
    cases hnone
  · rintro ⟨present, root'⟩ f' ⟨m', hm', hcase⟩
    obtain rfl := Option.some.inj (hm.symm.trans hm')
    rcases hcase with ⟨rfl, rfl, habsent, rfl⟩ | ⟨rfl, hpresent, hfresh, tidy, -, rfl⟩
    · have hgrown : Grown f (f.withNow f.now) := ⟨_, _, _, rfl⟩
      refine ⟨hgrown.working, hgrown, by rw [habsent]; rfl, ?_⟩
      rw [OrdMap.erase_eq_self habsent, ← ho, Function.update_eq_self]
      exact h
    · have hgrown : Grown f (((f.fell root).plant root' (m.erase key)).withTidy tidy) :=
        ⟨_, _, _, rfl⟩
      exact ⟨hgrown.working, hgrown, (Option.isSome_iff_ne_none.mpr hpresent).symm,
        h.replant ho hfresh⟩

omit [DecidableEq ι] in
theorem looks_search (h : Laid f.now.roots lay) (ho : lay o = some (root, m)) (key : Bytes) :
    Looks f (ask convert (.search root key)) (fun found => found = m.get key) fun _ => False := by
  have hm := (h.planted o root m ho).1
  refine ⟨fun hnone => ?_, ?_, fun _ _ hfalse => hfalse.elim, fun _ _ _ => trivial⟩
  · rw [hm] at hnone
    cases hnone
  · rintro found f' ⟨rfl, m', hm', hfound⟩
    obtain rfl := Option.some.inj (hm.symm.trans hm')
    exact ⟨.refl _, rfl, hfound⟩

omit [DecidableEq ι] in
theorem looks_scan (h : Laid f.now.roots lay) (ho : lay o = some (root, m)) :
    Looks f (ask convert (.scan root)) (fun scanned => scanned = ⟨m.entries, .ok ()⟩)
      fun _ => False := by
  have hm := (h.planted o root m ho).1
  refine ⟨fun hnone => ?_, ?_, fun _ _ hfalse => hfalse.elim, fun _ _ _ => trivial⟩
  · rw [hm] at hnone
    cases hnone
  · rintro scanned f' ⟨rfl, m', hm', hscanned⟩
    obtain rfl := Option.some.inj (hm.symm.trans hm')
    exact ⟨.refl _, rfl, hscanned⟩

omit [DecidableEq ι] in
theorem looks_scanFrom (h : Laid f.now.roots lay) (ho : lay o = some (root, m)) (key : Bytes) :
    Looks f (ask convert (.scanFrom root key)) (fun scanned => scanned = ⟨m.from key, .ok ()⟩)
      fun _ => False := by
  have hm := (h.planted o root m ho).1
  refine ⟨fun hnone => ?_, ?_, fun _ _ hfalse => hfalse.elim, fun _ _ _ => trivial⟩
  · rw [hm] at hnone
    cases hnone
  · rintro scanned f' ⟨rfl, m', hm', hscanned⟩
    obtain rfl := Option.some.inj (hm.symm.trans hm')
    exact ⟨.refl _, rfl, hscanned⟩

theorem does_createTree (h : Laid f.now.roots lay) (o : ι) :
    Does f (ask convert .createTree)
      (fun root f' => Grown f f' ∧ Laid f'.now.roots (Function.update lay o (some (root, .empty))))
      fun _ => False := by
  refine ⟨trivial, ?_, fun _ _ hfalse => hfalse.elim, fun _ _ _ => trivial⟩
  rintro root f' ⟨hfresh, rfl⟩
  have hgrown : Grown f (f.plant root .empty) := ⟨_, _, _, rfl⟩
  exact ⟨hgrown.working, hgrown, h.plant hfresh⟩

theorem does_walkAndFree (h : Laid f.now.roots lay) (ho : lay o = some (root, m)) :
    Does f (ask convert (.walkAndFree root))
      (fun _ f' => Grown f f' ∧ Laid f'.now.roots (Function.update lay o none)) fun _ => False := by
  have hm := (h.planted o root m ho).1
  refine ⟨fun hnone => ?_, ?_, fun _ _ hfalse => hfalse.elim, fun _ _ _ => trivial⟩
  · rw [hm] at hnone
    cases hnone
  · rintro _ f' rfl
    have hgrown : Grown f (f.fell root) := ⟨_, _, _, rfl⟩
    exact ⟨hgrown.working, hgrown, h.fell ho⟩

theorem looks_root : Looks f (ask convert .root) (fun root => root = f.root) fun _ => False := by
  refine ⟨trivial, ?_, fun _ _ hfalse => hfalse.elim, fun _ _ _ => trivial⟩
  rintro root f' ⟨rfl, rfl⟩
  exact ⟨.refl _, rfl, rfl⟩

theorem looks_inTransaction : Looks f (ask convert .inTransaction)
    (fun active => active = f.atBegin.isSome) fun _ => False := by
  refine ⟨trivial, ?_, fun _ _ hfalse => hfalse.elim, fun _ _ _ => trivial⟩
  rintro root f' ⟨rfl, hactive⟩
  exact ⟨.refl _, rfl, hactive⟩

/-- What the program gets from outside. -/
theorem looks_outside {op : DbRequest} (hop : op = .now ∨ op = .defaultPassword ∨
    ∃ password, op = .hashPassword password) :
    Looks f (ask convert op) (fun _ => True) fun _ => False := by
  rcases hop with rfl | rfl | ⟨password, rfl⟩
  all_goals
    refine ⟨trivial, ?_, fun _ _ hfalse => hfalse.elim, fun _ _ _ => trivial⟩
    rintro _ f' rfl
    exact ⟨.refl _, rfl, trivial⟩

end Does

/-! ## The catalog and the owners -/

inductive Owner where
  | record (key : Bytes)
  | fresh
  deriving DecidableEq

abbrev Layout : Type := Owner → Option (PageNo × OrdMap Bytes Bytes)

/-- The tree of the catalog beside the others. -/
def withCatalog (root : PageNo) (cat : OrdMap Bytes Bytes) (lay : Layout) :
    Option Owner → Option (PageNo × OrdMap Bytes Bytes)
  | none => some (root, cat)
  | some o => lay o

/-- The catalog is the tree at the root, and the owners have the trees of the layout. -/
structure Housed (f : Forest) (cat : OrdMap Bytes Bytes) (lay : Layout) : Prop where
  laid : Laid f.now.roots (withCatalog f.root cat lay)
  stored : f.now.catalogRoot = f.root

section Housed

variable {f f' : Forest} {cat : OrdMap Bytes Bytes} {lay : Layout} {o : Owner} {root : PageNo}
  {m : OrdMap Bytes Bytes} {ε : Type} {convert : BTreeError → ε}

theorem withCatalog_update (o : Owner) (tree : Option (PageNo × OrdMap Bytes Bytes)) :
    withCatalog root cat (Function.update lay o tree) =
      Function.update (withCatalog root cat lay) (some o) tree := by
  funext o'
  cases o' with
  | none => rw [Function.update_of_ne (by simp)]; rfl
  | some o' =>
      by_cases heq : o' = o
      · subst heq
        rw [Function.update_self]
        exact Function.update_self ..
      · rw [Function.update_of_ne (by simpa using heq)]
        exact Function.update_of_ne heq ..

theorem update_withCatalog (root' : PageNo) (cat' : OrdMap Bytes Bytes) :
    Function.update (withCatalog root cat lay) none (some (root', cat')) =
      withCatalog root' cat' lay := by
  funext o'
  cases o' with
  | none => exact Function.update_self ..
  | some o' => exact Function.update_of_ne (by simp) ..

/-- The tree of one owner has changed. -/
theorem Housed.grown (h : Housed f cat lay) (hgrown : Grown f f')
    {tree : Option (PageNo × OrdMap Bytes Bytes)}
    (hlaid : Laid f'.now.roots (Function.update (withCatalog f.root cat lay) (some o) tree)) :
    Housed f' cat (Function.update lay o tree) where
  laid := by rwa [hgrown.root, withCatalog_update]
  stored := by rw [hgrown.catalogRoot, hgrown.root, h.stored]

/-- A tree gets another owner. -/
theorem Housed.move (h : Housed f cat lay) (o o' : Owner) :
    Housed f cat (Function.update (Function.update lay o' (lay o)) o none) where
  laid := by
    have hlaid := h.laid.move (some o) (some o')
    rwa [withCatalog_update, withCatalog_update]
  stored := h.stored

theorem Housed.insert (h : Housed f cat lay) (ho : lay o = some (root, m)) (key payload : Bytes) :
    Does f (ask convert (.insert root key payload))
      (fun root' f' => f'.transactionEvents = f.transactionEvents ∧ m.get key = none ∧
        singleEntrySize key payload ≤ pageSize ∧
        Housed f' cat (Function.update lay o (some (root', m.insert key payload))))
      fun e => e = convert (.rowTooLarge (singleEntrySize key payload) pageSize) ∧
          pageSize < singleEntrySize key payload ∨
        e = convert .duplicateKey ∧ m.get key ≠ none := by
  refine Does.mono (does_insert (o := some o) h.laid ho key payload) ?_ fun _ he => he
  rintro root' f' - ⟨hgrown, habsent, hsize, hlaid⟩
  exact ⟨hgrown.events, habsent, hsize, h.grown hgrown hlaid⟩

theorem Housed.delete (h : Housed f cat lay) (ho : lay o = some (root, m)) (key : Bytes) :
    Does f (ask convert (.delete root key))
      (fun found f' => f'.transactionEvents = f.transactionEvents ∧
        found.1 = (m.get key).isSome ∧
        Housed f' cat (Function.update lay o (some (found.2, m.erase key))))
      fun _ => False := by
  refine Does.mono (does_delete (o := some o) h.laid ho key) ?_ fun _ he => he
  rintro found f' - ⟨hgrown, hfound, hlaid⟩
  exact ⟨hgrown.events, hfound, h.grown hgrown hlaid⟩

theorem Housed.createTree (h : Housed f cat lay) (o : Owner) :
    Does f (ask convert .createTree)
      (fun root f' => f'.transactionEvents = f.transactionEvents ∧
        Housed f' cat (Function.update lay o (some (root, .empty)))) fun _ => False := by
  refine Does.mono (does_createTree h.laid (some o)) ?_ fun _ he => he
  rintro root f' - ⟨hgrown, hlaid⟩
  exact ⟨hgrown.events, h.grown hgrown hlaid⟩

theorem Housed.walkAndFree (h : Housed f cat lay) (ho : lay o = some (root, m)) :
    Does f (ask convert (.walkAndFree root))
      (fun _ f' => f'.transactionEvents = f.transactionEvents ∧
        Housed f' cat (Function.update lay o none)) fun _ => False := by
  refine Does.mono (does_walkAndFree (o := some o) h.laid ho) ?_ fun _ he => he
  rintro - f' - ⟨hgrown, hlaid⟩
  exact ⟨hgrown.events, h.grown hgrown hlaid⟩

theorem Housed.search (h : Housed f cat lay) (ho : lay o = some (root, m)) (key : Bytes) :
    Looks f (ask convert (.search root key)) (fun found => found = m.get key) fun _ => False :=
  looks_search (o := some o) h.laid ho key

theorem Housed.scan (h : Housed f cat lay) (ho : lay o = some (root, m)) :
    Looks f (ask convert (.scan root)) (fun scanned => scanned = ⟨m.entries, .ok ()⟩)
      fun _ => False :=
  looks_scan (o := some o) h.laid ho

theorem Housed.scanFrom (h : Housed f cat lay) (ho : lay o = some (root, m)) (key : Bytes) :
    Looks f (ask convert (.scanFrom root key)) (fun scanned => scanned = ⟨m.from key, .ok ()⟩)
      fun _ => False :=
  looks_scanFrom (o := some o) h.laid ho key

theorem Housed.views_search (h : Housed f cat lay) (ho : lay o = some (root, m)) (key : Bytes) :
    Views f (ask convert (.search root key)) (fun found => found = m.get key) fun _ => False :=
  (h.search ho key).views (Prog.only_request trivial)

theorem Housed.views_scan (h : Housed f cat lay) (ho : lay o = some (root, m)) :
    Views f (ask convert (.scan root)) (fun scanned => scanned = ⟨m.entries, .ok ()⟩)
      fun _ => False :=
  (h.scan ho).views (Prog.only_request trivial)

theorem Housed.views_scanFrom (h : Housed f cat lay) (ho : lay o = some (root, m)) (key : Bytes) :
    Views f (ask convert (.scanFrom root key)) (fun scanned => scanned = ⟨m.from key, .ok ()⟩)
      fun _ => False :=
  (h.scanFrom ho key).views (Prog.only_request trivial)

end Housed

end ChocoBase.Engine
