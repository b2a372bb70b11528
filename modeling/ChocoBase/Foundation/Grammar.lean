import ChocoBase.Foundation.Exec

/-!
# Grammars read with one token of lookahead

A form says which token lists may be read, and what is left of them.  Every
choice is made by the next token, so a form leaves at most one rest.  Rules are
named, and may refer to each other.

A reader that decides a form gives an answer on every input that ends with the
end mark.  Where that is the only end mark, it takes what the form reads, or fails
where the form reads nothing.
-/

namespace ChocoBase.Foundation

inductive Form (τ ν : Type) where
  | empty
  | fail
  | tok (c : τ → Bool)
  /-- one token of `c`, and then what belongs to it -/
  | next (c : τ → Bool) (k : τ → Form τ ν)
  | seq (first second : Form τ ν)
  /-- the first form if the next token is one of `c`, and the second otherwise -/
  | look (c : τ → Bool) (yes no : Form τ ν)
  /-- as long as the next token is one of `c` -/
  | many (c : τ → Bool) (body : Form τ ν)
  | rule (n : ν)

namespace Form

variable {τ ν : Type}

section Patterns

variable {α : Type}

/-- Whether a pattern matches. -/
def can (f : τ → Option α) (t : τ) : Bool := (f t).isSome

def one (f : τ → Option α) : Form τ ν := tok (can f)

/-- A token that the pattern matches, and then what belongs to its value. -/
def first (f : τ → Option α) (a : α → Form τ ν) : Form τ ν :=
  next (can f) fun t => match f t with
    | some v => a v
    | none => fail

def either (f : τ → Option α) (a : α → Form τ ν) (b : Form τ ν) : Form τ ν :=
  look (can f) (first f a) b

def repeated (f : τ → Option α) (a : α → Form τ ν) : Form τ ν := many (can f) (first f a)

end Patterns

/-- Forms in a row. -/
def seqs : List (Form τ ν) → Form τ ν
  | [] => empty
  | [a] => a
  | a :: rest => seq a (seqs rest)

/-- What a grammar reads: the tokens before, and those that are left. -/
inductive Reads (g : ν → Form τ ν) : Form τ ν → List τ → List τ → Prop
  | empty {i} : Reads g empty i i
  | tok {c t r} (hc : c t = true) : Reads g (tok c) (t :: r) r
  | next {c k t r j} (hc : c t = true) (h : Reads g (k t) r j) : Reads g (next c k) (t :: r) j
  | seq {a b i j k} (ha : Reads g a i j) (hb : Reads g b j k) : Reads g (seq a b) i k
  | yes {c a b t r k} (hc : c t = true) (ha : Reads g a (t :: r) k) :
      Reads g (look c a b) (t :: r) k
  | no {c a b t r k} (hc : c t = false) (hb : Reads g b (t :: r) k) :
      Reads g (look c a b) (t :: r) k
  | stop {c a t r} (hc : c t = false) : Reads g (many c a) (t :: r) (t :: r)
  | more {c a t r j k} (hc : c t = true) (ha : Reads g a (t :: r) j)
      (hrest : Reads g (many c a) j k) : Reads g (many c a) (t :: r) k
  | rule {n i j} (h : Reads g (g n) i j) : Reads g (rule n) i j

namespace Reads

variable {g : ν → Form τ ν} {f : Form τ ν} {i j k : List τ}

/-- A form reads one beginning of an input. -/
theorem unique (h : Reads g f i j) (h' : Reads g f i k) : j = k := by
  induction h generalizing k with
  | empty => cases h'; rfl
  | tok => cases h'; rfl
  | next _ _ ih =>
      cases h' with
      | next _ h' => exact ih h'
  | seq _ _ iha ihb =>
      cases h' with
      | seq ha' hb' =>
          obtain rfl := iha ha'
          exact ihb hb'
  | yes hc _ ih =>
      cases h' with
      | yes _ ha' => exact ih ha'
      | no hc' _ => simp [hc] at hc'
  | no hc _ ih =>
      cases h' with
      | yes hc' _ => simp [hc] at hc'
      | no _ hb' => exact ih hb'
  | stop hc =>
      cases h' with
      | stop => rfl
      | more hc' => simp [hc] at hc'
  | more hc _ _ iha ihrest =>
      cases h' with
      | stop hc' => simp [hc] at hc'
      | more _ ha' hrest' =>
          obtain rfl := iha ha'
          exact ihrest hrest'
  | rule _ ih =>
      cases h' with
      | rule h' => exact ih h'

theorem suffix (h : Reads g f i j) : j <:+ i := by
  induction h with
  | empty => exact List.suffix_rfl
  | tok => exact List.suffix_cons _ _
  | next _ _ ih => exact ih.trans (List.suffix_cons _ _)
  | seq _ _ iha ihb => exact ihb.trans iha
  | yes _ _ ih => exact ih
  | no _ _ ih => exact ih
  | stop => exact List.suffix_rfl
  | more _ _ _ iha ihrest => exact ihrest.trans iha
  | rule _ ih => exact ih

end Reads

end Form

/-! ## Readers -/

section Reader

variable {σ ε α β τ ν : Type}

/-- Go on as long as there is something to take. -/
def whileSome (eat : Exec σ ε (Option α)) (body : α → Exec σ ε β) : Nat → Exec σ ε (List β)
  | 0 => .halt .diverges
  | fuel + 1 => do
      match ← eat with
      | some a => do
          let b ← body a
          let rest ← whileSome eat body fuel
          return b :: rest
      | none => return []

/-- The end mark is the last token. -/
def Ended (eof : τ) (i : List τ) : Prop := ∃ body, i = body ++ [eof]

namespace Ended

variable {eof : τ} {i j r : List τ} {t : τ}

theorem exists_cons (h : Ended eof i) : ∃ t r, i = t :: r := by
  obtain ⟨body, rfl⟩ := h
  cases body with
  | nil => exact ⟨eof, [], rfl⟩
  | cons t body => exact ⟨t, body ++ [eof], rfl⟩

/-- Before the end there is more. -/
theorem tail (h : Ended eof (t :: r)) (hmore : t ≠ eof ∨ r ≠ []) : Ended eof r := by
  obtain ⟨body, heq⟩ := h
  cases body with
  | nil =>
      cases heq
      simp at hmore
  | cons t' body =>
      cases heq
      exact ⟨body, rfl⟩

theorem length_pos (h : Ended eof i) : 0 < i.length := by
  obtain ⟨t, r, rfl⟩ := h.exists_cons
  simp

end Ended

/-- The end mark is the last token and no other. -/
def Whole (eof : τ) (i : List τ) : Prop := ∃ body, i = body ++ [eof] ∧ eof ∉ body

namespace Whole

variable {eof : τ} {i j r : List τ} {t : τ}

theorem ended (h : Whole eof i) : Ended eof i :=
  let ⟨body, heq, _⟩ := h
  ⟨body, heq⟩

theorem rest_eq_nil (h : Whole eof (eof :: r)) : r = [] := by
  obtain ⟨body, heq, hbody⟩ := h
  cases body with
  | nil => cases heq; rfl
  | cons t body => cases heq; exact absurd (List.mem_cons_self) hbody

theorem of_suffix (h : Whole eof i) (hsuffix : j <:+ i) (hj : Ended eof j) : Whole eof j := by
  obtain ⟨body, rfl, hbody⟩ := h
  obtain ⟨front, hfront⟩ := hsuffix
  obtain ⟨body', rfl⟩ := hj
  rw [← List.append_assoc] at hfront
  obtain ⟨rfl, -⟩ := List.append_inj' hfront rfl
  exact ⟨body', rfl, fun hmem => hbody (List.mem_append_right front hmem)⟩

end Whole

/-- What is known of a reader's result on an input. -/
def Verdict (view : σ → List τ) (eof : τ) (g : ν → Form τ ν) (f : Form τ ν) (i : List τ) :
    Outcome ε α × σ → Prop
  | (.ok _, s') =>
      Ended eof (view s') ∧ view s' <:+ i ∧ (Whole eof i → f.Reads g i (view s'))
  | (.error _, _) => Whole eof i → ∀ j, ¬f.Reads g i j
  | (.stop _, _) => False

/-- The reader decides the form on inputs of at most `n` tokens. -/
def Decides (view : σ → List τ) (eof : τ) (g : ν → Form τ ν) (n : Nat) (f : Form τ ν)
    (p : Exec σ ε α) : Prop :=
  ∀ s, Ended eof (view s) → (view s).length ≤ n → Verdict view eof g f (view s) (p s)

namespace Decides

variable {view : σ → List τ} {eof : τ} {g : ν → Form τ ν} {n : Nat} {a b f : Form τ ν}
  {p : Exec σ ε α} {q : α → Exec σ ε β}

theorem mono {m : Nat} (h : Decides view eof g n f p) (hle : m ≤ n) :
    Decides view eof g m f p :=
  fun s hs hlen => h s hs (Nat.le_trans hlen hle)

theorem pure (v : α) : Decides view eof g n .empty (Pure.pure v : Exec σ ε α) :=
  fun _ hs _ => ⟨hs, List.suffix_rfl, fun _ => .empty⟩

theorem throw (e : ε) : Decides view eof g n .fail (Exec.throw e : Exec σ ε α) :=
  fun _ _ _ _ _ h => nomatch h

/-- What follows may depend on the values that can be returned. -/
theorem bindOf (ha : Decides view eof g n a p)
    (hb : ∀ v s s', p s = (.ok v, s') → Decides view eof g n b (q v)) :
    Decides view eof g n (.seq a b) (p >>= q) := by
  intro s hs hlen
  have hverdict := ha s hs hlen
  rcases hp : p s with ⟨v | e | why, s'⟩
  · rw [hp] at hverdict
    rw [Exec.bind_ok hp]
    obtain ⟨hs', hsuffix, hreads⟩ := hverdict
    have hnext := hb v s s' hp s' hs' (Nat.le_trans hsuffix.length_le hlen)
    have hwhole (h : Whole eof (view s)) : Whole eof (view s') := h.of_suffix hsuffix hs'
    rcases hq : q v s' with ⟨v' | e | why, s''⟩
    · rw [hq] at hnext
      obtain ⟨hs'', hsuffix', hreads'⟩ := hnext
      exact ⟨hs'', hsuffix'.trans hsuffix, fun h => .seq (hreads h) (hreads' (hwhole h))⟩
    · rw [hq] at hnext
      rintro h j hj
      cases hj with
      | seq ha' hb' =>
          obtain rfl := (hreads h).unique ha'
          exact hnext (hwhole h) j hb'
    · rw [hq] at hnext
      exact hnext.elim
  · rw [hp] at hverdict
    rw [Exec.bind_error hp]
    rintro h j hj
    cases hj with
    | seq ha' hb' => exact hverdict h _ ha'
  · rw [hp] at hverdict
    exact hverdict.elim

theorem bind (ha : Decides view eof g n a p) (hb : ∀ v, Decides view eof g n b (q v)) :
    Decides view eof g n (.seq a b) (p >>= q) :=
  ha.bindOf fun v _ _ _ => hb v

theorem map (ha : Decides view eof g n a p) (k : α → β) :
    Decides view eof g n a (p >>= fun v => Pure.pure (k v)) := by
  intro s hs hlen
  have hverdict := ha s hs hlen
  rcases hp : p s with ⟨v | e | why, s'⟩ <;> rw [hp] at hverdict
  · rw [Exec.bind_ok hp]
    exact hverdict
  · rw [Exec.bind_error hp]
    exact hverdict
  · exact hverdict.elim

theorem look {c : τ → Bool} {test : Exec σ ε Bool} {p q : Exec σ ε α}
    (htest : ∀ s t r, view s = t :: r → test s = (.ok (c t), s))
    (hp : Decides view eof g n a p) (hq : Decides view eof g n b q) :
    Decides view eof g n (.look c a b) (test >>= fun yes => if yes = true then p else q) := by
  intro s hs hlen
  obtain ⟨t, r, hview⟩ := hs.exists_cons
  rw [Exec.bind_ok (htest s t r hview)]
  cases hc : c t with
  | true =>
      have hverdict := hp s hs hlen
      simp only [if_true]
      rcases hps : p s with ⟨v | e | why, s'⟩ <;> rw [hps, hview] at hverdict <;> rw [hview]
      · exact ⟨hverdict.1, hverdict.2.1, fun h => .yes hc (hverdict.2.2 h)⟩
      · rintro h j hj
        cases hj with
        | yes _ ha => exact hverdict h j ha
        | no hc' _ => simp [hc] at hc'
      · exact hverdict
  | false =>
      have hverdict := hq s hs hlen
      simp only [Bool.false_eq_true, if_false]
      rcases hqs : q s with ⟨v | e | why, s'⟩ <;> rw [hqs, hview] at hverdict <;> rw [hview]
      · exact ⟨hverdict.1, hverdict.2.1, fun h => .no hc (hverdict.2.2 h)⟩
      · rintro h j hj
        cases hj with
        | yes hc' _ => simp [hc] at hc'
        | no _ hb => exact hverdict h j hb
      · exact hverdict

theorem rule {m : ν} (h : Decides view eof g n (g m) p) : Decides view eof g n (.rule m) p := by
  intro s hs hlen
  have hverdict := h s hs hlen
  rcases hp : p s with ⟨v | e | why, s'⟩ <;> rw [hp] at hverdict
  · exact ⟨hverdict.1, hverdict.2.1, fun h => .rule (hverdict.2.2 h)⟩
  · rintro h j hj
    cases hj with
    | rule hj => exact hverdict h j hj
  · exact hverdict

theorem congr (h : Decides view eof g n a p) (hab : ∀ i j, a.Reads g i j ↔ b.Reads g i j) :
    Decides view eof g n b p := by
  intro s hs hlen
  have hverdict := h s hs hlen
  rcases hp : p s with ⟨v | e | why, s'⟩ <;> rw [hp] at hverdict
  · exact ⟨hverdict.1, hverdict.2.1, fun h => (hab _ _).mp (hverdict.2.2 h)⟩
  · exact fun h j hj => hverdict h j ((hab _ _).mpr hj)
  · exact hverdict

/-- The reader takes the next token if the pattern matches it. -/
def Eats (view : σ → List τ) (eof : τ) (f : τ → Option α) (eat : Exec σ ε (Option α)) : Prop :=
  f eof = none ∧ ∀ s t r, view s = t :: r → r ≠ [] ∨ t = eof →
    (∃ v s', f t = some v ∧ eat s = (.ok (some v), s') ∧ view s' = r) ∨
      (f t = none ∧ eat s = (.ok none, s))

private theorem Eats.cases {f : τ → Option α} {eat : Exec σ ε (Option α)}
    (heat : Eats view eof f eat) {s : σ} (hs : Ended eof (view s)) :
    ∃ t r, view s = t :: r ∧
      ((∃ v s', f t = some v ∧ Ended eof r ∧ eat s = (.ok (some v), s') ∧ view s' = r) ∨
        (f t = none ∧ eat s = (.ok none, s))) := by
  obtain ⟨t, r, hview⟩ := hs.exists_cons
  have htail : t ≠ eof → Ended eof r := fun ht => (hview ▸ hs).tail (.inl ht)
  have hmore : r ≠ [] ∨ t = eof := by
    by_cases ht : t = eof
    · exact .inr ht
    · left
      rintro rfl
      exact absurd (htail ht).length_pos (by simp)
  refine ⟨t, r, hview, ?_⟩
  rcases heat.2 s t r hview hmore with ⟨v, s', hf, h⟩ | h
  · refine .inl ⟨v, s', hf, htail ?_, h⟩
    rintro rfl
    rw [heat.1] at hf
    cases hf
  · exact .inr h

private theorem first_iff {f : τ → Option α} {k : α → Form τ ν} {t : τ} {r j : List τ} {v : α}
    (hf : f t = some v) : (Form.first f k).Reads g (t :: r) j ↔ (k v).Reads g r j := by
  constructor
  · intro h
    cases h with
    | next _ h => simpa only [hf] using h
  · exact fun h => .next (by simp [Form.can, hf]) (by simpa only [hf] using h)

theorem alt {f : τ → Option α} {eat : Exec σ ε (Option α)} {q : α → Exec σ ε β}
    {p : Exec σ ε β} {k : α → Form τ ν} (heat : Eats view eof f eat)
    (hq : ∀ v, Decides view eof g (n - 1) (k v) (q v)) (hp : Decides view eof g n b p) :
    Decides view eof g n (.either f k b)
      (eat >>= fun o => match o with
        | some v => q v
        | none => p) := by
  intro s hs hlen
  obtain ⟨t, r, hview, ⟨v, s', hf, hr, hok, hs'⟩ | ⟨hf, hnone⟩⟩ := Eats.cases heat hs
  · have hc : Form.can f t = true := by simp [Form.can, hf]
    have hsuffix : r <:+ t :: r := List.suffix_cons t r
    rw [Exec.bind_ok hok]
    rw [hview, List.length_cons] at hlen
    have hverdict := hq v s' (hs' ▸ hr) (by rw [hs']; omega)
    simp only
    rcases hqs : q v s' with ⟨v' | e | why, s''⟩ <;> rw [hqs, hs'] at hverdict <;> rw [hview]
    · exact ⟨hverdict.1, hverdict.2.1.trans hsuffix,
        fun h => .yes hc ((first_iff hf).mpr (hverdict.2.2 (h.of_suffix hsuffix hr)))⟩
    · rintro h j hj
      cases hj with
      | yes _ hj => exact hverdict (h.of_suffix hsuffix hr) j ((first_iff hf).mp hj)
      | no hc' _ => simp [hc] at hc'
    · exact hverdict
  · have hc : Form.can f t = false := by simp [Form.can, hf]
    rw [Exec.bind_ok hnone]
    have hverdict := hp s hs hlen
    simp only
    rcases hps : p s with ⟨v | e | why, s'⟩ <;> rw [hps, hview] at hverdict <;> rw [hview]
    · exact ⟨hverdict.1, hverdict.2.1, fun h => .no hc (hverdict.2.2 h)⟩
    · rintro h j hj
      cases hj with
      | yes hc' _ => simp [hc] at hc'
      | no _ hb => exact hverdict h j hb
    · exact hverdict

/-- Every round takes a token, so the fuel outlasts the input. -/
theorem loop {f : τ → Option α} {eat : Exec σ ε (Option α)} {body : α → Exec σ ε β}
    {k : α → Form τ ν} (heat : Eats view eof f eat)
    (hbody : ∀ v, Decides view eof g (n - 1) (k v) (body v)) {fuel : Nat} (hfuel : n ≤ fuel) :
    Decides view eof g n (.repeated f k) (whileSome eat body fuel) := by
  induction fuel generalizing n with
  | zero =>
      intro s hs hlen
      exact absurd hs.length_pos (by omega)
  | succ fuel ih =>
      intro s hs hlen
      obtain ⟨t, r, hview, ⟨v, s', hf, hr, hok, hs'⟩ | ⟨hf, hnone⟩⟩ := Eats.cases heat hs
      · have hc : Form.can f t = true := by simp [Form.can, hf]
        have hsuffix : r <:+ t :: r := List.suffix_cons t r
        rw [whileSome, Exec.bind_ok hok]
        rw [hview, List.length_cons] at hlen
        have hround : ∀ j, (Form.repeated f k).Reads g (t :: r) j →
            ∃ m, (k v).Reads g r m ∧ (Form.repeated f k).Reads g m j := by
          intro j hj
          cases hj with
          | stop hc' => simp [hc] at hc'
          | more _ ha hrest => exact ⟨_, (first_iff hf).mp ha, hrest⟩
        have hfirst := hbody v s' (hs' ▸ hr) (by rw [hs']; omega)
        rw [hview]
        simp only
        rcases hb : body v s' with ⟨b | e | why, s₂⟩ <;> rw [hb, hs'] at hfirst
        · rw [Exec.bind_ok hb]
          obtain ⟨hs₂, hsuffix', hreads⟩ := hfirst
          have hle := hsuffix'.length_le
          have hwhole (h : Whole eof (t :: r)) : Whole eof r ∧ Whole eof (view s₂) :=
            ⟨h.of_suffix hsuffix hr, h.of_suffix (hsuffix'.trans hsuffix) hs₂⟩
          have hrest := ih (fun v => (hbody v).mono (Nat.sub_le _ 1)) (by omega) s₂ hs₂ (by omega)
          rcases hw : whileSome eat body fuel s₂ with ⟨bs | e | why, s₃⟩ <;> rw [hw] at hrest
          · rw [Exec.bind_ok hw]
            exact ⟨hrest.1, (hrest.2.1.trans hsuffix').trans hsuffix, fun h =>
              .more hc ((first_iff hf).mpr (hreads (hwhole h).1)) (hrest.2.2 (hwhole h).2)⟩
          · rw [Exec.bind_error hw]
            intro h j hj
            obtain ⟨m, hm, hj⟩ := hround j hj
            exact hrest (hwhole h).2 j ((hreads (hwhole h).1).unique hm ▸ hj)
          · exact hrest.elim
        · rw [Exec.bind_error hb]
          intro h j hj
          obtain ⟨m, hm, -⟩ := hround j hj
          exact hfirst (h.of_suffix hsuffix hr) m hm
        · exact hfirst.elim
      · rw [whileSome, Exec.bind_ok hnone]
        exact ⟨hs, List.suffix_rfl, fun _ => hview ▸ .stop (by simp [Form.can, hf])⟩

end Decides

end Reader

end ChocoBase.Foundation
