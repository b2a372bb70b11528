import ChocoBase.Server.Connections

/-!
# Startup messages

The names and values of a startup message end with a zero byte each.  The server
splits the message at the zeros and leaves out the empty texts before it pairs them.
-/

namespace ChocoBase.Server.PostgresWire

open ChocoBase.Foundation ChocoBase.Types
open Text (Chars)

/-- The parameters that a client may send. -/
def ValidParams (ps : List (String × String)) : Prop :=
  ∀ p ∈ ps, p.1 ≠ "" ∧ '\x00' ∉ p.1.toList ∧ '\x00' ∉ p.2.toList

instance (ps : List (String × String)) : Decidable (ValidParams ps) := by
  unfold ValidParams; infer_instance

def terminated (s : String) : String := s ++ "\x00"

def paramBytes (p : String × String) : Bytes := utf8 (terminated p.1) ++ utf8 (terminated p.2)

/-- A protocol version, the parameters and a last zero. -/
def startupMessage (version : Nat) (ps : List (String × String)) : Bytes :=
  beBytes 4 version ++ (ps.flatMap paramBytes ++ [0])

def paramChars (p : String × String) : Chars × Chars := (p.1.toList, p.2.toList)

/-- The value of every parameter; of two values the later one counts. -/
def paramMap (ps : List (String × String)) (name : Chars) : Option Chars :=
  List.lookup name (ps.map paramChars).reverse

/-- The map that the server reads the user from. -/
def receivedMap (host : Host) (body : Bytes) (name : Chars) : Option Chars :=
  List.lookup name (parseStartupParams host body)

/-! ## Pairing -/

section Pairs

variable {texts : List Chars} {ps : List (Chars × Chars)}

theorem startupParams_length (texts : List Chars) :
    (startupParams texts).length = texts.length / 2 := by
  fun_induction startupParams texts with
  | case1 name value rest ih =>
      simp only [List.length_append, List.length_cons, List.length_nil, ih]
      omega
  | case2 texts hshort =>
      match texts, hshort with
      | [], _ => rfl
      | [_], _ => simp
      | name :: value :: rest, hshort => exact absurd rfl (hshort name value rest)

theorem mem_of_mem_startupParams {p : Chars × Chars} (h : p ∈ startupParams texts) :
    p.2 ∈ texts := by
  fun_induction startupParams texts with
  | case1 name value rest ih =>
      rcases List.mem_append.mp h with h | h
      · exact List.mem_cons_of_mem _ (List.mem_cons_of_mem _ (ih h))
      · obtain rfl := List.mem_singleton.mp h
        exact List.mem_cons_of_mem _ List.mem_cons_self
  | case2 texts hshort => cases h

def pairTexts (p : Chars × Chars) : List Chars := [p.1, p.2]

theorem startupParams_pairTexts (ps : List (Chars × Chars)) :
    startupParams (ps.flatMap pairTexts) = ps.reverse := by
  induction ps with
  | nil => rfl
  | cons p ps ih =>
      rw [List.flatMap_cons, pairTexts, List.cons_append, List.cons_append, List.nil_append,
        startupParams, ih, List.reverse_cons]

theorem pairTexts_length (ps : List (Chars × Chars)) :
    (ps.flatMap pairTexts).length = 2 * ps.length := by
  induction ps with
  | nil => rfl
  | cons p ps ih =>
      rw [List.flatMap_cons, List.length_append, ih, List.length_cons]
      simp only [pairTexts, List.length_cons, List.length_nil]
      omega

theorem mem_pairTexts {p : Chars × Chars} (hp : p ∈ ps) : p.2 ∈ ps.flatMap pairTexts :=
  List.mem_flatMap.mpr ⟨p, hp, .tail _ (.head _)⟩

/-- The pairs are read as they were sent if and only if no value is empty. -/
theorem startupParams_filter_iff (hnames : ∀ p ∈ ps, p.1 ≠ []) :
    startupParams ((ps.flatMap pairTexts).filter (· ≠ [])) = ps.reverse ↔
      ∀ p ∈ ps, p.2 ≠ [] := by
  constructor
  · intro h p hp hempty
    -- the texts that are left are too few for all pairs
    have hlength := congrArg List.length h
    rw [startupParams_length, List.length_reverse] at hlength
    refine absurd hlength (Nat.ne_of_lt (Nat.div_lt_of_lt_mul ?_))
    rw [← pairTexts_length]
    exact List.length_filter_lt_length_iff_exists.mpr ⟨p.2, mem_pairTexts hp, by simp [hempty]⟩
  · intro h
    have hall : (ps.flatMap pairTexts).filter (· ≠ []) = ps.flatMap pairTexts := by
      refine List.filter_eq_self.mpr fun s hs => ?_
      obtain ⟨p, hp, hs⟩ := List.mem_flatMap.mp hs
      simp only [pairTexts, List.mem_cons, List.not_mem_nil, or_false] at hs
      rcases hs with rfl | rfl
      · exact decide_eq_true (hnames p hp)
      · exact decide_eq_true (h p hp)
    rw [hall, startupParams_pairTexts]

theorem lookup_reverse {p : Chars × Chars} (hnodup : (ps.map Prod.fst).Nodup) (hp : p ∈ ps) :
    ps.reverse.lookup p.1 = some p.2 := by
  obtain ⟨l₁, l₂, rfl⟩ := List.append_of_mem hp
  rw [List.map_append, List.map_cons] at hnodup
  have hother : ∀ q ∈ l₂, q.1 ≠ p.1 := fun q hq heq =>
    (List.nodup_cons.mp hnodup.of_append_right).1 (heq ▸ List.mem_map_of_mem hq)
  refine List.lookup_eq_some_iff.mpr ⟨l₂.reverse, l₁.reverse, by simp, fun q hq => ?_⟩
  simpa using (hother q (List.mem_reverse.mp hq)).symm

/-- No value that is read is empty. -/
theorem lookup_filter_ne (name : Chars) :
    (startupParams (texts.filter (· ≠ []))).lookup name ≠ some [] := by
  intro h
  obtain ⟨l₁, l₂, heq, -⟩ := List.lookup_eq_some_iff.mp h
  have hmem : (name, []) ∈ startupParams (texts.filter (· ≠ [])) := by
    rw [heq]
    exact List.mem_append_right _ (.head _)
  simpa using (List.mem_filter.mp (mem_of_mem_startupParams hmem)).2

end Pairs

/-! ## The message -/

theorem utf8_flatMap (ps : List (String × String)) :
    ∃ s : String, utf8 s = ps.flatMap paramBytes ++ [0] ∧
      s.toList = (ps.map paramChars).flatMap (fun p => p.1 ++ '\x00' :: (p.2 ++ ['\x00'])) ++
        ['\x00'] := by
  induction ps with
  | nil => exact ⟨"\x00", by decide +kernel, rfl⟩
  | cons p ps ih =>
      obtain ⟨s, hs, hchars⟩ := ih
      refine ⟨terminated p.1 ++ terminated p.2 ++ s, ?_, ?_⟩
      · rw [utf8_append, utf8_append, hs, List.flatMap_cons, paramBytes, List.append_assoc _ _ [0]]
      · simp [terminated, paramChars, hchars]

theorem splitOn_message {ps : List (Chars × Chars)}
    (hnot : ∀ p ∈ ps, '\x00' ∉ p.1 ∧ '\x00' ∉ p.2) :
    Text.splitOn '\x00' (ps.flatMap (fun p => p.1 ++ '\x00' :: (p.2 ++ ['\x00'])) ++ ['\x00']) =
      ps.flatMap pairTexts ++ [[], []] := by
  induction ps with
  | nil => rfl
  | cons p ps ih =>
      obtain ⟨hname, hvalue⟩ := hnot p List.mem_cons_self
      rw [List.flatMap_cons, List.append_assoc, List.append_assoc, List.cons_append,
        List.append_assoc, Text.splitOn_append, Text.splitOn_of_notMem hname,
        List.singleton_append, List.singleton_append, Text.splitOn_append,
        Text.splitOn_of_notMem hvalue, ih fun q hq => hnot q (List.mem_cons_of_mem _ hq)]
      rfl

theorem parseStartupParams_message (host : Host) (hlossy : ∀ s, host.lossy (utf8 s) = s)
    (version : Nat) {ps : List (String × String)} (h : ValidParams ps) :
    parseStartupParams host (startupMessage version ps) =
      startupParams (((ps.map paramChars).flatMap pairTexts).filter (· ≠ [])) := by
  obtain ⟨s, hs, hchars⟩ := utf8_flatMap ps
  have hlong : ¬(startupMessage version ps).length ≤ 4 := by
    simp only [startupMessage, List.length_append, beBytes_length, List.length_singleton]
    omega
  have hdrop : (startupMessage version ps).drop 4 = utf8 s := by
    rw [startupMessage, List.drop_left' (beBytes_length 4 version), hs]
  rw [parseStartupParams, if_neg hlong, hdrop, hlossy, hchars, splitOn_message, List.filter_append]
  · simp
  · intro p hp
    obtain ⟨q, hq, rfl⟩ := List.mem_map.mp hp
    exact (h q hq).2

/--
The server reads the pairs that were sent if and only if no value is empty.  With names
that differ, that holds of the map of the pairs too.
-/
theorem parseStartupParams_iff (host : Host) (hlossy : ∀ s, host.lossy (utf8 s) = s)
    (version : Nat) {ps : List (String × String)} (h : ValidParams ps) :
    (parseStartupParams host (startupMessage version ps) = (ps.map paramChars).reverse ↔
        ∀ p ∈ ps, p.2 ≠ "") ∧
      ((∀ p ∈ ps, p.2 ≠ "") →
        receivedMap host (startupMessage version ps) = paramMap ps) ∧
      ((ps.map Prod.fst).Nodup →
        (receivedMap host (startupMessage version ps) = paramMap ps ↔ ∀ p ∈ ps, p.2 ≠ "")) := by
  have hnames : ∀ p ∈ ps.map paramChars, p.1 ≠ [] := by
    intro p hp
    obtain ⟨q, hq, rfl⟩ := List.mem_map.mp hp
    exact fun heq => (h q hq).1 (String.toList_eq_nil_iff.mp heq)
  have hvalues : (∀ p ∈ ps.map paramChars, p.2 ≠ []) ↔ ∀ p ∈ ps, p.2 ≠ "" := by
    rw [List.forall_mem_map]
    exact forall₂_congr fun p _ => not_congr String.toList_eq_nil_iff
  have hpairs := (startupParams_filter_iff hnames).trans hvalues
  rw [← parseStartupParams_message host hlossy version h] at hpairs
  have hmap (hfull : ∀ p ∈ ps, p.2 ≠ "") :
      receivedMap host (startupMessage version ps) = paramMap ps :=
    funext fun name => congrArg (List.lookup name) (hpairs.mpr hfull)
  refine ⟨hpairs, hmap, fun hnodup => ⟨fun heq p hp hempty => ?_, hmap⟩⟩
  have hnodup' : ((ps.map paramChars).map Prod.fst).Nodup := by
    have hfst : (ps.map paramChars).map Prod.fst = (ps.map Prod.fst).map String.toList := by
      rw [List.map_map, List.map_map]
      rfl
    rw [hfst]
    exact hnodup.map fun _ _ h => String.toList_injective h
  have hsent := lookup_reverse hnodup' (List.mem_map_of_mem hp)
  have hread := congrFun heq p.1.toList
  rw [receivedMap, parseStartupParams_message host hlossy version h] at hread
  refine lookup_filter_ne p.1.toList (hread.trans (hsent.trans ?_))
  rw [paramChars, hempty]
  rfl

/-! ## A user without a database -/

/-- A host that reads valid UTF-8. -/
def utf8Host : Host := { Running.plainHost with lossy := fun bs => (fromUtf8 bs).getD "" }

theorem utf8Host_lossy (s : String) : utf8Host.lossy (utf8 s) = s :=
  congrArg (Option.getD · "") (fromUtf8_utf8 s)

theorem parseStartupParams_alice :
    receivedMap utf8Host (startupMessage 196608 [("user", "alice"), ("database", "app")]) =
      paramMap [("user", "alice"), ("database", "app")] :=
  (parseStartupParams_iff utf8Host utf8Host_lossy 196608 (by decide)).2.1 (by decide)

/-- With an empty database name before it, the user is the value of the database. -/
theorem parseStartupParams_shifts :
    ¬∀ ps, ValidParams ps → receivedMap utf8Host (startupMessage 196608 ps) = paramMap ps := by
  intro h
  have hvalid : ValidParams [("database", ""), ("user", "alice")] := by decide
  have hfull := ((parseStartupParams_iff utf8Host utf8Host_lossy 196608 hvalid).2.2
    (by decide)).mp (h _ hvalid)
  exact hfull _ (.head _) rfl

end ChocoBase.Server.PostgresWire
