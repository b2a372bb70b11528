import ChocoBase.Sql.Grammar

/-!
# The parser decides the grammar

One lemma for every function of the parser.  A statement is read up to the end
of the text exactly when the grammar reads all of it; nothing checks that.
-/

namespace ChocoBase.Sql.Parser

open ChocoBase.Foundation Form Grammar

variable {α β : Type}

abbrev Parses (n : Nat) (f : SqlForm) (p : Parse α) : Prop := Decides left .eof sql n f p

section Steps

variable {n : Nat} {f : Token → Option α} {a b : SqlForm} {q : α → Parse β} {p p' : Parse β}

theorem eats (hf : f .eof = none) :
    Decides.Eats left .eof f (eat f : Parse (Option α)) := by
  refine ⟨hf, fun p t r hview hmore => ?_⟩
  cases p with
  | mk current following =>
      simp only [left, List.cons.injEq] at hview
      obtain ⟨rfl, rfl⟩ := hview
      cases hcurrent : f current.token with
      | none => exact .inr ⟨rfl, by simp [eat, hcurrent]⟩
      | some v =>
          left
          cases following with
          | nil =>
              simp only [List.map_nil, ne_eq, not_true, false_or] at hmore
              rw [hmore, hf] at hcurrent
              cases hcurrent
          | cons next rest => exact ⟨v, ⟨next, rest⟩, rfl, by simp [eat, hcurrent, advance], rfl⟩

theorem alt_parses {k : α → SqlForm} (hf : f .eof = none)
    (hq : ∀ v, Parses (n - 1) (k v) (q v)) (hp : Parses n b p) :
    Parses n (.either f k b) (alt f q p) :=
  Decides.alt (eats hf) hq hp

theorem whenNext_parses (hp : Parses n a p) (hp' : Parses n b p') :
    Parses n (.look (Form.can f) a b) (whenNext f p p') :=
  Decides.look (fun s t r hview => by
    simp only [left, List.cons.injEq] at hview
    rw [← hview.1]
    rfl) hp hp'

theorem fail_parses (message : Token → String) : Parses n .fail (fail message : Parse α) :=
  fun _ _ _ _ _ h => nomatch h

theorem one_iff {i j : List Token} :
    (Form.either f (fun _ => .empty) .fail).Reads sql i j ↔ (Form.one f).Reads sql i j := by
  constructor
  · intro h
    cases h with
    | yes hc hfirst =>
        cases hfirst with
        | next _ hrest =>
            obtain ⟨v, hv⟩ := Option.isSome_iff_exists.mp hc
            simp only [hv] at hrest
            cases hrest
            exact .tok hc
    | no _ hfail => cases hfail
  · intro h
    cases h with
    | tok hc =>
        obtain ⟨v, hv⟩ := Option.isSome_iff_exists.mp hc
        exact .yes hc (.next hc (by simpa only [hv] using .empty))

theorem take_parses (message : Token → String) (hf : f .eof = none) :
    Parses n (.one f) (take f message) :=
  (alt_parses hf (fun v => .pure v) (fail_parses message)).congr fun _ _ => one_iff

theorem skip_parses (hf : f .eof = none) : Parses n (maybe f) (skip f) :=
  alt_parses hf (fun _ => .pure ()) (.pure ())

theorem whileEat_parses {k : α → SqlForm} (hf : f .eof = none)
    (hbody : ∀ v, Parses (n - 1) (k v) (q v)) : Parses n (.repeated f k) (whileEat f q) := by
  intro s hs hlen
  have hleft : (left s).length = s.following.length + 1 := by simp [left]
  exact Decides.loop (eats hf) (fun v => (hbody v).mono (by omega)) hleft.le s hs le_rfl

theorem commaList_parses {item : SqlForm} {p : Parse α} (hp : Parses n item p) :
    Parses n (list item) (commaList p) :=
  hp.bind fun _ => (whileEat_parses rfl fun _ => hp.mono (Nat.sub_le _ 1)).map _

end Steps

variable {d : Token → String} {n : Nat}

theorem expect_parses {t : Token} (ht : t ≠ .eof) : Parses n (word t) (expect d t) :=
  take_parses _ (if_neg ht.symm)

theorem endList_parses (message : String) : Parses n (word .rParen) (endList message d) := by
  refine (whenNext_parses (take_parses _ rfl) (fail_parses _)).congr fun i j => ?_
  constructor
  · intro h
    cases h with
    | yes _ h => exact h
    | no _ h => cases h
  · intro h
    cases h with
    | tok hc => exact .yes hc (.tok hc)

/-! ## Names and types -/

theorem expectIdentifier_parses : Parses n name (expectIdentifier d) := take_parses _ rfl

theorem parseTableName_parses : Parses n tableName (parseTableName d) :=
  expectIdentifier_parses.bind fun _ =>
    alt_parses rfl (fun _ => expectIdentifier_parses.map _) (.pure _)

theorem advance_eq {p : Parser} {t : Token} {r : List Token} (hview : p.left = t :: r) :
    ∃ p', advance p = (.ok t, p') ∧ p'.left = if r = [] then [t] else r := by
  obtain ⟨current, following⟩ := p
  simp only [left, List.cons.injEq] at hview
  obtain ⟨rfl, rfl⟩ := hview
  cases following with
  | nil => exact ⟨⟨current, []⟩, rfl, rfl⟩
  | cons next rest => exact ⟨⟨next, rest⟩, rfl, rfl⟩

/-- Over the last token there is no advance, and what follows finds it again. -/
theorem advance_parses {b : SqlForm} {q : Token → Parse β} (hend : ∀ j, ¬b.Reads sql [.eof] j)
    (hq : ∀ t, Parses n b (q t)) :
    Parses n (.seq (.tok fun t => t ≠ .eof) b) (advance >>= q) := by
  intro s hs hlen
  obtain ⟨t, r, hview⟩ := hs.exists_cons
  obtain ⟨s', hadvance, hs'⟩ := advance_eq hview
  rw [hview] at hs hlen
  rw [Exec.bind_ok hadvance, hview]
  have hended : Ended .eof s'.left := by
    rw [hs']
    split
    · next hr => rwa [hr] at hs
    · next hr => exact hs.tail (.inr hr)
  have hsuffix : s'.left <:+ t :: r := by
    rw [hs']
    split
    · next hr => exact hr ▸ List.suffix_rfl
    · exact List.suffix_cons t r
  have hverdict := hq t s' hended (Nat.le_trans hsuffix.length_le hlen)
  -- with one end mark, that is the last token
  have hlast (h : Whole .eof (t :: r)) (ht : t = .eof) : s'.left = [.eof] := by
    subst ht
    rw [hs', if_pos h.rest_eq_nil]
  have hnext (h : Whole .eof (t :: r)) (ht : t ≠ .eof) : s'.left = r := by
    rw [hs', if_neg]
    rintro rfl
    exact absurd (h.ended.tail (.inl ht)).length_pos (by simp)
  rcases hqs : q t s' with ⟨v | e | why, s''⟩ <;> rw [hqs] at hverdict
  · refine ⟨hverdict.1, hverdict.2.1.trans hsuffix, fun h => ?_⟩
    have hreads := hverdict.2.2 (h.of_suffix hsuffix hended)
    by_cases ht : t = .eof
    · exact absurd (hlast h ht ▸ hreads) (hend _)
    · exact .seq (.tok (by simpa using ht)) (hnext h ht ▸ hreads)
  · intro h j hj
    cases hj with
    | seq htok hj =>
        cases htok with
        | tok hc =>
            have ht : t ≠ .eof := by simpa using hc
            exact hverdict (h.of_suffix hsuffix hended) j (hnext h ht ▸ hj)
  · exact hverdict

theorem parseDimension_parses : Parses n dimension (parseDimension d) := by
  refine alt_parses rfl (fun _ => advance_parses (fun j hj => ?_) fun _ => ?_) (.pure _)
  · cases hj with
    | tok hc => cases hc
  · exact (expect_parses (by decide)).map _

theorem parseColumnType_parses (expected : String) :
    Parses n columnType (parseColumnType d expected) :=
  alt_parses rfl (fun _ => .pure _) <|
    alt_parses rfl (fun _ => parseDimension_parses.map _) (fail_parses _)

theorem parseColumnDef_parses (expected : String) :
    Parses n columnDef (parseColumnDef d expected) :=
  expectIdentifier_parses.bind fun _ =>
    (parseColumnType_parses expected).bind fun _ =>
      (whileEat_parses rfl fun
        | .notNull => (expect_parses (by decide)).map _
        | .primaryKey => (expect_parses (by decide)).map _).map _

/-! ## Expressions -/

section Expressions

variable {whereExpr : Parse Expr}

theorem emptyCall_parses : Parses n Grammar.emptyCall (emptyCall d) :=
  alt_parses rfl (fun _ => expect_parses (by decide)) (.pure ())

theorem parseColumns_parses (hexpr : Parses n expr whereExpr) :
    Parses n columns (parseColumns d whereExpr) :=
  alt_parses rfl (fun _ => .pure _) <|
    (commaList_parses <| hexpr.bind fun _ =>
      alt_parses rfl (fun _ => expectIdentifier_parses.map _) (.pure _)).map _

theorem parseJoinType_parses (token : Token) :
    Parses n (joinType token) (parseJoinType d token) := by
  cases token
  case inner => exact (expect_parses (by decide)).map _
  case cross => exact (expect_parses (by decide)).map _
  case left => exact (skip_parses rfl).map _
  case right => exact (skip_parses rfl).map _
  all_goals exact .pure _

theorem parseJoinType_eq_cross {token : Token} {ty : JoinType} {p p' : Parser}
    (h : parseJoinType d token p = (.ok ty, p')) : ty = .cross ↔ token = .cross := by
  cases token
  case inner => simp [Exec.eq_of_bind_pure h]
  case cross => simp [Exec.eq_of_bind_pure h]
  case left => simp [Exec.eq_of_bind_pure h]
  case right => simp [Exec.eq_of_bind_pure h]
  all_goals cases h; simp

theorem parseJoin_parses (hexpr : Parses n expr whereExpr) (token : Token) :
    Parses n (joinClause token) (parseJoin d whereExpr token) := by
  refine (parseJoinType_parses token).bindOf fun ty s s' hty => ?_
  refine parseTableName_parses.bind fun _ => ?_
  refine (alt_parses rfl (fun _ => expectIdentifier_parses.map _) (.pure _)).bind fun _ => ?_
  by_cases hcross : token = .cross
  · rw [if_pos ((parseJoinType_eq_cross hty).mpr hcross), if_pos hcross]
    exact .pure _
  · rw [if_neg (mt (parseJoinType_eq_cross hty).mp hcross), if_neg hcross]
    exact (expect_parses (by decide)).bind fun _ => hexpr.map _

theorem optionalExpr_parses {keyword : Token} (hkeyword : keyword ≠ .eof)
    (hexpr : Parses n expr whereExpr) :
    Parses n (optional (only keyword) expr) (optionalExpr whereExpr keyword) :=
  alt_parses (if_neg hkeyword.symm) (fun _ => (hexpr.mono (Nat.sub_le _ 1)).map _) (.pure _)

theorem parseGroupBy_parses (hexpr : Parses n expr whereExpr) :
    Parses n (optional (only .group) (seq (word .«by») (list expr)))
      (parseGroupBy d whereExpr) :=
  alt_parses rfl (fun _ => (expect_parses (by decide)).bind fun _ =>
    (commaList_parses (hexpr.mono (Nat.sub_le _ 1))).map _) (.pure _)

theorem parseOrderBy_parses : Parses n orderBy (parseOrderBy d) :=
  alt_parses rfl (fun _ => (expect_parses (by decide)).bind fun _ =>
    parseTableName_parses.bind fun _ =>
      (alt_parses rfl (fun _ => .pure _) (.pure _)).bind fun _ =>
        (alt_parses rfl (fun _ => skip_parses rfl) (.pure _)).map _) (.pure _)

theorem parseLimit_parses : Parses n (optional (only .limit) (one intOf)) (parseLimit d) :=
  alt_parses rfl (fun _ => (take_parses _ rfl).map _) (.pure _)

theorem parseSelect_parses (hexpr : Parses n expr whereExpr) :
    Parses n select (parseSelect d whereExpr) :=
  (expect_parses (by decide)).bind fun _ =>
    (parseColumns_parses hexpr).bind fun _ =>
      (expect_parses (by decide)).bind fun _ =>
        parseTableName_parses.bind fun _ =>
          (whileEat_parses rfl (parseJoin_parses (hexpr.mono (Nat.sub_le _ 1)))).bind fun _ =>
            (optionalExpr_parses (by decide) hexpr).bind fun _ =>
              (parseGroupBy_parses hexpr).bind fun _ =>
                (optionalExpr_parses (by decide) hexpr).bind fun _ =>
                  parseOrderBy_parses.bind fun _ => parseLimit_parses.map _

theorem parseCall_parses (hexpr : Parses n expr whereExpr) :
    Parses n call (parseCall d whereExpr) :=
  (expect_parses (by decide)).bind fun _ =>
    hexpr.bind fun _ => (expect_parses (by decide)).map _

theorem parseCallWith_parses (expected : String) (hexpr : Parses n expr whereExpr) :
    Parses n callWith (parseCallWith d whereExpr expected) :=
  (expect_parses (by decide)).bind fun _ =>
    hexpr.bind fun _ =>
      (expect_parses (by decide)).bind fun _ =>
        (take_parses _ rfl).bind fun _ => (expect_parses (by decide)).map _

theorem parseExists_parses (negated : Bool) (hexpr : Parses n expr whereExpr) :
    Parses n exists' (parseExists d whereExpr negated) :=
  (expect_parses (by decide)).bind fun _ =>
    (parseSelect_parses hexpr).bind fun _ => (expect_parses (by decide)).map _

theorem parseDistance_parses (metric : VectorMetric) (hexpr : Parses n expr whereExpr) :
    Parses n distance (parseDistance d whereExpr metric) :=
  (expect_parses (by decide)).bind fun _ =>
    hexpr.bind fun _ =>
      (expect_parses (by decide)).bind fun _ =>
        hexpr.bind fun _ => (expect_parses (by decide)).map _

theorem parseCount_parses (hexpr : Parses n expr whereExpr) :
    Parses n countCall (parseCount d whereExpr) :=
  (expect_parses (by decide)).bind fun _ =>
    alt_parses rfl (fun _ => (expect_parses (by decide)).map _)
      (hexpr.bind fun _ => (expect_parses (by decide)).map _)

theorem parseQualified_parses (table : String) : Parses n name (parseQualified d table) :=
  expectIdentifier_parses.map _

theorem parseName_parses {other : Parse Expr} (hother : Parses n .fail other) :
    Parses n column (parseName d other) :=
  alt_parses rfl
    (fun _ => alt_parses rfl
      (fun _ => alt_parses rfl (fun _ => emptyCall_parses.map _) (parseQualified_parses _))
      (.pure _)) <|
    alt_parses rfl (fun _ => alt_parses rfl (fun _ => parseQualified_parses _) (.pure _)) hother

theorem parseOperand_parses (hexpr : Parses (n - 1) expr whereExpr) :
    Parses n operand (parseOperand d whereExpr) := by
  intro s hs hlen
  have halt : Parses n operand _ :=
    alt_parses rfl (fun e => .pure e) <|
    alt_parses rfl (fun metric => parseDistance_parses (d := d) metric hexpr) <|
    alt_parses rfl
      (fun search => (parseCallWith_parses (d := d) "string query in text search" hexpr).map
        fun call => search call.1 call.2) <|
    alt_parses rfl (fun _ => parseExists_parses (d := d) false hexpr) <|
    alt_parses rfl
      (fun _ => alt_parses rfl
        (fun _ => parseExists_parses (d := d) true (hexpr.mono (Nat.sub_le _ 1)))
        (.throw ⟨s.current.offset, "unexpected NOT in expression"⟩)) <|
    alt_parses rfl (fun _ => parseCount_parses (d := d) hexpr) <|
    alt_parses rfl
      (fun aggregate => (parseCall_parses (d := d) hexpr).map
        fun e => .aggregate (aggregate e)) <|
    alt_parses rfl
      (fun _ => (parseCallWith_parses (d := d) "string literal path in JSON_EXTRACT" hexpr).map
        fun call => .jsonExtract call.1 call.2 true) <|
    alt_parses rfl (fun _ => (emptyCall_parses (d := d)).map fun _ => .authUid) <|
    alt_parses rfl
      (fun _ => hexpr.bind fun e => (expect_parses (d := d) (by decide)).map fun _ => e) <|
    parseName_parses (d := d) (fail_parses fun other =>
      "expected an expression, found " ++ d other)
  exact halt s hs hlen

theorem parsePrimaryExpr_parses (hexpr : Parses (n - 1) expr whereExpr) :
    Parses n primary (parsePrimaryExpr d whereExpr) :=
  (parseOperand_parses hexpr).bind fun _ =>
    (whileEat_parses rfl fun _ => (take_parses _ rfl).map _).map _

theorem parseIn_parses (left : Expr) (negated : Bool) (hexpr : Parses n expr whereExpr) :
    Parses n inClause (parseIn d whereExpr left negated) :=
  (expect_parses (by decide)).bind fun _ =>
    whenNext_parses
      ((parseSelect_parses hexpr).bind fun _ => (expect_parses (by decide)).map _)
      ((commaList_parses hexpr).bind fun _ => (endList_parses _).map _)

theorem parseLike_parses (left : Expr) (negated : Bool) :
    Parses n (one stringOf) (parseLike d left negated) := (take_parses _ rfl).map _

theorem parseComparison_parses (hexpr : Parses (n - 1) expr whereExpr) :
    Parses n comparison (parseComparison d whereExpr) :=
  (parsePrimaryExpr_parses hexpr).bind fun left =>
    alt_parses rfl
      (fun _ => (parsePrimaryExpr_parses (hexpr.mono (Nat.sub_le _ 1))).map _) <|
    alt_parses rfl
      (fun _ => (alt_parses rfl (fun _ => .pure _) (.pure _)).bind fun _ =>
        (expect_parses (by decide)).map _) <|
    alt_parses rfl (fun _ => parseIn_parses left false hexpr) <|
    alt_parses rfl (fun _ => parseLike_parses left false) <|
    alt_parses rfl
      (fun _ =>
        alt_parses rfl (fun _ => parseIn_parses left true (hexpr.mono (Nat.sub_le _ 1))) <|
        alt_parses rfl (fun _ => parseLike_parses left true) (fail_parses _))
    (.pure _)

theorem parseAnd_parses (hexpr : Parses (n - 1) expr whereExpr) :
    Parses n conjunction (parseAnd d whereExpr) :=
  (parseComparison_parses hexpr).bind fun _ =>
    (whileEat_parses rfl fun _ =>
      parseComparison_parses (hexpr.mono (Nat.sub_le _ 1))).map _

theorem parseOr_parses (hexpr : Parses (n - 1) expr whereExpr) :
    Parses n disjunction (parseOr d whereExpr) :=
  (parseAnd_parses hexpr).bind fun _ =>
    (whileEat_parses rfl fun _ => parseAnd_parses (hexpr.mono (Nat.sub_le _ 1))).map _

end Expressions

/-- An expression inside an expression comes after a token. -/
theorem parseWhereExpr_parses {fuel : Nat} (hfuel : n ≤ fuel) :
    Parses n expr (parseWhereExpr d fuel) := by
  induction fuel generalizing n with
  | zero => exact fun s hs hlen => absurd hs.length_pos (by omega)
  | succ fuel ih => exact .rule (parseOr_parses (ih (by omega)))

/-! ## Statements -/

theorem parseCreateTable_parses : Parses n createTable (parseCreateTable d) :=
  (expect_parses (by decide)).bind fun _ =>
    parseTableName_parses.bind fun _ =>
      (expect_parses (by decide)).bind fun _ =>
        (commaList_parses (parseColumnDef_parses _)).bind fun _ => (endList_parses _).map _

theorem parseCreateIndex_parses : Parses n createIndex (parseCreateIndex d) :=
  (expect_parses (by decide)).bind fun _ =>
    expectIdentifier_parses.bind fun _ =>
      (expect_parses (by decide)).bind fun _ =>
        expectIdentifier_parses.bind fun _ =>
          (expect_parses (by decide)).bind fun _ =>
            expectIdentifier_parses.bind fun _ => (expect_parses (by decide)).map _

theorem parseCreateUser_parses : Parses n createUser (parseCreateUser d) :=
  (expect_parses (by decide)).bind fun _ =>
    (alt_parses rfl (fun _ => .pure _) expectIdentifier_parses).bind fun _ =>
      (skip_parses rfl).bind fun _ =>
        (expect_parses (by decide)).bind fun _ =>
          (take_parses _ rfl).bind fun _ =>
            (alt_parses rfl (fun _ => (take_parses _ rfl).map _) (.pure _)).map _

theorem parseDrop_parses : Parses n drop (parseDrop d) :=
  (expect_parses (by decide)).bind fun _ =>
    alt_parses rfl (fun _ => parseTableName_parses.map _) <|
    alt_parses rfl (fun _ => expectIdentifier_parses.map _) <|
    alt_parses rfl
      (fun _ => expectIdentifier_parses.bind fun _ =>
        (expect_parses (by decide)).bind fun _ => expectIdentifier_parses.map _)
      (fail_parses _)

theorem parseRls_parses (table : String) (enabled : Bool) :
    Parses n rls (parseRls d table enabled) :=
  (expect_parses (by decide)).bind fun _ =>
    (expect_parses (by decide)).bind fun _ => (expect_parses (by decide)).map _

theorem parseAlter_parses : Parses n alter (parseAlter d) :=
  (expect_parses (by decide)).bind fun _ =>
    (expect_parses (by decide)).bind fun _ =>
      expectIdentifier_parses.bind fun table =>
        alt_parses rfl (fun _ => parseRls_parses table true) <|
        alt_parses rfl (fun _ => parseRls_parses table false) <|
        alt_parses rfl
          (fun _ => (skip_parses rfl).bind fun _ => (parseColumnDef_parses _).map _) <|
        alt_parses rfl
          (fun _ => (skip_parses rfl).bind fun _ => expectIdentifier_parses.map _) <|
        alt_parses rfl
          (fun _ => (expect_parses (by decide)).bind fun _ => expectIdentifier_parses.map _)
        (fun _ _ _ _ _ h => nomatch h)

section Statements

variable {whereExpr : Parse Expr}

theorem parseParenthesized_parses (hexpr : Parses n expr whereExpr) :
    Parses n parenthesized (parseParenthesized d whereExpr) :=
  (expect_parses (by decide)).bind fun _ =>
    hexpr.bind fun _ => (expect_parses (by decide)).map _

theorem parseCreatePolicy_parses (hexpr : Parses n expr whereExpr) :
    Parses n createPolicy (parseCreatePolicy d whereExpr) :=
  (expect_parses (by decide)).bind fun _ =>
    expectIdentifier_parses.bind fun _ =>
      (expect_parses (by decide)).bind fun _ =>
        expectIdentifier_parses.bind fun _ =>
          (expect_parses (by decide)).bind fun _ =>
            (take_parses _ rfl).bind fun _ =>
              (alt_parses rfl
                (fun _ => parseParenthesized_parses (hexpr.mono (Nat.sub_le _ 1)))
                (.pure _)).bind fun _ =>
                (whenNext_parses
                  ((skip_parses rfl).bind fun _ =>
                    (expect_parses (by decide)).bind fun _ => parseParenthesized_parses hexpr)
                  (.pure _)).map _

theorem parseCreate_parses (hexpr : Parses n expr whereExpr) :
    Parses n create (parseCreate d whereExpr) :=
  (expect_parses (by decide)).bind fun _ =>
    whenNext_parses parseCreateTable_parses <|
    whenNext_parses parseCreateIndex_parses <|
    whenNext_parses parseCreateUser_parses <|
    whenNext_parses (parseCreatePolicy_parses hexpr) (fail_parses _)

theorem parseReturningClause_parses (hexpr : Parses n expr whereExpr) :
    Parses n returning (parseReturningClause d whereExpr) :=
  alt_parses rfl (fun _ => (parseColumns_parses (hexpr.mono (Nat.sub_le _ 1))).map _) (.pure _)

theorem parseValues_parses (hexpr : Parses n expr whereExpr) :
    Parses n (seqs [word .lParen, list primary, word .rParen]) (parseValues d whereExpr) :=
  (expect_parses (by decide)).bind fun _ =>
    (commaList_parses (parsePrimaryExpr_parses (hexpr.mono (Nat.sub_le _ 1)))).bind fun _ =>
      (endList_parses _).map _

theorem parseInsert_parses (hexpr : Parses n expr whereExpr) :
    Parses n insert (parseInsert d whereExpr) :=
  (expect_parses (by decide)).bind fun _ =>
    (expect_parses (by decide)).bind fun _ =>
      parseTableName_parses.bind fun _ =>
        (alt_parses rfl
          (fun _ => (commaList_parses expectIdentifier_parses).bind fun _ =>
            (endList_parses _).map _) (.pure _)).bind fun _ =>
          (expect_parses (by decide)).bind fun _ =>
            (commaList_parses (parseValues_parses hexpr)).bind fun _ =>
              (parseReturningClause_parses hexpr).map _

theorem parseAssignment_parses (hexpr : Parses n expr whereExpr) :
    Parses n (seqs [name, word .eq, primary]) (parseAssignment d whereExpr) :=
  expectIdentifier_parses.bind fun _ =>
    (expect_parses (by decide)).bind fun _ =>
      (parsePrimaryExpr_parses (hexpr.mono (Nat.sub_le _ 1))).map _

theorem parseUpdate_parses (hexpr : Parses n expr whereExpr) :
    Parses n update (parseUpdate d whereExpr) :=
  (expect_parses (by decide)).bind fun _ =>
    parseTableName_parses.bind fun _ =>
      (expect_parses (by decide)).bind fun _ =>
        (commaList_parses (parseAssignment_parses hexpr)).bind fun _ =>
          (optionalExpr_parses (by decide) hexpr).bind fun _ =>
            (parseReturningClause_parses hexpr).map _

theorem parseDelete_parses (hexpr : Parses n expr whereExpr) :
    Parses n delete (parseDelete d whereExpr) :=
  (expect_parses (by decide)).bind fun _ =>
    (expect_parses (by decide)).bind fun _ =>
      parseTableName_parses.bind fun _ =>
        (optionalExpr_parses (by decide) hexpr).bind fun _ =>
          (parseReturningClause_parses hexpr).map _

/-- Every `EXPLAIN` takes a token. -/
theorem parseStatement_parses (hexpr : Parses n expr whereExpr) {fuel : Nat} (hfuel : n ≤ fuel) :
    Parses n (rule .statement) (parseStatement d whereExpr fuel) := by
  induction fuel generalizing n with
  | zero => exact fun s hs hlen => absurd hs.length_pos (by omega)
  | succ fuel ih =>
      have hinner : Parses (n - 1) (rule .statement) (parseStatement d whereExpr fuel) :=
        ih (hexpr.mono (Nat.sub_le _ 1)) (by omega)
      refine .rule (Decides.bind ?_ fun _ => (skip_parses rfl).map _)
      exact alt_parses rfl (fun _ => hinner.map _) <|
        whenNext_parses (parseCreate_parses hexpr) <|
        whenNext_parses parseDrop_parses <|
        whenNext_parses parseAlter_parses <|
        whenNext_parses (parseInsert_parses hexpr) <|
        whenNext_parses (parseSelect_parses hexpr) <|
        whenNext_parses (parseUpdate_parses hexpr) <|
        whenNext_parses (parseDelete_parses hexpr) <|
        alt_parses rfl (fun _ => (skip_parses rfl).map _) (fail_parses _)

end Statements

/-! ## Whole statements -/

theorem new_left {tokens : List SpannedToken} {ts : List Token}
    (h : tokens.map SpannedToken.token = ts ++ [.eof]) :
    ∃ p, new tokens = some p ∧ p.left = ts ++ [.eof] ∧ p.left.length = tokens.length := by
  cases tokens with
  | nil => simp at h
  | cons token rest => exact ⟨⟨token, rest⟩, rfl, h, by simp [left]⟩

/-- A statement is returned exactly when the grammar reads one, and then what
the grammar leaves is left. -/
theorem parseTokens_ok_iff {text : TextLibrary} {src : String} {tokens : List SpannedToken}
    (h : tokenize text src = .ok tokens) (rest : List Token) :
    (∃ stmt p, parseTokens d tokens = .ok (stmt, p) ∧ p.left = rest) ↔
      (rule .statement).Reads sql (tokens.map SpannedToken.token) rest := by
  obtain ⟨ts, hts, hmap⟩ := tokenizeFrom_ok h
  obtain ⟨p, hnew, hleft, hlength⟩ := new_left hmap
  have hwhole : Whole .eof p.left := ⟨ts, hleft, hts.eof_notMem⟩
  have hverdict := parseStatement_parses (d := d)
    (parseWhereExpr_parses (d := d) (Nat.le_refl tokens.length)) (Nat.le_refl tokens.length)
    p hwhole.ended hlength.le
  rw [hmap, ← hleft]
  simp only [parseTokens, hnew]
  rcases hp : parseStatement d (parseWhereExpr d tokens.length) tokens.length p with
    ⟨stmt | e | why, p'⟩ <;> rw [hp] at hverdict
  · constructor
    · rintro ⟨stmt', p'', heq, rfl⟩
      cases heq
      exact hverdict.2.2 hwhole
    · exact fun hreads => ⟨stmt, p', rfl, (hverdict.2.2 hwhole).unique hreads⟩
  · constructor
    · rintro ⟨stmt', p'', heq, -⟩
      cases heq
    · exact fun hreads => absurd hreads (hverdict hwhole _)
  · exact hverdict.elim

/-- The tokens after a statement are dropped, whatever they are. -/
theorem consumes_all_iff (text : TextLibrary) (d : Token → String) {src : String}
    {tokens : List SpannedToken} (h : tokenize text src = .ok tokens) :
    (∀ stmt p, parseTokens d tokens = .ok (stmt, p) → p.left = [.eof]) ↔
      ∀ rest, (rule .statement).Reads sql (tokens.map SpannedToken.token) rest → rest = [.eof] := by
  constructor
  · intro hall rest hreads
    obtain ⟨stmt, p, hp, rfl⟩ := (parseTokens_ok_iff (d := d) h rest).mpr hreads
    exact hall stmt p hp
  · intro hall stmt p hp
    exact hall p.left ((parseTokens_ok_iff (d := d) h _).mp ⟨stmt, p, hp, rfl⟩)

theorem consumes_all_iff_commit :
    (∀ stmt p, parseTokens (fun _ => "token") [⟨.commit, 0⟩, ⟨.semicolon, 6⟩, ⟨.eof, 7⟩] =
        .ok (stmt, p) → p.left = [.eof]) ↔
      ∀ rest, (rule .statement).Reads sql [.commit, .semicolon, .eof] rest → rest = [.eof] := by
  have htokens : tokenize asciiLibrary "commit;" =
      .ok [⟨.commit, 0⟩, ⟨.semicolon, 6⟩, ⟨.eof, 7⟩] := by decide +kernel
  exact consumes_all_iff asciiLibrary (fun _ => "token") htokens

/-- With its keyword misspelt, the condition of a `DELETE` is dropped. -/
theorem drops_misspelt_where :
    ∃ tokens p, tokenize asciiLibrary "DELETE FROM t WEHRE id = 1" = .ok tokens ∧
      parseTokens (fun _ => "token") tokens = .ok (.delete "t" none none, p) ∧
      p.left = [.identifier "WEHRE", .identifier "id", .eq, .intLiteral 1, .eof] := by
  refine ⟨[⟨.delete, 0⟩, ⟨.«from», 7⟩, ⟨.identifier "t", 12⟩, ⟨.identifier "WEHRE", 14⟩,
    ⟨.identifier "id", 20⟩, ⟨.eq, 23⟩, ⟨.intLiteral 1, 25⟩, ⟨.eof, 26⟩], ?_⟩
  exact ⟨_, by decide +kernel, rfl, rfl⟩

end ChocoBase.Sql.Parser
