import ChocoBase.Backup.Restore
import ChocoBase.Sql.Spacing

/-!
# The statements that a restore writes itself

They are read as they are meant, whatever the standard library says of other alphabets.
-/

namespace ChocoBase.Backup

open ChocoBase.Foundation ChocoBase.Sql ChocoBase.Server

variable {text : TextLibrary}

variable {debugToken : Token → String}

theorem parse_eq_ok {sql : String} {stmt : Statement}
    (h : parse text debugToken sql = .ok stmt) :
    ∃ ts tokens p, Lexes text sql.toList ts ∧ tokens.map SpannedToken.token = ts ++ [.eof] ∧
      Parser.parseTokens debugToken tokens = .ok (stmt, p) := by
  obtain ⟨tokens, htokens, h⟩ := Outcome.bind_eq_ok.mp h
  obtain ⟨⟨stmt', p⟩, hparse, h⟩ := Outcome.bind_eq_ok.mp h
  cases h
  obtain ⟨ts, hlexes, hmap⟩ := tokenizeFrom_ok htokens
  exact ⟨ts, tokens, p, hlexes, hmap, hparse⟩

/-- A text of one's own is parsed as its tokens are. -/
theorem parse_own (hascii : text.LikeAscii) {sql : String} (h : isOwn sql) {stmt : Statement}
    (hstmt : ∀ tokens : List SpannedToken,
      tokens.map SpannedToken.token = ownTokens sql ++ [.eof] →
        ∃ p, Parser.parseTokens debugToken tokens = .ok (stmt, p)) :
    parse text debugToken sql = .ok stmt := by
  obtain ⟨tokens, htokens, hmap⟩ := tokenize_eq_ok_iff.mpr (reads_own hascii h).lexes
  obtain ⟨p, hparse⟩ := hstmt tokens hmap
  exact Outcome.bind_eq_ok.mpr ⟨tokens, htokens, Outcome.bind_eq_ok.mpr ⟨(stmt, p), hparse, rfl⟩⟩

theorem parse_begin (hascii : text.LikeAscii) :
    parse text debugToken "BEGIN TRANSACTION" = .ok .begin := by
  refine parse_own hascii (by decide +kernel) fun tokens hmap => ?_
  have hown : ownTokens "BEGIN TRANSACTION" = [.begin, .transaction] := by decide +kernel
  rw [hown] at hmap
  obtain _ | ⟨⟨t, a⟩, _ | ⟨⟨t', b⟩, _ | ⟨⟨t'', c⟩, _ | ⟨x, rest⟩⟩⟩⟩ := tokens <;> cases hmap
  exact ⟨_, rfl⟩

theorem parse_commit (hascii : text.LikeAscii) :
    parse text debugToken "COMMIT" = .ok .commit := by
  refine parse_own hascii (by decide +kernel) fun tokens hmap => ?_
  have hown : ownTokens "COMMIT" = [.commit] := by decide +kernel
  rw [hown] at hmap
  obtain _ | ⟨⟨t, a⟩, _ | ⟨⟨t', b⟩, _ | ⟨x, rest⟩⟩⟩ := tokens <;> cases hmap
  exact ⟨_, rfl⟩

theorem parse_rollback (hascii : text.LikeAscii) :
    parse text debugToken "ROLLBACK" = .ok .rollback := by
  refine parse_own hascii (by decide +kernel) fun tokens hmap => ?_
  have hown : ownTokens "ROLLBACK" = [.rollback] := by decide +kernel
  rw [hown] at hmap
  obtain _ | ⟨⟨t, a⟩, _ | ⟨⟨t', b⟩, _ | ⟨x, rest⟩⟩⟩ := tokens <;> cases hmap
  exact ⟨_, rfl⟩

/-- Whatever stands behind `DROP TABLE`, nothing but a table is dropped. -/
theorem parse_dropTable (hascii : text.LikeAscii) {name : String} {stmt : Statement}
    (h : parse text debugToken ("DROP TABLE " ++ name) = .ok stmt) :
    ∃ table, stmt = .dropTable table := by
  obtain ⟨ts, tokens, p, hlexes, hmap, hparse⟩ := parse_eq_ok h
  have hisOwn : isOwn "DROP TABLE " := by decide +kernel
  have hown : ownTokens "DROP TABLE " = [.drop, .table] := by decide +kernel
  obtain ⟨hchars, hascii'⟩ := lexes_ownTokens hisOwn
  rw [String.toList_append] at hlexes
  obtain ⟨tr, rfl, -⟩ := lexes_own_inv hascii (List.all_eq_true.mp hchars)
    (.inr fun _ => by decide)
    hascii' hlexes
  rw [hown] at hmap
  obtain _ | ⟨⟨t, a⟩, _ | ⟨⟨t', b⟩, tokens⟩⟩ := tokens
  · cases hmap
  · cases hmap
  · obtain ⟨rfl, rfl, hrest⟩ : t = .drop ∧ t' = .table ∧
        tokens.map SpannedToken.token = tr ++ [.eof] := by simpa using hmap
    obtain _ | ⟨x, rest⟩ := tokens
    · simp at hrest
    let dropTable : Parse Statement := do
      let table ← Parser.parseTableName debugToken
      return .dropTable table
    let finish : Statement → Parse Statement := fun stmt => do
      Parser.skip (Parser.only .semicolon)
      return stmt
    have hstatement : Parser.parseStatement debugToken
        (Parser.parseWhereExpr debugToken (rest.length + 3)) (rest.length + 3)
        ⟨⟨.drop, a⟩, ⟨.table, b⟩ :: x :: rest⟩ = (dropTable >>= finish) ⟨x, rest⟩ := rfl
    have hrun : (dropTable >>= finish) ⟨x, rest⟩ = (.ok stmt, p) := by
      simp only [Parser.parseTokens, Parser.new, List.length_cons, hstatement] at hparse
      rcases hrun : (dropTable >>= finish) ⟨x, rest⟩ with ⟨stmt' | e | why, p'⟩
      · rw [hrun] at hparse
        cases hparse
        rfl
      · rw [hrun] at hparse
        cases hparse
      · rw [hrun] at hparse
        cases hparse
    rw [Exec.bind_apply] at hrun
    split at hrun
    · next stmt' p' hdrop =>
        obtain rfl : stmt = stmt' := Exec.eq_of_bind_pure hrun
        simp only [dropTable, Exec.bind_apply] at hdrop
        split at hdrop
        · next table _ _ =>
            cases hdrop
            exact ⟨table, rfl⟩
        · cases hdrop
        · cases hdrop
    · cases hrun
    · cases hrun

end ChocoBase.Backup
