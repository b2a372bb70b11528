import ChocoBase.Engine.Ddl

/-!
# Users of an OAuth provider

The callback looks for a user of the name that the provider gives, and otherwise adds
one.  The `INSERT` names no `id`, which the table of users never takes, so a user who
is not there yet gets the tokens of the user 2.
-/

namespace ChocoBase.Server.OAuth

open ChocoBase.Foundation ChocoBase.Engine ChocoBase.Sql ChocoBase.Types

structure OAuthCallbackRequest where
  provider : String
  code : String
  state : Option String
  email : Option String
  username : Option String
  deriving DecidableEq

/-- A row of `_users`. -/
structure UserRow where
  id : Int64
  username : String
  passwordHash : String
  role : String

/-- The rows in the order of the table; none if the table cannot be read. -/
abbrev Users := Option (List UserRow)

/-- The user that an answer names, in its body and in its tokens. -/
structure Issued where
  provider : String
  userId : Int64
  username : String
  role : String
  deriving DecidableEq

def sanitizeIdentifier (s : String) : Except String String :=
  if s.isEmpty || 64 < s.utf8ByteSize then
    .error "identifier length must be between 1 and 64 characters"
  else if s.toList.all fun c => c.isAlphanum || c = '_' then .ok s
  else .error "identifier must contain only alphanumeric characters and underscores"

namespace OAuthCallbackRequest

def rawName (req : OAuthCallbackRequest) : String :=
  match req.username, req.email with
  | some username, _ => username
  | none, some email => String.ofList (email.toList.takeWhile (· ≠ '@'))
  | none, none => req.provider ++ "_user"

def safeUser (req : OAuthCallbackRequest) : String :=
  match sanitizeIdentifier req.rawName with
  | .ok u => u
  | .error _ => "oauth_user"

end OAuthCallbackRequest

/-- `SELECT id, role FROM _users WHERE username = '..'` -/
def selectUser (safeUser : String) (users : Users) : Option (List UserRow) :=
  users.map (·.filter fun row => row.username = safeUser)

section Insert

variable (lib : Library)

def usersSchema : TableSchema := ⟨usersTable, usersColumns, 0, false⟩

/-- The row of `INSERT INTO _users (username, password_hash, role) VALUES (.., .., 'user')` -/
def newRow (safeUser hash : String) : Outcome DbError Row :=
  (fullRow lib usersSchema (some ["username", "password_hash", "role"])
    [.stringLiteral safeUser, .stringLiteral hash, .stringLiteral "user"]).bind fun row =>
      (checkNotNull (usersColumns.zip row)).bind fun _ => .ok row

def userOf : Row → Option UserRow
  | [.integer id, .text username, .text passwordHash, .text role] =>
      some ⟨id, username, passwordHash, role⟩
  | _ => none

/-- A failure is ignored. -/
def insertUserRow (safeUser hash : String) (users : Users) : Users :=
  match newRow lib safeUser hash with
  | .ok row => users.map (· ++ (userOf row).toList)
  | _ => users

/-- The id of the user, and the table afterwards. -/
def provision (safeUser hash : String) (users : Users) : Int64 × Users :=
  match selectUser safeUser users with
  | some (row :: _) => (row.id, users)
  | some [] =>
      let users := insertUserRow lib safeUser hash users
      match selectUser safeUser users with
      | some (row :: _) => (row.id, users)
      | _ => (2, users)
  | none => (1, users)

/-- A request that is no JSON of a callback is none; an error is its status and text. -/
def handleOauthCallback (req : Option OAuthCallbackRequest) (hash : String) (users : Users) :
    Except (Nat × String) Issued × Users :=
  match req with
  | none => (.error (400, "invalid OAuth callback JSON payload"), users)
  | some req =>
      if req.code.isEmpty then (.error (400, "missing authorization code"), users)
      else
        let (userId, users) := provision lib req.safeUser hash users
        (.ok ⟨req.provider, userId, req.safeUser, "user"⟩, users)

/-! ## Sequences of callbacks -/

/-- What a sequence of callbacks has issued, to which request, and the table at the end. -/
def runCallbacks : List (Option OAuthCallbackRequest × String) → Users →
    List (OAuthCallbackRequest × Issued) × Users
  | [], users => ([], users)
  | (req, hash) :: calls, users =>
      let (response, users) := handleOauthCallback lib req hash users
      let (issued, users) := runCallbacks calls users
      match req, response with
      | some req, .ok answer => ((req, answer) :: issued, users)
      | _, _ => (issued, users)

end Insert

/-- The requests that are answered with tokens. -/
def accepted (calls : List (Option OAuthCallbackRequest × String)) : List OAuthCallbackRequest :=
  calls.filterMap fun call => call.1.filter fun req => !req.code.isEmpty

section Identities

variable {ι : Type} (identity : OAuthCallbackRequest → ι)

/-- The row is of the identity, and of no other of the sequence. -/
def LinkedTo (reqs : List OAuthCallbackRequest) (req : OAuthCallbackRequest) (row : UserRow) :
    Prop :=
  row.username = req.safeUser ∧
    ∀ other ∈ reqs, other.safeUser = row.username → identity other = identity req

/-- Identities have users of their own. -/
structure Separated (reqs : List OAuthCallbackRequest)
    (result : List (OAuthCallbackRequest × Issued) × Users) : Prop where
  apart : ∀ a ∈ result.1, ∀ b ∈ result.1, identity a.1 ≠ identity b.1 → a.2.userId ≠ b.2.userId
  linked : ∀ a ∈ result.1, ∃ row ∈ result.2.getD [], row.id = a.2.userId ∧
    LinkedTo identity reqs a.1 row

end Identities

section Results

variable {lib : Library} {users : Users} {safeUser hash : String}
  {calls : List (Option OAuthCallbackRequest × String)} {req : OAuthCallbackRequest}

/-- The id that the statement leaves out may not be null. -/
theorem newRow_eq : newRow lib safeUser hash = .error (.exec (.notNullViolation "id")) := rfl

theorem insertUserRow_eq : insertUserRow lib safeUser hash users = users := by
  rw [insertUserRow, newRow_eq]

/-- The id that the tokens carry. -/
def idFor (users : Users) (req : OAuthCallbackRequest) : Int64 :=
  match selectUser req.safeUser users with
  | some (row :: _) => row.id
  | some [] => 2
  | none => 1

theorem provision_eq : provision lib req.safeUser hash users = (idFor users req, users) := by
  simp only [provision, idFor, insertUserRow_eq]
  cases selectUser req.safeUser users with
  | none => rfl
  | some rows => cases rows <;> rfl

theorem accepted_some : accepted ((some req, hash) :: calls) =
    if req.code.isEmpty then accepted calls else req :: accepted calls := by
  unfold accepted
  by_cases hcode : req.code = "" <;> simp [Option.filter, hcode]

theorem runCallbacks_eq : runCallbacks lib calls users =
    ((accepted calls).map fun req => (req, ⟨req.provider, idFor users req, req.safeUser, "user"⟩),
      users) := by
  induction calls with
  | nil => rfl
  | cons call calls ih =>
      obtain ⟨req, hash⟩ := call
      cases req with
      | none => simp [runCallbacks, handleOauthCallback, ih, accepted]
      | some req =>
          rw [accepted_some]
          by_cases hcode : req.code.isEmpty
          · simp [runCallbacks, handleOauthCallback, hcode, ih]
          · simp [runCallbacks, handleOauthCallback, hcode, ih, provision_eq]

theorem idFor_of_row {rows : List UserRow} {row : UserRow} (hrow : row ∈ rows)
    (hname : row.username = req.safeUser) :
    ∃ row ∈ rows, row.username = req.safeUser ∧ row.id = idFor (some rows) req := by
  unfold idFor selectUser
  rw [Option.map_some]
  cases hfound : rows.filter fun row => row.username = req.safeUser with
  | nil =>
      have hno := List.filter_eq_nil_iff.mp hfound row hrow
      simp [hname] at hno
  | cons first rest =>
      have hfirst := List.mem_filter.mp (hfound ▸ List.mem_cons_self)
      exact ⟨first, hfirst.1, of_decide_eq_true hfirst.2, rfl⟩

/--
Identities have users of their own exactly if each already has a row of its local name,
and no two have the same local name.
-/
theorem separated_iff {ι : Type} (identity : OAuthCallbackRequest → ι)
    (hids : ((users.getD []).map UserRow.id).Nodup) :
    Separated identity (accepted calls) (runCallbacks lib calls users) ↔
      (∀ req ∈ accepted calls, ∃ row ∈ users.getD [], row.username = req.safeUser) ∧
        ∀ req ∈ accepted calls, ∀ other ∈ accepted calls, identity req ≠ identity other →
          req.safeUser ≠ other.safeUser := by
  rw [runCallbacks_eq]
  constructor
  · intro h
    have hlinked : ∀ req ∈ accepted calls, ∃ row ∈ users.getD [],
        LinkedTo identity (accepted calls) req row := by
      intro req hreq
      obtain ⟨row, hrow, -, hlink⟩ := h.linked _ (List.mem_map_of_mem hreq)
      exact ⟨row, hrow, hlink⟩
    refine ⟨fun req hreq => ?_, fun req hreq other hother hne heq => ?_⟩
    · obtain ⟨row, hrow, hname, -⟩ := hlinked req hreq
      exact ⟨row, hrow, hname⟩
    · obtain ⟨row, -, hname, halone⟩ := hlinked req hreq
      exact hne (halone other hother (heq.symm.trans hname.symm)).symm
  · rintro ⟨hrows, hnames⟩
    have hfound : ∀ req ∈ accepted calls, ∃ row ∈ users.getD [],
        row.username = req.safeUser ∧ row.id = idFor users req := by
      intro req hreq
      obtain ⟨row, hrow, hname⟩ := hrows req hreq
      cases users with
      | none => cases hrow
      | some rows => exact idFor_of_row hrow hname
    constructor
    · rintro a ha b hb hne heq
      obtain ⟨req, hreq, rfl⟩ := List.mem_map.mp ha
      obtain ⟨other, hother, rfl⟩ := List.mem_map.mp hb
      obtain ⟨row, hrow, hname, hid⟩ := hfound req hreq
      obtain ⟨row', hrow', hname', hid'⟩ := hfound other hother
      obtain rfl := List.inj_on_of_nodup_map hids hrow hrow'
        (hid.trans (Eq.trans heq hid'.symm))
      exact hnames req hreq other hother hne (hname.symm.trans hname')
    · rintro a ha
      obtain ⟨req, hreq, rfl⟩ := List.mem_map.mp ha
      obtain ⟨row, hrow, hname, hid⟩ := hfound req hreq
      refine ⟨row, hrow, hid, hname, fun other hother heq => ?_⟩
      by_contra hne
      exact hnames other hother req hreq hne (heq.trans hname)

end Results

/-- An identity as the request presents it. -/
def presented (req : OAuthCallbackRequest) : String × Option String × Option String :=
  (req.provider, req.username, req.email)

def callback (provider username : String) : Option OAuthCallbackRequest × String :=
  (some ⟨provider, "code", none, none, some username⟩, "hash")

/-- Ann and Bob have rows. -/
def annAndBob : Users := some [⟨1, "ann", "x", "user"⟩, ⟨2, "bob", "y", "user"⟩]

theorem separated_annAndBob : Separated presented
    (accepted [callback "github" "ann", callback "google" "bob"])
    (runCallbacks plainLibrary [callback "github" "ann", callback "google" "bob"] annAndBob) :=
  (separated_iff presented (by decide)).mpr (by decide)

/-- Two identities of one name, and two that have no row: each pair shares a user. -/
theorem shared_user :
    ¬Separated presented (accepted [callback "github" "ann", callback "google" "ann"])
      (runCallbacks plainLibrary [callback "github" "ann", callback "google" "ann"] annAndBob) ∧
    ¬Separated presented (accepted [callback "github" "cyd", callback "github" "dan"])
      (runCallbacks plainLibrary [callback "github" "cyd", callback "github" "dan"] annAndBob) := by
  refine ⟨fun h => ?_, fun h => ?_⟩
  · have hall : ∃ a ∈ (runCallbacks plainLibrary
        [callback "github" "ann", callback "google" "ann"] annAndBob).1,
        ∃ b ∈ (runCallbacks plainLibrary
          [callback "github" "ann", callback "google" "ann"] annAndBob).1,
          presented a.1 ≠ presented b.1 ∧ a.2.userId = b.2.userId := by decide
    obtain ⟨a, ha, b, hb, hne, heq⟩ := hall
    exact h.apart a ha b hb hne heq
  · have hall : ∃ a ∈ (runCallbacks plainLibrary
        [callback "github" "cyd", callback "github" "dan"] annAndBob).1,
        ∃ b ∈ (runCallbacks plainLibrary
          [callback "github" "cyd", callback "github" "dan"] annAndBob).1,
          presented a.1 ≠ presented b.1 ∧ a.2.userId = b.2.userId := by decide
    obtain ⟨a, ha, b, hb, hne, heq⟩ := hall
    exact h.apart a ha b hb hne heq

end ChocoBase.Server.OAuth
