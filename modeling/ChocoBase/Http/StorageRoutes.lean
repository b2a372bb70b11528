import ChocoBase.Foundation.FilePaths
import ChocoBase.Foundation.Separated
import ChocoBase.Server.RestSql

/-!
# Files of the storage routes

Buckets are directories and objects files below the storage root.  Names from requests are
cut at slashes and put together again without the components that lead elsewhere; what is
left may be nothing at all.
-/

namespace ChocoBase.Http

open ChocoBase.Foundation
open Text (Chars)
open Server.Rest (splitOnce stripPrefix trimStartMatches)

def getStorageRoot (dataDir : Chars) : FilePath := (FilePath.ofText dataDir).join "storage".toList

def sanitizeObjectPath (path : Chars) : Chars :=
  Text.join ['/'] ((Text.splitOn '/' (path.map fun c => if c = '\\' then '/' else c)).filter
    fun s => s ≠ [] ∧ s ≠ ['.'] ∧ s ≠ ['.', '.'])

/-- The members of a JSON object; one that is not a string is there without a text. -/
abbrev Payload := String → Option (Option Chars)

structure StorageRequest where
  method : String
  path : Chars
  /-- the body, if it is JSON -/
  payload : Option Payload

/-- What the database, the files and the system answer. -/
structure Surroundings where
  /-- whether the access check lets the request pass, or the row is inserted -/
  granted : Bool
  /-- whether the upload has all of its bytes now -/
  complete : Bool
  now : Nat
  pid : Nat

/-- A row of `_storage_resumable_sessions`. -/
structure UploadSession where
  id : Chars
  bucketId : Chars
  name : Chars

inductive FileOp where
  | read
  | write
  | createDirs
  | removeFile
  | removeDirs
  deriving DecidableEq

/-- What a request does to files. -/
inductive StorageTarget where
  | nothing
  | object (op : FileOp) (bucket key : Chars)
  | upload (bucket key : Chars)
  | bucketDir (op : FileOp) (bucket : Chars)
  | newSession (id : Chars)
  /-- a chunk of an upload, with the object that it completes -/
  | chunk (id : Chars) (final : Option (Chars × Chars))
  | dropSession (id : Chars)

/-! ## Routes -/

section Routes

variable (isWhitespace : Char → Bool)

/-- The first of the prefixes that a path has is taken off. -/
def stripFirst (prefixes : List String) (path : Chars) : Option Chars :=
  prefixes.findSome? fun start => stripPrefix start.toList path

def s3Target (method : String) (s3Subpath : Chars) : Option StorageTarget :=
  match splitOnce '/' s3Subpath with
  | some (bucketId, objectKey) =>
      let bucketId := sanitizeObjectPath bucketId
      let objectKey := sanitizeObjectPath objectKey
      some (match method with
        | "PUT" => .upload bucketId objectKey
        | "GET" => .object .read bucketId objectKey
        | "DELETE" => .object .removeFile bucketId objectKey
        | _ => .nothing)
  | none => if method = "GET" then some .nothing else none

def sessionId (now pid : Nat) : Chars :=
  "sess_".toList ++ (toString now).toList ++ '_' :: (toString pid).toList

def resumableTarget (sessions : List UploadSession) (req : StorageRequest) (env : Surroundings)
    (resumableSub : Chars) : Option (StorageTarget × List UploadSession) :=
  let id := Text.trim isWhitespace (trimStartMatches '/' resumableSub)
  if req.method = "POST" ∧ id = [] then
    match req.payload with
    | none => some (.nothing, sessions)
    | some payload =>
        match (payload "bucket_id").join, (payload "object_name" <|> payload "name").join with
        | some bucketId, some objectName =>
            let session := ⟨sessionId env.now env.pid, sanitizeObjectPath bucketId,
              sanitizeObjectPath objectName⟩
            some (.newSession session.id, if env.granted then session :: sessions else sessions)
        | _, _ => some (.nothing, sessions)
  else if id ≠ [] then
    match sessions.find? fun session => session.id = id with
    | none => some (.nothing, sessions)
    | some session =>
        let others := sessions.filter fun other => other.id ≠ id
        match req.method with
        | "PATCH" =>
            if env.complete then some (.chunk id (some (session.bucketId, session.name)), others)
            else some (.chunk id none, sessions)
        | "GET" => some (.nothing, sessions)
        | "DELETE" => some (.dropSession id, others)
        | _ => none
  else none

def objectTarget (method : String) (granted : Bool) (objSubpath : Chars) : StorageTarget :=
  let cleanSubpath := (stripFirst ["public/", "sign/", "authenticated/"] objSubpath).getD objSubpath
  match splitOnce '/' cleanSubpath with
  | some (bucketId, objectKey) =>
      let bucketId := sanitizeObjectPath bucketId
      let objectKey := sanitizeObjectPath objectKey
      if granted then
        match method with
        | "GET" => .object .read bucketId objectKey
        | "POST" => .upload bucketId objectKey
        | "DELETE" => .object .removeFile bucketId objectKey
        | _ => .nothing
      else .nothing
  | none => .nothing

def bucketTarget (req : StorageRequest) (env : Surroundings) (subpath : Chars) : StorageTarget :=
  if req.method = "POST" ∧
      ((stripPrefix "/object/sign/".toList subpath).bind (splitOnce '/')).isSome then .nothing
  else if subpath = "/bucket".toList ∨ subpath = "/bucket/".toList then
    match req.method, req.payload.bind fun payload => (payload "id" <|> payload "name").join with
    | "POST", some id =>
        if env.granted then .bucketDir .createDirs (sanitizeObjectPath id) else .nothing
    | _, _ => .nothing
  else match stripPrefix "/bucket/".toList subpath with
    | some stripped =>
        if ((splitOnce '/' stripped).map Prod.snd) = some "lifecycle".toList then .nothing
        else if req.method = "DELETE" then .bucketDir .removeDirs (sanitizeObjectPath stripped)
        else .nothing
    | none =>
        if (stripPrefix "/object/list/".toList subpath).isSome then .nothing
        else match stripPrefix "/object/".toList subpath with
          | some objSubpath => objectTarget req.method env.granted objSubpath
          | none => .nothing

/-- `handle_storage_request`, as far as files and upload sessions go -/
def storageTarget (sessions : List UploadSession) (req : StorageRequest) (env : Surroundings) :
    StorageTarget × List UploadSession :=
  match (stripFirst ["/v1/storage/s3/", "/s3/"] req.path).bind (s3Target req.method) with
  | some target => (target, sessions)
  | none =>
      let subpath := (stripFirst ["/v1/storage/v1", "/storage/v1", "/v1/storage", "/storage"]
        req.path).getD req.path
      if subpath = "/version".toList ∨ subpath = "/v1/version".toList ∨
          (stripPrefix "/render/image/".toList subpath).isSome then (.nothing, sessions)
      else match (stripPrefix "/upload/resumable".toList subpath).bind
          (resumableTarget isWhitespace sessions req env) with
        | some result => result
        | none => (bucketTarget req env subpath, sessions)

/-- The upload sessions that a history of requests leaves. -/
def sessionsAfter (history : List (StorageRequest × Surroundings)) : List UploadSession :=
  history.foldl (fun sessions r => (storageTarget isWhitespace sessions r.1 r.2).2) []

end Routes

/-! ## Files -/

/-- A path that is read, created or removed, and the bucket of the object that it is. -/
structure FileAccess where
  op : FileOp
  path : FilePath
  bucket : Option Chars
  deriving DecidableEq

section Files

variable (root : FilePath)

def uploadFiles (bucket key : Chars) : List FileAccess :=
  let path := (root.join bucket).join key
  (path.parent.toList.map fun parent => ⟨.createDirs, parent, none⟩) ++ [⟨.write, path, some bucket⟩]

def stagingDir : FilePath := root.join "tmp_resumable".toList

def stagingFile (op : FileOp) (id : Chars) : FileAccess := ⟨op, (stagingDir root).join id, none⟩

def StorageTarget.files : StorageTarget → List FileAccess
  | .nothing => []
  | .object op bucket key => [⟨op, (root.join bucket).join key, some bucket⟩]
  | .upload bucket key => uploadFiles root bucket key
  | .bucketDir op bucket => [⟨op, root.join bucket, none⟩]
  | .newSession id => [⟨.createDirs, stagingDir root, none⟩, stagingFile root .write id]
  | .chunk id none => [stagingFile root .read id, stagingFile root .write id]
  | .chunk id (some (bucket, key)) =>
      [stagingFile root .read id, stagingFile root .write id] ++ uploadFiles root bucket key ++
        [stagingFile root .removeFile id]
  | .dropSession id => [stagingFile root .removeFile id]

/-- Below the storage root, and an object below its bucket. -/
def FileAccess.Confined (access : FileAccess) : Prop :=
  access.path.Under root ∧ ∀ bucket ∈ access.bucket, access.path.Under (root.join bucket)

end Files

/-- How many components of a name are left. -/
def depth (name : Chars) : Nat := (FilePath.ofText name).parts.length

/-- What is left of the names says where the files are. -/
def StorageTarget.WellNamed : StorageTarget → Prop
  | .object _ _ key => depth key ≠ 0
  | .upload bucket key | .chunk _ (some (bucket, key)) => depth key ≠ 0 ∧ 2 ≤ depth bucket + depth key
  | .bucketDir _ bucket => depth bucket ≠ 0
  | _ => True

/-! ## Names that stay below -/

/-- A name that is one component, or several, or none; it leads nowhere else. -/
def CleanName (name : Chars) : Prop := FilePath.Stays name

/-- The name of an upload session is one component. -/
def CleanId (id : Chars) : Prop := FilePath.Stays id ∧ depth id ≠ 0

theorem cleanName_join {parts : List Chars}
    (h : ∀ part ∈ parts, '/' ∉ part ∧ FilePath.Names part ∧ part ≠ ['.', '.']) :
    CleanName (Text.join ['/'] parts) ∧ depth (Text.join ['/'] parts) = parts.length := by
  have hjoin := FilePath.ofText_join fun part hpart => ⟨(h part hpart).1, (h part hpart).2.1⟩
  refine ⟨⟨congrArg FilePath.absolute hjoin, ?_⟩, congrArg (List.length ∘ FilePath.parts) hjoin⟩
  rw [hjoin]
  exact fun hmem => (h _ hmem).2.2 rfl

theorem sanitizeObjectPath_clean (path : Chars) : CleanName (sanitizeObjectPath path) := by
  refine (cleanName_join fun part hpart => ?_).1
  obtain ⟨hsplit, hkept⟩ := List.mem_filter.mp hpart
  obtain ⟨hne, hdot, hdots⟩ := of_decide_eq_true hkept
  exact ⟨(Text.mem_splitOn hsplit).1, ⟨hne, hdot⟩, hdots⟩

theorem sessionId_clean (now pid : Nat) : CleanId (sessionId now pid) := by
  have hdigit : ∀ n : Nat, '/' ∉ (toString n).toList := Separated.notMem_toString (by decide)
  have hid : sessionId now pid =
      's' :: ("ess_".toList ++ (toString now).toList ++ '_' :: (toString pid).toList) := rfl
  have hslash : '/' ∉ sessionId now pid := by
    rw [hid]
    simp only [List.mem_cons, List.mem_append, not_or]
    exact ⟨by decide, ⟨by decide, hdigit now⟩, by decide, hdigit pid⟩
  have hone : ∀ part ∈ [sessionId now pid],
      '/' ∉ part ∧ FilePath.Names part ∧ part ≠ ['.', '.'] := by
    intro part hpart
    obtain rfl := List.mem_singleton.mp hpart
    refine ⟨hslash, ⟨?_, ?_⟩, ?_⟩ <;> rw [hid] <;> simp
  have hjoin : Text.join ['/'] [sessionId now pid] = sessionId now pid := by
    simp [Text.join, List.intercalate]
  obtain ⟨hstays, hdepth⟩ := cleanName_join hone
  rw [hjoin] at hstays hdepth
  exact ⟨hstays, hdepth ▸ Nat.one_ne_zero⟩

def UploadSession.Clean (session : UploadSession) : Prop :=
  CleanId session.id ∧ CleanName session.bucketId ∧ CleanName session.name

def StorageTarget.Clean : StorageTarget → Prop
  | .object _ bucket key | .upload bucket key => CleanName bucket ∧ CleanName key
  | .bucketDir _ bucket => CleanName bucket
  | .newSession id | .dropSession id | .chunk id none => CleanId id
  | .chunk id (some (bucket, key)) => CleanId id ∧ CleanName bucket ∧ CleanName key
  | .nothing => True

section Routes

variable {isWhitespace : Char → Bool} {sessions : List UploadSession} {req : StorageRequest}
  {env : Surroundings}

theorem s3Target_clean {method : String} {s3Subpath : Chars} {target : StorageTarget}
    (h : s3Target method s3Subpath = some target) : target.Clean := by
  rw [s3Target] at h
  split at h
  · next bucketId objectKey _ =>
      obtain rfl := Option.some.inj h
      have hnames := And.intro (sanitizeObjectPath_clean bucketId)
        (sanitizeObjectPath_clean objectKey)
      split <;> first | exact hnames | trivial
  · split at h
    · obtain rfl := Option.some.inj h
      trivial
    · cases h

theorem objectTarget_clean (method : String) (granted : Bool) (objSubpath : Chars) :
    (objectTarget method granted objSubpath).Clean := by
  rw [objectTarget]
  dsimp only
  split
  · next bucketId objectKey _ =>
      have hnames := And.intro (sanitizeObjectPath_clean bucketId)
        (sanitizeObjectPath_clean objectKey)
      split
      · split <;> first | exact hnames | trivial
      · trivial
  · trivial

theorem bucketTarget_clean (subpath : Chars) : (bucketTarget req env subpath).Clean := by
  rw [bucketTarget]
  split
  · trivial
  · split
    · split
      · split
        · exact sanitizeObjectPath_clean _
        · trivial
      · trivial
    · split
      · split
        · trivial
        · split
          · exact sanitizeObjectPath_clean _
          · trivial
      · split
        · trivial
        · split
          · exact objectTarget_clean _ _ _
          · trivial

theorem resumableTarget_clean (hsessions : ∀ session ∈ sessions, session.Clean)
    {sub : Chars} {result : StorageTarget × List UploadSession}
    (h : resumableTarget isWhitespace sessions req env sub = some result) :
    result.1.Clean ∧ ∀ session ∈ result.2, session.Clean := by
  rw [resumableTarget] at h
  dsimp only at h
  split at h
  · split at h
    · obtain rfl := Option.some.inj h
      exact ⟨trivial, hsessions⟩
    · split at h
      · next bucketId objectName _ _ =>
          obtain rfl := Option.some.inj h
          have hid := sessionId_clean env.now env.pid
          refine ⟨hid, fun session hsession => ?_⟩
          dsimp only at hsession
          split at hsession
          · rcases List.mem_cons.mp hsession with rfl | hsession
            · exact ⟨hid, sanitizeObjectPath_clean _, sanitizeObjectPath_clean _⟩
            · exact hsessions session hsession
          · exact hsessions session hsession
      · obtain rfl := Option.some.inj h
        exact ⟨trivial, hsessions⟩
  · split at h
    · split at h
      · obtain rfl := Option.some.inj h
        exact ⟨trivial, hsessions⟩
      · next session hfind =>
          have hfound := List.find?_some hfind
          have hid := of_decide_eq_true hfound
          have hclean := hsessions session (List.mem_of_find?_eq_some hfind)
          have hothers : ∀ other ∈ sessions.filter fun other => other.id ≠ session.id,
              other.Clean := fun other hother => hsessions other (List.mem_filter.mp hother).1
          rw [← hid] at h
          split at h
          · split at h
            · obtain rfl := Option.some.inj h
              exact ⟨hclean, hothers⟩
            · obtain rfl := Option.some.inj h
              exact ⟨hclean.1, hsessions⟩
          · obtain rfl := Option.some.inj h
            exact ⟨trivial, hsessions⟩
          · obtain rfl := Option.some.inj h
            exact ⟨hclean.1, hothers⟩
          · cases h
    · cases h

theorem storageTarget_clean (hsessions : ∀ session ∈ sessions, session.Clean) :
    (storageTarget isWhitespace sessions req env).1.Clean ∧
      ∀ session ∈ (storageTarget isWhitespace sessions req env).2, session.Clean := by
  rw [storageTarget]
  split
  · next htarget =>
      obtain ⟨sub, -, hs3⟩ := Option.bind_eq_some_iff.mp htarget
      exact ⟨s3Target_clean hs3, hsessions⟩
  · dsimp only
    split
    · exact ⟨trivial, hsessions⟩
    · split
      · next hresult =>
          obtain ⟨sub, -, hresumable⟩ := Option.bind_eq_some_iff.mp hresult
          exact resumableTarget_clean hsessions hresumable
      · exact ⟨bucketTarget_clean _, hsessions⟩

theorem sessionsAfter_clean (history : List (StorageRequest × Surroundings)) :
    ∀ session ∈ sessionsAfter isWhitespace history, session.Clean := by
  induction history using List.reverseRecOn with
  | nil => nofun
  | append_singleton history r ih =>
      rw [sessionsAfter, List.foldl_append]
      exact (storageTarget_clean ih).2

end Routes

/-! ## Files below the root -/

section Files

variable {root : FilePath} {bucket key id : Chars}

theorem stagingDir_under : (stagingDir root).Under root :=
  (FilePath.join_under_iff ⟨by decide, by decide⟩).mpr (by decide)

theorem stagingFile_confined (op : FileOp) (hid : CleanId id) :
    (stagingFile root op id).Confined root := by
  have hdir : FilePath.Stays "tmp_resumable".toList := ⟨by decide, by decide⟩
  refine ⟨(FilePath.join_join_under_iff hdir hid.1).mpr fun hnil => ?_, nofun⟩
  exact absurd (congrArg List.length (List.append_eq_nil_iff.mp hnil).1) (by decide)

theorem depth_ne_zero_iff {name : Chars} : depth name ≠ 0 ↔ (FilePath.ofText name).parts ≠ [] :=
  not_congr List.length_eq_zero_iff

theorem object_confined_iff (hbucket : CleanName bucket) (hkey : CleanName key) (op : FileOp) :
    (⟨op, (root.join bucket).join key, some bucket⟩ : FileAccess).Confined root ↔
      depth key ≠ 0 := by
  have hown : ((root.join bucket).join key).Under (root.join bucket) ↔ depth key ≠ 0 :=
    (FilePath.join_under_iff hkey).trans depth_ne_zero_iff.symm
  constructor
  · exact fun h => hown.mp (h.2 bucket rfl)
  · refine fun h => ⟨(FilePath.join_join_under_iff hbucket hkey).mpr fun hnil => ?_, ?_⟩
    · exact depth_ne_zero_iff.mp h (List.append_eq_nil_iff.mp hnil).2
    · rintro _ ⟨⟩
      exact hown.mpr h

theorem uploadFiles_confined_iff (hbucket : CleanName bucket) (hkey : CleanName key) :
    (∀ access ∈ uploadFiles root bucket key, access.Confined root) ↔
      depth key ≠ 0 ∧ 2 ≤ depth bucket + depth key := by
  have hpath : (root.join bucket).join key =
      ⟨root.absolute, root.parts ++
        ((FilePath.ofText bucket).parts ++ (FilePath.ofText key).parts)⟩ := by
    rw [FilePath.join_of_stays hkey, FilePath.join_of_stays hbucket, List.append_assoc]
  have hdots : ['.', '.'] ∉ (FilePath.ofText bucket).parts ++ (FilePath.ofText key).parts :=
    fun hmem => (List.mem_append.mp hmem).elim hbucket.2 hkey.2
  have hwrite := @object_confined_iff root _ _ hbucket hkey .write
  rw [uploadFiles, List.forall_mem_append, List.forall_mem_singleton, hwrite, and_comm]
  refine and_congr_right fun hne => ?_
  have hparts : (FilePath.ofText bucket).parts ++ (FilePath.ofText key).parts ≠ [] := fun hnil =>
    depth_ne_zero_iff.mp hne (List.append_eq_nil_iff.mp hnil).2
  rw [depth, depth, ← List.length_append, ← @FilePath.parent_under_iff root _ hdots hparts, ← hpath]
  constructor
  · intro h up hup
    exact (h ⟨.createDirs, up, none⟩
      (List.mem_map.mpr ⟨up, Option.mem_toList.mpr hup, rfl⟩)).1
  · intro h access haccess
    obtain ⟨up, hup, rfl⟩ := List.mem_map.mp haccess
    exact ⟨h up (Option.mem_toList.mp hup), nofun⟩

theorem files_confined_iff {target : StorageTarget} (h : target.Clean) :
    (∀ access ∈ target.files root, access.Confined root) ↔ target.WellNamed := by
  cases target with
  | nothing => exact iff_of_true nofun trivial
  | object op bucket key =>
      rw [StorageTarget.files, List.forall_mem_singleton]
      exact object_confined_iff h.1 h.2 op
  | upload bucket key => exact uploadFiles_confined_iff h.1 h.2
  | bucketDir op bucket =>
      rw [StorageTarget.files, List.forall_mem_singleton]
      exact ⟨fun hconfined => depth_ne_zero_iff.mpr ((FilePath.join_under_iff h).mp hconfined.1),
        fun hne => ⟨(FilePath.join_under_iff h).mpr (depth_ne_zero_iff.mp hne), nofun⟩⟩
  | newSession id =>
      refine iff_of_true (List.forall_mem_cons.mpr ⟨⟨stagingDir_under, nofun⟩, ?_⟩) trivial
      exact List.forall_mem_singleton.mpr (stagingFile_confined .write h)
  | chunk id final =>
      cases final with
      | none =>
          refine iff_of_true (List.forall_mem_cons.mpr ⟨stagingFile_confined .read h, ?_⟩) trivial
          exact List.forall_mem_singleton.mpr (stagingFile_confined .write h)
      | some names =>
          obtain ⟨hid, hbucket, hkey⟩ := h
          have hupload := @uploadFiles_confined_iff root _ _ hbucket hkey
          rw [StorageTarget.files, List.forall_mem_append, List.forall_mem_append, hupload,
            List.forall_mem_singleton, List.forall_mem_cons, List.forall_mem_singleton]
          exact ⟨fun hall => hall.1.2, fun hnames => ⟨⟨⟨stagingFile_confined .read hid,
            stagingFile_confined .write hid⟩, hnames⟩, stagingFile_confined .removeFile hid⟩⟩
  | dropSession id =>
      exact iff_of_true (List.forall_mem_singleton.mpr (stagingFile_confined .removeFile h)) trivial

end Files

/-- Which requests stay below the storage root, whatever was asked before. -/
theorem storage_confined_iff (isWhitespace : Char → Bool)
    (history : List (StorageRequest × Surroundings)) (req : StorageRequest) (env : Surroundings)
    (root : FilePath) :
    (∀ access ∈ (storageTarget isWhitespace (sessionsAfter isWhitespace history) req
        env).1.files root, access.Confined root) ↔
      (storageTarget isWhitespace (sessionsAfter isWhitespace history) req env).1.WellNamed :=
  files_confined_iff (storageTarget_clean (sessionsAfter_clean history)).1

/-- Deleting the bucket `..` removes the storage root with all that is in it. -/
theorem bucket_delete_removes_root :
    ∃ access ∈ (storageTarget Char.isWhitespace (sessionsAfter Char.isWhitespace [])
        ⟨"DELETE", "/storage/v1/bucket/..".toList, none⟩ ⟨true, false, 0, 0⟩).1.files
          (getStorageRoot ".".toList),
      access.op = .removeDirs ∧ access.path = getStorageRoot ".".toList ∧
        ¬access.Confined (getStorageRoot ".".toList) := by
  have hroot : (getStorageRoot ".".toList).join [] = getStorageRoot ".".toList := by decide
  refine ⟨⟨.removeDirs, (getStorageRoot ".".toList).join [], none⟩, by decide +kernel, rfl, hroot, ?_⟩
  rintro ⟨⟨rest, hne, -, hpath⟩, -⟩
  rw [hroot] at hpath
  have hparts := congrArg FilePath.parts hpath
  exact hne (List.append_right_eq_self.mp hparts.symm)

end ChocoBase.Http
