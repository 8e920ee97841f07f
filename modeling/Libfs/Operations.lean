import Libfs.Files
import Libfs.Run
import Mathlib.Data.List.Induction

/-! # `operations.c`: the request handlers

    Each handler is given as a function of its decoded arguments (the local
    `args` structure of the source); its result is the state, the status and
    what the response carries.  A step of the service is one request. -/

namespace LibfsOperations

open LibfsHeap LibfsStdio LibfsCommon LibfsInode LibfsRun

/-! ## Permission checks -/

/-- The check of `service_stat`, `service_link`, `service_symlink` and of
    `service_open` with `READ_ONLY`. -/
def readDenied (fileOwner fileGroup : Nat) (file : OwnerGroupPerms) : Bool :=
  if fileOwner = file.owner then file.perms < 0o400
  else if fileGroup = file.group then file.perms.tmod 0o100 < 0o40
  else file.perms.tmod 0o10 < 0o4

/-- The check of `service_chmode` and of `service_open` with `WRITE_ONLY`. -/
def writeDenied (fileOwner fileGroup : Nat) (file : OwnerGroupPerms) : Bool :=
  if fileOwner = file.owner then
    file.perms < 0o200 || (file.perms ≥ 0o400 && file.perms < 0o600)
  else if fileGroup = file.group then
    file.perms.tmod 0o100 < 0o20 ||
      (file.perms.tmod 0o100 ≥ 0o40 && file.perms.tmod 0o100 < 0o60)
  else
    file.perms.tmod 0o10 < 0o2 ||
      (file.perms.tmod 0o10 ≥ 0o4 && file.perms.tmod 0o10 < 0o6)

/-- The status after the permission check: a missing file does not stop the
    check, it is made with the zeros the caller's variables still hold. -/
def checkedStatus (found : Status) (denied : Bool) : Status :=
  if denied then .insufficientPerms else found

/-- `service_stat`, `service_link`, `service_symlink` and `service_open` turn
    every failed lookup into `FAILURE`. -/
def lookupStatus (found : Status) : Status :=
  if found = .success then .success else .failure

/-! ## Requests and responses -/

/-- `struct create_args_t`. -/
structure CreateArgs where
  fileOwner : Nat
  fileGroup : Nat
  accessMode : Int
  filename : Filename

/-- `struct rename_args_t`, which has no ids. -/
structure RenameArgs where
  oldname : Filename
  newname : Filename

/-- `struct chmode_args_t`. -/
structure ChmodeArgs where
  fileOwner : Nat
  fileGroup : Nat
  accessMode : Int
  filename : Filename

/-- `struct stat_args_t`. -/
structure StatArgs where
  fileOwner : Nat
  fileGroup : Nat
  filename : Filename

/-- `struct link_args_t`. -/
structure LinkArgs where
  fileOwner : Nat
  fileGroup : Nat
  filename : Filename
  linkname : Filename

/-- `struct symlink_args_t`. -/
structure SymlinkArgs where
  fileOwner : Nat
  fileGroup : Nat
  mode : Int
  filename : Filename
  linkname : Filename

/-- `struct open_args_t`. -/
structure OpenArgs where
  fileOwner : Nat
  fileGroup : Nat
  filename : Filename
  flags : Int

/-- `struct close_args_t`. -/
structure CloseArgs where
  fileOwner : Nat
  fileGroup : Nat
  fd : Nat

/-- `struct write_args_t`, where `data` is what the payload holds behind the size
    field. -/
structure WriteArgs where
  fileOwner : Nat
  fileGroup : Nat
  fd : Nat
  size : Nat
  data : Bytes

/-- `struct read_args_t`. -/
structure ReadArgs where
  fileOwner : Nat
  fileGroup : Nat
  fd : Nat
  size : Nat

/-- `struct seek_args_t`. -/
structure SeekArgs where
  fileOwner : Nat
  fileGroup : Nat
  fd : Nat
  offset : Nat

/-- `struct unlink_args_t`. -/
structure UnlinkArgs where
  fileOwner : Nat
  fileGroup : Nat
  name : Filename

/-- A decoded request, by its `enum Type`. -/
inductive Request where
  | create (args : CreateArgs)
  | chmode (args : ChmodeArgs)
  | rename (args : RenameArgs)
  | unlink (args : UnlinkArgs)
  | open (args : OpenArgs)
  | read (args : ReadArgs)
  | write (args : WriteArgs)
  | seek (args : SeekArgs)
  | close (args : CloseArgs)
  | stat (args : StatArgs)
  | link (args : LinkArgs)
  | symlink (args : SymlinkArgs)

/-- What a response carries besides its status.  `STAT` sends the buffer it
    did not fill when it refuses. -/
inductive Payload where
  | nothing
  | descriptor (fd : Nat)
  | bytes (data : Bytes)
  | fileStat (stat : Option Stat)
deriving DecidableEq

/-- A response, before it is cut into messages. -/
structure Response where
  status : Status
  payload : Payload
deriving DecidableEq

/-! ## Handlers -/

/-- `service_create`. -/
def serviceCreate (s : State) (env : Env) (args : CreateArgs) : C (State × Response) := do
  let now := env.clock 0
  if ← checkIfFilenameTaken s.filenameTable args.filename then
    .ok (s, ⟨.filenameTaken, .descriptor 0⟩)
  else
    let (nodeIndex, inodeTable) ← addInode s.inodeTable FileType.fRegular.code args.fileOwner
      args.fileGroup 1 args.accessMode 0 now now now
    let (st, filenameTable) ← addFilenameToTable s.filenameTable args.filename nodeIndex
    .ok ({ s with inodeTable := inodeTable, filenameTable := filenameTable },
      ⟨if st = .success then .success else .failure, .descriptor nodeIndex⟩)

/-- The source compares the status with `-2`, so a taken name is answered
    with `FAILURE`. -/
def serviceRename (s : State) (args : RenameArgs) : C (State × Response) := do
  let (st, filenameTable) ← renameFile s.filenameTable args.oldname args.newname
  .ok ({ s with filenameTable := filenameTable },
    ⟨if st = .success then .success
      else if st.code = -2 then .filenameTaken
      else .failure, .nothing⟩)

/-- `service_chmode`. -/
def serviceChmode (s : State) (env : Env) (args : ChmodeArgs) : C (State × Response) := do
  let (found, file) ← getFileOwnerGroupPermissions s args.filename
  let st := checkedStatus found (writeDenied args.fileOwner args.fileGroup file)
  if st = .success then
    let (st, s) ← chmodInode s env args.filename args.accessMode
    .ok (s, ⟨st, .nothing⟩)
  else .ok (s, ⟨st, .nothing⟩)

/-- `service_stat`. -/
def serviceStat (s : State) (env : Env) (args : StatArgs) : C (State × Response) := do
  let (found, file) ← getFileOwnerGroupPermissions s args.filename
  let st := checkedStatus (lookupStatus found) (readDenied args.fileOwner args.fileGroup file)
  if st = .success then
    let (st, stat, s) ← getFileStatFromInode s env args.filename
    .ok (s, ⟨st, if st = .success then .fileStat stat else .nothing⟩)
  else .ok (s, ⟨st, .fileStat none⟩)

/-- `service_link`. -/
def serviceLink (s : State) (env : Env) (args : LinkArgs) : C (State × Response) := do
  let (found, file) ← getFileOwnerGroupPermissions s args.filename
  let st := checkedStatus (lookupStatus found) (readDenied args.fileOwner args.fileGroup file)
  if st = .success then
    let (st, s) ← createHardLink s env args.filename args.linkname
    .ok (s, ⟨st, .nothing⟩)
  else .ok (s, ⟨st, .nothing⟩)

/-- `service_symlink`. -/
def serviceSymlink (s : State) (env : Env) (args : SymlinkArgs) : C (State × Response) := do
  let (found, file) ← getFileOwnerGroupPermissions s args.filename
  let st := checkedStatus (lookupStatus found) (readDenied args.fileOwner args.fileGroup file)
  if st = .success then
    let (st, s) ← createSoftLink s env args.filename args.linkname args.fileOwner args.fileGroup
      args.mode
    .ok (s, ⟨st, .nothing⟩)
  else .ok (s, ⟨st, .nothing⟩)

/-- The status `service_open` has reached before it opens the inode, and the
    mode its flags name. -/
def openStatus (found : Status) (args : OpenArgs) (file : OwnerGroupPerms) : Status :=
  match OpenMode.ofFlags args.flags with
  | some .readOnly =>
      checkedStatus (lookupStatus found) (readDenied args.fileOwner args.fileGroup file)
  | some .writeOnly =>
      checkedStatus (lookupStatus found) (writeDenied args.fileOwner args.fileGroup file)
  | none => .failure

/-- `service_open`. -/
def serviceOpen (s : State) (env : Env) (args : OpenArgs) : C (State × Response) := do
  let (found, file) ← getFileOwnerGroupPermissions s args.filename
  let st := openStatus found args file
  match OpenMode.ofFlags args.flags with
  | some mode =>
      if st = .success then
        let (st, fd, s) ← openInode s env args.filename mode
        .ok (s, ⟨st, .descriptor fd⟩)
      else .ok (s, ⟨st, .descriptor 0⟩)
  | none => .ok (s, ⟨st, .descriptor 0⟩)

/-- `service_close`. -/
def serviceClose (s : State) (args : CloseArgs) : C (State × Response) := do
  let (st, s) ← closeInode s args.fd
  .ok (s, ⟨st, .nothing⟩)

/-- `service_write`. -/
def serviceWrite (s : State) (env : Env) (args : WriteArgs) : C (State × Response) := do
  let data ← slice args.data 0 args.size
  let (st, s) ← writeInodeFd s env args.fd data args.size
  .ok (s, ⟨st, .nothing⟩)

/-- `service_read`. -/
def serviceRead (s : State) (env : Env) (args : ReadArgs) : C (State × Response) := do
  let (st, buf, s) ← readInodeFd s env args.fd (env.malloc args.size) args.size
  .ok (s, ⟨st, .bytes (if st = .success then buf else [])⟩)

/-- `service_seek`. -/
def serviceSeek (s : State) (args : SeekArgs) : C (State × Response) := do
  let (st, s) ← seekInodeFd s args.fd args.offset
  .ok (s, ⟨st, .nothing⟩)

/-- `service_unlink`. -/
def serviceUnlink (s : State) (env : Env) (args : UnlinkArgs) : C (State × Response) := do
  let (st, s) ← unlinkInode s env args.name
  .ok (s, ⟨st, .nothing⟩)

/-- The `switch` of `operate`. -/
def handle (s : State) (env : Env) : Request → C (State × Response)
  | .create args => serviceCreate s env args
  | .chmode args => serviceChmode s env args
  | .rename args => serviceRename s args
  | .unlink args => serviceUnlink s env args
  | .open args => serviceOpen s env args
  | .read args => serviceRead s env args
  | .write args => serviceWrite s env args
  | .seek args => serviceSeek s args
  | .close args => serviceClose s args
  | .stat args => serviceStat s env args
  | .link args => serviceLink s env args
  | .symlink args => serviceSymlink s env args

/-! ## Runs of the service -/

/-- One handled request: what it met, what it asked, what it was answered. -/
structure Event where
  env : Env
  request : Request
  response : Response

/-- A request that is handled to its end.  A handler that runs into undefined
    behaviour, an endless loop or `exit` leaves no state behind it. -/
def Step (s : State) (e : Event) (s' : State) : Prop :=
  handle s e.env e.request = .ok (s', e.response)

/-- The states a freshly started service reaches. -/
abbrev ServiceRun (es : List Event) (s : State) : Prop := Run Step State.init es s

/-! ## Runs on fixed inputs -/

/-- An environment for runs on fixed inputs: the clock stands still. -/
def stillEnv : Env := ⟨fun _ => ⟨0, 0⟩, fun _ => 0⟩

/-- Three names for such runs. -/
def nameA : Filename := ⟨[97], by decide, by decide⟩

def nameB : Filename := ⟨[98], by decide, by decide⟩

def nameX : Filename := ⟨[120], by decide, by decide⟩

/-- Handle requests one after the other. -/
def handleAll : State → List Request → C State
  | s, [] => .ok s
  | s, r :: rs => do
      let (s, _) ← handle s stillEnv r
      handleAll s rs

/-- All requests are handled to their end. -/
def returns (rs : List Request) : Bool := (handleAll State.init rs).isOk

/-- The state after some requests; the initial one when they do not all
    return. -/
def replay (rs : List Request) : State := (handleAll State.init rs).toOption.getD State.init

/-- The answer to one more request. -/
def answer (rs : List Request) (r : Request) : Response :=
  match handle (replay rs) stillEnv r with
  | .ok (_, resp) => resp
  | .error _ => ⟨.failure, .nothing⟩

theorem handleAll_append (rs : List Request) (r : Request) :
    ∀ s, handleAll s (rs ++ [r]) = handleAll s rs >>= fun s => handle s stillEnv r
      >>= fun p => .ok p.1 := by
  induction rs with
  | nil =>
      intro s
      rfl
  | cons r₀ rs ih =>
      intro s
      rw [List.cons_append, handleAll, handleAll]
      cases h : handle s stillEnv r₀ with
      | error stop => rfl
      | ok p => exact ih p.1

/-- The last of some requests that all return is a step. -/
theorem step_replay {rs : List Request} {r : Request} (h : returns (rs ++ [r]) = true) :
    returns rs = true ∧ Step (replay rs) ⟨stillEnv, r, answer rs r⟩ (replay (rs ++ [r])) := by
  unfold returns at h
  rw [handleAll_append] at h
  cases h1 : handleAll State.init rs with
  | error stop =>
      rw [h1] at h
      exact nomatch h
  | ok s =>
      have hs : replay rs = s := by
        unfold replay
        rw [h1]
        rfl
      rw [h1, ok_bind] at h
      cases h2 : handle s stillEnv r with
      | error stop =>
          rw [h2] at h
          exact nomatch h
      | ok p =>
          have hs' : replay (rs ++ [r]) = p.1 := by
            unfold replay
            rw [handleAll_append, h1, ok_bind, h2]
            rfl
          constructor
          · unfold returns
            rw [h1]
            rfl
          · unfold Step answer
            rw [hs, hs']
            show handle s stillEnv r = _
            rw [h2]

/-- Requests that all return and meet the guard one by one make a guarded
    run. -/
theorem guarded_replay {guard : State → Event → Prop} (rs : List Request) :
    returns rs = true →
    (∀ k (hk : k < rs.length),
      guard (replay (rs.take k)) ⟨stillEnv, rs[k], answer (rs.take k) rs[k]⟩) →
    ∃ es, Run (guarded guard Step) State.init es (replay rs) := by
  induction rs using List.reverseRecOn with
  | nil => exact fun _ _ => ⟨[], .start⟩
  | append_singleton rs r ih =>
      intro hok hg
      obtain ⟨hok', hstep⟩ := step_replay hok
      obtain ⟨es, hr⟩ := ih hok' fun k hk => by
        have h := hg k (by rw [List.length_append]; omega)
        rwa [List.take_append_of_le_length (Nat.le_of_lt hk), List.getElem_append_left hk] at h
      have hlast := hg rs.length (by rw [List.length_append]; exact Nat.lt_succ_self _)
      rw [List.take_left, List.getElem_concat_length rfl] at hlast
      exact ⟨es ++ [⟨stillEnv, r, answer rs r⟩], .next hr ⟨hlast, hstep⟩⟩

/-- Requests that all return make a run of these requests. -/
theorem run_replay_requests (rs : List Request) :
    returns rs = true → ∃ es, ServiceRun es (replay rs) ∧ es.map Event.request = rs := by
  induction rs using List.reverseRecOn with
  | nil => exact fun _ => ⟨[], .start, rfl⟩
  | append_singleton rs r ih =>
      intro hok
      obtain ⟨hok', hstep⟩ := step_replay hok
      obtain ⟨es, hr, hes⟩ := ih hok'
      refine ⟨es ++ [⟨stillEnv, r, answer rs r⟩], .next hr hstep, ?_⟩
      rw [List.map_append, hes]
      rfl

/-- Requests that all return make a run. -/
theorem run_replay {rs : List Request} (h : returns rs = true) :
    ∃ es, ServiceRun es (replay rs) := by
  obtain ⟨es, hr, -⟩ := run_replay_requests rs h
  exact ⟨es, hr⟩

end LibfsOperations
