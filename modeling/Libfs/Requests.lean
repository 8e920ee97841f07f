import Libfs.Operations
import Libfs.ReqBuffer
import Libfs.Wire

/-! # Requests as bytes

    Each function of `libfs.c` copies its arguments behind one another into
    the payload of its request, and the handler of `operations.c` reads them
    back, each with offsets of its own.  The arguments of the caller and those
    of the handler are the same structures, so that the two can be compared.
    A slot holds `data_size` bytes and nothing behind them: a handler that
    reads on does not return. -/

namespace LibfsRequests

open LibfsHeap LibfsStdio LibfsCommon LibfsInode LibfsOperations LibfsBuffer LibfsWire

/-! ## The fields -/

/-- `uid_t`, `gid_t`, `fd_type` and `unsigned`. -/
abbrev unsignedField : Format Nat := unsignedFormat 4

/-- `int`. -/
abbrev intField : Format Int := signedFormat 4

/-- `long`, `off_t` and the words of a `struct timespec`. -/
abbrev longField : Format Int := signedFormat 8

/-- `strcpy` out of and into a `char[MAX_FILENAME_LEN]`. -/
def nameField : Format Filename where
  fits _ := True
  write name := terminated name.bytes
  size name := name.bytes.length + 1
  write_length name := terminated_length name.bytes
  read data off :=
    if h : off + (stringAt data off).length < data.length ∧
        (stringAt data off).length < maxFilenameLen then
      .ok ⟨stringAt data off, stringAt_noNul data off, h.2⟩
    else .error .undefinedBehaviour
  read_write := by
    intro name _ data off rest h
    obtain ⟨hname, hin⟩ := h.stringAt name.noNul
    have hfits : off + (stringAt data off).length < data.length ∧
        (stringAt data off).length < maxFilenameLen := by
      rw [hname]
      exact ⟨hin, name.short⟩
    rw [dif_pos hfits]
    congr

@[simp] theorem nameField_size (name : Filename) : nameField.size name = name.bytes.length + 1 :=
  rfl

/-! ## Payloads of `libfs.c`

    `copy_buf` is an array of `data_size` bytes on the stack, into which the
    arguments are copied. -/

/-- `copy_buf` with its fields. -/
def copyBuf (env : Env) (dataSize : Nat) (fields : List Bytes) : C Bytes :=
  copyAll (env.malloc (u32 dataSize)) 0 fields

/-- The payload of `libfs_create`. -/
def libfsCreate (env : Env) (args : CreateArgs) : C Bytes :=
  copyBuf env (4 + 4 + 8 + args.filename.bytes.length + 1)
    [unsignedField.write args.fileOwner, unsignedField.write args.fileGroup,
      longField.write args.accessMode, nameField.write args.filename]

/-- The payload of `libfs_rename`, which sends no ids. -/
def libfsRename (env : Env) (args : RenameArgs) : C Bytes :=
  copyBuf env (args.oldname.bytes.length + 1 + args.newname.bytes.length + 1)
    [nameField.write args.oldname, nameField.write args.newname]

/-- The payload of `libfs_chmode`. -/
def libfsChmode (env : Env) (args : ChmodeArgs) : C Bytes :=
  copyBuf env (4 + 4 + 8 + args.filename.bytes.length + 1)
    [unsignedField.write args.fileOwner, unsignedField.write args.fileGroup,
      longField.write args.accessMode, nameField.write args.filename]

/-- The payload of `libfs_stat`. -/
def libfsStat (env : Env) (args : StatArgs) : C Bytes :=
  copyBuf env (4 + 4 + args.filename.bytes.length + 1)
    [unsignedField.write args.fileOwner, unsignedField.write args.fileGroup,
      nameField.write args.filename]

/-- The payload of `libfs_link`. -/
def libfsLink (env : Env) (args : LinkArgs) : C Bytes :=
  copyBuf env (4 + 4 + args.filename.bytes.length + 1 + args.linkname.bytes.length + 1)
    [unsignedField.write args.fileOwner, unsignedField.write args.fileGroup,
      nameField.write args.filename, nameField.write args.linkname]

/-- The payload of `libfs_symlink`. -/
def libfsSymlink (env : Env) (args : SymlinkArgs) : C Bytes :=
  copyBuf env (4 + 4 + 8 + args.filename.bytes.length + 1 + args.linkname.bytes.length + 1)
    [unsignedField.write args.fileOwner, unsignedField.write args.fileGroup,
      longField.write args.mode, nameField.write args.filename, nameField.write args.linkname]

/-- The payload of `libfs_open`. -/
def libfsOpen (env : Env) (args : OpenArgs) : C Bytes :=
  copyBuf env (4 + 4 + args.filename.bytes.length + 1 + 4)
    [unsignedField.write args.fileOwner, unsignedField.write args.fileGroup,
      nameField.write args.filename, intField.write args.flags]

/-- The payload of `libfs_close`. -/
def libfsClose (env : Env) (args : CloseArgs) : C Bytes :=
  copyBuf env (4 + 4 + 4)
    [unsignedField.write args.fileOwner, unsignedField.write args.fileGroup,
      unsignedField.write args.fd]

/-- The payload of `libfs_write`, with `size` bytes of the caller's buffer. -/
def libfsWrite (env : Env) (args : WriteArgs) : C Bytes := do
  let buf ← slice args.data 0 args.size
  copyBuf env (4 + 4 + 4 + 4 + args.size)
    [unsignedField.write args.fileOwner, unsignedField.write args.fileGroup,
      unsignedField.write args.fd, unsignedField.write args.size, buf]

/-- The payload of `libfs_read`. -/
def libfsRead (env : Env) (args : ReadArgs) : C Bytes :=
  copyBuf env (4 + 4 + 4 + 4)
    [unsignedField.write args.fileOwner, unsignedField.write args.fileGroup,
      unsignedField.write args.fd, unsignedField.write args.size]

/-- The payload of `libfs_seek`. -/
def libfsSeek (env : Env) (args : SeekArgs) : C Bytes :=
  copyBuf env (4 + 4 + 4 + 4)
    [unsignedField.write args.fileOwner, unsignedField.write args.fileGroup,
      unsignedField.write args.fd, unsignedField.write args.offset]

/-- The payload of `libfs_unlink`. -/
def libfsUnlink (env : Env) (args : UnlinkArgs) : C Bytes :=
  copyBuf env (4 + 4 + args.name.bytes.length + 1)
    [unsignedField.write args.fileOwner, unsignedField.write args.fileGroup,
      nameField.write args.name]

/-! ## Arguments of `operations.c`

    The first lines of each handler, which fill its `args`.  The offset of
    each read is the value of `copy_off` there. -/

/-- The arguments of `service_create`. -/
def serviceCreateArgs (data : Bytes) : C CreateArgs := do
  let fileOwner ← unsignedField.read data 0
  let fileGroup ← unsignedField.read data 4
  let accessMode ← longField.read data 8
  let filename ← nameField.read data 16
  .ok ⟨fileOwner, fileGroup, accessMode, filename⟩

/-- The arguments of `service_rename`. -/
def serviceRenameArgs (data : Bytes) : C RenameArgs := do
  let oldname ← nameField.read data 0
  let newname ← nameField.read data (oldname.bytes.length + 1)
  .ok ⟨oldname, newname⟩

/-- The arguments of `service_chmode`. -/
def serviceChmodeArgs (data : Bytes) : C ChmodeArgs := do
  let fileOwner ← unsignedField.read data 0
  let fileGroup ← unsignedField.read data 4
  let accessMode ← longField.read data 8
  let filename ← nameField.read data 16
  .ok ⟨fileOwner, fileGroup, accessMode, filename⟩

/-- The arguments of `service_stat`. -/
def serviceStatArgs (data : Bytes) : C StatArgs := do
  let fileOwner ← unsignedField.read data 0
  let fileGroup ← unsignedField.read data 4
  let filename ← nameField.read data 8
  .ok ⟨fileOwner, fileGroup, filename⟩

/-- The arguments of `service_link`. -/
def serviceLinkArgs (data : Bytes) : C LinkArgs := do
  let fileOwner ← unsignedField.read data 0
  let fileGroup ← unsignedField.read data 4
  let filename ← nameField.read data 8
  let linkname ← nameField.read data (8 + (filename.bytes.length + 1))
  .ok ⟨fileOwner, fileGroup, filename, linkname⟩

/-- The arguments of `service_symlink`. -/
def serviceSymlinkArgs (data : Bytes) : C SymlinkArgs := do
  let fileOwner ← unsignedField.read data 0
  let fileGroup ← unsignedField.read data 4
  let mode ← longField.read data 8
  let filename ← nameField.read data 16
  let linkname ← nameField.read data (16 + (filename.bytes.length + 1))
  .ok ⟨fileOwner, fileGroup, mode, filename, linkname⟩

/-- The arguments of `service_open`. -/
def serviceOpenArgs (data : Bytes) : C OpenArgs := do
  let fileOwner ← unsignedField.read data 0
  let fileGroup ← unsignedField.read data 4
  let filename ← nameField.read data 8
  let flags ← intField.read data (8 + (filename.bytes.length + 1))
  .ok ⟨fileOwner, fileGroup, filename, flags⟩

/-- The arguments of `service_close`. -/
def serviceCloseArgs (data : Bytes) : C CloseArgs := do
  let fileOwner ← unsignedField.read data 0
  let fileGroup ← unsignedField.read data 4
  let fd ← unsignedField.read data 8
  .ok ⟨fileOwner, fileGroup, fd⟩

/-- The arguments of `service_write`, with as many bytes as its `size` says. -/
def serviceWriteArgs (data : Bytes) : C WriteArgs := do
  let fileOwner ← unsignedField.read data 0
  let fileGroup ← unsignedField.read data 4
  let fd ← unsignedField.read data 8
  let size ← unsignedField.read data 12
  let bytes ← slice data 16 size
  .ok ⟨fileOwner, fileGroup, fd, size, bytes⟩

/-- The arguments of `service_read`. -/
def serviceReadArgs (data : Bytes) : C ReadArgs := do
  let fileOwner ← unsignedField.read data 0
  let fileGroup ← unsignedField.read data 4
  let fd ← unsignedField.read data 8
  let size ← unsignedField.read data 12
  .ok ⟨fileOwner, fileGroup, fd, size⟩

/-- The arguments of `service_seek`. -/
def serviceSeekArgs (data : Bytes) : C SeekArgs := do
  let fileOwner ← unsignedField.read data 0
  let fileGroup ← unsignedField.read data 4
  let fd ← unsignedField.read data 8
  let offset ← unsignedField.read data 12
  .ok ⟨fileOwner, fileGroup, fd, offset⟩

/-- The arguments of `service_unlink`. -/
def serviceUnlinkArgs (data : Bytes) : C UnlinkArgs := do
  let fileOwner ← unsignedField.read data 0
  let fileGroup ← unsignedField.read data 4
  let name ← nameField.read data 8
  .ok ⟨fileOwner, fileGroup, name⟩

/-! ## All operations -/

/-- The type the client writes into the messages of a request. -/
def requestType : Request → RequestType
  | .create _ => .create
  | .chmode _ => .chmode
  | .rename _ => .rename
  | .unlink _ => .unlink
  | .open _ => .open
  | .read _ => .read
  | .write _ => .write
  | .seek _ => .seek
  | .close _ => .close
  | .stat _ => .stat
  | .link _ => .link
  | .symlink _ => .symlink

/-- The payload the client sends for a request. -/
def payload (env : Env) : Request → C Bytes
  | .create args => libfsCreate env args
  | .chmode args => libfsChmode env args
  | .rename args => libfsRename env args
  | .unlink args => libfsUnlink env args
  | .open args => libfsOpen env args
  | .read args => libfsRead env args
  | .write args => libfsWrite env args
  | .seek args => libfsSeek env args
  | .close args => libfsClose env args
  | .stat args => libfsStat env args
  | .link args => libfsLink env args
  | .symlink args => libfsSymlink env args

/-- The handler the `switch` of `operate` picks, up to its arguments. -/
def decode (type : RequestType) (data : Bytes) : C Request :=
  match type with
  | .create => return .create (← serviceCreateArgs data)
  | .chmode => return .chmode (← serviceChmodeArgs data)
  | .rename => return .rename (← serviceRenameArgs data)
  | .unlink => return .unlink (← serviceUnlinkArgs data)
  | .open => return .open (← serviceOpenArgs data)
  | .read => return .read (← serviceReadArgs data)
  | .write => return .write (← serviceWriteArgs data)
  | .seek => return .seek (← serviceSeekArgs data)
  | .close => return .close (← serviceCloseArgs data)
  | .stat => return .stat (← serviceStatArgs data)
  | .link => return .link (← serviceLinkArgs data)
  | .symlink => return .symlink (← serviceSymlinkArgs data)

/-- One round of `operate`, from the slot it was given to the response. -/
def operate (s : State) (env : Env) (req : ServiceReq) : C (State × Response) :=
  match req.data with
  | none => .error .undefinedBehaviour
  | some data => do
      let request ← decode req.type data
      handle s env request

/-! ## What is sent is what is read -/

/-- The arguments of a request are values of their C types, the payload is
    shorter than 4 GiB, and the data of a `WRITE` are the `size` bytes at the
    caller's `buf`. -/
def InRange : Request → Prop
  | .create args =>
      args.fileOwner < 256 ^ 4 ∧ args.fileGroup < 256 ^ 4 ∧ longField.fits args.accessMode
  | .chmode args =>
      args.fileOwner < 256 ^ 4 ∧ args.fileGroup < 256 ^ 4 ∧ longField.fits args.accessMode
  | .rename _ => True
  | .unlink args => args.fileOwner < 256 ^ 4 ∧ args.fileGroup < 256 ^ 4
  | .open args => args.fileOwner < 256 ^ 4 ∧ args.fileGroup < 256 ^ 4 ∧ intField.fits args.flags
  | .read args =>
      args.fileOwner < 256 ^ 4 ∧ args.fileGroup < 256 ^ 4 ∧ args.fd < 256 ^ 4 ∧ args.size < 256 ^ 4
  | .write args =>
      args.fileOwner < 256 ^ 4 ∧ args.fileGroup < 256 ^ 4 ∧ args.fd < 256 ^ 4 ∧
        args.data.length = args.size ∧ 16 + args.size < 4294967296
  | .seek args =>
      args.fileOwner < 256 ^ 4 ∧ args.fileGroup < 256 ^ 4 ∧ args.fd < 256 ^ 4 ∧ args.offset < 256 ^ 4
  | .close args => args.fileOwner < 256 ^ 4 ∧ args.fileGroup < 256 ^ 4 ∧ args.fd < 256 ^ 4
  | .stat args => args.fileOwner < 256 ^ 4 ∧ args.fileGroup < 256 ^ 4
  | .link args => args.fileOwner < 256 ^ 4 ∧ args.fileGroup < 256 ^ 4
  | .symlink args => args.fileOwner < 256 ^ 4 ∧ args.fileGroup < 256 ^ 4 ∧ longField.fits args.mode

/-- The client builds a payload from which the handler reads the same
    arguments. -/
def Survives (env : Env) (r : Request) : Prop :=
  ∃ data, payload env r = .ok data ∧ data.length < 4294967296 ∧
    decode (requestType r) data = .ok r

/-- Fields that make up all of the buffer stand in the payload one behind the
    other. -/
theorem survives_of_fields {env : Env} {r : Request} {dataSize : Nat} {fields : List Bytes}
    (hp : payload env r = copyBuf env dataSize fields) (hsize : dataSize < 4294967296)
    (hlen : fields.flatten.length = dataSize)
    (hread : ∀ data, Stands data 0 fields.flatten → decode (requestType r) data = .ok r) :
    Survives env r := by
  refine ⟨fields.flatten, ?_, ?_, hread _ (Stands.start _)⟩
  · rw [hp]
    unfold copyBuf
    rw [copyAll_of_fits fields]
    · rfl
    · rw [Env.malloc_length, u32_of_lt hsize, hlen, Nat.zero_add]
  · rw [hlen]
    exact hsize

/-- All requests but `RENAME` begin with the ids of the caller. -/
theorem ids_read {data rest : Bytes} {owner group : Nat} (howner : owner < 256 ^ 4)
    (hgroup : group < 256 ^ 4)
    (hs : Stands data 0 (unsignedField.write owner ++ (unsignedField.write group ++ rest))) :
    unsignedField.read data 0 = .ok owner ∧ unsignedField.read data 4 = .ok group ∧
      Stands data 8 rest := by
  obtain ⟨h0, hs⟩ := unsignedField.read_next howner hs
  obtain ⟨h4, hs⟩ := unsignedField.read_next hgroup hs
  exact ⟨h0, h4, hs⟩

section Layouts

variable {env : Env} {r : Request} {owner group : Nat}

/-- The ids, a mode and a name. -/
theorem mode_survives {mode : Int} {name : Filename} (howner : owner < 256 ^ 4)
    (hgroup : group < 256 ^ 4) (hmode : longField.fits mode)
    (hp : payload env r = copyBuf env (4 + 4 + 8 + name.bytes.length + 1)
      [unsignedField.write owner, unsignedField.write group, longField.write mode,
        nameField.write name])
    (hread : ∀ data, unsignedField.read data 0 = .ok owner → unsignedField.read data 4 = .ok group →
      longField.read data 8 = .ok mode → nameField.read data 16 = .ok name →
      decode (requestType r) data = .ok r) : Survives env r := by
  have hname : name.bytes.length < 256 := name.short
  refine survives_of_fields hp ?_ ?_ ?_
  · omega
  · simp
    omega
  · intro data hs
    obtain ⟨h0, h4, hs⟩ := ids_read howner hgroup hs
    obtain ⟨h8, hs⟩ : _ ∧ Stands data 16 _ := longField.read_next hmode hs
    obtain ⟨h16, -⟩ := nameField.read_next trivial hs
    exact hread data h0 h4 h8 h16

/-- The ids and a name. -/
theorem name_survives {name : Filename} (howner : owner < 256 ^ 4) (hgroup : group < 256 ^ 4)
    (hp : payload env r = copyBuf env (4 + 4 + name.bytes.length + 1)
      [unsignedField.write owner, unsignedField.write group, nameField.write name])
    (hread : ∀ data, unsignedField.read data 0 = .ok owner → unsignedField.read data 4 = .ok group →
      nameField.read data 8 = .ok name → decode (requestType r) data = .ok r) : Survives env r := by
  have hname : name.bytes.length < 256 := name.short
  refine survives_of_fields hp ?_ ?_ ?_
  · omega
  · simp
    omega
  · intro data hs
    obtain ⟨h0, h4, hs⟩ := ids_read howner hgroup hs
    obtain ⟨h8, -⟩ := nameField.read_next trivial hs
    exact hread data h0 h4 h8

/-- The ids, a descriptor and a number. -/
theorem number_survives {fd number : Nat} (howner : owner < 256 ^ 4) (hgroup : group < 256 ^ 4)
    (hfd : fd < 256 ^ 4) (hnumber : number < 256 ^ 4)
    (hp : payload env r = copyBuf env (4 + 4 + 4 + 4)
      [unsignedField.write owner, unsignedField.write group, unsignedField.write fd,
        unsignedField.write number])
    (hread : ∀ data, unsignedField.read data 0 = .ok owner → unsignedField.read data 4 = .ok group →
      unsignedField.read data 8 = .ok fd → unsignedField.read data 12 = .ok number →
      decode (requestType r) data = .ok r) : Survives env r := by
  refine survives_of_fields hp ?_ ?_ ?_
  · decide
  · simp
  · intro data hs
    obtain ⟨h0, h4, hs⟩ := ids_read howner hgroup hs
    obtain ⟨h8, hs⟩ : _ ∧ Stands data 12 _ := unsignedField.read_next hfd hs
    obtain ⟨h12, -⟩ := unsignedField.read_next hnumber hs
    exact hread data h0 h4 h8 h12

end Layouts

theorem create_survives (env : Env) {args : CreateArgs} (h : InRange (.create args)) :
    Survives env (.create args) := by
  obtain ⟨howner, hgroup, hmode⟩ := h
  refine mode_survives howner hgroup hmode rfl ?_
  intro data h0 h4 h8 h16
  show (serviceCreateArgs data >>= _) = _
  rw [serviceCreateArgs, h0, ok_bind, h4, ok_bind, h8, ok_bind, h16]
  rfl

theorem chmode_survives (env : Env) {args : ChmodeArgs} (h : InRange (.chmode args)) :
    Survives env (.chmode args) := by
  obtain ⟨howner, hgroup, hmode⟩ := h
  refine mode_survives howner hgroup hmode rfl ?_
  intro data h0 h4 h8 h16
  show (serviceChmodeArgs data >>= _) = _
  rw [serviceChmodeArgs, h0, ok_bind, h4, ok_bind, h8, ok_bind, h16]
  rfl

/-- The two names of a `RENAME` are all it sends. -/
theorem rename_survives (env : Env) {args : RenameArgs} :
    Survives env (.rename args) := by
  have holdname : args.oldname.bytes.length < 256 := args.oldname.short
  have hnewname : args.newname.bytes.length < 256 := args.newname.short
  refine survives_of_fields rfl ?_ ?_ ?_
  · omega
  · simp
    omega
  · intro data hs
    obtain ⟨h0, hs⟩ := nameField.read_next trivial hs
    rw [Nat.zero_add, nameField_size] at hs
    obtain ⟨h1, -⟩ := nameField.read_next trivial hs
    show (serviceRenameArgs data >>= _) = _
    rw [serviceRenameArgs, h0, ok_bind, h1]
    rfl

theorem unlink_survives (env : Env) {args : UnlinkArgs} (h : InRange (.unlink args)) :
    Survives env (.unlink args) := by
  refine name_survives h.1 h.2 rfl ?_
  intro data h0 h4 h8
  show (serviceUnlinkArgs data >>= _) = _
  rw [serviceUnlinkArgs, h0, ok_bind, h4, ok_bind, h8]
  rfl

theorem stat_survives (env : Env) {args : StatArgs} (h : InRange (.stat args)) :
    Survives env (.stat args) := by
  refine name_survives h.1 h.2 rfl ?_
  intro data h0 h4 h8
  show (serviceStatArgs data >>= _) = _
  rw [serviceStatArgs, h0, ok_bind, h4, ok_bind, h8]
  rfl

/-- The flags of an `OPEN` stand behind a name of any length. -/
theorem open_survives (env : Env) {args : OpenArgs} (h : InRange (.open args)) :
    Survives env (.open args) := by
  obtain ⟨howner, hgroup, hflags⟩ := h
  have hfilename : args.filename.bytes.length < 256 := args.filename.short
  refine survives_of_fields rfl ?_ ?_ ?_
  · omega
  · simp
    omega
  · intro data hs
    obtain ⟨h0, h4, hs⟩ := ids_read howner hgroup hs
    obtain ⟨h8, hs⟩ := nameField.read_next trivial hs
    rw [nameField_size] at hs
    obtain ⟨hat, -⟩ := intField.read_next hflags hs
    show (serviceOpenArgs data >>= _) = _
    rw [serviceOpenArgs, h0, ok_bind, h4, ok_bind, h8, ok_bind, hat]
    rfl

theorem read_survives (env : Env) {args : ReadArgs} (h : InRange (.read args)) :
    Survives env (.read args) := by
  obtain ⟨howner, hgroup, hfd, hsize⟩ := h
  refine number_survives howner hgroup hfd hsize rfl ?_
  intro data h0 h4 h8 h12
  show (serviceReadArgs data >>= _) = _
  rw [serviceReadArgs, h0, ok_bind, h4, ok_bind, h8, ok_bind, h12]
  rfl

theorem seek_survives (env : Env) {args : SeekArgs} (h : InRange (.seek args)) :
    Survives env (.seek args) := by
  obtain ⟨howner, hgroup, hfd, hoffset⟩ := h
  refine number_survives howner hgroup hfd hoffset rfl ?_
  intro data h0 h4 h8 h12
  show (serviceSeekArgs data >>= _) = _
  rw [serviceSeekArgs, h0, ok_bind, h4, ok_bind, h8, ok_bind, h12]
  rfl

theorem close_survives (env : Env) {args : CloseArgs} (h : InRange (.close args)) :
    Survives env (.close args) := by
  obtain ⟨howner, hgroup, hfd⟩ := h
  refine survives_of_fields rfl ?_ ?_ ?_
  · decide
  · simp
  · intro data hs
    obtain ⟨h0, h4, hs⟩ := ids_read howner hgroup hs
    obtain ⟨h8, -⟩ := unsignedField.read_next hfd hs
    show (serviceCloseArgs data >>= _) = _
    rw [serviceCloseArgs, h0, ok_bind, h4, ok_bind, h8]
    rfl

/-- The second name of a `LINK` stands behind the first. -/
theorem link_survives (env : Env) {args : LinkArgs} (h : InRange (.link args)) :
    Survives env (.link args) := by
  obtain ⟨howner, hgroup⟩ := h
  have hfilename : args.filename.bytes.length < 256 := args.filename.short
  have hlinkname : args.linkname.bytes.length < 256 := args.linkname.short
  refine survives_of_fields rfl ?_ ?_ ?_
  · omega
  · simp
    omega
  · intro data hs
    obtain ⟨h0, h4, hs⟩ := ids_read howner hgroup hs
    obtain ⟨h8, hs⟩ := nameField.read_next trivial hs
    rw [nameField_size] at hs
    obtain ⟨hat, -⟩ := nameField.read_next trivial hs
    show (serviceLinkArgs data >>= _) = _
    rw [serviceLinkArgs, h0, ok_bind, h4, ok_bind, h8, ok_bind, hat]
    rfl

/-- A `SYMLINK` sends its mode in front of the two names. -/
theorem symlink_survives (env : Env) {args : SymlinkArgs} (h : InRange (.symlink args)) :
    Survives env (.symlink args) := by
  obtain ⟨howner, hgroup, hmode⟩ := h
  have hfilename : args.filename.bytes.length < 256 := args.filename.short
  have hlinkname : args.linkname.bytes.length < 256 := args.linkname.short
  refine survives_of_fields rfl ?_ ?_ ?_
  · omega
  · simp
    omega
  · intro data hs
    obtain ⟨h0, h4, hs⟩ := ids_read howner hgroup hs
    obtain ⟨h8, hs⟩ : _ ∧ Stands data 16 _ := longField.read_next hmode hs
    obtain ⟨h16, hs⟩ := nameField.read_next trivial hs
    rw [nameField_size] at hs
    obtain ⟨hat, -⟩ := nameField.read_next trivial hs
    show (serviceSymlinkArgs data >>= _) = _
    rw [serviceSymlinkArgs, h0, ok_bind, h4, ok_bind, h8, ok_bind, h16, ok_bind, hat]
    rfl

/-- The data follow the four numbers and end the payload. -/
theorem write_survives (env : Env) {args : WriteArgs} (h : InRange (.write args)) :
    Survives env (.write args) := by
  obtain ⟨howner, hgroup, hfd, hdata, hsize⟩ := h
  have hbuf : slice args.data 0 args.size = .ok args.data := by
    rw [slice_of_le (by omega), List.drop_zero, ← hdata, List.take_length]
  have hp : payload env (.write args) = copyBuf env (4 + 4 + 4 + 4 + args.size)
      [unsignedField.write args.fileOwner, unsignedField.write args.fileGroup,
        unsignedField.write args.fd, unsignedField.write args.size, args.data] := by
    show libfsWrite env args = _
    rw [libfsWrite, hbuf, ok_bind]
  refine survives_of_fields hp hsize ?_ ?_
  · simp
    omega
  · intro data hs
    have hfits : args.size < 256 ^ 4 := by omega
    obtain ⟨h0, h4, hs⟩ := ids_read howner hgroup hs
    obtain ⟨h8, hs⟩ : _ ∧ Stands data 12 _ := unsignedField.read_next hfd hs
    obtain ⟨h12, hs⟩ : _ ∧ Stands data 16 _ := unsignedField.read_next hfits hs
    have h16 : slice data 16 args.size = .ok args.data := by
      rw [← hdata]
      exact hs.slice
    show (serviceWriteArgs data >>= _) = _
    rw [serviceWriteArgs, h0, ok_bind, h4, ok_bind, h8, ok_bind, h12, ok_bind, h16]
    rfl

/-- So the arguments of every request survive. -/
theorem request_survives (env : Env) {r : Request} (h : InRange r) : Survives env r := by
  cases r with
  | create args => exact create_survives env h
  | chmode args => exact chmode_survives env h
  | rename args => exact rename_survives env
  | unlink args => exact unlink_survives env h
  | «open» args => exact open_survives env h
  | read args => exact read_survives env h
  | write args => exact write_survives env h
  | seek args => exact seek_survives env h
  | close args => exact close_survives env h
  | stat args => exact stat_survives env h
  | link args => exact link_survives env h
  | symlink args => exact symlink_survives env h

/-- For every request with arguments of their C types, the payload the client
    builds holds less than 4 GiB, the handler reads the arguments of the
    request from it, and reads no byte behind it: what the worker does with a
    slot that holds the payload is what the request asks for. -/
theorem arguments_survive (env : Env) {r : Request} (h : InRange r) :
    ∃ data, payload env r = .ok data ∧ data.length < 4294967296 ∧
      decode (requestType r) data = .ok r ∧
      ∀ (s : State) (env' : Env) (req : ServiceReq), req.type = requestType r →
        req.data = some data → operate s env' req = handle s env' r := by
  obtain ⟨data, hdata, hlen, hdecode⟩ := request_survives env h
  refine ⟨data, hdata, hlen, hdecode, ?_⟩
  intro s env' req htype hreq
  unfold operate
  rw [hreq, htype]
  show (decode (requestType r) data >>= _) = _
  rw [hdecode, ok_bind]

/-- A link between two files, asked for with the mode `-1`. -/
theorem arguments_survive_symlink : ∃ data,
    payload stillEnv (.symlink ⟨1000, 1000, -1, nameA, nameB⟩) = .ok data ∧
      decode .symlink data = .ok (.symlink ⟨1000, 1000, -1, nameA, nameB⟩) := by
  have hrange : InRange (.symlink ⟨1000, 1000, -1, nameA, nameB⟩) := by
    refine ⟨by decide, by decide, ?_, ?_⟩
    · decide
    · decide
  obtain ⟨data, hdata, -, hdecode, -⟩ := arguments_survive stillEnv hrange
  exact ⟨data, hdata, hdecode⟩

end LibfsRequests
