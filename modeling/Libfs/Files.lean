import Libfs.Inode

/-! # `inode.c`: files, links and descriptors

    The functions that combine the tables.  Where the source assigns an
    inode's times, the model asks the clock of the request; the number is the
    position of that `clock_gettime` among those of the request. -/

namespace LibfsInode

open LibfsHeap LibfsStdio LibfsCommon

/-- `add_inode`: the new inode's index follows that of the last one. -/
def addInode (t : Table Inode) (type : Nat) (owner ownerGroup refCount : Nat) (mode : Int)
    (stSize : Int) (stAtim stMtim stCtim : Timespec) : C (Nat × Table Inode) := do
  let (a, t) ← t.pushBack fun last =>
    { index := match last with
        | none => 0
        | some curr => u32 (curr.index + 1)
      type := type
      stat := ⟨stSize, stAtim, stMtim, stCtim⟩
      mode := mode
      owner := owner
      ownerGroup := ownerGroup
      refCount := refCount
      dataBlocks := Vector.replicate fileMaxBlocks 0 }
  let inode ← t.get a
  .ok (inode.index, t)

/-- What `get_file_owner_group_permissions` returns; a caller that is refused
    keeps the zeros it initialised its variables with. -/
structure OwnerGroupPerms where
  owner : Nat
  group : Nat
  perms : Int
deriving DecidableEq

/-- The source compares with `-1`, which `getInodeIndexForFilename` never
    returns: a missing name leaves `nodeIndex` at zero and the walk goes on. -/
def getFileOwnerGroupPermissions (s : State) (name : Filename) : C (Status × OwnerGroupPerms) := do
  let (found, nodeIndex) ← getInodeIndexForFilename s.filenameTable name 0
  if found.code = -1 then .ok (.fileNotFound, ⟨0, 0, 0⟩)
  else
    match ← s.inodeTable.find (fun i => i.index = nodeIndex) with
    | some a => do
        let inode ← s.inodeTable.get a
        .ok (.success, ⟨inode.owner, inode.ownerGroup, inode.mode⟩)
    | none => .ok (.failure, ⟨0, 0, 0⟩)

/-- `get_file_stat_from_inode`, which fills the caller's structure before it
    sets the access time. -/
def getFileStatFromInode (s : State) (env : Env) (name : Filename) :
    C (Status × Option Stat × State) := do
  let (found, nodeIndex) ← getInodeIndexForFilename s.filenameTable name 0
  if found.code = -1 then .ok (.fileNotFound, none, s)
  else
    match ← s.inodeTable.find (fun i => i.index = nodeIndex) with
    | some a => do
        let inode ← s.inodeTable.get a
        let inodeTable ← s.inodeTable.put a { inode with stat.stAtim := env.clock 0 }
        .ok (.success, some inode.stat, { s with inodeTable := inodeTable })
    | none => .ok (.failure, none, s)

/-- The mode comes as an `unsigned`. -/
def chmodInode (s : State) (env : Env) (name : Filename) (mode : Int) : C (Status × State) := do
  let (found, nodeIndex) ← getInodeIndexForFilename s.filenameTable name 0
  if found = .failure then .ok (.fileNotFound, s)
  else
    match ← s.inodeTable.find (fun i => i.index = nodeIndex) with
    | some a => do
        let inode ← s.inodeTable.get a
        let inodeTable ← s.inodeTable.put a { inode with
          mode := mode % 4294967296
          stat.stAtim := env.clock 0
          stat.stCtim := env.clock 0 }
        .ok (.success, { s with inodeTable := inodeTable })
    | none => .ok (.failure, s)

/-- `unlink_inode`.  The inode is detached from a head pointer that came by
    value, and so is the filename. -/
def unlinkInode (s : State) (env : Env) (name : Filename) : C (Status × State) := do
  let (found, nodeIndex) ← getInodeIndexForFilename s.filenameTable name 0
  if found ≠ .success then .ok (.fileNotFound, s)
  else
    match ← s.inodeTable.find (fun i => i.index = nodeIndex) with
    | some a => do
        let inode ← s.inodeTable.get a
        let inode := { inode with
          stat.stAtim := env.clock 0
          stat.stCtim := env.clock 0
          refCount := u32 (inode.refCount + 4294967295) }
        let inodeTable ← s.inodeTable.put a inode
        if inode.refCount = 0 then
          let dataBlockTable ← freeBlocks s.blocks.dataBlockTable inode.dataBlocks.toList
          let inodeTable ← inodeTable.detach a
          let (_, filenameTable) ← removeFilenameFromTable s.filenameTable name
          .ok (.success, { s with
            inodeTable := inodeTable
            filenameTable := filenameTable
            blocks := { s.blocks with dataBlockTable := dataBlockTable } })
        else
          let (_, filenameTable) ← removeFilenameFromTable s.filenameTable name
          .ok (.success, { s with inodeTable := inodeTable, filenameTable := filenameTable })
    | none => .ok (.failure, s)

/-- `open_inode`, which goes on with the index zero for a missing name. -/
def openInode (s : State) (env : Env) (name : Filename) (mode : OpenMode) :
    C (Status × Nat × State) := do
  let (found, nodeIndex) ← getInodeIndexForFilename s.filenameTable name 0
  if found.code = -1 then .ok (.fileNotFound, 0, s)
  else if ← lookForOpenedWrite s.descriptorTable nodeIndex then .ok (.doubleWrite, 0, s)
  else
    match ← s.inodeTable.find (fun i => i.index = nodeIndex) with
    | some a => do
        let (fd, descriptorTable) ← addOpenedDescriptor s.descriptorTable nodeIndex mode 0
        let inode ← s.inodeTable.get a
        let inodeTable ← s.inodeTable.put a { inode with stat.stAtim := env.clock 0 }
        .ok (.success, fd, { s with
          inodeTable := inodeTable
          descriptorTable := descriptorTable })
    | none => .ok (.failure, 0, s)

/-- `write_inode_fd`, which sets the times before it writes. -/
def writeInodeFd (s : State) (env : Env) (fd : Nat) (buf : Bytes) (size : Nat) :
    C (Status × State) := do
  match ← s.descriptorTable.find (fun d => d.desc = fd) with
  | none => .ok (.failure, s)
  | some d => do
      let desc ← s.descriptorTable.get d
      if desc.mode = .readOnly then .ok (.failure, s)
      else
        match ← s.inodeTable.find (fun i => i.index = desc.nodeIndex) with
        | none => .ok (.failure, s)
        | some a => do
            let inode ← s.inodeTable.get a
            let inode := { inode with
              stat.stAtim := env.clock 0
              stat.stMtim := env.clock 0 }
            let (st, inode, offset, blocks) ← writeInode s.blocks inode buf desc.offset size
            let inodeTable ← s.inodeTable.put a inode
            let descriptorTable ← s.descriptorTable.put d { desc with offset := offset }
            .ok (if st = .success then .success else .failure, { s with
              inodeTable := inodeTable
              descriptorTable := descriptorTable
              blocks := blocks })

/-- Also returns the caller's buffer as the call leaves it. -/
def readInodeFd (s : State) (env : Env) (fd : Nat) (buf : Bytes) (size : Nat) :
    C (Status × Bytes × State) := do
  match ← s.descriptorTable.find (fun d => d.desc = fd) with
  | none => .ok (.failure, buf, s)
  | some d => do
      let desc ← s.descriptorTable.get d
      match ← s.inodeTable.find (fun i => i.index = desc.nodeIndex) with
      | none => .ok (.failure, buf, s)
      | some a => do
          let inode ← s.inodeTable.get a
          let inode := { inode with stat.stAtim := env.clock 0 }
          let inodeTable ← s.inodeTable.put a inode
          let (st, offset, buf) ← readInode s.blocks inode buf desc.offset size
          let descriptorTable ← s.descriptorTable.put d { desc with offset := offset }
          .ok (if st = .success then .success else .failure, buf, { s with
            inodeTable := inodeTable
            descriptorTable := descriptorTable })

/-- `seek_inode_fd`. -/
def seekInodeFd (s : State) (fd offset : Nat) : C (Status × State) := do
  match ← s.descriptorTable.find (fun d => d.desc = fd) with
  | none => .ok (.failure, s)
  | some d => do
      let desc ← s.descriptorTable.get d
      match ← s.inodeTable.find (fun i => i.index = desc.nodeIndex) with
      | none => .ok (.failure, s)
      | some a => do
          let inode ← s.inodeTable.get a
          if (offset : Int) > inode.stat.stSize then .ok (.failure, s)
          else
            let descriptorTable ← s.descriptorTable.put d { desc with offset := offset }
            .ok (.success, { s with descriptorTable := descriptorTable })

/-- `close_inode`. -/
def closeInode (s : State) (fd : Nat) : C (Status × State) := do
  let (st, descriptorTable) ← removeDescriptor s.descriptorTable fd
  .ok (if st = .success then .success else .failure, { s with descriptorTable := descriptorTable })

/-- `create_hard_link`. -/
def createHardLink (s : State) (env : Env) (name newName : Filename) : C (Status × State) := do
  let (found, nodeIndex) ← getInodeIndexForFilename s.filenameTable name 0
  if found.code = -1 then .ok (.fileNotFound, s)
  else if ← checkIfFilenameTaken s.filenameTable newName then .ok (.filenameTaken, s)
  else
    match ← s.inodeTable.find (fun i => i.index = nodeIndex) with
    | some a => do
        let inode ← s.inodeTable.get a
        let (_, filenameTable) ← addFilenameToTable s.filenameTable newName inode.index
        let inodeTable ← s.inodeTable.put a { inode with
          refCount := u32 (inode.refCount + 1)
          stat.stAtim := env.clock 0
          stat.stCtim := env.clock 0 }
        .ok (.success, { s with inodeTable := inodeTable, filenameTable := filenameTable })
    | none => .ok (.failure, s)

/-- Assignments to the node a search returned, if it returned one. -/
def updateFound (t : Table Inode) (p : Ptr) (f : Inode → Inode) : C (Table Inode) :=
  match p with
  | some a => do
      let inode ← t.get a
      t.put a (f inode)
  | none => .ok t

/-- The two searches of `create_soft_link`: the parent's access time is set
    and the child's reference count goes up. -/
def linkParentAndChild (t : Table Inode) (env : Env) (head : Ptr) (parentIndex childIndex : Nat) :
    C (Ptr × Ptr × Table Inode) := do
  let parent ← t.findAt head (fun i => i.index = parentIndex)
  let t ← updateFound t parent fun i => { i with stat.stAtim := env.clock 1 }
  let child ← t.findAt head (fun i => i.index = childIndex)
  let t ← updateFound t child fun i => { i with refCount := u32 (i.refCount + 1) }
  .ok (parent, child, t)

/-- The copy at the end of `create_soft_link`. -/
def copyContents (s : State) (parent child : Nat) : C (Status × State) := do
  let parentNode ← s.inodeTable.get parent
  let size := (parentNode.stat.stSize % 4294967296).toNat
  if parentNode.stat.stSize < 0 then .error .undefinedBehaviour
  else
    let buf := List.replicate parentNode.stat.stSize.toNat 0
    let (st, _, buf) ← readInode s.blocks parentNode buf 0 size
    if st ≠ .success then .ok (.failure, s)
    else
      let childNode ← s.inodeTable.get child
      let (st, childNode, _, blocks) ← writeInode s.blocks childNode buf 0 size
      let inodeTable ← s.inodeTable.put child childNode
      .ok (if st = .success then .success else .failure, { s with
        inodeTable := inodeTable
        blocks := blocks })

/-- `create_soft_link`.  The searches start from the head pointer the caller
    passed, the new inode hangs on the global one. -/
def createSoftLink (s : State) (env : Env) (name newName : Filename) (owner ownerGroup : Nat)
    (mode : Int) : C (Status × State) := do
  let head := s.inodeTable.head
  let (found, parentIndex) ← getInodeIndexForFilename s.filenameTable name 0
  if found ≠ .success then .ok (.fileNotFound, s)
  else if ← checkIfFilenameTaken s.filenameTable newName then .ok (.filenameTaken, s)
  else
    let now := env.clock 0
    let (childIndex, inodeTable) ←
      addInode s.inodeTable FileType.fSymlink.code owner ownerGroup 0 mode 0 now now now
    let (st, filenameTable) ← addFilenameToTable s.filenameTable newName childIndex
    if st ≠ .success then .ok (.failure, { s with inodeTable := inodeTable })
    else
      let (parent, child, inodeTable) ←
        linkParentAndChild inodeTable env head parentIndex childIndex
      let s := { s with inodeTable := inodeTable, filenameTable := filenameTable }
      match parent, child with
      | some parent, some child => copyContents s parent child
      | _, _ => .ok (.failure, s)

end LibfsInode
