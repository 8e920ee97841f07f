import Libfs.Common
import Mathlib.Data.Vector.Basic

/-! # `inode.c`: the tables of the service

    The three linked tables, the block table and the data file, and the
    functions on them.  A function that the handlers call with a table's
    global head pointer takes the whole state. -/

namespace LibfsInode

open LibfsHeap LibfsStdio LibfsCommon

/-- `struct inode_t`, without its links.  The type is the code of a
    `FileType`. -/
structure Inode where
  index : Nat
  type : Nat
  stat : Stat
  mode : Int
  owner : Nat
  ownerGroup : Nat
  refCount : Nat
  dataBlocks : Vector Nat fileMaxBlocks
deriving DecidableEq

/-- `struct descriptor_t`, without its links. -/
structure Descriptor where
  desc : Nat
  mode : OpenMode
  offset : Nat
  nodeIndex : Nat
deriving DecidableEq

/-- `struct filename_inode_t`, without its links. -/
structure FilenameInode where
  nodeIndex : Nat
  filename : Filename
deriving DecidableEq

/-- `struct data_block_t`. -/
structure DataBlock where
  allocated : Bool
  inodeIndex : Nat
deriving DecidableEq

/-- `data_block_table` and the data file, which is missing until the first
    block is written. -/
structure BlockStore where
  dataBlockTable : Vector DataBlock numOfDataBlocks
  data : Option Bytes
deriving DecidableEq

/-- The global variables of the service and its data file. -/
structure State where
  inodeTable : Table Inode
  descriptorTable : Table Descriptor
  filenameTable : Table FilenameInode
  blocks : BlockStore
deriving DecidableEq

/-- The service started for the first time: no table and no data file. -/
def State.init : State where
  inodeTable := .empty
  descriptorTable := .empty
  filenameTable := .empty
  blocks := ⟨Vector.replicate numOfDataBlocks ⟨false, 0⟩, none⟩

/-! ## The filename table -/

/-- `get_inode_index_for_filename`, with what the caller's variable holds
    before. -/
def getInodeIndexForFilename (t : Table FilenameInode) (name : Filename) (nodeIndex : Nat) :
    C (Status × Nat) := do
  match ← t.find (fun e => e.filename = name) with
  | some a => do
      let e ← t.get a
      .ok (.success, e.nodeIndex)
  | none => .ok (.failure, nodeIndex)

/-- `check_if_filename_taken`. -/
def checkIfFilenameTaken (t : Table FilenameInode) (name : Filename) : C Bool := do
  let p ← t.find (fun e => e.filename = name)
  .ok p.isSome

/-- `add_filename_to_table`. -/
def addFilenameToTable (t : Table FilenameInode) (name : Filename) (nodeIndex : Nat) :
    C (Status × Table FilenameInode) := do
  match ← t.find (fun e => e.filename = name) with
  | some _ => .ok (.filenameTaken, t)
  | none => do
      let (_, t) ← t.pushBack fun _ => ⟨nodeIndex, name⟩
      .ok (.success, t)

/-- The head pointer comes by value: the global one is not touched. -/
def removeFilenameFromTable (t : Table FilenameInode) (name : Filename) :
    C (Status × Table FilenameInode) := do
  match ← t.find (fun e => e.filename = name) with
  | some a => do
      let t ← t.detach a
      .ok (.success, t)
  | none => .ok (.failure, t)

/-- `rename_file`. -/
def renameFile (t : Table FilenameInode) (oldname newname : Filename) :
    C (Status × Table FilenameInode) := do
  if ← checkIfFilenameTaken t newname then .ok (.filenameTaken, t)
  else
    match ← t.find (fun e => e.filename = oldname) with
    | some a => do
        let e ← t.get a
        let t ← t.put a { e with filename := newname }
        .ok (.success, t)
    | none => .ok (.failure, t)

/-! ## The descriptor table -/

/-- `add_opened_descriptor`: the number follows that of the last descriptor. -/
def addOpenedDescriptor (t : Table Descriptor) (nodeIndex : Nat) (mode : OpenMode)
    (offset : Nat) : C (Nat × Table Descriptor) := do
  let (a, t) ← t.pushBack fun last =>
    ⟨match last with
      | none => 0
      | some curr => u32 (curr.desc + 1), mode, offset, nodeIndex⟩
  let d ← t.get a
  .ok (d.desc, t)

/-- `look_for_opened_write`. -/
def lookForOpenedWrite (t : Table Descriptor) (nodeIndex : Nat) : C Bool := do
  let p ← t.find (fun d => d.nodeIndex = nodeIndex && d.mode = .writeOnly)
  .ok p.isSome

/-- `remove_descriptor`, which is handed the address of the head pointer. -/
def removeDescriptor (t : Table Descriptor) (desc : Nat) : C (Status × Table Descriptor) := do
  match ← t.find (fun d => d.desc = desc) with
  | some a => do
      let t ← t.remove a
      .ok (.success, t)
  | none => .ok (.failure, t)

/-! ## The block table and the data file -/

/-- The slot `occupyBlockTableSlot` takes: the first one that is not
    allocated. -/
def firstFree (tbl : Vector DataBlock numOfDataBlocks) : Option Nat :=
  tbl.toList.findIdx? fun b => !b.allocated

/-- The data file is opened with `"a+"`; `none` is `FAILURE`, else the slot
    address is returned. -/
def occupyBlockTableSlot (bs : BlockStore) (inodeIndex : Nat) (buf : Bytes) (bufSize : Nat) :
    C (Option (Nat × BlockStore)) :=
  match firstFree bs.dataBlockTable with
  | none => .ok none
  | some i => do
      let src ← slice buf 0 bufSize
      let writeBuf ← poke (List.replicate dataBlockAllocSize 0) 0 src
      .ok (some (i + 1,
        { dataBlockTable := bs.dataBlockTable.setIfInBounds i ⟨true, inodeIndex⟩
          data := some (fwriteAppend (bs.data.getD []) writeBuf) }))

/-- The data file is opened with `"r+"`; `none` is `FAILURE`. -/
def updateBlockTableSlot (bs : BlockStore) (blockIndex : Nat) (buf : Bytes)
    (offset size : Nat) : C (Option BlockStore) :=
  if blockIndex > numOfDataBlocks then .ok none
  else
    match bs.data with
    | none => .error .exitFailure
    | some file => do
        let src ← slice buf 0 size
        .ok (some { bs with
          data := some (fwriteAt file (dataBlockAllocSize * blockIndex + offset) src) })

/-- The data file is opened with `"r+"`; `none` is `FAILURE`, else the bytes
    `fread` delivers are returned. -/
def readBlockTableSlot (bs : BlockStore) (blockIndex offset size : Nat) : C (Option Bytes) :=
  if blockIndex > numOfDataBlocks then .ok none
  else
    match bs.data with
    | none => .error .exitFailure
    | some file => .ok (some (freadAt file (dataBlockAllocSize * blockIndex + offset) size))

/-- The loop of `unlink_inode` that frees blocks up to the first zero. -/
def freeBlocks (tbl : Vector DataBlock numOfDataBlocks) :
    List Nat → C (Vector DataBlock numOfDataBlocks)
  | [] => .ok tbl
  | block :: blocks =>
      if block > 0 then
        if block - 1 < numOfDataBlocks then
          freeBlocks (tbl.setIfInBounds (block - 1) ⟨false, 0⟩) blocks
        else .error .undefinedBehaviour
      else .ok tbl

/-! ## Reading and writing one inode -/

/-- `inode->data_blocks[i]`. -/
def Inode.block (inode : Inode) (i : Nat) : C Nat :=
  match inode.dataBlocks[i]? with
  | some block => .ok block
  | none => .error .undefinedBehaviour

/-- `inode->data_blocks[i] = block`. -/
def Inode.setBlock (inode : Inode) (i block : Nat) : Inode :=
  { inode with dataBlocks := inode.dataBlocks.setIfInBounds i block }

/-- The loop of `write_inode`: `n` blocks from block `i` on. -/
def writeBlocks (buf : Bytes) (offset currentBlock : Nat) :
    Nat → Nat → Nat → Nat → Inode → BlockStore → C (Status × Inode × BlockStore)
  | 0, _, _, _, inode, bs => .ok (.success, inode, bs)
  | n + 1, i, currentOffset, size, inode, bs => do
      let block ← inode.block i
      if i = currentBlock ∧ block ≠ 0 then
        let room := dataBlockAllocSize - offset % dataBlockAllocSize
        let sizeToWrite := if size > room then room else size
        match ← updateBlockTableSlot bs (block - 1) (buf.drop currentOffset)
            (offset % dataBlockAllocSize) sizeToWrite with
        | none => .ok (.failure, inode, bs)
        | some bs =>
            writeBlocks buf offset currentBlock n (i + 1) (currentOffset + sizeToWrite)
              (size - sizeToWrite) inode bs
      else
        let sizeToWrite := if size > dataBlockAllocSize then dataBlockAllocSize else size
        let src ← slice (buf.drop currentOffset) 0 sizeToWrite
        let buffer ← poke (List.replicate dataBlockAllocSize 0) 0 src
        match ← occupyBlockTableSlot bs inode.index buffer sizeToWrite with
        | none => .ok (.failure, inode, bs)
        | some (slotAddress, bs) =>
            writeBlocks buf offset currentBlock n (i + 1) (currentOffset + sizeToWrite)
              (size - sizeToWrite) (inode.setBlock i slotAddress) bs

/-- The number of blocks a file of `n` bytes touches. -/
def totalBlocks (n : Nat) : Nat :=
  n / dataBlockAllocSize + if n % dataBlockAllocSize ≠ 0 then 1 else 0

/-- Returns the inode, the offset and the blocks as the call leaves them. -/
def writeInode (bs : BlockStore) (inode : Inode) (buf : Bytes) (offset size : Nat) :
    C (Status × Inode × Nat × BlockStore) :=
  let currentBlock := offset / dataBlockAllocSize
  let newOffset := u32 (offset + size)
  if newOffset > dataBlockAllocSize * fileMaxBlocks then .ok (.failure, inode, offset, bs)
  else do
    let (st, inode, bs) ← writeBlocks buf offset currentBlock
      (totalBlocks newOffset - currentBlock) currentBlock 0 size inode bs
    if st = .success then
      .ok (.success, { inode with stat.stSize := newOffset }, newOffset, bs)
    else .ok (.failure, inode, offset, bs)

/-- The loop of `read_inode`; every round reads a byte or more, so the number
    of bytes is budget enough. -/
def readBlocks (bs : BlockStore) (inode : Inode) :
    Nat → Nat → Nat → Nat → Nat → Bytes → C (Status × Nat × Bytes)
  | _, _, _, 0, offset, buf => .ok (.success, offset, buf)
  | 0, _, _, _ + 1, _, _ => .error .endlessLoop
  | n + 1, currentBlock, currentOffset, bytesToRead + 1, offset, buf => do
      let room := dataBlockAllocSize - offset % dataBlockAllocSize
      let sizeToRead := if bytesToRead + 1 > room then room else bytesToRead + 1
      let block ← inode.block currentBlock
      match ← readBlockTableSlot bs (u32 (block + 4294967295))
          (offset % dataBlockAllocSize) sizeToRead with
      | none => .ok (.failure, offset, buf)
      | some got => do
          let buf ← poke buf currentOffset got
          readBlocks bs inode n (currentBlock + 1) (currentOffset + sizeToRead)
            (bytesToRead + 1 - sizeToRead) (u32 (offset + sizeToRead)) buf

/-- Returns the offset and the buffer as the call leaves them. -/
def readInode (bs : BlockStore) (inode : Inode) (buf : Bytes) (offset size : Nat) :
    C (Status × Nat × Bytes) :=
  if u32 (offset + size) > dataBlockAllocSize * fileMaxBlocks then
    .ok (.failure, offset, buf)
  else readBlocks bs inode size (offset / dataBlockAllocSize) 0 size offset buf

end LibfsInode
