import Libfs.SavedTables
import Libfs.Operations

/-! # `main`: the tables between two runs of the service

    The service opens three tables from the files it finds and prints them to
    these files at its end.  The data file stays where it is, and the
    descriptors are forgotten. -/

namespace LibfsOperations

open LibfsHeap LibfsStdio LibfsCommon LibfsInode LibfsRun

/-- The files in the directory of the service; `none` is a missing one. -/
structure Saved where
  inodes : Option Bytes
  dataBlocks : Option Bytes
  filenames : Option Bytes
  data : Option Bytes
deriving DecidableEq

/-- The start of `main`, which does not look at what the functions return. -/
def openTables (files : Saved) : C State := do
  let inodeTable ← openInodeTable files.inodes .empty
  let (_, dataBlockTable) ← openDataBlockTable files.dataBlocks
  let filenameTable ← openFilenameTable files.filenames .empty
  .ok ⟨inodeTable, .empty, filenameTable, ⟨dataBlockTable, files.data⟩⟩

/-- The nodes are freed one after the other. -/
def closeFileDescriptorsTable (t : Table Descriptor) : C Unit := do
  let _ ← t.values
  .ok ()

/-- The end of `main`. -/
def closeTables (s : State) : C Saved := do
  let inodes ← closeInodeTable s.inodeTable
  closeFileDescriptorsTable s.descriptorTable
  let dataBlocks := closeDataBlockTable s.blocks.dataBlockTable
  let filenames ← closeFilenameTable s.filenameTable
  .ok ⟨some inodes, some dataBlocks, some filenames, s.blocks.data⟩

/-- The service ends and is started again. -/
def restart (s : State) : C State := closeTables s >>= openTables

/-- Without any files the service starts empty. -/
theorem openTables_none : openTables ⟨none, none, none, none⟩ = .ok State.init := rfl

/-- What happens to the service: a request, or a restart. -/
inductive LifeEvent where
  | request (e : Event)
  | restart

/-- What happens leads to this state. -/
def LifeStep (s : State) : LifeEvent → State → Prop
  | .request e, s' => Step s e s'
  | .restart, s' => restart s = .ok s'

end LibfsOperations
