import Libfs.Stdio

/-! # Constants and records of `common.h`

    `unsigned` values are naturals and `long` values are integers; the
    arithmetic that can wrap says so with `u32`. -/

namespace LibfsCommon

open LibfsHeap LibfsStdio

/-- `MAX_FILENAME_LEN`. -/
abbrev maxFilenameLen : Nat := 256

/-- `DATA_BLOCK_ALLOC_SIZE`. -/
abbrev dataBlockAllocSize : Nat := 4096

/-- `NUM_OF_DATA_BLOCKS`. -/
abbrev numOfDataBlocks : Nat := 1000

/-- `FILE_MAX_BLOCKS`. -/
abbrev fileMaxBlocks : Nat := 100

/-- The value of `n` as an `unsigned int`. -/
def u32 (n : Nat) : Nat := n % 4294967296

/-- `enum Status`. -/
inductive Status where
  | success
  | failure
  | filenameTaken
  | fileNotFound
  | insufficientPerms
  | doubleWrite
deriving DecidableEq, Repr

/-- The number the compiler gives a status. -/
def Status.code : Status → Int
  | .success => 0
  | .failure => 1
  | .filenameTaken => 2
  | .fileNotFound => 3
  | .insufficientPerms => 4
  | .doubleWrite => 5

/-- `enum FileType`. -/
inductive FileType where
  | fRegular
  | fSymlink
deriving DecidableEq, Repr

/-- The `unsigned` that stands for a file type in an inode. -/
def FileType.code : FileType → Nat
  | .fRegular => 0
  | .fSymlink => 1

/-- `enum OpenMode`. -/
inductive OpenMode where
  | readOnly
  | writeOnly
deriving DecidableEq, Repr

/-- The mode a flags argument names. -/
def OpenMode.ofFlags (flags : Int) : Option OpenMode :=
  if flags = 0 then some .readOnly
  else if flags = 1 then some .writeOnly
  else none

/-- `struct timespec`. -/
structure Timespec where
  tvSec : Int
  tvNsec : Int
deriving DecidableEq, Repr

/-- `struct stat_t`. -/
structure Stat where
  stSize : Int
  stAtim : Timespec
  stMtim : Timespec
  stCtim : Timespec
deriving DecidableEq, Repr

/-- A file name: a C string that fits `char[MAX_FILENAME_LEN]`. -/
structure Filename where
  bytes : Bytes
  noNul : (0 : UInt8) ∉ bytes
  short : bytes.length < maxFilenameLen
deriving DecidableEq

/-- What a request meets outside the tables: the readings of the clock, in
    the order in which it asks for them, and the bytes `malloc` hands out. -/
structure Env where
  clock : Nat → Timespec
  junk : Nat → UInt8

/-- `malloc(n)`. -/
def Env.malloc (env : Env) (n : Nat) : Bytes := (List.range n).map env.junk

@[simp] theorem Env.malloc_length (env : Env) (n : Nat) : (env.malloc n).length = n := by
  simp [Env.malloc]

theorem u32_lt (n : Nat) : u32 n < 4294967296 := Nat.mod_lt _ (by decide)

theorem u32_of_lt {n : Nat} (h : n < 4294967296) : u32 n = n := Nat.mod_eq_of_lt h

/-- No status is the `-1` that some callers compare with. -/
theorem Status.code_ne_neg_one (st : Status) : st.code ≠ -1 := by
  cases st <;> decide

end LibfsCommon
