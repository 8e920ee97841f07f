import Libfs.Inode
import Libfs.LinkedTable
import Libfs.Text
import Mathlib.Data.List.Forall2

/-! # `inode.c`: the tables between two runs

    When the service ends it prints the inode table, the filename table and the
    block table to a file each, one line a node or an entry, and when it starts
    it reads them into lists that are empty and a table that is zeroed.  A file
    is its bytes; a function that closes a list frees every node when it has
    the next one. -/

namespace LibfsInode

open LibfsHeap LibfsStdio LibfsCommon LibfsText

/-- `sizeof(line)`. -/
abbrev lineSize : Nat := 4096

/-- The bytes `fgets` read, in a `line` that was zeroed. -/
def lineBuffer (read : Bytes) : Cursor := ⟨pad lineSize read, 0⟩

/-- The character between two fields. -/
def comma : Bytes := [44]

/-- The character at the end of a line. -/
def newline : Bytes := [10]

/-- An `unsigned` passed to `%d`. -/
def printUnsigned (n : Nat) : Bytes := printInt (toInt32 n)

/-! ## Inodes -/

/-- The two `fprintf` of `close_inode_table` for the fields of a node. -/
def inodeFields (node : Inode) : List Bytes :=
  [printUnsigned node.index, printUnsigned node.type, printUnsigned node.owner,
    printUnsigned node.ownerGroup, printUnsigned node.refCount, printInt node.mode,
    printInt node.stat.stSize, printInt node.stat.stAtim.tvSec, printInt node.stat.stMtim.tvSec,
    printInt node.stat.stCtim.tvSec]

/-- Fields with a comma behind each. -/
def withCommas (fields : List Bytes) : Bytes := fields.flatMap (· ++ comma)

/-- The last entry of the block list. -/
theorem lastBlock_inside : fileMaxBlocks - 1 < fileMaxBlocks := by decide

/-- The line of a node, without the newline. -/
def inodeText (node : Inode) : Bytes :=
  withCommas (inodeFields node)
    ++ withCommas ((node.dataBlocks.toList.take (fileMaxBlocks - 1)).map printUnsigned)
    ++ printUnsigned (node.dataBlocks.get ⟨fileMaxBlocks - 1, lastBlock_inside⟩)

/-- `close_inode_table`. -/
def closeInodeTable (t : Table Inode) : C Bytes := do
  let nodes ← t.values
  .ok (nodes.flatMap fun node => inodeText node ++ newline)

/-- The time of a file that was read: the seconds, and the `int` product of
    the same number, which wraps around. -/
def readTime (token : Bytes) : Timespec := ⟨atoi token, toInt32 (atoi token * 1000000)⟩

/-- The `for` loop over the blocks, from block `i` on. -/
def openBlocks : Nat → Nat → Cursor → Vector Nat fileMaxBlocks →
    C (Vector Nat fileMaxBlocks × Cursor)
  | 0, _, c, blocks => .ok (blocks, c)
  | n + 1, i, c, blocks => do
      let (token, c) ← c.next comma
      openBlocks n (i + 1) c (blocks.setIfInBounds i (toUInt32 (atoi token)))

/-- One round of `open_inode_table`: the node a line makes. -/
def inodeOfLine (read : Bytes) : C Inode := do
  let c := lineBuffer read
  let (token, c) ← c.next comma
  let index := toUInt32 (atoi token)
  let (token, c) ← c.next comma
  let type := toUInt32 (atoi token)
  let (token, c) ← c.next comma
  let owner := toUInt32 (atoi token)
  let (token, c) ← c.next comma
  let ownerGroup := toUInt32 (atoi token)
  let (token, c) ← c.next comma
  let refCount := toUInt32 (atoi token)
  let (token, c) ← c.next comma
  let mode := atoi token
  let (token, c) ← c.next comma
  let stSize := atoi token
  let (token, c) ← c.next comma
  let stAtim := readTime token
  let (token, c) ← c.next comma
  let stMtim := readTime token
  let (token, c) ← c.next comma
  let stCtim := readTime token
  let (blocks, c) ← openBlocks (fileMaxBlocks - 1) 0 c (Vector.replicate fileMaxBlocks 0)
  let (token, _) ← c.next newline
  .ok ⟨index, type, ⟨stSize, stAtim, stMtim, stCtim⟩, mode, owner, ownerGroup, refCount,
    blocks.setIfInBounds (fileMaxBlocks - 1) (toUInt32 (atoi token))⟩

/-- The rounds of both functions that open a table: a node is made of the line
    and hung behind the others. -/
def openLines {α : Type} (make : Bytes → C α) : List Bytes → Table α → C (Table α)
  | [], t => .ok t
  | line :: lines, t => do
      let node ← make line
      let (_, t) ← t.pushBack fun _ => node
      openLines make lines t

/-- Without a file the list stays as it is. -/
def openInodeTable (file : Option Bytes) (t : Table Inode) : C (Table Inode) :=
  match file with
  | none => .ok t
  | some file => openLines inodeOfLine (fileLines lineSize file) t

/-! ## Names -/

/-- The line of a name, without the newline. -/
def filenameText (node : FilenameInode) : Bytes :=
  printUnsigned node.nodeIndex ++ comma ++ node.filename.bytes

/-- `close_filename_table`. -/
def closeFilenameTable (t : Table FilenameInode) : C Bytes := do
  let nodes ← t.values
  .ok (nodes.flatMap fun node => filenameText node ++ newline)

/-- `strcpy` into `char filename[MAX_FILENAME_LEN]`. -/
def strcpyFilename (token : Bytes) : C Filename :=
  if h : (0 : UInt8) ∉ token ∧ token.length < maxFilenameLen then .ok ⟨token, h.1, h.2⟩
  else .error .undefinedBehaviour

/-- One round of `open_filename_table`. -/
def filenameOfLine (read : Bytes) : C FilenameInode := do
  let c := lineBuffer read
  let (token, c) ← c.next comma
  let nodeIndex := toUInt32 (atoi token)
  let (token, _) ← c.next newline
  let filename ← strcpyFilename token
  .ok ⟨nodeIndex, filename⟩

/-- `open_filename_table`. -/
def openFilenameTable (file : Option Bytes) (t : Table FilenameInode) :
    C (Table FilenameInode) :=
  match file with
  | none => .ok t
  | some file => openLines filenameOfLine (fileLines lineSize file) t

/-! ## The block table -/

/-- The line of an entry, without the newline. -/
def dataBlockText (block : DataBlock) : Bytes :=
  printInt (if block.allocated then 1 else 0) ++ comma ++ printUnsigned block.inodeIndex

/-- `close_data_block_table`. -/
def closeDataBlockTable (tbl : Vector DataBlock numOfDataBlocks) : Bytes :=
  tbl.toList.flatMap fun block => dataBlockText block ++ newline

/-- One round of `open_data_block_table`: the entry a line makes.  The third
    `strtok` is made, but its token, if there is one, is not used. -/
def dataBlockOfLine (read : Bytes) : C DataBlock := do
  let c := lineBuffer read
  let (token, c) ← c.next comma
  let allocated := decide (atoi token ≠ 0)
  let (token, c) ← c.next comma
  let inodeIndex := toUInt32 (atoi token)
  let _ ← strtok comma c.line c.off
  .ok ⟨allocated, inodeIndex⟩

/-- The rounds of `open_data_block_table`, from entry `index` on.  The check
    comes behind the entry: the last one is stored before it fails. -/
def openDataBlockLines : List Bytes → Nat → Vector DataBlock numOfDataBlocks →
    C (Status × Vector DataBlock numOfDataBlocks)
  | [], _, tbl => .ok (.success, tbl)
  | line :: lines, index, tbl => do
      let block ← dataBlockOfLine line
      if index < numOfDataBlocks then
        let tbl := tbl.setIfInBounds index block
        if index + 1 ≥ numOfDataBlocks then .ok (.failure, tbl)
        else openDataBlockLines lines (index + 1) tbl
      else .error .undefinedBehaviour

/-- The table is allocated and zeroed here, whether there is a file or not. -/
def openDataBlockTable (file : Option Bytes) :
    C (Status × Vector DataBlock numOfDataBlocks) :=
  let tbl := Vector.replicate numOfDataBlocks ⟨false, 0⟩
  match file with
  | none => .ok (.success, tbl)
  | some file => openDataBlockLines (fileLines lineSize file) 0 tbl

/-! ## What a round finds -/

/-- The buffer behind a line holds zeros. -/
theorem lineBuffer_pad {read : Bytes} (h : read.length ≤ lineSize) :
    (lineBuffer read).rest = read ++ List.replicate (lineSize - read.length) 0 := by
  show pad lineSize read = _
  rw [pad, List.take_of_length_le h]

/-- A line that is shorter than the buffer ends with a zero. -/
theorem lineBuffer_rest {read : Bytes} (h : read.length < lineSize) :
    ∃ zeros, (lineBuffer read).rest = read ++ 0 :: zeros := by
  obtain ⟨n, hn⟩ : ∃ n, lineSize - read.length = n + 1 := ⟨lineSize - read.length - 1, by omega⟩
  exact ⟨List.replicate n 0, by rw [lineBuffer_pad h.le, hn, List.replicate_succ]⟩

/-- A number with a comma behind it. -/
theorem next_number {c : Cursor} {z : Int} {rest : Bytes}
    (h : c.rest = printInt z ++ comma ++ rest) :
    ∃ c', c.next comma = .ok (printInt z, c') ∧ c'.rest = rest := by
  refine @Cursor.next_token c comma (printInt z) rest 44 ?_ (printInt_ne_nil z) ?_
    (Or.inr (List.mem_singleton.mpr rfl))
  · rw [h, List.append_assoc]
    rfl
  · intro b hb
    obtain ⟨hnul, -, hcomma⟩ := printInt_bytes hb
    exact ⟨hnul, fun hmem => hcomma (List.mem_singleton.mp hmem)⟩

/-! ## Filling an array -/

/-- The entries from `i` on are overwritten, one after the other. -/
def fillFrom {α : Type} {n : Nat} : Nat → List α → Vector α n → Vector α n
  | _, [], xs => xs
  | i, v :: vs, xs => fillFrom (i + 1) vs (xs.setIfInBounds i v)

/-- The numbers stand one behind the other, from the first on. -/
theorem fillFrom_getElem? {α : Type} {n : Nat} (vs : List α) :
    ∀ {i : Nat} {xs : Vector α n}, i + vs.length ≤ n → ∀ j : Nat,
      (fillFrom i vs xs)[j]? = if i ≤ j ∧ j < i + vs.length then vs[j - i]? else xs[j]? := by
  induction vs with
  | nil =>
      intro i xs _ j
      rw [if_neg]
      · rfl
      · rintro ⟨hle, hlt⟩
        exact absurd (Nat.lt_of_le_of_lt hle hlt) (Nat.lt_irrefl i)
  | cons v vs ih =>
      intro i xs hfit j
      rw [List.length_cons] at hfit ⊢
      rw [fillFrom, ih (by omega) j]
      by_cases hji : j = i
      · subst hji
        rw [if_neg (by omega), if_pos (by omega), Nat.sub_self,
          Vector.getElem?_setIfInBounds_self_of_lt (by omega)]
        rfl
      · by_cases hin : i ≤ j ∧ j < i + (vs.length + 1)
        · obtain ⟨k, hk⟩ : ∃ k, j - i = k + 1 := ⟨j - i - 1, by omega⟩
          have hk' : j - (i + 1) = k := by omega
          rw [if_pos (by omega), if_pos hin, hk, hk', List.getElem?_cons_succ]
        · rw [if_neg (by omega), if_neg hin,
            Vector.getElem?_setIfInBounds_ne (fun he => hji he.symm)]

/-- Filled from the start with all entries of another array. -/
theorem fillFrom_all {α : Type} {n : Nat} (ys xs : Vector α n) : fillFrom 0 ys.toList xs = ys := by
  ext j hj
  apply Option.some.inj
  have hlen : ys.toList.length = n := ys.length_toList
  rw [← Vector.getElem?_eq_getElem hj, ← Vector.getElem?_eq_getElem hj,
    fillFrom_getElem? _ (by omega), if_pos (by omega), Nat.sub_zero, Vector.getElem?_toList]

/-! ## Lines that make nodes -/

/-- Lines that each make a node are hung on the list in their order. -/
theorem openLines_eq {α : Type} {make : Bytes → C α} {lines : List Bytes} {nodes : List α}
    (hmake : List.Forall₂ (fun line v => make line = .ok v) lines nodes) :
    ∀ {t : Table α}, t.WF → t.Intact → ∃ t', openLines make lines t = .ok t' ∧
      t'.WF ∧ t'.Intact ∧ t'.live.map Prod.snd = t.live.map Prod.snd ++ nodes := by
  induction hmake with
  | nil =>
      intro t hw hi
      exact ⟨t, rfl, hw, hi, (List.append_nil _).symm⟩
  | @cons line v lines nodes hline _ ih =>
      intro t hw hi
      obtain ⟨t₁, hpush, hpushed⟩ := hw.pushBack_eq hi fun _ => v
      obtain ⟨t', hopen, hw', hi', hlive⟩ := ih hpushed.wf hpushed.intact
      refine ⟨t', ?_, hw', hi', ?_⟩
      · rw [openLines, hline, ok_bind]
        show (t.pushBack _ >>= _) = _
        rw [hpush]
        exact hopen
      · rw [hlive, hpushed.after, List.map_append, List.append_assoc]
        rfl

/-- A file of lines that each make a node, read into an empty list. -/
theorem openLines_file {α : Type} {make : Bytes → C α} {bodies : List Bytes} {nodes : List α}
    (hfit : ∀ body ∈ bodies, 10 ∉ body ∧ body.length + 1 < lineSize)
    (hmake : List.Forall₂ (fun body v => make (body ++ newline) = .ok v) bodies nodes) :
    ∃ t', openLines make (fileLines lineSize (bodies.flatMap (· ++ newline))) .empty = .ok t' ∧
      t'.WF ∧ t'.Intact ∧ t'.values = .ok nodes := by
  have hlines : fileLines lineSize (bodies.flatMap (· ++ newline)) = bodies.map (· ++ newline) :=
    fileLines_lines hfit
  have hmake' : List.Forall₂ (fun line v => make line = .ok v) (bodies.map (· ++ newline)) nodes :=
    List.forall₂_map_left_iff.mpr hmake
  obtain ⟨t', hopen, hw, hi, hlive⟩ := openLines_eq hmake' Table.wf_empty Table.intact_empty
  rw [hlines]
  refine ⟨t', hopen, hw, hi, ?_⟩
  rw [hw.values_eq hi, hlive]
  rfl

/-- Each line that was read has made a node. -/
theorem openLines_ok {α : Type} {make : Bytes → C α} (lines : List Bytes) :
    ∀ {t t' : Table α}, t.WF → t.Intact → openLines make lines t = .ok t' →
      t'.WF ∧ t'.Intact ∧ t'.live.length = t.live.length + lines.length ∧
        ∀ line ∈ lines, ∃ v, make line = .ok v := by
  induction lines with
  | nil =>
      intro t t' hw hi h
      cases h
      exact ⟨hw, hi, rfl, fun line hline => nomatch hline⟩
  | cons line lines ih =>
      intro t t' hw _ h
      obtain ⟨v, hv, h⟩ := bind_ok_iff.mp h
      obtain ⟨⟨a, t₁⟩, hpush, h⟩ := bind_ok_iff.mp h
      have hpushed := hw.pushBack_ok hpush
      obtain ⟨hw', hi', hlen, hall⟩ := ih hpushed.wf hpushed.intact h
      refine ⟨hw', hi', ?_, ?_⟩
      · rw [hlen, hpushed.after, List.length_append, List.length_singleton, List.length_cons]
        omega
      · intro line' hline
        rcases List.mem_cons.mp hline with rfl | hline
        · exact ⟨v, hv⟩
        · exact hall line' hline

end LibfsInode
