import Libfs.SavedTables

/-! # Inodes survive a restart

    Every field of an inode is printed as an `int` and read back as one, so an
    inode whose fields fit is the same after a restart but for the nanoseconds
    of its times. -/

namespace LibfsSpecs

open LibfsHeap LibfsStdio LibfsCommon LibfsInode LibfsText

/-- The signed fields are values of an `int`, the others of an `unsigned`. -/
structure FitsFields (v : Inode) : Prop where
  index : v.index < 4294967296
  type : v.type < 4294967296
  owner : v.owner < 4294967296
  ownerGroup : v.ownerGroup < 4294967296
  refCount : v.refCount < 4294967296
  mode : IsInt32 v.mode
  size : IsInt32 v.stat.stSize
  atime : IsInt32 v.stat.stAtim.tvSec
  mtime : IsInt32 v.stat.stMtim.tvSec
  ctime : IsInt32 v.stat.stCtim.tvSec
  blocks : ∀ b ∈ v.dataBlocks.toList, b < 4294967296

/-- The inode a restart keeps of `v`. -/
structure SameInode (v v' : Inode) : Prop where
  index : v'.index = v.index
  type : v'.type = v.type
  owner : v'.owner = v.owner
  ownerGroup : v'.ownerGroup = v.ownerGroup
  refCount : v'.refCount = v.refCount
  mode : v'.mode = v.mode
  size : v'.stat.stSize = v.stat.stSize
  atime : v'.stat.stAtim.tvSec = v.stat.stAtim.tvSec
  mtime : v'.stat.stMtim.tvSec = v.stat.stMtim.tvSec
  ctime : v'.stat.stCtim.tvSec = v.stat.stCtim.tvSec
  blocks : v'.dataBlocks = v.dataBlocks

/-! ## The line of an inode -/

/-- Numbers with a comma behind each. -/
def numbers (zs : List Int) : Bytes := zs.flatMap fun z => printInt z ++ comma

/-- A number takes eleven characters and a comma. -/
theorem numbers_length (zs : List Int) (h : ∀ z ∈ zs, IsInt32 z) :
    (numbers zs).length ≤ 12 * zs.length := by
  induction zs with
  | nil => exact Nat.le_refl 0
  | cons z zs ih =>
      have hz := printInt_length (h z (List.mem_cons_self ..))
      have hrest := ih fun y hy => h y (List.mem_cons_of_mem z hy)
      have hcomma : comma.length = 1 := rfl
      show ((printInt z ++ comma) ++ numbers zs).length ≤ _
      rw [List.length_append, List.length_append, List.length_cons]
      omega

/-- Numbers are printed without newline. -/
theorem numbers_no_newline (zs : List Int) : 10 ∉ numbers zs := by
  intro hmem
  obtain ⟨z, -, hz⟩ := List.mem_flatMap.mp hmem
  rcases List.mem_append.mp hz with hdigit | hcomma
  · exact (printInt_bytes hdigit).2.1 rfl
  · exact absurd (List.mem_singleton.mp hcomma) (by decide)

/-- `strtok` returns the first number and goes on behind it. -/
theorem next_of_numbers {c : Cursor} {z : Int} {zs : List Int} {tail : Bytes}
    (h : c.rest = numbers (z :: zs) ++ tail) :
    ∃ c', c.next comma = .ok (printInt z, c') ∧ c'.rest = numbers zs ++ tail := by
  refine next_number (h.trans ?_)
  show (printInt z ++ comma ++ numbers zs) ++ tail = _
  rw [List.append_assoc]

/-- The loop over the blocks sets one entry after the other. -/
theorem openBlocks_eq (bs : List Nat) (hb : ∀ b ∈ bs, b < 4294967296) {tail : Bytes} :
    ∀ {i : Nat} {c : Cursor} {blocks : Vector Nat fileMaxBlocks},
      c.rest = numbers (bs.map fun b : Nat => toInt32 (b : Int)) ++ tail →
      ∃ c', openBlocks bs.length i c blocks = .ok (fillFrom i bs blocks, c') ∧ c'.rest = tail := by
  induction bs with
  | nil =>
      intro i c blocks hrest
      exact ⟨c, rfl, hrest⟩
  | cons b bs ih =>
      intro i c blocks hrest
      obtain ⟨c₁, hnext, hrest₁⟩ := next_of_numbers hrest
      have hread := atoi_printUnsigned (hb b (List.mem_cons_self ..))
      obtain ⟨c', hopen, htail⟩ :=
        @ih (fun d hd => hb d (List.mem_cons_of_mem b hd)) (i + 1) c₁ (blocks.setIfInBounds i b)
          hrest₁
      refine ⟨c', ?_, htail⟩
      rw [List.length_cons, openBlocks, hnext, ok_bind]
      show openBlocks bs.length (i + 1) c₁ (blocks.setIfInBounds i (toUInt32 _)) = _
      rw [hread]
      exact hopen

section Line

variable {v : Inode}

/-- The numbers that are printed, but for the last block. -/
def inodeNumbers (v : Inode) : List Int :=
  [toInt32 v.index, toInt32 v.type, toInt32 v.owner, toInt32 v.ownerGroup, toInt32 v.refCount,
    v.mode, v.stat.stSize, v.stat.stAtim.tvSec, v.stat.stMtim.tvSec, v.stat.stCtim.tvSec]
    ++ (v.dataBlocks.toList.take (fileMaxBlocks - 1)).map fun b : Nat => toInt32 (b : Int)

/-- The last entry of the block list, behind which no comma is printed. -/
def lastBlock (v : Inode) : Nat := v.dataBlocks.get ⟨fileMaxBlocks - 1, lastBlock_inside⟩

/-- A line is a list of numbers and one more. -/
theorem inodeText_eq (v : Inode) :
    inodeText v = numbers (inodeNumbers v) ++ printInt (toInt32 (lastBlock v)) := by
  unfold inodeText numbers inodeNumbers withCommas lastBlock
  rw [List.flatMap_append, List.flatMap_map, List.flatMap_map]
  rfl

/-- All numbers of such an inode are `int`s. -/
theorem inodeNumbers_fit (h : FitsFields v) : ∀ z ∈ inodeNumbers v, IsInt32 z := by
  refine List.forall_mem_append.mpr ⟨?_, ?_⟩
  · simp only [List.forall_mem_cons]
    exact ⟨isInt32_toInt32 _, isInt32_toInt32 _, isInt32_toInt32 _, isInt32_toInt32 _,
      isInt32_toInt32 _, h.mode, h.size, h.atime, h.mtime, h.ctime, List.forall_mem_nil _⟩
  · intro z hz
    obtain ⟨b, -, rfl⟩ := List.mem_map.mp hz
    exact isInt32_toInt32 _

/-- A line fits the buffer and has its newline at the end. -/
theorem inodeText_fits (h : FitsFields v) :
    10 ∉ inodeText v ∧ (inodeText v).length + 1 < lineSize := by
  rw [inodeText_eq]
  constructor
  · intro hmem
    rcases List.mem_append.mp hmem with hnumber | hlast
    · exact numbers_no_newline _ hnumber
    · exact (printInt_bytes hlast).2.1 rfl
  · have hlen := numbers_length _ (inodeNumbers_fit h)
    have hlast := printInt_length (isInt32_toInt32 (lastBlock v))
    have hcount : (inodeNumbers v).length = 109 := by
      unfold inodeNumbers
      rw [List.length_append, List.length_map, List.length_take, Vector.length_toList]
      rfl
    rw [List.length_append]
    simp only [lineSize]
    omega

/-- The line makes the inode again. -/
theorem inodeOfLine_eq (h : FitsFields v) :
    ∃ v', inodeOfLine (inodeText v ++ newline) = .ok v' ∧ SameInode v v' := by
  obtain ⟨-, hlen⟩ := inodeText_fits h
  have hshort : (inodeText v ++ newline).length < lineSize := by
    rw [List.length_append]
    exact hlen
  obtain ⟨zeros, hzeros⟩ := lineBuffer_rest hshort
  -- the ten fields before the blocks
  have hrest : (lineBuffer (inodeText v ++ newline)).rest
      = numbers (inodeNumbers v) ++ (printInt (toInt32 (lastBlock v)) ++ 10 :: 0 :: zeros) := by
    rw [hzeros, inodeText_eq, List.append_assoc, List.append_assoc]
    rfl
  obtain ⟨c₁, hindex, hrest⟩ := next_of_numbers hrest
  obtain ⟨c₂, htype, hrest⟩ := next_of_numbers hrest
  obtain ⟨c₃, howner, hrest⟩ := next_of_numbers hrest
  obtain ⟨c₄, hgroup, hrest⟩ := next_of_numbers hrest
  obtain ⟨c₅, hcount, hrest⟩ := next_of_numbers hrest
  obtain ⟨c₆, hmode, hrest⟩ := next_of_numbers hrest
  obtain ⟨c₇, hsize, hrest⟩ := next_of_numbers hrest
  obtain ⟨c₈, hatime, hrest⟩ := next_of_numbers hrest
  obtain ⟨c₉, hmtime, hrest⟩ := next_of_numbers hrest
  obtain ⟨c₁₀, hctime, hrest⟩ := next_of_numbers hrest
  -- the blocks
  have hfew : (v.dataBlocks.toList.take (fileMaxBlocks - 1)).length = fileMaxBlocks - 1 := by
    rw [List.length_take, Vector.length_toList]
    rfl
  obtain ⟨c₁₁, hopen, hrest⟩ := @openBlocks_eq
    (v.dataBlocks.toList.take (fileMaxBlocks - 1)) (fun b hb => h.blocks b (List.mem_of_mem_take hb))
    _ 0 c₁₀ (Vector.replicate fileMaxBlocks 0) hrest
  rw [hfew] at hopen
  obtain ⟨c₁₂, hlast, -⟩ := @Cursor.next_token c₁₁ newline (printInt (toInt32 (lastBlock v)))
    (0 :: zeros) 10 hrest (printInt_ne_nil _)
    (fun b hb => ⟨(printInt_bytes hb).1, fun hn => (printInt_bytes hb).2.1 (List.mem_singleton.mp hn)⟩)
    (Or.inr (List.mem_singleton.mpr rfl))
  unfold inodeOfLine
  simp only [hindex, htype, howner, hgroup, hcount, hmode, hsize, hatime, hmtime, hctime, hopen, hlast,
    ok_bind]
  have hlastBlock : v.dataBlocks[fileMaxBlocks - 1]? = some (lastBlock v) := rfl
  have hfits := h.blocks _ (Vector.mem_toList_iff.mpr (Vector.mem_of_getElem? hlastBlock))
  -- what was printed is read back
  simp only [readTime, atoi_printUnsigned h.index, atoi_printUnsigned h.type,
    atoi_printUnsigned h.owner, atoi_printUnsigned h.ownerGroup, atoi_printUnsigned h.refCount,
    atoi_printInt h.mode, atoi_printInt h.size, atoi_printInt h.atime, atoi_printInt h.mtime,
    atoi_printInt h.ctime, atoi_printUnsigned hfits]
  refine ⟨_, rfl, rfl, rfl, rfl, rfl, rfl, rfl, rfl, rfl, rfl, rfl, ?_⟩
  ext j hj
  apply Option.some.inj
  rw [← Vector.getElem?_eq_getElem hj, ← Vector.getElem?_eq_getElem hj]
  by_cases hlast : j = fileMaxBlocks - 1
  · subst hlast
    rw [Vector.getElem?_setIfInBounds_self_of_lt hj, hlastBlock]
  · have hlt : j < fileMaxBlocks - 1 := by omega
    rw [Vector.getElem?_setIfInBounds_ne (fun he => hlast he.symm),
      fillFrom_getElem? _ (by omega), if_pos ⟨Nat.zero_le j, by omega⟩, Nat.sub_zero,
      List.getElem?_take_of_lt hlt, Vector.getElem?_toList]

end Line

/-! ## The whole table -/

/-- Every line gives the inode it was printed for. -/
theorem inodes_of_lines (nodes : List Inode) (hfit : ∀ v ∈ nodes, FitsFields v) :
    ∃ nodes', List.Forall₂ (fun body v' => inodeOfLine (body ++ newline) = .ok v')
        (nodes.map inodeText) nodes' ∧ List.Forall₂ SameInode nodes nodes' := by
  induction nodes with
  | nil => exact ⟨[], .nil, .nil⟩
  | cons v nodes ih =>
      obtain ⟨v', hline, hsame⟩ := inodeOfLine_eq (hfit v (List.mem_cons_self ..))
      obtain ⟨nodes', hlines, hall⟩ := ih fun w hw => hfit w (List.mem_cons_of_mem v hw)
      exact ⟨v' :: nodes', .cons hline hlines, .cons hsame hall⟩

/-- A list of inodes, found by walking from its head pointer, is printed to a
    file from which the same inodes are read in the same order, each linked
    with its neighbours. -/
theorem inodes_survive_restart {t : Table Inode} {nodes : List Inode}
    (hlist : t.values = .ok nodes) (hfit : ∀ v ∈ nodes, FitsFields v) :
    ∃ file t' nodes', closeInodeTable t = .ok file ∧ openInodeTable (some file) .empty = .ok t' ∧
      t'.WF ∧ t'.Intact ∧ t'.values = .ok nodes' ∧ List.Forall₂ SameInode nodes nodes' := by
  have hclose : closeInodeTable t = .ok ((nodes.map inodeText).flatMap (· ++ newline)) := by
    unfold closeInodeTable
    rw [hlist, List.flatMap_map]
    rfl
  have hlines : ∀ body ∈ nodes.map inodeText, 10 ∉ body ∧ body.length + 1 < lineSize := by
    intro body hbody
    obtain ⟨v, hv, rfl⟩ := List.mem_map.mp hbody
    exact inodeText_fits (hfit v hv)
  obtain ⟨nodes', hmake, hsame⟩ := inodes_of_lines nodes hfit
  obtain ⟨t', hopen, hw, hi, hvalues⟩ := openLines_file hlines hmake
  exact ⟨_, t', nodes', hclose, hopen, hw, hi, hvalues, hsame⟩

/-- An inode with every number at an end of its range. -/
def extremeInode : Inode :=
  ⟨4294967295, 4294967295, ⟨-2147483648, ⟨2147483647, 0⟩, ⟨-2147483648, 0⟩, ⟨0, 0⟩⟩, 2147483647,
    4294967295, 2147483648, 4294967295, Vector.replicate fileMaxBlocks 4294967295⟩

/-- An inode with the largest and smallest numbers survives. -/
theorem inodes_survive_extreme : ∃ file t' nodes',
    closeInodeTable ⟨[some ⟨extremeInode, none, none⟩], some 0⟩ = .ok file ∧
      openInodeTable (some file) .empty = .ok t' ∧ t'.WF ∧ t'.Intact ∧ t'.values = .ok nodes' ∧
      List.Forall₂ SameInode [extremeInode] nodes' := by
  refine inodes_survive_restart rfl ?_
  intro v hv
  rw [List.mem_singleton.mp hv]
  refine ⟨by decide, by decide, by decide, by decide, by decide, by decide, by decide, by decide,
    by decide, by decide, ?_⟩
  intro b hb
  have hblock : b ∈ (Vector.replicate fileMaxBlocks 4294967295).toList := hb
  rw [Vector.mem_toList_iff, Vector.mem_replicate] at hblock
  rw [hblock.2]
  decide

end LibfsSpecs
