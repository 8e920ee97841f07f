import Libfs.SavedTables

/-! # The block table after a restart

    The file has a line for every entry, and the entry of every line is stored
    where it was.  The loop then asks whether the table is full, which it is as
    soon as the last entry is back, and calls that a failure. -/

namespace LibfsSpecs

open LibfsHeap LibfsStdio LibfsCommon LibfsInode LibfsText

/-- The table that is read from the file it was printed to is the table, and
    the function that reads it says so. -/
def BlocksSurviveRestart (tbl : Vector DataBlock numOfDataBlocks) : Prop :=
  openDataBlockTable (some (closeDataBlockTable tbl)) = .ok (.success, tbl)

/-! ## The line of an entry -/

/-- The flag as it is printed. -/
def flagNumber (allocated : Bool) : Int := if allocated then 1 else 0

/-- A flag is printed as an `int`. -/
theorem isInt32_flagNumber (allocated : Bool) : IsInt32 (flagNumber allocated) := by
  cases allocated with
  | false => decide
  | true => decide

/-- A flag is read back. -/
theorem flagNumber_read (allocated : Bool) : decide (flagNumber allocated ≠ 0) = allocated := by
  cases allocated with
  | false => rfl
  | true => rfl

/-- A line is two numbers. -/
theorem dataBlockText_eq (block : DataBlock) : dataBlockText block
    = printInt (flagNumber block.allocated) ++ comma ++ printInt (toInt32 block.inodeIndex) := rfl

/-- A line fits the buffer, without a newline of its own. -/
theorem dataBlockText_fits (block : DataBlock) :
    10 ∉ dataBlockText block ∧ (dataBlockText block).length ≤ 23 := by
  rw [dataBlockText_eq]
  constructor
  · simp only [List.mem_append, not_or]
    refine ⟨⟨fun h => (printInt_bytes h).2.1 rfl, by decide⟩, fun h => (printInt_bytes h).2.1 rfl⟩
  · have hflag := printInt_length (isInt32_flagNumber block.allocated)
    have hindex := printInt_length (isInt32_toInt32 block.inodeIndex)
    have hcomma : comma.length = 1 := rfl
    simp only [List.length_append]
    omega

/-- The second token ends at the terminator of the line, so the newline is part
    of it; `atoi` stops there. -/
theorem dataBlockOfLine_eq {block : DataBlock} (h : block.inodeIndex < 4294967296) :
    dataBlockOfLine (dataBlockText block ++ newline) = .ok block := by
  obtain ⟨-, hlen⟩ := dataBlockText_fits block
  have hshort : (dataBlockText block ++ newline).length ≤ 24 := by
    rw [List.length_append]
    exact Nat.succ_le_succ hlen
  obtain ⟨n, hn⟩ : ∃ n, lineSize - (dataBlockText block ++ newline).length = n + 2 :=
    ⟨lineSize - (dataBlockText block ++ newline).length - 2, by
      simp only [lineSize]
      omega⟩
  have hrest : (lineBuffer (dataBlockText block ++ newline)).rest
      = printInt (flagNumber block.allocated) ++ comma
        ++ ((printInt (toInt32 block.inodeIndex) ++ newline) ++ 0 :: 0 :: List.replicate n 0) := by
    rw [lineBuffer_pad (Nat.le_trans hshort (by decide)), hn, List.replicate_succ,
      List.replicate_succ, dataBlockText_eq]
    simp only [List.append_assoc]
  obtain ⟨c₁, hflag, hrest⟩ := next_number hrest
  -- the token of the index
  have hbytes : ∀ b ∈ printInt (toInt32 block.inodeIndex) ++ newline, b ≠ 0 ∧ b ∉ comma := by
    intro b hb
    rcases List.mem_append.mp hb with hb | hb
    · obtain ⟨hnul, -, hcomma⟩ := printInt_bytes hb
      exact ⟨hnul, fun hmem => hcomma (List.mem_singleton.mp hmem)⟩
    · rw [List.mem_singleton.mp hb]
      decide
  obtain ⟨c₂, hindex, hrest⟩ := Cursor.next_token hrest
    (List.append_ne_nil_of_right_ne_nil _ (List.cons_ne_nil _ _)) hbytes (Or.inl rfl)
  have hend : strtok comma c₂.line c₂.off = .ok (none, c₂.line) :=
    @strtok_none comma c₂.line [] _ c₂.off hrest (fun _ hb => nomatch hb) (by decide)
  unfold dataBlockOfLine
  simp only [hflag, hindex, hend, ok_bind, atoi_printInt (isInt32_flagNumber _), flagNumber_read,
    atoi_printed (isInt32_toInt32 _) (rfl : newline.takeWhile isDigit = []),
    toUInt32_toInt32 h]

/-! ## The whole file -/

/-- Lines that each make an entry are stored one after the other.  The rounds
    end with a failure when the entry of the last place has been stored. -/
theorem openDataBlockLines_eq {lines : List Bytes} {blocks : List DataBlock}
    (hmake : List.Forall₂ (fun line block => dataBlockOfLine line = .ok block) lines blocks) :
    ∀ {i : Nat} {tbl : Vector DataBlock numOfDataBlocks}, i < numOfDataBlocks →
      i + blocks.length ≤ numOfDataBlocks → openDataBlockLines lines i tbl
        = .ok (if i + blocks.length < numOfDataBlocks then .success else .failure,
            fillFrom i blocks tbl) := by
  induction hmake with
  | nil =>
      intro i tbl hi _
      rw [List.length_nil, Nat.add_zero, if_pos hi]
      rfl
  | @cons line block lines blocks hline hlines ih =>
      intro i tbl hi hfit
      rw [List.length_cons] at hfit ⊢
      rw [openDataBlockLines, hline, ok_bind, if_pos hi]
      by_cases hlast : i + 1 ≥ numOfDataBlocks
      · -- the table is full: there is no line behind this one
        have hnone : blocks = [] := List.length_eq_zero_iff.mp (by omega)
        rw [if_pos hlast, if_neg (by omega), hnone]
        rfl
      · rw [if_neg hlast, ih (by omega) (by omega), fillFrom, Nat.add_assoc,
          Nat.add_comm blocks.length 1]

/-- A file of lines as they are printed is read back, and the status says
    whether it had fewer lines than the table has entries. -/
theorem openDataBlockTable_printed {blocks : List DataBlock}
    (hfit : blocks.length ≤ numOfDataBlocks) (hindex : ∀ b ∈ blocks, b.inodeIndex < 4294967296) :
    openDataBlockTable (some (blocks.flatMap fun block => dataBlockText block ++ newline))
      = .ok (if blocks.length < numOfDataBlocks then .success else .failure,
          fillFrom 0 blocks (Vector.replicate numOfDataBlocks ⟨false, 0⟩)) := by
  have hbodies : ∀ body ∈ blocks.map dataBlockText, 10 ∉ body ∧ body.length + 1 < lineSize := by
    intro body hbody
    obtain ⟨block, -, rfl⟩ := List.mem_map.mp hbody
    obtain ⟨hclean, hlen⟩ := dataBlockText_fits block
    exact ⟨hclean, Nat.lt_of_le_of_lt (Nat.succ_le_succ hlen) (by decide)⟩
  have hlines : fileLines lineSize (blocks.flatMap fun block => dataBlockText block ++ newline)
      = (blocks.map dataBlockText).map (· ++ newline) := by
    have hfile := fileLines_lines hbodies
    rwa [List.flatMap_map] at hfile
  have hmake : List.Forall₂ (fun line block => dataBlockOfLine line = .ok block)
      ((blocks.map dataBlockText).map (· ++ newline)) blocks := by
    rw [List.map_map, List.forall₂_map_left_iff, List.forall₂_same]
    exact fun block hblock => dataBlockOfLine_eq (hindex block hblock)
  show openDataBlockLines (fileLines lineSize _) 0 _ = _
  rw [hlines, openDataBlockLines_eq hmake (by decide) (by rwa [Nat.zero_add]), Nat.zero_add]

/-- A table that was printed has its last line read as the one that fills it. -/
theorem openDataBlockTable_closed {tbl : Vector DataBlock numOfDataBlocks}
    (hindex : ∀ block ∈ tbl.toList, block.inodeIndex < 4294967296) :
    openDataBlockTable (some (closeDataBlockTable tbl)) = .ok (.failure, tbl) := by
  have hlen : tbl.toList.length = numOfDataBlocks := tbl.length_toList
  rw [closeDataBlockTable, openDataBlockTable_printed hlen.le hindex, if_neg (by omega),
    fillFrom_all]

/-- A table that is answered with `FAILURE` does not survive. -/
theorem not_survives_of_failure {tbl : Vector DataBlock numOfDataBlocks}
    (h : openDataBlockTable (some (closeDataBlockTable tbl)) = .ok (.failure, tbl)) :
    ¬ BlocksSurviveRestart tbl := by
  intro hsurvives
  rw [BlocksSurviveRestart, h] at hsurvives
  cases hsurvives

/-- A service that was started for the first time uses no block. -/
theorem first_table_indices : ∀ block ∈ State.init.blocks.dataBlockTable.toList,
    block.inodeIndex < 4294967296 := by
  intro block hblock
  have hfree : block ∈ Vector.replicate numOfDataBlocks (⟨false, 0⟩ : DataBlock) :=
    Vector.mem_toList_iff.mp hblock
  rw [(Vector.mem_replicate.mp hfree).2]
  decide

/-- Every table is restored from the file it was printed to, and every time the
    function that does so returns `FAILURE`. -/
theorem block_table_restored_as_failure {tbl : Vector DataBlock numOfDataBlocks}
    (hindex : ∀ block ∈ tbl.toList, block.inodeIndex < 4294967296) :
    openDataBlockTable (some (closeDataBlockTable tbl)) = .ok (.failure, tbl) ∧
      ¬ BlocksSurviveRestart tbl := by
  have hopen := openDataBlockTable_closed hindex
  exact ⟨hopen, not_survives_of_failure hopen⟩

/-- The table of a service that was never used is restored, and answered with
    `FAILURE`. -/
theorem first_table_restored_as_failure :
    openDataBlockTable (some (closeDataBlockTable State.init.blocks.dataBlockTable))
        = .ok (.failure, State.init.blocks.dataBlockTable) ∧
      ¬ BlocksSurviveRestart State.init.blocks.dataBlockTable :=
  block_table_restored_as_failure first_table_indices

/-- So not every table survives. -/
theorem first_table_not_survives : ¬ ∀ tbl : Vector DataBlock numOfDataBlocks,
    (∀ block ∈ tbl.toList, block.inodeIndex < 4294967296) → BlocksSurviveRestart tbl := by
  intro hclaim
  exact not_survives_of_failure (openDataBlockTable_closed first_table_indices)
    (hclaim _ first_table_indices)

end LibfsSpecs
