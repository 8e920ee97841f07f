import Libfs.Disk

/-! # A write and the other files

    New blocks are appended to the data file while their slots are the lowest
    free ones, and an update is made at the place its slot stands for.  As
    long as the file covers the allocated slots both stay clear of the blocks
    of all other inodes.  Nothing is assumed of the links of the tables. -/

namespace LibfsSpecs

open LibfsHeap LibfsStdio LibfsCommon LibfsInode LibfsOperations

/-- The descriptor number `fd` leads to the inode at `a`. -/
def LeadsTo (s : State) (fd a : Nat) : Prop := ∃ b d v, Reaches s fd b d a v

/-- `write_inode_fd` calls `write_inode` on the inode the descriptor leads to,
    or it changes nothing. -/
theorem writeInodeFd_cases {s s' : State} {env : Env} {fd size : Nat} {buf : Bytes} {st : Status}
    (h : writeInodeFd s env fd buf size = .ok (st, s')) :
    s' = s ∨ ∃ b d a v st' v' offset', Reaches s fd b d a v ∧ d.mode = .writeOnly ∧
      writeInode s.blocks (Inode.written v (env.clock 0)) buf d.offset size
        = .ok (st', v', offset', s'.blocks) ∧ (st = .success ↔ st' = .success) ∧
      s.inodeTable.Replaced s'.inodeTable a v v' ∧
      s.descriptorTable.Replaced s'.descriptorTable b d { d with offset := offset' } := by
  obtain ⟨p, hp, h⟩ := bind_ok_iff.mp h
  cases p with
  | none =>
      cases h
      exact Or.inl rfl
  | some b =>
      obtain ⟨d, hd, h⟩ := bind_ok_iff.mp h
      cases hmode : d.mode with
      | readOnly =>
          rw [if_pos hmode] at h
          cases h
          exact Or.inl rfl
      | writeOnly =>
          rw [if_neg (by rw [hmode]; decide)] at h
          obtain ⟨q, hq, h⟩ := bind_ok_iff.mp h
          cases q with
          | none =>
              cases h
              exact Or.inl rfl
          | some a =>
              obtain ⟨v, hv, h⟩ := bind_ok_iff.mp h
              obtain ⟨⟨st', v', offset', bs⟩, hwrite, h⟩ := bind_ok_iff.mp h
              obtain ⟨t, ht, h⟩ := bind_ok_iff.mp h
              obtain ⟨td, htd, h⟩ := bind_ok_iff.mp h
              have hst : st = if st' = .success then .success else .failure := by
                cases h
                rfl
              cases h
              refine Or.inr ⟨b, d, a, v, st', v', offset', ⟨hp, hd, hq, hv⟩, hmode, hwrite, ?_,
                Table.put_replaced (Table.get_ok.mp hv) ht,
                Table.put_replaced (Table.get_ok.mp hd) htd⟩
              by_cases hdone : st' = .success
              · simp [hdone]
              · simp [hdone]

/-- Whether it succeeds or not, a write leaves every inode but the one its
    descriptor leads to as it was, and the bytes of their blocks; and slots,
    inodes and data file are in step again.  The buffer holds the `size` bytes
    to be written. -/
theorem write_touches_own_file {s s' : State} {env : Env} {fd size : Nat} {buf : Bytes}
    {st : Status} (hs : Sound s.inodeTable s.blocks) (hbuf : size ≤ buf.length)
    (h : writeInodeFd s env fd buf size = .ok (st, s')) :
    Sound s'.inodeTable s'.blocks ∧
      ∀ a v, ¬ LeadsTo s fd a →
        ((a, v) ∈ s'.inodeTable.live ↔ (a, v) ∈ s.inodeTable.live) ∧
        ((a, v) ∈ s.inodeTable.live → ∀ pos, fileByte (BlockStore.file s'.blocks) v.dataBlocks pos
          = fileByte (BlockStore.file s.blocks) v.dataBlocks pos) := by
  rcases writeInodeFd_cases h with rfl | ⟨b, d, c, w, st', w', offset', hc, -, hwrite, -, hup, -⟩
  · exact ⟨hs, fun a v _ => ⟨Iff.rfl, fun _ _ => rfl⟩⟩
  · have hin : BlocksInside s.blocks (Inode.written w (env.clock 0)) :=
      (hs.blocksInside hup.old).congr rfl
    obtain ⟨p, ks, hwrote, -⟩ := wrote_of_writeInode hbuf hwrite hin
    refine ⟨hs.wrote hup hwrote rfl, ?_⟩
    intro a v hother
    have hne : a ≠ c := by
      rintro rfl
      exact hother ⟨b, d, w, hc⟩
    constructor
    · rw [hup.mem]
      constructor
      · rintro (⟨-, hv⟩ | he)
        · exact hv
        · exact absurd (congrArg Prod.fst he) hne
      · intro hv
        exact Or.inl ⟨hne, hv⟩
    · intro hv pos
      exact bytes_of_others hs hup hwrote rfl hv hne pos

/-- Two open files, the first with a byte. -/
def twoFiles : List Request :=
  [.create ⟨1, 1, 0o600, nameX⟩, .create ⟨1, 1, 0o600, nameA⟩, .open ⟨1, 1, nameX, 1⟩,
    .open ⟨1, 1, nameA, 1⟩, .write ⟨1, 1, 0, 1, [65]⟩]

/-- A write to the second leaves the first. -/
theorem write_touches_twoFiles : ∃ st s', writeInodeFd (replay twoFiles) stillEnv 1 [66] 1
    = .ok (st, s') ∧ Sound s'.inodeTable s'.blocks ∧
      ∀ v, (0, v) ∈ (replay twoFiles).inodeTable.live → (0, v) ∈ s'.inodeTable.live := by
  obtain ⟨es, hr⟩ := run_replay (show returns twoFiles = true by decide +kernel)
  have hdone : (writeInodeFd (replay twoFiles) stillEnv 1 [66] 1).map Prod.fst = .ok .success := by
    decide +kernel
  have hinode : (replay twoFiles).inodeTable.find (fun i => i.index = 1) = .ok (some 1) := by
    decide +kernel
  have hdesc : ∀ p ∈ (replay twoFiles).descriptorTable.live, p.2.desc = 1 → p.2.nodeIndex = 1 := by
    decide +kernel
  cases hw : writeInodeFd (replay twoFiles) stillEnv 1 [66] 1 with
  | error stop =>
      rw [hw] at hdone
      exact nomatch hdone
  | ok p =>
      obtain ⟨st, s'⟩ := p
      obtain ⟨hsound, hothers⟩ := write_touches_own_file (sound_of_run hr) (Nat.le_refl 1) hw
      refine ⟨st, s', rfl, hsound, ?_⟩
      intro v hv
      refine (hothers 0 v ?_).1.mpr hv
      rintro ⟨b, d, w, hreach⟩
      obtain ⟨⟨l, r, hfd⟩, -⟩ := hreach.found (wellLinked_of_run hr)
      have ha := hreach.inode
      rw [hdesc _ hfd.mem (FoundDesc.desc hfd), hinode] at ha
      exact absurd ha (by decide)

end LibfsSpecs
