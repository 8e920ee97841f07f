import Libfs.FailedSymlinks
import Libfs.SavedTables

/-! # Names survive a restart if no byte of them cuts a line

    A name is printed as it is, between a comma and a newline.  A name that
    holds a newline makes two lines of one entry, and of an empty name `strtok`
    finds nothing, which the function that opens the table does not check. -/

namespace LibfsSpecs

open LibfsHeap LibfsStdio LibfsCommon LibfsInode LibfsOperations LibfsRun LibfsText

/-- The table that is read is the one that was printed. -/
def SurvivesRestart (t : Table FilenameInode) : Prop :=
  ∃ file t', closeFilenameTable t = .ok file ∧ openFilenameTable (some file) .empty = .ok t' ∧
    t'.values = t.values

/-- A name of one byte or more, none of them a newline. -/
def Plain (name : Filename) : Prop := name.bytes ≠ [] ∧ 10 ∉ name.bytes

instance (name : Filename) : Decidable (Plain name) := inferInstanceAs (Decidable (_ ∧ _))

/-! ## One line -/

section Line

variable {x : FilenameInode}

/-- An entry fits the buffer `fgets` fills. -/
theorem filenameText_short (x : FilenameInode) : (filenameText x).length + 1 < lineSize := by
  have hnumber := printInt_length (isInt32_toInt32 x.nodeIndex)
  have hname := x.filename.short
  have hcomma : comma.length = 1 := rfl
  unfold filenameText printUnsigned
  rw [List.length_append, List.length_append]
  simp only [maxFilenameLen, lineSize] at hname ⊢
  omega

/-- A line is broken only by a newline in the name. -/
theorem newline_mem_filenameText : 10 ∈ filenameText x ↔ 10 ∈ x.filename.bytes := by
  unfold filenameText printUnsigned
  rw [List.mem_append, List.mem_append]
  constructor
  · rintro ((hnumber | hcomma) | hname)
    · exact absurd rfl (printInt_bytes hnumber).2.1
    · exact absurd (List.mem_singleton.mp hcomma) (by decide)
    · exact hname
  · intro hname
    exact Or.inr hname

/-- What the first `strtok` leaves of a line. -/
theorem next_index (x : FilenameInode) :
    ∃ c zeros, (lineBuffer (filenameText x ++ newline)).next comma
        = .ok (printUnsigned x.nodeIndex, c) ∧ c.rest = x.filename.bytes ++ 10 :: 0 :: zeros := by
  have hshort : (filenameText x ++ newline).length < lineSize := by
    rw [List.length_append]
    exact filenameText_short x
  obtain ⟨zeros, hzeros⟩ := lineBuffer_rest hshort
  have hrest : (lineBuffer (filenameText x ++ newline)).rest
      = printInt (toInt32 x.nodeIndex) ++ comma ++ (x.filename.bytes ++ 10 :: 0 :: zeros) := by
    rw [hzeros]
    unfold filenameText printUnsigned
    simp only [List.append_assoc]
    rfl
  obtain ⟨c, hnext, hc⟩ := next_number hrest
  exact ⟨c, zeros, hnext, hc⟩

/-- A line with a plain name gives the entry back. -/
theorem filenameOfLine_eq (hindex : x.nodeIndex < 4294967296) (hplain : Plain x.filename) :
    filenameOfLine (filenameText x ++ newline) = .ok x := by
  obtain ⟨c, zeros, hnext, hrest⟩ := next_index x
  have hbytes : ∀ b ∈ x.filename.bytes, b ≠ 0 ∧ b ∉ newline := by
    intro b hb
    constructor
    · rintro rfl
      exact x.filename.noNul hb
    · intro hn
      rw [List.mem_singleton.mp hn] at hb
      exact hplain.2 hb
  obtain ⟨c', hname, -⟩ := Cursor.next_token hrest hplain.1 hbytes
    (Or.inr (List.mem_singleton.mpr rfl))
  have hcopy : strcpyFilename x.filename.bytes = .ok x.filename :=
    dif_pos ⟨x.filename.noNul, x.filename.short⟩
  unfold filenameOfLine
  simp only [hnext, hname, hcopy, ok_bind]
  unfold printUnsigned
  rw [atoi_printUnsigned hindex]

/-- An empty name is no token. -/
theorem filenameOfLine_empty (hempty : x.filename.bytes = []) :
    filenameOfLine (filenameText x ++ newline) = .error .undefinedBehaviour := by
  obtain ⟨c, zeros, hnext, hrest⟩ := next_index x
  rw [hempty, List.nil_append] at hrest
  have hnone : c.next newline = .error .undefinedBehaviour :=
    @Cursor.next_none c newline [10] zeros hrest (fun b hb => hb) (by decide)
  unfold filenameOfLine
  simp only [hnext, hnone, ok_bind]
  rfl

end Line

/-! ## The whole table -/

/-- The file that is printed of a list of entries. -/
def printed (xs : List FilenameInode) : Bytes := (xs.map filenameText).flatMap (· ++ newline)

/-- The file is one line for each entry, oldest first. -/
theorem closeFilenameTable_eq {t : Table FilenameInode} (hw : t.WF) (hi : t.Intact) :
    closeFilenameTable t = .ok (printed (t.live.map Prod.snd)) := by
  unfold closeFilenameTable printed
  rw [hw.values_eq hi, List.flatMap_map]
  rfl

/-- Lines without newline are read one by one. -/
theorem bodies_fit {xs : List FilenameInode} (hclean : ∀ x ∈ xs, 10 ∉ x.filename.bytes) :
    ∀ body ∈ xs.map filenameText, 10 ∉ body ∧ body.length + 1 < lineSize := by
  intro body hbody
  obtain ⟨x, hx, rfl⟩ := List.mem_map.mp hbody
  exact ⟨fun h => hclean x hx (newline_mem_filenameText.mp h), filenameText_short x⟩

/-- A file that is read in as many rounds as it has entries has names without
    newline only. -/
theorem clean_of_rounds {xs : List FilenameInode}
    (h : (fileLines lineSize (printed xs)).length = xs.length) :
    ∀ x ∈ xs, 10 ∉ x.filename.bytes := by
  have hnewlines : (printed xs).count 10 ≤ (fileLines lineSize (printed xs)).length :=
    count_le_linesOf (by decide) _ _ (Nat.le_refl _)
  have hcount : (printed xs).count 10 ≤ (xs.map filenameText).length := by
    rw [List.length_map, ← h]
    exact hnewlines
  intro x hx hmem
  exact no_newline_of_count _ hcount _ (List.mem_map_of_mem hx) (newline_mem_filenameText.mpr hmem)

/-- Entries with plain names are read back from what was printed. -/
theorem printed_read {xs : List FilenameInode} (hindex : ∀ x ∈ xs, x.nodeIndex < 4294967296)
    (hplain : ∀ x ∈ xs, Plain x.filename) :
    ∃ t', openFilenameTable (some (printed xs)) .empty = .ok t' ∧ t'.WF ∧ t'.Intact ∧
      t'.values = .ok xs := by
  refine openLines_file (bodies_fit fun x hx => (hplain x hx).2) ?_
  rw [List.forall₂_map_left_iff, List.forall₂_same]
  intro x hx
  exact filenameOfLine_eq (hindex x hx) (hplain x hx)

/-- A table survives exactly if its head can be walked from and its names are
    plain. -/
theorem survivesRestart_iff {t : Table FilenameInode} (hw : t.WF)
    (hindex : t.All fun x => x.nodeIndex < 4294967296) :
    SurvivesRestart t ↔ t.Intact ∧ t.All fun x => Plain x.filename := by
  constructor
  · rintro ⟨file, t', hclose, hopen, hsame⟩
    have hi : t.Intact := by
      rcases hw.headed with hi | hd
      · exact hi
      · unfold closeFilenameTable at hclose
        rw [Table.values_of_dangling hd] at hclose
        exact nomatch hclose
    obtain rfl : printed (t.live.map Prod.snd) = file :=
      Except.ok.inj ((closeFilenameTable_eq hw hi).symm.trans hclose)
    obtain ⟨hw', hi', hlen, hall⟩ := openLines_ok _ Table.wf_empty Table.intact_empty hopen
    have hlive : t'.live.map Prod.snd = t.live.map Prod.snd :=
      Except.ok.inj ((hw'.values_eq hi').symm.trans (hsame.trans (hw.values_eq hi)))
    -- every round has made an entry
    have hrounds : (fileLines lineSize (printed (t.live.map Prod.snd))).length
        = (t.live.map Prod.snd).length := by
      rw [← hlive, List.length_map, hlen, hlive]
      exact (Nat.zero_add _).symm
    have hclean := clean_of_rounds hrounds
    refine ⟨hi, ?_⟩
    intro p hp
    have hmem : p.2 ∈ t.live.map Prod.snd := List.mem_map_of_mem hp
    refine ⟨?_, hclean p.2 hmem⟩
    intro hempty
    have hline : filenameText p.2 ++ newline ∈ fileLines lineSize (printed (t.live.map Prod.snd)) := by
      have hlines : fileLines lineSize (printed (t.live.map Prod.snd)) = _ :=
        fileLines_lines (bodies_fit hclean)
      rw [hlines]
      exact List.mem_map_of_mem (List.mem_map_of_mem hmem)
    obtain ⟨x, hx⟩ := hall _ hline
    rw [filenameOfLine_empty hempty] at hx
    exact nomatch hx
  · rintro ⟨hi, hplain⟩
    have hentries : ∀ {P : FilenameInode → Prop}, t.All P → ∀ x ∈ t.live.map Prod.snd, P x := by
      intro P hall x hx
      obtain ⟨p, hp, rfl⟩ := List.mem_map.mp hx
      exact hall p hp
    obtain ⟨t', hopen, -, -, hvalues⟩ := printed_read (hentries hindex) (hentries hplain)
    exact ⟨_, t', closeFilenameTable_eq hw hi, hopen, hvalues.trans (hw.values_eq hi).symm⟩

/-! ## In every state of every run -/

/-- The name a request adds. -/
def newName : Request → Option Filename
  | .create args => some args.filename
  | .rename args => some args.newname
  | .link args => some args.linkname
  | .symlink args => some args.linkname
  | _ => none

/-- The request adds a plain name if any, and does not unlink the first entry
    of the table. -/
structure KeepsPlain (s : State) (e : Event) : Prop where
  plain : ∀ name, newName e.request = some name → Plain name
  heads : ∀ args l r b x, e.request = .unlink args →
    s.filenameTable.Found (fun x => x.filename = args.name) l r b x → l ≠ []

/-- The entries carry the indices of inodes, which fit an `unsigned`. -/
structure IndicesFit (s : State) : Prop where
  sound : Sound s.inodeTable s.blocks
  inodes : s.inodeTable.All fun v => v.index < 4294967296
  entries : s.filenameTable.All fun x => x.nodeIndex < 4294967296

/-- An index is an `unsigned`. -/
theorem nextIndex_lt (t : Table Inode) : nextIndex t < 4294967296 := by
  unfold nextIndex
  split
  · decide
  · exact u32_lt _

/-- A new name leads to an index that fits its field. -/
theorem Change.indicesFit {s s' : State} {e : Event} (hw : WellLinked s) (hfit : IndicesFit s)
    (h : Change s e s') : IndicesFit s' where
  sound := h.sound hw hfit.sound
  inodes := by
    refine h.inodes_all hw hfit.sound ?_ ?_ ?_ hfit.inodes
    · intro v hv _
      rw [hv]
      exact nextIndex_lt _
    · intro v v' hsame hv
      rw [hsame.index]
      exact hv
    · intro bs bs' v v' buf offset size offset' st hin hbuf hwrite hv
      obtain ⟨p, ks, hwrote, -⟩ := wrote_of_writeInode hbuf hwrite hin
      rw [hwrote.index]
      exact hv
  entries := by
    have hnext := nextIndex_lt s.inodeTable
    cases h with
    | created _ _ _ _ hn => exact hn.all hfit.entries hnext
    | renamed _ _ _ _ hn => exact hn.replaced.all hfit.entries fun hx => hx
    | linked _ _ _ hv _ hn => exact hn.all hfit.entries (hfit.inodes _ hv.mem)
    | symlinked _ _ _ hi hn _ _ _ hic hcopy =>
        have hmid : WellLinked { s with inodeTable := _, filenameTable := _ } :=
          ⟨hic.wf, hn.wf, hw.descs, hw.headed⟩
        have hall := hn.all hfit.entries hnext
        rcases copyContents_ok hmid hic.after hcopy with
          ⟨_, _, _, _, _, _, _, _, _, -, _, rfl⟩ | ⟨-, rfl⟩
        · exact hall
        · exact hall
    | unlinkedName _ _ _ _ hn _ => exact hn.all hfit.entries
    | unlinkedFile _ _ _ _ hn => exact hn.all hfit.entries
    | refused => exact hfit.entries
    | touched => exact hfit.entries
    | opened => exact hfit.entries
    | closed => exact hfit.entries
    | wrote => exact hfit.entries
    | read => exact hfit.entries
    | sought => exact hfit.entries

/-- In every state of every run the indices fit their fields. -/
theorem indicesFit_of_run {es : List Event} {s : State} (hr : ServiceRun es s) : IndicesFit s :=
  (invariant_of_change IndicesFit
    ⟨sound_init, (fun _ hp => nomatch hp), (fun _ hp => nomatch hp)⟩
    (fun _ _ _ hw hfit hc => hc.indicesFit hw hfit) hr).2

/-- A table whose head can be walked from and whose names are plain. -/
def PlainTable (t : Table FilenameInode) : Prop := t.Intact ∧ t.All fun x => Plain x.filename

/-- A plain name is added. -/
theorem PlainTable.pushed {t t' : Table FilenameInode} {b : Nat} {x : FilenameInode}
    (h : PlainTable t) (hp : t.Pushed t' b x) (hx : Plain x.filename) : PlainTable t' :=
  ⟨hp.intact, hp.all h.2 hx⟩

/-- A guarded request adds plain names, and leaves a head to walk from. -/
theorem Change.plainTable {s s' : State} {e : Event} (hw : WellLinked s) (hg : KeepsPlain s e)
    (hplain : PlainTable s.filenameTable) (h : Change s e s') : PlainTable s'.filenameTable := by
  have hadded : ∀ r name, e.request = r → newName r = some name → Plain name := by
    rintro r name rfl hname
    exact hg.plain name hname
  cases h with
  | created hreq _ _ _ hn => exact hplain.pushed hn (hadded _ _ hreq rfl)
  | renamed hreq _ _ _ hn =>
      exact ⟨hn.intact.mpr hplain.1, hn.replaced.all hplain.2 fun _ => hadded _ _ hreq rfl⟩
  | linked hreq _ _ _ _ hn => exact hplain.pushed hn (hadded _ _ hreq rfl)
  | symlinked hreq _ _ _ hn _ _ _ hic hcopy =>
      have hmid : WellLinked { s with inodeTable := _, filenameTable := _ } :=
        ⟨hic.wf, hn.wf, hw.descs, hw.headed⟩
      have hpushed := hplain.pushed hn (hadded _ _ hreq rfl)
      rcases copyContents_ok hmid hic.after hcopy with
        ⟨_, _, _, _, _, _, _, _, _, -, _, rfl⟩ | ⟨-, rfl⟩
      · exact hpushed
      · exact hpushed
  | unlinkedName hreq _ _ hx hn =>
      exact ⟨hn.intact (hg.heads _ _ _ _ _ hreq hx) hplain.1, hn.all hplain.2⟩
  | unlinkedFile hreq _ _ hx hn =>
      exact ⟨hn.intact (hg.heads _ _ _ _ _ hreq hx) hplain.1, hn.all hplain.2⟩
  | refused => exact hplain
  | touched => exact hplain
  | opened => exact hplain
  | closed => exact hplain
  | wrote => exact hplain
  | read => exact hplain
  | sought => exact hplain

/-- So all names are plain in every state of a guarded run. -/
theorem plainTable_of_run {es : List Event} {s : State}
    (hr : Run (guarded KeepsPlain Step) State.init es s) : PlainTable s.filenameTable := by
  induction hr with
  | start => exact ⟨Table.intact_empty, fun p hp => nomatch hp⟩
  | next hr hs ih =>
      have hw := wellLinked_of_run hr.unguard
      exact (step_change hw hs.2).plainTable hw hs.1 ih

/-- In every state of every run the filename table survives a restart exactly
    if its head was not unlinked and its names are plain.  It does in every
    state of a run that adds plain names only and keeps the first entry. -/
theorem names_survive_restart {es : List Event} {s : State} (hr : ServiceRun es s) :
    (SurvivesRestart s.filenameTable ↔
      s.filenameTable.Intact ∧ ∀ p ∈ s.filenameTable.live, Plain p.2.filename) ∧
    (Run (guarded KeepsPlain Step) State.init es s → SurvivesRestart s.filenameTable) := by
  have hiff := survivesRestart_iff (wellLinked_of_run hr).names (indicesFit_of_run hr).entries
  constructor
  · exact hiff
  · intro hguarded
    exact hiff.mpr (plainTable_of_run hguarded)

/-- Two files, the second of them renamed. -/
def renamedRun : List Request :=
  [.create ⟨1, 1, 0o600, nameX⟩, .create ⟨1, 1, 0o600, nameA⟩, .rename ⟨nameA, nameB⟩]

/-- The two names of a run with a `RENAME` survive. -/
theorem names_survive_renamed : SurvivesRestart (replay renamedRun).filenameTable := by
  have hguard : ∀ k (hk : k < renamedRun.length),
      KeepsPlain (replay (renamedRun.take k)) ⟨stillEnv, renamedRun[k], answer (renamedRun.take k)
        renamedRun[k]⟩ := by
    intro k hk
    match k, hk with
    | 0, _ => exact ⟨by rintro name ⟨rfl⟩; decide, fun _ _ _ _ _ h => nomatch h⟩
    | 1, _ => exact ⟨by rintro name ⟨rfl⟩; decide, fun _ _ _ _ _ h => nomatch h⟩
    | 2, _ => exact ⟨by rintro name ⟨rfl⟩; decide, fun _ _ _ _ _ h => nomatch h⟩
  obtain ⟨es, hr⟩ := guarded_replay renamedRun (by decide +kernel) hguard
  exact (names_survive_restart hr.unguard).2 hr

/-- A name of three bytes, the second a newline. -/
def nameSplit : Filename := ⟨[97, 10, 98], by decide, by decide⟩

/-- A file of that name makes a table that is not read again. -/
theorem split_name_lost : ¬ ∀ (es : List Event) (s : State), ServiceRun es s →
    SurvivesRestart s.filenameTable := by
  intro hclaim
  obtain ⟨es, hr⟩ := run_replay (show returns [.create ⟨1, 1, 0o600, nameSplit⟩] = true by
    decide +kernel)
  have hiff := survivesRestart_iff (wellLinked_of_run hr).names (indicesFit_of_run hr).entries
  obtain ⟨-, hplain⟩ := hiff.mp (hclaim es _ hr)
  have hentry : ∃ p ∈ (replay [.create ⟨1, 1, 0o600, nameSplit⟩]).filenameTable.live,
      ¬ Plain p.2.filename := by decide +kernel
  obtain ⟨p, hp, hsplit⟩ := hentry
  exact hsplit (hplain p hp)

end LibfsSpecs
