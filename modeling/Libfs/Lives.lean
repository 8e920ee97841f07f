import Libfs.Restarts
import Libfs.Refinement

/-! # The file system over all runs of the service

    A restart of the service is an event of the file system too: the handles
    are lost and the times lose their fractions, the names and the files stay.
    Requests that give plain names and numbers that can be printed keep the
    files such that every restart succeeds. -/

namespace LibfsFileSystem

open LibfsHeap LibfsStdio LibfsCommon LibfsInode LibfsOperations LibfsRun LibfsSpecs
open LibfsDirectory LibfsText

variable {f f' : Fs} {e : Event} {i : Nat} {o o' : File} {name : Filename}

/-! ## Restarts -/

/-- The file as it is read back: its times have lost their fractions. -/
def File.restored (o : File) : File :=
  { o with
    atim := Timespec.restored o.atim
    mtim := Timespec.restored o.mtim
    ctim := Timespec.restored o.ctim }

/-- The names and the files stay, the handles are gone. -/
def Fs.restarted (f : Fs) : Fs := ⟨f.dir.map File.restored, fun _ => none⟩

/-- A request, or a restart. -/
inductive FsLifeStep (f : Fs) : LifeEvent → Fs → Prop where
  | request {e : Event} {f' : Fs} (h : FsStep f e f') : FsLifeStep f (.request e) f'
  | restart : FsLifeStep f .restart f.restarted

/-- The file system after some requests and restarts. -/
abbrev FsLife (es : List LifeEvent) (f : Fs) : Prop := Run FsLifeStep Fs.empty es f

/-- No request takes the name away. -/
structure KeepsName (name : Filename) (e : Event) : Prop where
  unlink : ∀ args, e.request = .unlink args → args.name ≠ name
  rename : ∀ args, e.request = .rename args → args.oldname ≠ name

/-- A name that no request takes away leads to the same file. -/
theorem FsStep.keeps_name (hs : FsStep f e f') (hkeep : KeepsName name e)
    (hn : f.dir.names name = some i) : f'.dir.names name = some i := by
  have hother : ∀ {new : Filename} {target : Option Nat}, f.dir.names new = none →
      Function.update f.dir.names new target name = some i := by
    intro new target hfree
    rw [Function.update_of_ne (fun he => by rw [← he, hn] at hfree; cases hfree), hn]
  cases hs with
  | created _ hfree => exact hother hfree
  | renamed hreq _ hfree =>
      refine (Function.update_of_ne (hkeep.rename _ hreq).symm _ _).trans ?_
      exact hother hfree
  | linked _ _ _ hfree => exact hother hfree
  | symlinked _ _ _ hfree => exact hother hfree
  | unlinked hreq => exact (Function.update_of_ne (hkeep.unlink _ hreq).symm _ _).trans hn
  | _ => exact hn

/-- A file that keeps its name and is not written to keeps its contents. -/
theorem FsStep.keeps_file (hs : FsStep f e f') (hkeep : KeepsName name e) (hspares : Spares f i e)
    (ho : f.At name i o) : ∃ o', f'.At name i o' ∧ o'.content = o.content := by
  have hname := hs.keeps_name hkeep ho.1
  obtain ⟨o', ho'⟩ := Option.ne_none_iff_exists'.mp (f'.dir.live hname)
  refine ⟨o', ⟨hname, ho'⟩, ?_⟩
  rcases hs.content ho' with ⟨p, hp, hc, -⟩ | ⟨p, fd, h, data, hp, hk, -, hfile, hsent, -⟩ | ⟨hunused, -⟩
  · rw [ho.2] at hp
    rw [hc, Option.some.inj hp]
  · rw [hspares fd h hk hfile] at hsent
    cases hsent
  · cases ho.2.symm.trans hunused.1

/-! ## Files that can be printed -/

/-- The numbers of a file fit the conversions they are printed with. -/
structure File.Storable (o : File) : Prop where
  mode : IsInt32 o.mode
  owner : o.owner < 4294967296
  group : o.group < 4294967296
  atime : IsInt32 o.atim.tvSec
  mtime : IsInt32 o.mtim.tvSec
  ctime : IsInt32 o.ctim.tvSec

/-- What the tables of such a file system hold can be printed and read back. -/
structure Fs.Storable (f : Fs) : Prop where
  names : ∀ name, f.dir.names name ≠ none → Plain name
  files : ∀ i o, f.dir.objects i = some o → o.Storable

/-- The mode a request gives to a file. -/
def newModeOf : Request → Option Int
  | .create args => some args.accessMode
  | .chmode args => some (args.accessMode % 4294967296)
  | .symlink args => some args.mode
  | _ => none

/-- The owner and the group a request gives to a file. -/
def newOwnerOf : Request → Option (Nat × Nat)
  | .create args => some (args.fileOwner, args.fileGroup)
  | .symlink args => some (args.fileOwner, args.fileGroup)
  | _ => none

/-- What a request gives to the files can be printed. -/
structure Printed (e : Event) : Prop where
  name : ∀ name, newNameOf e.request = some name → Plain name
  clock : ∀ k, IsInt32 (e.env.clock k).tvSec
  mode : ∀ mode, newModeOf e.request = some mode → IsInt32 mode
  owner : ∀ owner group, newOwnerOf e.request = some (owner, group) →
    owner < 4294967296 ∧ group < 4294967296

/-- Nothing is stored at the beginning. -/
theorem storable_empty : Fs.empty.Storable where
  names := fun _ h => absurd rfl h
  files := fun _ _ h => by cases h

theorem File.Storable.accessed (h : o.Storable) {now : Timespec} (hnow : IsInt32 now.tvSec) :
    (o.accessed now).Storable := { h with atime := hnow }

theorem File.Storable.modified (h : o.Storable) {now : Timespec} (hnow : IsInt32 now.tvSec) :
    (o.modified now).Storable := { h with atime := hnow, mtime := hnow }

theorem File.Storable.changed (h : o.Storable) {now : Timespec} (hnow : IsInt32 now.tvSec) :
    (o.changed now).Storable := { h with atime := hnow, ctime := hnow }

theorem File.Storable.overwritten (h : o.Storable) {now : Timespec} (hnow : IsInt32 now.tvSec)
    (offset : Nat) (data : Bytes) : (o.overwritten offset data now).Storable :=
  { h with atime := hnow, mtime := hnow }

/-- A file that is replaced by one that can be stored. -/
theorem Fs.Storable.modify (h : f.Storable) {m : File → File}
    (hm : ∀ o, o.Storable → (m o).Storable) : (f.modify i m).Storable where
  names := h.names
  files := by
    intro j o ho
    obtain ⟨p, hp, rfl⟩ := Directory.modify_some ho
    by_cases hj : j = i
    · rw [if_pos hj]
      exact hm p (h.files j p hp)
    · rw [if_neg hj]
      exact h.files j p hp

/-- A new name, or one that is given away. -/
theorem plain_updated {names : Filename → Option Nat} (h : ∀ name, names name ≠ none → Plain name)
    {new : Filename} {target : Option Nat} (hnew : target ≠ none → Plain new) :
    ∀ name, Function.update names new target name ≠ none → Plain name := by
  intro name hname
  by_cases he : name = new
  · rw [he, Function.update_self] at hname
    exact he ▸ hnew hname
  · rw [Function.update_of_ne he] at hname
    exact h name hname

/-- A new file under a plain name. -/
theorem Fs.Storable.create (h : f.Storable) {hn : f.dir.names name = none} (hname : Plain name)
    (ho : o.Storable) : Fs.Storable { f with dir := f.dir.create name i o hn } where
  names := plain_updated h.names fun _ => hname
  files := by
    intro j p hp
    change (f.dir.create name i o hn).objects j = some p at hp
    rw [Directory.objects_create] at hp
    by_cases hj : j = i
    · rw [if_pos hj] at hp
      obtain rfl := Option.some.inj hp
      exact ho
    · rw [if_neg hj] at hp
      exact h.files j p hp

/-- One more plain name for a file. -/
theorem Fs.Storable.bind (h : f.Storable) {hn : f.dir.names name = none}
    {hi : f.dir.objects i ≠ none} (hname : Plain name) :
    Fs.Storable { f with dir := f.dir.bind name i hn hi } where
  names := plain_updated h.names fun _ => hname
  files := h.files

/-- With a name less there is nothing new to store. -/
theorem Fs.Storable.remove (h : f.Storable) (name : Filename) :
    Fs.Storable { f with dir := f.dir.remove name } where
  names := plain_updated h.names fun hne => absurd rfl hne
  files := fun j o ho => h.files j o (Directory.objects_remove ho)

/-- Handles are not stored. -/
theorem Fs.Storable.setHandle (h : f.Storable) (fd : Nat) (k : Option Handle) :
    (f.setHandle fd k).Storable := ⟨h.names, h.files⟩

/-- What can be printed keeps the file system storable. -/
theorem FsStep.storable (h : f.Storable) (hg : Printed e) (hs : FsStep f e f') : f'.Storable := by
  have hnow := hg.clock 0
  cases hs with
  | refused => exact h
  | created hreq =>
      obtain ⟨howner, hgroup⟩ := hg.owner _ _ (by rw [hreq]; rfl)
      exact h.create (hg.name _ (by rw [hreq]; rfl))
        ⟨hg.mode _ (by rw [hreq]; rfl), howner, hgroup, hnow, hnow, hnow⟩
  | modeChanged hreq =>
      exact h.modify fun o ho =>
        { ho.changed hnow with mode := hg.mode _ (by rw [hreq]; rfl) }
  | renamed hreq =>
      refine ⟨plain_updated (plain_updated h.names fun _ => ?_) fun hne => absurd rfl hne, h.files⟩
      exact hg.name _ (by rw [hreq]; rfl)
  | reported => exact h.modify fun o ho => ho.accessed hnow
  | linked hreq =>
      exact (h.bind (hg.name _ (by rw [hreq]; rfl))).modify fun o ho => ho.changed hnow
  | symlinked hreq =>
      obtain ⟨howner, hgroup⟩ := hg.owner _ _ (by rw [hreq]; rfl)
      refine (h.create (hg.name _ (by rw [hreq]; rfl)) ?_).modify fun o ho =>
        ho.accessed (hg.clock 1)
      exact ⟨hg.mode _ (by rw [hreq]; rfl), howner, hgroup, hnow, hnow, hnow⟩
  | opened => exact (h.setHandle _ _).modify fun o ho => ho.accessed hnow
  | closed => exact h.setHandle _ _
  | wrote => exact (h.setHandle _ _).modify fun o ho => ho.overwritten hnow _ _
  | tooLong => exact h.modify fun o ho => ho.modified hnow
  | read => exact (h.setHandle _ _).modify fun o ho => ho.accessed hnow
  | sought => exact h.setHandle _ _
  | unlinked => exact (h.remove _).modify fun o ho => ho.changed hnow

/-- A file that was read back can be stored again. -/
theorem Fs.Storable.restarted (h : f.Storable) : f.restarted.Storable where
  names := h.names
  files := by
    intro i o ho
    obtain ⟨p, hp, rfl⟩ := Option.map_eq_some_iff.mp ho
    exact { h.files i p hp with }

/-- A restart leaves no handle that could be wrong. -/
theorem Fs.Valid.restarted (hv : f.Valid) : f.restarted.Valid where
  single := fun _ _ _ _ h => by cases h
  inside := fun _ _ _ h => by cases h.1
  fits := by
    intro i o ho
    obtain ⟨p, hp, rfl⟩ := Option.map_eq_some_iff.mp ho
    exact hv.fits i p hp

end LibfsFileSystem

namespace LibfsSpecs

open LibfsHeap LibfsStdio LibfsCommon LibfsInode LibfsOperations LibfsRun
open LibfsDirectory LibfsFileSystem LibfsText

/-! ## The tables stand for it -/

section Alive

variable {s s' t : State} {f f' : Fs} {e : LifeEvent} {es pre : List LifeEvent}

/-- Healthy tables that can be printed, and the file system they stand for. -/
structure Alive (s : State) (f : Fs) : Prop where
  healthy : Healthy s
  indices : IndicesFit s
  slots : SlotsNumbered s.blocks
  represents : Represents s f
  valid : f.Valid
  storable : f.Storable

/-- The freshly started service stands for the empty file system. -/
theorem alive_init : Alive State.init Fs.empty where
  healthy := healthy_init
  indices := ⟨sound_init, (fun _ h => by cases h), fun _ h => by cases h⟩
  slots := slotsNumbered_init
  represents := represents_init
  valid := valid_empty
  storable := storable_empty

/-- An inode that was read back holds the file with the times that were saved.
    -/
theorem HoldsFile.restored {bs : BlockStore} {v : Inode} {o : File} (h : HoldsFile bs v o) :
    HoldsFile bs (Inode.restored v) o.restored where
  stat := by
    rw [Inode.restored, h.stat]
    rfl
  perms := h.perms
  kind := h.kind
  bytes := h.bytes

/-- The tables that were read back stand for the restarted file system. -/
theorem Represents.restarted (hr : Represents s f) (h : Reopened s s') :
    Represents s' f.restarted where
  names := by
    have hlive : s'.filenameTable.live.map Prod.snd
        = (s.filenameTable.live.map Prod.snd).map id := by
      rw [List.map_id]
      exact h.entries
    have hn := hr.names.mapped (S := fun x i => x.nodeIndex = i) (f := id) hlive (fun _ => rfl)
      fun _ _ hi => hi
    simp only [Option.map_id] at hn
    exact hn
  files := by
    rw [h.blocks]
    exact hr.files.mapped h.inodes (fun _ => rfl) fun _ _ hold => hold.restored
  handles := by
    rw [h.descriptors]
    exact Table.denotes_empty _ _

/-- The files can be stored, and so the inodes can be printed. -/
theorem Alive.fits (h : Alive s f) : s.inodeTable.All FitsFields := by
  intro p hp
  obtain ⟨o, ho, hold⟩ := h.represents.files.held p hp
  have hfile := h.storable.files _ o ho
  have howner : p.2.owner = o.owner := congrArg OwnerGroupPerms.owner hold.perms
  have hgroup : p.2.ownerGroup = o.group := congrArg OwnerGroupPerms.group hold.perms
  have hmode : p.2.mode = o.mode := congrArg OwnerGroupPerms.perms hold.perms
  have hstat := hold.stat
  refine ⟨h.indices.inodes p hp, ?_, howner ▸ hfile.owner, hgroup ▸ hfile.group,
    h.healthy.agree.bounded p hp, hmode ▸ hfile.mode, ?_, ?_, ?_, ?_, ?_⟩
  · rw [hold.kind]
    cases o.kind with
    | fRegular => decide
    | fSymlink => decide
  · obtain ⟨hpos, hle⟩ := h.healthy.sizes p hp
    simp only [fileEnd, dataBlockAllocSize, fileMaxBlocks] at hle
    constructor <;> omega
  · rw [hstat]
    exact hfile.atime
  · rw [hstat]
    exact hfile.mtime
  · rw [hstat]
    exact hfile.ctime
  · intro b hb
    obtain ⟨i, hi⟩ := Vector.mem_iff_getElem?.mp (Vector.mem_toList_iff.mp hb)
    cases b with
    | zero => exact Nat.zero_lt_succ _
    | succ k =>
        have hlt := (h.healthy.sound.blocksInside hp i k hi).1
        simp only [numOfDataBlocks] at hlt
        omega

/-- All tables can be printed. -/
theorem Alive.printable (h : Alive s f) : Printable s where
  inodes := h.fits
  indices := h.indices.entries
  plain := by
    intro p hp
    obtain ⟨i, hi, -⟩ := h.represents.names.held p hp
    exact h.storable.names _ (by rw [hi]; exact Option.some_ne_none i)
  slots := h.slots

/-- A restart succeeds and restarts the file system. -/
theorem Alive.restart (h : Alive s f) :
    ∃ s', restart s = .ok s' ∧ Reopened s s' ∧ Alive s' f.restarted := by
  obtain ⟨s', hs, hre⟩ := restart_restores h.healthy.linked h.healthy.agree.inodes
    h.healthy.agree.entries h.printable
  refine ⟨s', hs, hre, h.healthy.restored hre, h.indices.restored h.healthy.agree hre, ?_,
    h.represents.restarted hre, h.valid.restarted, h.storable.restarted⟩
  rw [hre.blocks]
  exact h.slots

/-- The guard of the lives. -/
def Lasting (s : State) : LifeEvent → Prop
  | .request e => Admits s e ∧ Printed e
  | .restart => True

/-- A request that meets the guard, and a restart, are steps of the file system.
    -/
theorem Alive.step (h : Alive s f) (hg : Lasting s e) (hs : LifeStep s e s') :
    ∃ f', FsLifeStep f e f' ∧ Alive s' f' := by
  cases e with
  | request e =>
      obtain ⟨hadmits, hprinted⟩ := hg
      obtain ⟨f', hstep, hr'⟩ := step_refines h.healthy h.represents h.valid hadmits hs
      have hc := step_change h.healthy.linked hs
      exact ⟨f', .request hstep, h.healthy.step hadmits hs,
        hc.indicesFit h.healthy.linked h.indices,
        hc.slotsNumbered h.healthy.linked h.indices h.slots, hr', h.valid.step hstep,
        hstep.storable h.storable hprinted⟩
  | restart =>
      obtain ⟨s₁, hs₁, -, halive⟩ := h.restart
      obtain rfl : s₁ = s' := Except.ok.inj (hs₁.symm.trans hs)
      exact ⟨f.restarted, .restart, halive⟩

/-- So a life of the service is one of the file system. -/
theorem alive_of_life (hrun : Run (guarded Lasting LifeStep) State.init es s) :
    ∃ f, FsLife es f ∧ Alive s f := by
  induction hrun with
  | start => exact ⟨Fs.empty, .start, alive_init⟩
  | next _ hs ih =>
      obtain ⟨f, hf, halive⟩ := ih
      obtain ⟨f', hstep, halive'⟩ := halive.step hs.1 hs.2
      exact ⟨f', .next hf hstep, halive'⟩

/-! ## A life on fixed inputs -/

/-- What a request gives to the files, checked one by one. -/
theorem printed_of {r : Request} (hname : ∀ name ∈ newNameOf r, Plain name)
    (hmode : ∀ mode ∈ newModeOf r, IsInt32 mode)
    (howner : ∀ ids ∈ newOwnerOf r, ids.1 < 4294967296 ∧ ids.2 < 4294967296) (resp : Response) :
    Printed ⟨stillEnv, r, resp⟩ where
  name := hname
  clock := fun _ => (by decide : IsInt32 0)
  mode := hmode
  owner := fun owner group hids => howner (owner, group) hids

/-- The names and numbers of the two sessions can be printed. -/
theorem sessions_printed (k : Nat) (hk : k < sessionsRun.length) (resp : Response) :
    Printed ⟨stillEnv, sessionsRun[k], resp⟩ := by
  have hnames : ∀ k (hk : k < sessionsRun.length), ∀ name ∈ newNameOf sessionsRun[k],
      Plain name := by decide
  have hmodes : ∀ k (hk : k < sessionsRun.length), ∀ mode ∈ newModeOf sessionsRun[k],
      IsInt32 mode := by decide
  have howners : ∀ k (hk : k < sessionsRun.length), ∀ ids ∈ newOwnerOf sessionsRun[k],
      ids.1 < 4294967296 ∧ ids.2 < 4294967296 := by decide
  exact printed_of (hnames k hk) (hmodes k hk) (howners k hk) resp

/-- The sessions are the beginning of a life. -/
theorem sessions_life (n : Nat) (hn : n ≤ sessionsRun.length) : ∃ es,
    Run (guarded Lasting LifeStep) State.init es (replay (sessionsRun.take n)) := by
  induction n with
  | zero => exact ⟨[], .start⟩
  | succ n ih =>
      obtain ⟨es, hrun⟩ := ih (Nat.le_of_succ_le hn)
      obtain ⟨hadmits, hstep⟩ := sessions_step n hn _ rfl
      have hlife : guarded Lasting LifeStep (replay (sessionsRun.take n)) (.request _)
          (replay (sessionsRun.take (n + 1))) := ⟨⟨hadmits, sessions_printed n hn _⟩, hstep⟩
      exact ⟨_, .next hrun hlife⟩

/-- A restart does not fail; it keeps the names and what the files contain and
    forgets the descriptors. -/
theorem restart_keeps_files (hrun : Run (guarded Lasting LifeStep) State.init es s) :
    ∃ s', restart s = .ok s' ∧
      (∀ name, lookup s'.filenameTable name = lookup s.filenameTable name) ∧
      (∀ n, contentOf s' n = contentOf s n) ∧ s'.descriptorTable = .empty := by
  obtain ⟨f, -, halive⟩ := alive_of_life hrun
  obtain ⟨s', hs, hre, halive'⟩ := halive.restart
  refine ⟨s', hs, ?_, ?_, hre.descriptors⟩
  · intro name
    rw [halive'.represents.lookup_eq, halive.represents.lookup_eq]
    rfl
  · intro n
    rw [halive'.represents.contentOf, halive.represents.contentOf]
    show ((f.dir.objects n).map File.restored).map File.content = _
    rw [Option.map_map]
    rfl

/-- The file is still open when the service is restarted. -/
theorem restart_keeps_sessions : ∃ s', restart (replay (sessionsRun.take 3)) = .ok s' ∧
    (∀ name, lookup s'.filenameTable name
      = lookup (replay (sessionsRun.take 3)).filenameTable name) ∧
    (∀ n, contentOf s' n = contentOf (replay (sessionsRun.take 3)) n) ∧
    s'.descriptorTable = .empty := by
  obtain ⟨es, hrun⟩ := sessions_life 3 (by decide)
  exact restart_keeps_files hrun

/-- Nobody takes the name away or writes to the file. -/
def Untouched (name : Filename) (n : Nat) (s : State) : LifeEvent → Prop
  | .request e => KeepsName name e ∧ NotWritten n s e
  | .restart => True

/-- A file that nobody touches is found under its name with its content, over
    requests and restarts. -/
theorem Alive.keeps_file {name : Filename} {n : Nat} {o : File} (h : Alive s f)
    (ho : f.At name n o)
    (hrun : Run (guarded (fun s e => Lasting s e ∧ Untouched name n s e) LifeStep) s es t) :
    ∃ g p, Alive t g ∧ g.At name n p ∧ p.content = o.content := by
  induction hrun with
  | start => exact ⟨f, o, h, ho, rfl⟩
  | @next es s₁ s₂ e _ hs ih =>
      obtain ⟨g, p, halive, hp, hc⟩ := ih
      obtain ⟨⟨hlasting, huntouched⟩, hstep⟩ := hs
      obtain ⟨g', hg', halive'⟩ := halive.step hlasting hstep
      cases hg' with
      | request hreq =>
          obtain ⟨p', hp', hc'⟩ := hreq.keeps_file huntouched.1
            (huntouched.2.spares halive.represents) hp
          exact ⟨g', p', halive', hp', hc'.trans hc⟩
      | restart =>
          refine ⟨g.restarted, p.restored, halive', ⟨hp.1, ?_⟩, hc⟩
          show (g.dir.objects n).map File.restored = _
          rw [hp.2]
          rfl

/-- What a file contains outlives the service: as long as its name is not
    taken away and nobody writes to it, it is found under the same name with
    the same bytes, after any number of restarts and requests. -/
theorem file_outlives_restarts {name : Filename} {n : Nat} {content : Bytes}
    (hpre : Run (guarded Lasting LifeStep) State.init pre s)
    (hname : lookup s.filenameTable name = some n) (hcontent : contentOf s n = some content)
    (hrun : Run (guarded (fun s e => Lasting s e ∧ Untouched name n s e) LifeStep) s es t) :
    lookup t.filenameTable name = some n ∧ contentOf t n = some content := by
  obtain ⟨f, -, halive⟩ := alive_of_life hpre
  rw [halive.represents.lookup_eq] at hname
  rw [halive.represents.contentOf] at hcontent
  obtain ⟨o, ho, rfl⟩ := Option.map_eq_some_iff.mp hcontent
  obtain ⟨g, p, halive', hp, hc⟩ := halive.keeps_file ⟨hname, ho⟩ hrun
  rw [halive'.represents.lookup_eq, halive'.represents.contentOf, hp.2, ← hc]
  exact ⟨hp.1, rfl⟩

/-- The byte is there after the restart. -/
theorem byte_outlives_restart : ∃ t, restart (replay (sessionsRun.take 3)) = .ok t ∧
    lookup t.filenameTable nameX = some 0 ∧ contentOf t 0 = some [65] := by
  obtain ⟨es, hpre⟩ := sessions_life 3 (by decide)
  obtain ⟨f, -, halive⟩ := alive_of_life hpre
  obtain ⟨t, ht, -⟩ := halive.restart
  have hstep : guarded (fun s e => Lasting s e ∧ Untouched nameX 0 s e) LifeStep
      (replay (sessionsRun.take 3)) .restart t := ⟨⟨trivial, trivial⟩, ht⟩
  exact ⟨t, ht, file_outlives_restarts hpre (by decide +kernel) (by decide +kernel)
    (.single hstep)⟩

end Alive

end LibfsSpecs
