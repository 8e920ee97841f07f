import Libfs.TableMaps
import Libfs.FileSystem
import Libfs.BlockLists
import Libfs.DescriptorTable
import Libfs.HardLinks
import Libfs.Overwrites

/-! # The tables stand for a file system

    `Represents` reads the three tables and the blocks as a directory of files
    and a table of handles; `Healthy` collects what the tables must be for
    that, and `Admissible` is the condition under which a request keeps them
    so. -/

namespace LibfsSpecs

open LibfsHeap LibfsStdio LibfsCommon LibfsInode LibfsOperations LibfsRun
open LibfsDirectory LibfsFileSystem

/-- An inode and its blocks hold a file. -/
structure HoldsFile (bs : BlockStore) (v : Inode) (o : File) : Prop where
  stat : v.stat = o.stat
  perms : Inode.attributes v = o.perms
  kind : v.type = o.kind.code
  bytes : ∀ pos, pos < o.content.length →
    fileByte (BlockStore.file bs) v.dataBlocks pos = o.content[pos]?

/-- What a descriptor says of its handle. -/
def Descriptor.handle (d : Descriptor) : Handle := ⟨d.nodeIndex, d.mode, d.offset⟩

/-- The filename table stands for the names of a directory. -/
abbrev NamesAre (t : Table FilenameInode) (names : Filename → Option Nat) : Prop :=
  t.Denotes (fun x => x.filename) (fun x i => x.nodeIndex = i) names

/-- The inode table and the blocks stand for its objects. -/
abbrev FilesAre (t : Table Inode) (bs : BlockStore) (objects : Nat → Option File) : Prop :=
  t.Denotes (fun v => v.index) (HoldsFile bs) objects

/-- The descriptor table stands for the handles. -/
abbrev HandlesAre (t : Table Descriptor) (handles : Nat → Option Handle) : Prop :=
  t.Denotes (fun d => d.desc) (fun d h => Descriptor.handle d = h) handles

/-- The four parts of the state stand for the parts of the file system. -/
structure Represents (s : State) (f : Fs) : Prop where
  names : NamesAre s.filenameTable f.dir.names
  files : FilesAre s.inodeTable s.blocks f.dir.objects
  handles : HandlesAre s.descriptorTable f.handles

/-- Empty tables stand for the empty file system. -/
theorem represents_init : Represents State.init Fs.empty where
  names := Table.denotes_empty _ _
  files := Table.denotes_empty _ _
  handles := Table.denotes_empty _ _

/-! ## Healthy tables -/

/-- What the claims about single tables say of every state, together. -/
structure Healthy (s : State) : Prop where
  linked : WellLinked s
  agree : Agree s.inodeTable s.filenameTable
  sound : Sound s.inodeTable s.blocks
  sizes : s.inodeTable.All SizeFits
  noHoles : NoHoles s.inodeTable s.descriptorTable
  numbers : (descNumbers s.descriptorTable).Nodup

/-- The freshly started service is healthy. -/
theorem healthy_init : Healthy State.init where
  linked := wellLinked_init
  agree := agree_init
  sound := sound_init
  sizes := fun _ h => nomatch h
  noHoles := fun _ h => nomatch h
  numbers := List.nodup_nil

/-- The condition on a request, in the state before it. -/
structure Admissible (s : State) (r : Request) : Prop where
  /-- A new inode gets an index that no inode and no descriptor carries. -/
  index : AddsInode s r → (∀ p ∈ s.inodeTable.live, p.2.index ≠ nextIndex s.inodeTable) ∧
    ∀ q ∈ s.descriptorTable.live, q.2.nodeIndex ≠ nextIndex s.inodeTable
  /-- A new descriptor gets a number that no descriptor carries. -/
  number : ∀ args, r = .open args →
    ∀ q ∈ s.descriptorTable.live, q.2.desc ≠ nextDesc s.descriptorTable
  /-- A missing name does not stand for the inode zero, except where the
      handler looks a second time. -/
  known : ∀ w, access r = some w → (∀ args, r ≠ .chmode args) → (∀ args, r ≠ .symlink args) →
    lookup s.filenameTable w.name ≠ none ∨ ∀ p ∈ s.inodeTable.live, p.2.index ≠ 0
  /-- A link is not the one that is too many for the count. -/
  counts : ∀ args l r' a v, r = .link args →
    FoundInode s.inodeTable (nodeOf s.filenameTable args.filename) l r' a v →
    v.refCount + 1 < 4294967296
  /-- An unlinked entry is not the first one, nor is an inode that loses its
      last name. -/
  heads : ∀ args ln rn b x l r' a v, r = .unlink args →
    s.filenameTable.Found (fun x => x.filename = args.name) ln rn b x →
    FoundInode s.inodeTable x.nodeIndex l r' a v → ln ≠ [] ∧ (v.refCount = 1 → l ≠ [])
  /-- The payload of a `WRITE` is all there; its end is a number, and unless it
      is too far out there are blocks, which come to stand behind the file. -/
  writes : ∀ args, r = .write args → args.size ≤ args.data.length ∧
    ∀ b d a v, Reaches s args.fd b d a v → d.mode = .writeOnly →
      d.offset + args.size < 4294967296 ∧ (d.offset + args.size ≤ fileEnd →
        newCount v d.offset args.size ≤ (freeSlots s.blocks.dataBlockTable).length ∧
          InStep s.blocks v d.offset args.size)
  /-- A `READ` stays inside the file. -/
  reads : ∀ args b d a v, r = .read args → Reaches s args.fd b d a v →
    ((d.offset + args.size : Nat) : Int) ≤ v.stat.stSize
  /-- The blocks of a `SYMLINK`'s copy exist, and behind the file. -/
  copies : ∀ args l r' a v, r = .symlink args →
    FoundInode s.inodeTable (nodeOf s.filenameTable args.filename) l r' a v →
    totalBlocks v.stat.stSize.toNat ≤ (freeSlots s.blocks.dataBlockTable).length ∧
      (v.stat.stSize = 0 ∨ firstFree s.blocks.dataBlockTable = some (fileBlocks s.blocks))

/-- The inode a request through the descriptor works on. -/
def reached (s : State) (fd : Nat) : Option (Descriptor × Inode) :=
  match s.descriptorTable.live.find? fun p => decide (p.2.desc = fd) with
  | none => none
  | some p =>
      (s.inodeTable.live.find? fun q => decide (q.2.index = p.2.nodeIndex)).map fun q => (p.2, q.2)

/-- The inode a request by name works on. -/
def named (s : State) (name : Filename) : Option Inode :=
  (s.inodeTable.live.find? fun q => decide (q.2.index = nodeOf s.filenameTable name)).map Prod.snd

instance (bs : BlockStore) (v : Inode) (offset size : Nat) : Decidable (InStep bs v offset size) :=
  inferInstanceAs (Decidable (_ ∧ _))

/-- The number of free slots, in one pass. -/
def freeCount (bs : BlockStore) : Nat := bs.dataBlockTable.toList.countP fun b => !b.allocated

/-- No inode and no descriptor carries the next index. -/
def indexUnused (s : State) : Bool :=
  s.inodeTable.live.all (fun p => decide (p.2.index ≠ nextIndex s.inodeTable)) &&
    s.descriptorTable.live.all fun q => decide (q.2.nodeIndex ≠ nextIndex s.inodeTable)

/-- The name exists, or it does not stand for the inode zero. -/
def nameKnown (s : State) (name : Filename) : Bool :=
  (lookup s.filenameTable name).isSome ||
    s.inodeTable.live.all fun p => decide (p.2.index ≠ 0)

/-- A test for the condition. -/
def admits (s : State) : Request → Bool
  | .create _ => indexUnused s
  | .symlink args => indexUnused s && (named s args.filename).all fun v =>
      decide (totalBlocks v.stat.stSize.toNat ≤ freeCount s.blocks) &&
        decide (v.stat.stSize = 0 ∨ firstFree s.blocks.dataBlockTable = some (fileBlocks s.blocks))
  | .stat args => nameKnown s args.filename
  | .link args => nameKnown s args.filename &&
      (named s args.filename).all fun v => decide (v.refCount + 1 < 4294967296)
  | .open args => nameKnown s args.filename &&
      s.descriptorTable.live.all fun q => decide (q.2.desc ≠ nextDesc s.descriptorTable)
  | .unlink args =>
      (s.filenameTable.live.head?.all fun p => decide (p.2.filename ≠ args.name)) &&
        s.inodeTable.live.head?.all fun p =>
          decide (p.2.index ≠ nodeOf s.filenameTable args.name ∨ p.2.refCount ≠ 1)
  | .write args => decide (args.size ≤ args.data.length) && (reached s args.fd).all fun x =>
      decide (x.1.mode = .writeOnly → x.1.offset + args.size < 4294967296 ∧
        (x.1.offset + args.size ≤ fileEnd →
          newCount x.2 x.1.offset args.size ≤ freeCount s.blocks ∧
            InStep s.blocks x.2 x.1.offset args.size))
  | .read args => (reached s args.fd).all fun x =>
      decide (((x.1.offset + args.size : Nat) : Int) ≤ x.2.stat.stSize)
  | _ => true

section Test

variable {s : State}

/-- What a descriptor leads to is found by the test. -/
theorem Reaches.reached {fd b a : Nat} {d : Descriptor} {v : Inode} (h : Reaches s fd b d a v)
    (hw : WellLinked s) : reached s fd = some (d, v) := by
  obtain ⟨⟨ld, rd, hfd⟩, ⟨li, ri, hf⟩, -⟩ := h.found hw
  rw [LibfsSpecs.reached, hfd.find?_eq]
  show Option.map _ (s.inodeTable.live.find? _) = _
  rw [hf.find?_eq]
  rfl

/-- What a name leads to is found by the test. -/
theorem FoundInode.named {name : Filename} {l r : List (Nat × Inode)} {a : Nat} {v : Inode}
    (hf : FoundInode s.inodeTable (nodeOf s.filenameTable name) l r a v) :
    named s name = some v := by
  rw [LibfsSpecs.named, hf.find?_eq]
  rfl

/-- The one pass counts the free slots. -/
theorem freeCount_eq (bs : BlockStore) : freeCount bs = (freeSlots bs.dataBlockTable).length := by
  have hlist : (List.range numOfDataBlocks).map (fun k => bs.dataBlockTable[k]?) =
      bs.dataBlockTable.toList.map some := by
    apply List.ext_getElem (by simp)
    intro k hk hk'
    simp only [List.length_map, List.length_range] at hk
    simp [Vector.getElem?_eq_getElem hk]
  calc freeCount bs
    _ = (bs.dataBlockTable.toList.map some).countP fun b => b.any fun b => !b.allocated := by
        rw [List.countP_map]
        rfl
    _ = (List.range numOfDataBlocks).countP (isFree bs.dataBlockTable) := by
        rw [← hlist, List.countP_map]
        rfl
    _ = (freeSlots bs.dataBlockTable).length := List.countP_eq_length_filter

/-- The test says that the index is not in use. -/
theorem indexUnused_iff : indexUnused s = true ↔
    (∀ p ∈ s.inodeTable.live, p.2.index ≠ nextIndex s.inodeTable) ∧
      ∀ q ∈ s.descriptorTable.live, q.2.nodeIndex ≠ nextIndex s.inodeTable := by
  rw [indexUnused, Bool.and_eq_true, List.all_eq_true, List.all_eq_true]
  simp only [decide_eq_true_eq]

/-- The test says that a missing name does no harm. -/
theorem nameKnown_iff {name : Filename} : nameKnown s name = true ↔
    lookup s.filenameTable name ≠ none ∨ ∀ p ∈ s.inodeTable.live, p.2.index ≠ 0 := by
  rw [nameKnown, Bool.or_eq_true, List.all_eq_true, Option.isSome_iff_ne_none]
  simp only [decide_eq_true_eq]

/-- What passes the test meets the condition. -/
theorem admissible_of_admits (hw : WellLinked s) {r : Request} (h : admits s r = true) :
    Admissible s r := by
  refine ⟨?_, ?_, ?_, ?_, ?_, ?_, ?_, ?_⟩
  · intro hadds
    cases r with
    | create args => exact indexUnused_iff.mp h
    | symlink args => exact indexUnused_iff.mp ((Bool.and_eq_true _ _).mp h).1
    | _ => exact hadds.elim
  · rintro args rfl q hq
    exact of_decide_eq_true (List.all_eq_true.mp ((Bool.and_eq_true _ _).mp h).2 q hq)
  · intro w haccess hchmode hsymlink
    cases r with
    | chmode args => exact absurd rfl (hchmode args)
    | symlink args => exact absurd rfl (hsymlink args)
    | stat args =>
        obtain rfl := Option.some.inj haccess
        exact nameKnown_iff.mp h
    | link args =>
        obtain rfl := Option.some.inj haccess
        exact nameKnown_iff.mp ((Bool.and_eq_true _ _).mp h).1
    | «open» args =>
        obtain ⟨mode, -, rfl⟩ := Option.map_eq_some_iff.mp haccess
        exact nameKnown_iff.mp ((Bool.and_eq_true _ _).mp h).1
    | _ => cases haccess
  · rintro args l r' a v rfl hf
    have hcount := ((Bool.and_eq_true _ _).mp h).2
    rw [hf.named] at hcount
    exact of_decide_eq_true hcount
  · rintro args ln rn b x l r' a v rfl hfn hf
    obtain ⟨hname, hinode⟩ := (Bool.and_eq_true _ _).mp h
    have hnode : nodeOf s.filenameTable args.name = x.nodeIndex :=
      nodeOf_of_lookup (lookup_of_found hfn)
    constructor
    · rintro rfl
      rw [show s.filenameTable.live.head? = some (b, x) by rw [hfn.split]; rfl] at hname
      exact of_decide_eq_true hname (of_decide_eq_true hfn.passes)
    · rintro hone rfl
      rw [show s.inodeTable.live.head? = some (a, v) by rw [hf.split]; rfl] at hinode
      rcases of_decide_eq_true hinode with hne | hne
      · exact hne (hf.index.trans hnode.symm)
      · exact hne hone
  · rintro args rfl
    obtain ⟨hlen, hreach⟩ := (Bool.and_eq_true _ _).mp h
    refine ⟨of_decide_eq_true hlen, fun b d a v hre => ?_⟩
    rw [hre.reached hw] at hreach
    rw [← freeCount_eq]
    exact of_decide_eq_true hreach
  · rintro args b d a v rfl hre
    rw [admits, hre.reached hw] at h
    exact of_decide_eq_true h
  · rintro args l r' a v rfl hf
    have hcopy := ((Bool.and_eq_true _ _).mp h).2
    rw [hf.named] at hcopy
    obtain ⟨hroom, hbehind⟩ := (Bool.and_eq_true _ _).mp hcopy
    rw [← freeCount_eq]
    exact ⟨of_decide_eq_true hroom, of_decide_eq_true hbehind⟩

end Test

section Steps

variable {s s' : State} {e : Event}

/-- An admissible `UNLINK` does not free the first node of a list. -/
theorem Admissible.keepsHeads (h : Admissible s e.request) : KeepsHeads s e where
  fresh := fun hadds => (h.index hadds).1
  counts := fun args l r a v hreq _ hf _ => h.counts args l r a v hreq hf
  heads := h.heads

/-- An admissible request gives a new file an index that is not in use. -/
theorem Admissible.indexUnused (h : Admissible s e.request) : IndexUnused s e :=
  fun hadds => ⟨(h.index hadds).1, fun q hq he => absurd he ((h.index hadds).2 q hq)⟩

/-- The sizes of all inodes stay within the largest file. -/
theorem Change.sizes (hw : WellLinked s) (hs : Sound s.inodeTable s.blocks)
    (hall : s.inodeTable.All SizeFits) (hc : Change s e s') : s'.inodeTable.All SizeFits := by
  refine hc.inodes_all hw hs ?_ ?_ ?_ hall
  · intro v _ hzero
    exact ⟨hzero.ge, hzero.trans_le (Int.natCast_nonneg fileEnd)⟩
  · intro v v' hsame hv
    exact hv.same hsame
  · intro bs bs' v v' buf offset size offset' st hin hbuf h hv
    exact writeInode_size hin hbuf h hv

/-- An admissible request leaves healthy tables behind. -/
theorem Healthy.step (h : Healthy s) (hg : Admissible s e.request) (hs : Step s e s') :
    Healthy s' := by
  have hc := step_change h.linked hs
  refine ⟨hc.wellLinked h.linked, hc.agree h.linked h.sound h.agree hg.keepsHeads,
    hc.sound h.linked h.sound, hc.sizes h.linked h.sound h.sizes,
    hc.noHoles h.linked h.sound h.sizes h.agree.distinct h.noHoles hg.indexUnused, ?_⟩
  refine (hc.renumbers h.linked).nodup h.numbers fun hopen hmem => ?_
  rw [← nextDesc_eq] at hmem
  obtain ⟨q, hq, he⟩ := List.mem_map.mp hmem
  cases hreq : e.request with
  | «open» args => exact hg.number args hreq q hq he
  | _ =>
      rw [isOpen, hreq] at hopen
      exact nomatch hopen

end Steps

/-! ## Reading the tables -/

section Reading

variable {s : State} {f : Fs} {name : Filename} {i fd : Nat} {o : File} {h : Handle}

/-- The table leads where the directory does. -/
theorem NamesAre.lookup_eq {t : Table FilenameInode} {names : Filename → Option Nat}
    (hn : NamesAre t names) (name : Filename) : lookup t name = names name := by
  cases hi : names name with
  | none => exact lookup_eq_none.mpr (hn.absent hi)
  | some i =>
      obtain ⟨l, r, a, x, hf, hx⟩ := hn.found hi
      rw [← hx]
      exact lookup_of_found hf

/-- A name is looked up in the directory. -/
theorem Represents.lookup_eq (hr : Represents s f) (name : Filename) :
    lookup s.filenameTable name = f.dir.names name :=
  hr.names.lookup_eq name

/-- The inode of a name that leads to a file. -/
theorem Represents.at (hr : Represents s f) (ho : f.At name i o) :
    nodeOf s.filenameTable name = i ∧
      ∃ l r a v, FoundInode s.inodeTable i l r a v ∧ HoldsFile s.blocks v o :=
  ⟨nodeOf_of_lookup ((hr.lookup_eq name).trans ho.1), hr.files.found ho.2⟩

/-- A name of the directory leads to a file. -/
theorem Fs.at_of_name {f : Fs} (hn : f.dir.names name ≠ none) : ∃ i o, f.At name i o := by
  obtain ⟨i, hi⟩ := Option.ne_none_iff_exists'.mp hn
  obtain ⟨o, ho⟩ := Option.ne_none_iff_exists'.mp (f.dir.live hi)
  exact ⟨i, o, hi, ho⟩

/-- The permission check of a request on a file that exists. -/
theorem Represents.permissions (hh : Healthy s) (hr : Represents s f) (ho : f.At name i o) :
    getFileOwnerGroupPermissions s name = .ok (.success, o.perms) := by
  obtain ⟨hnode, l, r, a, v, hf, hold⟩ := hr.at ho
  rw [← hold.perms]
  refine ExistsAs.permissions ⟨i, a, ?_, hh.linked.inodes.find_of_found hh.agree.inodes hf, hf.get⟩
  rw [getIndex_eq hh.linked.names hh.agree.entries, hr.lookup_eq, ho.1]

end Reading

end LibfsSpecs
