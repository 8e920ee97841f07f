import Libfs.Directory
import Libfs.PermissionBits
import Libfs.OffsetBounds

/-! # The file system the library is for

    A directory of files and a table of handles; a file is its contents and
    its attributes.  There are no tables, links, blocks or indices to run out
    of here: `FsStep` says what each request does to the files and how it is
    answered.  The identity of a new file and the number of a new handle are
    only required to be unused. -/

namespace LibfsFileSystem

open LibfsHeap LibfsStdio LibfsCommon LibfsInode LibfsOperations LibfsRun LibfsSpecs
open LibfsDirectory

/-- A file: its bytes and its attributes. -/
structure File where
  content : Bytes
  kind : FileType
  atim : Timespec
  mtim : Timespec
  ctim : Timespec
  mode : Int
  owner : Nat
  group : Nat

/-- What the permission checks look at. -/
def File.perms (o : File) : OwnerGroupPerms := ⟨o.owner, o.group, o.mode⟩

/-- What `STAT` reports. -/
def File.stat (o : File) : Stat := ⟨o.content.length, o.atim, o.mtim, o.ctim⟩

/-- The file was looked at. -/
def File.accessed (now : Timespec) (o : File) : File := { o with atim := now }

/-- The file was written. -/
def File.modified (now : Timespec) (o : File) : File := { o with atim := now, mtim := now }

/-- The attributes of the file were changed. -/
def File.changed (now : Timespec) (o : File) : File := { o with atim := now, ctim := now }

/-- Everything behind the data is cut off. -/
def File.overwritten (offset : Nat) (data : Bytes) (now : Timespec) (o : File) : File :=
  { o.modified now with content := o.content.take offset ++ data }

/-- What an open descriptor stands for: a file, the way it is used, and the next
    position. -/
structure Handle where
  file : Nat
  mode : OpenMode
  offset : Nat

/-- A file system: its names and files, and the open handles. -/
structure Fs where
  dir : Directory Filename Nat File
  handles : Nat → Option Handle

/-- No files, no handles. -/
def Fs.empty : Fs := ⟨Directory.empty, fun _ => none⟩

namespace Fs

/-- A handle is set, or taken back. -/
def setHandle (f : Fs) (fd : Nat) (h : Option Handle) : Fs :=
  { f with handles := Function.update f.handles fd h }

/-- The file with the identity is replaced, if there is one. -/
def modify (f : Fs) (i : Nat) (g : File → File) : Fs := { f with dir := f.dir.modify i g }

/-- No file has the identity and no handle remembers it. -/
def Unused (f : Fs) (i : Nat) : Prop :=
  f.dir.objects i = none ∧ ∀ fd h, f.handles fd = some h → h.file ≠ i

/-- The name leads to the file. -/
def At (f : Fs) (name : Filename) (i : Nat) (o : File) : Prop :=
  f.dir.names name = some i ∧ f.dir.objects i = some o

/-- The handle leads to the file. -/
def Through (f : Fs) (fd : Nat) (h : Handle) (o : File) : Prop :=
  f.handles fd = some h ∧ f.dir.objects h.file = some o

end Fs

/-- The file may be used for what the request names it for. -/
def Allowed (r : Request) (o : File) : Prop := ∀ w, access r = some w → w.denied o.perms = false

/-- The handle a request goes through. -/
def handleOf : Request → Option Nat
  | .close args => some args.fd
  | .read args => some args.fd
  | .write args => some args.fd
  | .seek args => some args.fd
  | _ => none

/-- The name a request gives to a file. -/
def newNameOf : Request → Option Filename
  | .create args => some args.filename
  | .rename args => some args.newname
  | .link args => some args.linkname
  | .symlink args => some args.linkname
  | _ => none

/-- Why a request is refused, and with which status. -/
inductive Refuses (f : Fs) : Request → Status → Prop where
  | created {args : CreateArgs} (h : f.dir.names args.filename ≠ none) :
      Refuses f (.create args) .filenameTaken
  | renamed {args : RenameArgs}
      (h : f.dir.names args.newname ≠ none ∨ f.dir.names args.oldname = none) :
      Refuses f (.rename args) .failure
  | unlinked {args : UnlinkArgs} (h : f.dir.names args.name = none) :
      Refuses f (.unlink args) .fileNotFound
  /-- The check comes before the search and may be the one that fails. -/
  | missing {r : Request} {w : Access} {st : Status} (hr : access r = some w)
      (h : f.dir.names w.name = none) (hst : st = .insufficientPerms ∨ st = .fileNotFound) :
      Refuses f r st
  | denied {r : Request} {w : Access} {i : Nat} {o : File} (hr : access r = some w)
      (h : f.At w.name i o) (hden : w.denied o.perms = true) : Refuses f r .insufficientPerms
  | taken {r : Request} {w : Access} {name : Filename} {i : Nat} {o : File}
      (hr : access r = some w) (h : f.At w.name i o) (hok : w.denied o.perms = false)
      (hname : newNameOf r = some name) (htaken : f.dir.names name ≠ none) :
      Refuses f r .filenameTaken
  | flags {args : OpenArgs} (h : OpenMode.ofFlags args.flags = none) :
      Refuses f (.open args) .failure
  | writer {args : OpenArgs} {i : Nat} {o : File} (h : f.At args.filename i o)
      (hok : Allowed (.open args) o) {fd : Nat} {k : Handle} (hk : f.handles fd = some k)
      (hfile : k.file = i) (hmode : k.mode = .writeOnly) : Refuses f (.open args) .doubleWrite
  | closed {r : Request} {fd : Nat} (hr : handleOf r = some fd) (h : f.handles fd = none) :
      Refuses f r .failure
  /-- The file of the handle has lost its last name. -/
  | gone {r : Request} {fd : Nat} {k : Handle} (hr : handleOf r = some fd)
      (hclose : ∀ args, r ≠ .close args) (h : f.handles fd = some k)
      (hgone : f.dir.objects k.file = none) : Refuses f r .failure
  | reader {args : WriteArgs} {k : Handle} (h : f.handles args.fd = some k)
      (hmode : k.mode = .readOnly) : Refuses f (.write args) .failure
  | beyond {args : SeekArgs} {k : Handle} {o : File} (h : f.Through args.fd k o)
      (hsize : o.content.length < args.offset) : Refuses f (.seek args) .failure

/-- What the answer to a refused request carries. -/
def refusedPayload : Request → Payload
  | .create _ => .descriptor 0
  | .open _ => .descriptor 0
  | .read _ => .bytes []
  | .stat _ => .fileStat none
  | _ => .nothing

/-- What a request does to the files, and its answer. -/
inductive FsStep (f : Fs) (e : Event) : Fs → Prop where
  | refused {st : Status} (hwhy : Refuses f e.request st)
      (hresp : e.response = ⟨st, refusedPayload e.request⟩) : FsStep f e f
  | created {args : CreateArgs} {i : Nat} (hreq : e.request = .create args)
      (hfree : f.dir.names args.filename = none) (hi : f.Unused i)
      (hresp : e.response = ⟨.success, .descriptor i⟩) :
      FsStep f e { f with
        dir := f.dir.create args.filename i ⟨[], .fRegular, e.env.clock 0, e.env.clock 0,
          e.env.clock 0, args.accessMode, args.fileOwner, args.fileGroup⟩ hfree }
  | modeChanged {args : ChmodeArgs} {i : Nat} {o : File} (hreq : e.request = .chmode args)
      (ho : f.At args.filename i o) (hok : Allowed e.request o)
      (hresp : e.response = ⟨.success, .nothing⟩) :
      FsStep f e (f.modify i fun o =>
        { o.changed (e.env.clock 0) with mode := args.accessMode % 4294967296 })
  | renamed {args : RenameArgs} (hreq : e.request = .rename args)
      (hold : f.dir.names args.oldname ≠ none) (hfree : f.dir.names args.newname = none)
      (hresp : e.response = ⟨.success, .nothing⟩) :
      FsStep f e { f with dir := f.dir.rename args.oldname args.newname hold hfree }
  | reported {args : StatArgs} {i : Nat} {o : File} (hreq : e.request = .stat args)
      (ho : f.At args.filename i o) (hok : Allowed e.request o)
      (hresp : e.response = ⟨.success, .fileStat (some o.stat)⟩) :
      FsStep f e (f.modify i (File.accessed (e.env.clock 0)))
  | linked {args : LinkArgs} {i : Nat} {o : File} (hreq : e.request = .link args)
      (ho : f.At args.filename i o) (hok : Allowed e.request o)
      (hfree : f.dir.names args.linkname = none) (hi : f.dir.objects i ≠ none)
      (hresp : e.response = ⟨.success, .nothing⟩) :
      FsStep f e (Fs.modify { f with dir := f.dir.bind args.linkname i hfree hi } i
        (File.changed (e.env.clock 0)))
  /-- The link is a file of its own: a copy. -/
  | symlinked {args : SymlinkArgs} {i j : Nat} {o : File} (hreq : e.request = .symlink args)
      (ho : f.At args.filename i o) (hok : Allowed e.request o)
      (hfree : f.dir.names args.linkname = none) (hj : f.Unused j)
      (hresp : e.response = ⟨.success, .nothing⟩) :
      FsStep f e (Fs.modify { f with
        dir := f.dir.create args.linkname j ⟨o.content, .fSymlink, e.env.clock 0, e.env.clock 0,
          e.env.clock 0, args.mode, args.fileOwner, args.fileGroup⟩ hfree } i
        (File.accessed (e.env.clock 1)))
  | opened {args : OpenArgs} {mode : OpenMode} {i fd : Nat} {o : File}
      (hreq : e.request = .open args) (hmode : OpenMode.ofFlags args.flags = some mode)
      (ho : f.At args.filename i o) (hok : Allowed e.request o)
      (hwriter : ∀ fd h, f.handles fd = some h → h.file = i → h.mode ≠ .writeOnly)
      (hfd : f.handles fd = none) (hresp : e.response = ⟨.success, .descriptor fd⟩) :
      FsStep f e ((f.setHandle fd (some ⟨i, mode, 0⟩)).modify i (File.accessed (e.env.clock 0)))
  | closed {args : CloseArgs} (hreq : e.request = .close args) (h : f.handles args.fd ≠ none)
      (hresp : e.response = ⟨.success, .nothing⟩) : FsStep f e (f.setHandle args.fd none)
  | wrote {args : WriteArgs} {h : Handle} {o : File} {data : Bytes}
      (hreq : e.request = .write args) (hdata : slice args.data 0 args.size = .ok data)
      (hh : f.Through args.fd h o) (hmode : h.mode = .writeOnly)
      (hfit : h.offset + args.size ≤ fileEnd) (hresp : e.response = ⟨.success, .nothing⟩) :
      FsStep f e ((f.setHandle args.fd (some { h with offset := h.offset + args.size })).modify
        h.file (File.overwritten h.offset data (e.env.clock 0)))
  | tooLong {args : WriteArgs} {h : Handle} {o : File} (hreq : e.request = .write args)
      (hh : f.Through args.fd h o) (hmode : h.mode = .writeOnly)
      (hfit : fileEnd < h.offset + args.size) (hresp : e.response = ⟨.failure, .nothing⟩) :
      FsStep f e (f.modify h.file (File.modified (e.env.clock 0)))
  | read {args : ReadArgs} {h : Handle} {o : File} (hreq : e.request = .read args)
      (hh : f.Through args.fd h o) (hsize : h.offset + args.size ≤ o.content.length)
      (hresp : e.response = ⟨.success, .bytes ((o.content.drop h.offset).take args.size)⟩) :
      FsStep f e ((f.setHandle args.fd (some { h with offset := h.offset + args.size })).modify
        h.file (File.accessed (e.env.clock 0)))
  | sought {args : SeekArgs} {h : Handle} {o : File} (hreq : e.request = .seek args)
      (hh : f.Through args.fd h o) (hsize : args.offset ≤ o.content.length)
      (hresp : e.response = ⟨.success, .nothing⟩) :
      FsStep f e (f.setHandle args.fd (some { h with offset := args.offset }))
  | unlinked {args : UnlinkArgs} {i : Nat} {o : File} (hreq : e.request = .unlink args)
      (ho : f.At args.name i o) (hresp : e.response = ⟨.success, .nothing⟩) :
      FsStep f e (Fs.modify { f with dir := f.dir.remove args.name } i
        (File.changed (e.env.clock 0)))

/-- The file system after some requests. -/
abbrev FsRun (es : List Event) (f : Fs) : Prop := Run FsStep Fs.empty es f

end LibfsFileSystem
