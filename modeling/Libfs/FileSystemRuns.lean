import Libfs.FileSystem

/-! # Runs of the file system

    What one request can do to one file and to one handle, and from it what
    runs do: a file holds what was written through its one writer, whatever
    the other requests in between are, and reads one after the other deliver
    it in order. -/

namespace LibfsFileSystem

open LibfsHeap LibfsStdio LibfsCommon LibfsInode LibfsOperations LibfsRun LibfsSpecs
open LibfsDirectory

variable {f f' g : Fs} {e : Event} {es : List Event} {i j fd : Nat} {o o' : File} {h h' : Handle}

/-! ## One file -/

/-- The data of a `WRITE` through the handle that is done. -/
def sent (fd : Nat) (e : Event) : Option Bytes :=
  match e.request with
  | .write args =>
      if args.fd = fd ∧ e.response.status = .success then some (args.data.take args.size) else none
  | _ => none

/-- A `WRITE` that succeeds sends its data. -/
theorem sent_write {args : WriteArgs} {data : Bytes} (hreq : e.request = .write args)
    (hdata : slice args.data 0 args.size = .ok data) (hst : e.response.status = .success) :
    sent args.fd e = some data := by
  obtain ⟨-, rfl⟩ := slice_ok hdata
  rw [sent, hreq]
  exact if_pos ⟨rfl, hst⟩

/-- A change of attributes. -/
theorem modify_content {d : Directory Filename Nat File} {m : File → File}
    (ho' : (d.modify j m).objects i = some o') (hm : ∀ o, (m o).content = o.content) :
    ∃ o, d.objects i = some o ∧ o'.content = o.content := by
  obtain ⟨o, ho, rfl⟩ := Directory.modify_some ho'
  refine ⟨o, ho, ?_⟩
  by_cases hi : i = j
  · rw [if_pos hi, hm]
  · rw [if_neg hi]

/-- A `WRITE` through another number sends nothing here. -/
theorem sent_other {args : WriteArgs} (hreq : e.request = .write args) (hfd : fd ≠ args.fd) :
    sent fd e = none := by
  rw [sent, hreq]
  exact if_neg fun h => hfd h.1.symm

/-- Only `WRITE`s send something. -/
theorem sent_not_write (h : ∀ args, e.request ≠ .write args) : sent fd e = none := by
  rw [sent]
  cases hreq : e.request with
  | write args => exact absurd hreq (h args)
  | _ => rfl

/-- What fails sends nothing. -/
theorem sent_failed (hst : e.response.status ≠ .success) : sent fd e = none := by
  rw [sent]
  cases e.request with
  | write args => exact if_neg fun h => hst h.2
  | _ => rfl

/-- A refusal is not answered with success. -/
theorem Refuses.status {r : Request} {st : Status} (h : Refuses f r st) : st ≠ .success := by
  cases h with
  | missing _ _ hst =>
      rcases hst with rfl | rfl
      · decide
      · decide
  | _ => decide

/-- Nothing is written through the handles of the file. -/
def Spares (f : Fs) (i : Nat) (e : Event) : Prop :=
  ∀ fd h, f.handles fd = some h → h.file = i → sent fd e = none

/-- A request that sends nothing spares every file. -/
theorem spares_of_sent (h : ∀ fd, sent fd e = none) : Spares f i e := fun fd _ _ _ => h fd

/-- What a request leaves of a file: the contents it had, or the data behind
    what was in front of a writer, or it is new and empty or a copy. -/
theorem FsStep.content (hs : FsStep f e f') (ho' : f'.dir.objects i = some o') :
    (∃ o, f.dir.objects i = some o ∧ o'.content = o.content ∧ Spares f i e) ∨
      (∃ o fd h data, f.dir.objects i = some o ∧ f.handles fd = some h ∧ h.mode = .writeOnly ∧
        h.file = i ∧ sent fd e = some data ∧ h.offset + data.length ≤ fileEnd ∧
        o'.content = o.content.take h.offset ++ data) ∨
      (f.Unused i ∧ (o'.content = [] ∨
        ∃ j o, f.dir.objects j = some o ∧ o'.content = o.content)) := by
  cases hs with
  | @refused st hwhy hresp =>
      refine Or.inl ⟨o', ho', rfl, spares_of_sent fun fd => sent_failed ?_⟩
      rw [hresp]
      exact hwhy.status
  | @created args j hreq hfree hj hresp =>
      change (f.dir.create args.filename j _ hfree).objects i = some o' at ho'
      rw [Directory.objects_create] at ho'
      by_cases hi : i = j
      · rw [if_pos hi] at ho'
        cases ho'
        exact Or.inr (Or.inr ⟨hi ▸ hj, Or.inl rfl⟩)
      · rw [if_neg hi] at ho'
        exact Or.inl ⟨o', ho', rfl, spares_of_sent fun fd => by rw [sent, hreq]⟩
  | modeChanged hreq =>
      obtain ⟨o, ho, hc⟩ := modify_content ho' fun _ => rfl
      exact Or.inl ⟨o, ho, hc, spares_of_sent fun fd => by rw [sent, hreq]⟩
  | renamed hreq => exact Or.inl ⟨o', ho', rfl, spares_of_sent fun fd => by rw [sent, hreq]⟩
  | reported hreq =>
      obtain ⟨o, ho, hc⟩ := modify_content ho' fun _ => rfl
      exact Or.inl ⟨o, ho, hc, spares_of_sent fun fd => by rw [sent, hreq]⟩
  | linked hreq =>
      obtain ⟨o, ho, hc⟩ := modify_content ho' fun _ => rfl
      exact Or.inl ⟨o, ho, hc, spares_of_sent fun fd => by rw [sent, hreq]⟩
  | @symlinked args k j p hreq hp hok hfree hj hresp =>
      obtain ⟨o, ho, hc⟩ := modify_content ho' fun _ => rfl
      rw [Directory.objects_create] at ho
      by_cases hi : i = j
      · rw [if_pos hi] at ho
        cases ho
        exact Or.inr (Or.inr ⟨hi ▸ hj, Or.inr ⟨k, p, hp.2, hc⟩⟩)
      · rw [if_neg hi] at ho
        exact Or.inl ⟨o, ho, hc, spares_of_sent fun fd => by rw [sent, hreq]⟩
  | opened hreq =>
      obtain ⟨o, ho, hc⟩ := modify_content ho' fun _ => rfl
      exact Or.inl ⟨o, ho, hc, spares_of_sent fun fd => by rw [sent, hreq]⟩
  | closed hreq => exact Or.inl ⟨o', ho', rfl, spares_of_sent fun fd => by rw [sent, hreq]⟩
  | @wrote args h p data hreq hdata hp hmode hfit hresp =>
      obtain ⟨o, ho, rfl⟩ := Directory.modify_some ho'
      by_cases hi : i = h.file
      · rw [if_pos hi]
        refine Or.inr (Or.inl ⟨o, args.fd, h, data, ho, hp.1, hmode, hi.symm, ?_, ?_, rfl⟩)
        · exact sent_write hreq hdata (by rw [hresp])
        · rw [slice_all hdata]
          exact hfit
      · rw [if_neg hi]
        refine Or.inl ⟨o, ho, rfl, fun fd k hk hfile => sent_other hreq ?_⟩
        rintro rfl
        rw [hp.1] at hk
        cases hk
        exact hi hfile.symm
  | tooLong hreq hh hmode hfit hresp =>
      obtain ⟨o, ho, hc⟩ := modify_content ho' fun _ => rfl
      refine Or.inl ⟨o, ho, hc, spares_of_sent fun fd => sent_failed ?_⟩
      rw [hresp]
      decide
  | read hreq =>
      obtain ⟨o, ho, hc⟩ := modify_content ho' fun _ => rfl
      exact Or.inl ⟨o, ho, hc, spares_of_sent fun fd => by rw [sent, hreq]⟩
  | sought hreq => exact Or.inl ⟨o', ho', rfl, spares_of_sent fun fd => by rw [sent, hreq]⟩
  | unlinked hreq =>
      obtain ⟨o, ho, hc⟩ := modify_content ho' fun _ => rfl
      exact Or.inl ⟨o, Directory.objects_remove ho, hc, spares_of_sent fun fd => by rw [sent, hreq]⟩

/-- What a request makes of a handle: it was opened, or it moved along its
    file. -/
theorem FsStep.handle (hs : FsStep f e f') (hk' : f'.handles fd = some h') :
    (f.handles fd = some h' ∧ sent fd e = none) ∨
      (f.handles fd = none ∧ e.response.payload = .descriptor fd ∧ h'.offset = 0 ∧
        ∀ fd h, f.handles fd = some h → h.file = h'.file → h.mode ≠ .writeOnly) ∨
      ∃ h o, f.Through fd h o ∧ handleOf e.request = some fd ∧ h'.file = h.file ∧
        h'.mode = h.mode ∧ (((∀ args, e.request ≠ .write args) ∧ h'.offset ≤ o.content.length) ∨
          ∃ data, sent fd e = some data ∧ h.mode = .writeOnly ∧
            h'.offset = h.offset + data.length) := by
  cases hs with
  | @refused st hwhy hresp =>
      refine Or.inl ⟨hk', sent_failed ?_⟩
      rw [hresp]
      exact hwhy.status
  | created hreq | modeChanged hreq | renamed hreq | reported hreq | linked hreq
  | symlinked hreq | unlinked hreq => exact Or.inl ⟨hk', by rw [sent, hreq]⟩
  | tooLong hreq hh hmode hfit hresp =>
      refine Or.inl ⟨hk', sent_failed ?_⟩
      rw [hresp]
      decide
  | @opened args mode j fd' p hreq hmode hp hok hwriter hfd hresp =>
      change Function.update f.handles fd' _ fd = some h' at hk'
      by_cases he : fd = fd'
      · rw [he, Function.update_self] at hk'
        cases hk'
        exact Or.inr (Or.inl ⟨he ▸ hfd, by rw [hresp, he], rfl, hwriter⟩)
      · rw [Function.update_of_ne he] at hk'
        exact Or.inl ⟨hk', by rw [sent, hreq]⟩
  | @closed args hreq hp hresp =>
      change Function.update f.handles args.fd none fd = some h' at hk'
      by_cases he : fd = args.fd
      · rw [he, Function.update_self] at hk'
        exact nomatch hk'
      · rw [Function.update_of_ne he] at hk'
        exact Or.inl ⟨hk', by rw [sent, hreq]⟩
  | @wrote args h p data hreq hdata hp hmode hfit hresp =>
      change Function.update f.handles args.fd _ fd = some h' at hk'
      by_cases he : fd = args.fd
      · subst he
        rw [Function.update_self] at hk'
        cases hk'
        refine Or.inr (Or.inr ⟨h, p, hp, by rw [hreq]; rfl, rfl, rfl, Or.inr ⟨data, ?_, hmode, ?_⟩⟩)
        · exact sent_write hreq hdata (by rw [hresp])
        · rw [slice_all hdata]
      · rw [Function.update_of_ne he] at hk'
        exact Or.inl ⟨hk', sent_other hreq he⟩
  | @read args h p hreq hp hsize hresp =>
      change Function.update f.handles args.fd _ fd = some h' at hk'
      by_cases he : fd = args.fd
      · subst he
        rw [Function.update_self] at hk'
        cases hk'
        exact Or.inr (Or.inr ⟨h, p, hp, by rw [hreq]; rfl, rfl, rfl,
          Or.inl ⟨(fun _ hw => nomatch hreq.symm.trans hw), hsize⟩⟩)
      · rw [Function.update_of_ne he] at hk'
        exact Or.inl ⟨hk', by rw [sent, hreq]⟩
  | @sought args h p hreq hp hsize hresp =>
      change Function.update f.handles args.fd _ fd = some h' at hk'
      by_cases he : fd = args.fd
      · subst he
        rw [Function.update_self] at hk'
        cases hk'
        exact Or.inr (Or.inr ⟨h, p, hp, by rw [hreq]; rfl, rfl, rfl,
          Or.inl ⟨(fun _ hw => nomatch hreq.symm.trans hw), hsize⟩⟩)
      · rw [Function.update_of_ne he] at hk'
        exact Or.inl ⟨hk', by rw [sent, hreq]⟩

/-- Only a `CLOSE` takes a handle away. -/
theorem FsStep.keeps_handle (hs : FsStep f e f') (hk : f.handles fd = some h)
    (hclose : ∀ args, e.request = .close args → args.fd ≠ fd) : f'.handles fd ≠ none := by
  have hmoved : ∀ fd' k, Function.update f.handles fd' (some k) fd ≠ none := by
    intro fd' k
    by_cases he : fd = fd'
    · rw [he, Function.update_self]
      exact Option.some_ne_none k
    · rw [Function.update_of_ne he, hk]
      exact Option.some_ne_none h
  have hsame : f.handles fd ≠ none := by
    rw [hk]
    exact Option.some_ne_none h
  cases hs with
  | closed hreq =>
      refine fun hnone => hsame ?_
      rw [← hnone]
      exact (Function.update_of_ne (hclose _ hreq).symm _ _).symm
  | opened | wrote | read | sought => exact hmoved _ _
  | _ => exact hsame

/-! ## The invariant of all runs -/

/-- A file has one writer at most, a writer stands inside its file, and no
    file is larger than the largest. -/
structure Fs.Valid (f : Fs) : Prop where
  single : ∀ fd fd' h h', f.handles fd = some h → f.handles fd' = some h' →
    h.mode = .writeOnly → h'.mode = .writeOnly → h.file = h'.file → fd = fd'
  inside : ∀ fd h o, f.Through fd h o → h.mode = .writeOnly → h.offset ≤ o.content.length
  fits : ∀ i o, f.dir.objects i = some o → o.content.length ≤ fileEnd

/-- The empty file system is valid. -/
theorem valid_empty : Fs.empty.Valid where
  single := fun _ _ _ _ h => nomatch h
  inside := fun _ _ _ h => nomatch h.1
  fits := fun _ _ h => nomatch h

/-- The data of a writer end where the writer stands. -/
theorem length_written (hle : h.offset ≤ o.content.length) (data : Bytes) :
    (o.content.take h.offset ++ data).length = h.offset + data.length := by
  rw [List.length_append, List.length_take, Nat.min_eq_left hle]

/-- One request keeps it. -/
theorem Fs.Valid.step (hv : f.Valid) (hs : FsStep f e f') : f'.Valid where
  single := by
    intro fd fd' h h' hk hk' hm hm' hfile
    rcases hs.handle hk with ⟨h1, -⟩ | ⟨-, hp, -, h1⟩ | ⟨p, _, hp, -, hpf, hpm, -⟩
    all_goals rcases hs.handle hk' with ⟨h2, -⟩ | ⟨-, hq, -, h2⟩ | ⟨q, _, hq, -, hqf, hqm, -⟩
    · exact hv.single fd fd' h h' h1 h2 hm hm' hfile
    · exact absurd hm (h2 fd h h1 hfile)
    · exact hv.single fd fd' h q h1 hq.1 hm (hqm ▸ hm') (hfile.trans hqf)
    · exact absurd hm' (h1 fd' h' h2 hfile.symm)
    · -- only one handle is opened
      exact Payload.descriptor.inj (hp.symm.trans hq)
    · exact absurd (hqm ▸ hm') (h1 fd' q hq.1 (hqf.symm.trans hfile.symm))
    · exact hv.single fd fd' p h' hp.1 h2 (hpm ▸ hm) hm' (hpf.symm.trans hfile)
    · exact absurd (hpm ▸ hm) (h2 fd p hp.1 (hpf.symm.trans hfile))
    · exact hv.single fd fd' p q hp.1 hq.1 (hpm ▸ hm) (hqm ▸ hm')
        (hpf.symm.trans (hfile.trans hqf))
  inside := by
    rintro fd h' o' ⟨hk', ho'⟩ hm'
    rcases hs.handle hk' with ⟨hk, -⟩ | ⟨-, -, hzero, -⟩ |
      ⟨h, o, ⟨hk, ho⟩, -, hfile, hmode, hmoved⟩
    · -- the handle stood still
      rcases hs.content ho' with ⟨o, ho, hc, -⟩ | ⟨o, wd, w, data, ho, hw, hwm, hwf, -, -, hc⟩ |
        ⟨hnew, -⟩
      · rw [hc]
        exact hv.inside fd h' o ⟨hk, ho⟩ hm'
      · obtain rfl := hv.single wd fd w h' hw hk hwm hm' hwf
        rw [hk] at hw
        cases hw
        rw [hc, length_written (hv.inside wd h' o ⟨hk, ho⟩ hm')]
        exact Nat.le_add_right _ _
      · exact absurd rfl (hnew.2 fd h' hk)
    · rw [hzero]
      exact Nat.zero_le _
    · rw [hfile] at ho'
      rw [hmode] at hm'
      have hle := hv.inside fd h o ⟨hk, ho⟩ hm'
      rcases hs.content ho' with ⟨p, hp, hc, hspares⟩ |
        ⟨p, wd, w, data, hp, hw, hwm, hwf, hsent, -, hc⟩ | ⟨hnew, -⟩
      · rw [ho] at hp
        cases hp
        rcases hmoved with ⟨-, hoff⟩ | ⟨data, hsent, -⟩
        · rw [hc]
          exact hoff
        · rw [hspares fd h hk rfl] at hsent
          exact nomatch hsent
      · obtain rfl := hv.single wd fd w h hw hk hwm hm' hwf
        rw [hk] at hw
        cases hw
        rw [ho] at hp
        cases hp
        rcases hmoved with ⟨hnone, -⟩ | ⟨data', hsent', -, hoff⟩
        · rw [sent_not_write hnone] at hsent
          exact nomatch hsent
        · rw [hsent] at hsent'
          cases hsent'
          rw [hc, length_written hle, hoff]
      · exact absurd rfl (hnew.2 fd h hk)
  fits := by
    intro i o' ho'
    rcases hs.content ho' with ⟨o, ho, hc, -⟩ | ⟨o, fd, h, data, ho, hk, hm, rfl, -, hfit, hc⟩ |
      ⟨-, hc | ⟨j, o, ho, hc⟩⟩
    · rw [hc]
      exact hv.fits i o ho
    · rw [hc, length_written (hv.inside fd h o ⟨hk, ho⟩ hm)]
      exact hfit
    · rw [hc]
      exact Nat.zero_le _
    · rw [hc]
      exact hv.fits j o ho

/-- A successful `OPEN` hands out a handle at the start of the file, and the
    contents of all files stay. -/
theorem FsStep.opens {args : OpenArgs} (hs : FsStep f e f') (hreq : e.request = .open args)
    (hresp : e.response = ⟨.success, .descriptor fd⟩) :
    ∃ mode i o, OpenMode.ofFlags args.flags = some mode ∧ f.At args.filename i o ∧
      f'.handles fd = some ⟨i, mode, 0⟩ ∧
      ∀ j p', f'.dir.objects j = some p' →
        ∃ p, f.dir.objects j = some p ∧ p'.content = p.content := by
  cases hs with
  | @refused st hwhy hresp' =>
      exact absurd (congrArg Response.status (hresp'.symm.trans hresp)) hwhy.status
  | @opened args' mode i fd' o hreq' hmode ho hok hwriter hfd hresp' =>
      rw [hreq] at hreq'
      cases hreq'
      rw [hresp] at hresp'
      cases hresp'
      exact ⟨mode, i, o, hmode, ho, Function.update_self _ _ _,
        fun j p' hp' => modify_content hp' fun _ => rfl⟩
  | created hreq' | modeChanged hreq' | renamed hreq' | reported hreq' | linked hreq'
  | symlinked hreq' | closed hreq' | wrote hreq' | tooLong hreq' | read hreq' | sought hreq'
  | unlinked hreq' => exact nomatch hreq.symm.trans hreq'

/-! ## A writer -/

/-- A handle that is not closed stays open, on its file and in its mode. -/
theorem FsStep.same_file (hs : FsStep f e f') (hk : f.handles fd = some h)
    (hclose : ∀ args, e.request = .close args → args.fd ≠ fd) :
    ∃ h', f'.handles fd = some h' ∧ h'.file = h.file ∧ h'.mode = h.mode := by
  obtain ⟨h', hk'⟩ := Option.ne_none_iff_exists'.mp (hs.keeps_handle hk hclose)
  refine ⟨h', hk', ?_⟩
  rcases hs.handle hk' with ⟨hsame, -⟩ | ⟨hfree, -⟩ | ⟨k, p, ⟨hk₀, -⟩, -, hkf, hkm, -⟩
  · rw [hk] at hsame
    cases hsame
    exact ⟨rfl, rfl⟩
  · rw [hk] at hfree
    exact nomatch hfree
  · rw [hk] at hk₀
    cases hk₀
    exact ⟨hkf, hkm⟩

/-- A handle that nobody closes stays on its file, in its mode. -/
theorem handle_of_run (hr : Run FsStep f es g) (hk : f.handles fd = some h)
    (hclose : ∀ e ∈ es, ∀ args, e.request = .close args → args.fd ≠ fd) :
    ∃ h', g.handles fd = some h' ∧ h'.file = h.file ∧ h'.mode = h.mode := by
  induction hr with
  | start => exact ⟨h, hk, rfl, rfl⟩
  | @next es g g' e hr hs ih =>
      obtain ⟨k, hk, hfile, hmode⟩ := ih fun e he => hclose e (List.mem_append_left _ he)
      obtain ⟨h', hk', hfile', hmode'⟩ := hs.same_file hk
        (hclose e (List.mem_append_right _ (List.mem_singleton_self e)))
      exact ⟨h', hk', hfile'.trans hfile, hmode'.trans hmode⟩

/-- The data of the `WRITE`s through the handle, in their order. -/
def sentAll (fd : Nat) (es : List Event) : List Bytes := es.filterMap (sent fd)

/-- What is sent last comes last. -/
theorem sentAll_snoc (fd : Nat) (es : List Event) (e : Event) :
    sentAll fd (es ++ [e]) = sentAll fd es ++ (sent fd e).toList := by
  rw [sentAll, List.filterMap_append]
  cases hsent : sent fd e with
  | none => simp [hsent, sentAll]
  | some data => simp [hsent, sentAll]

/-- All requests through the handle are `WRITE`s. -/
def OnlyWrites (fd : Nat) (e : Event) : Prop :=
  handleOf e.request = some fd → ∃ args, e.request = .write args

/-- A writer does not close the handle. -/
theorem OnlyWrites.not_close (honly : OnlyWrites fd e) (args : CloseArgs)
    (hreq : e.request = .close args) : args.fd ≠ fd := by
  rintro rfl
  obtain ⟨args', hreq'⟩ := honly (by rw [hreq]; rfl)
  exact nomatch hreq.symm.trans hreq'

/-- What one request makes of a write handle and its file, when requests
    through the handle are `WRITE`s. -/
theorem FsStep.writer (hv : f.Valid) (hs : FsStep f e f') (hk : f.handles fd = some h)
    (hm : h.mode = .writeOnly) (honly : OnlyWrites fd e) (ho' : f'.dir.objects h.file = some o') :
    ∃ o h', f.dir.objects h.file = some o ∧ f'.handles fd = some h' ∧ h'.file = h.file ∧
      h'.mode = .writeOnly ∧
      ((sent fd e = none ∧ h'.offset = h.offset ∧ o'.content = o.content) ∨
        ∃ data, sent fd e = some data ∧ h'.offset = h.offset + data.length ∧
          o'.content = o.content.take h.offset ++ data) := by
  obtain ⟨h', hk', hfile', hmode'⟩ := hs.same_file hk honly.not_close
  -- the file is the one that was there, written to through this handle or not at all
  obtain ⟨o, ho, hfile⟩ : ∃ o, f.dir.objects h.file = some o ∧
      ((sent fd e = none ∧ o'.content = o.content) ∨
        ∃ data, sent fd e = some data ∧ o'.content = o.content.take h.offset ++ data) := by
    rcases hs.content ho' with ⟨o, ho, hc, hspares⟩ |
      ⟨o, wd, w, data, ho, hw, hwm, hwf, hsent, -, hc⟩ | ⟨hnew, -⟩
    · exact ⟨o, ho, Or.inl ⟨hspares fd h hk rfl, hc⟩⟩
    · obtain rfl := hv.single wd fd w h hw hk hwm hm hwf
      rw [hk] at hw
      cases hw
      exact ⟨o, ho, Or.inr ⟨data, hsent, hc⟩⟩
    · exact absurd rfl (hnew.2 fd h hk)
  refine ⟨o, h', ho, hk', hfile', hmode'.trans hm, ?_⟩
  rcases hs.handle hk' with ⟨hsame, hnone⟩ | ⟨hfree, -⟩ |
    ⟨k, p, ⟨hk₀, -⟩, hreq, -, -, ⟨hnone, -⟩ | ⟨data, hsent, -, hoff⟩⟩
  · rw [hk] at hsame
    cases hsame
    rcases hfile with ⟨-, hc⟩ | ⟨data, hsent, -⟩
    · exact Or.inl ⟨hnone, rfl, hc⟩
    · rw [hnone] at hsent
      exact nomatch hsent
  · rw [hk] at hfree
    exact nomatch hfree
  · obtain ⟨args, hwrite⟩ := honly hreq
    exact absurd hwrite (hnone args)
  · rw [hk] at hk₀
    cases hk₀
    refine Or.inr ⟨data, hsent, hoff, ?_⟩
    rcases hfile with ⟨hnone, -⟩ | ⟨data', hsent', hc⟩
    · rw [hnone] at hsent
      exact nomatch hsent
    · rw [hsent] at hsent'
      cases hsent'
      exact hc

/-- The session of a writer: whatever the other requests do, the file ends up
    with the data sent through the handle, behind what was in front of it when
    the session began. -/
theorem writer_run (hv : f.Valid) (hr : Run FsStep f es g) (hk : f.handles fd = some h)
    (hm : h.mode = .writeOnly) (honly : ∀ e ∈ es, OnlyWrites fd e)
    (ho' : g.dir.objects h.file = some o') :
    ∃ o h', f.dir.objects h.file = some o ∧ g.handles fd = some h' ∧
      h'.offset = h.offset + (sentAll fd es).flatten.length ∧
      ((sentAll fd es = [] ∧ o'.content = o.content) ∨
        (sentAll fd es ≠ [] ∧
          o'.content = o.content.take h.offset ++ (sentAll fd es).flatten)) := by
  induction hr generalizing o' with
  | start => exact ⟨o', h, ho', hk, rfl, Or.inl ⟨rfl, rfl⟩⟩
  | @next es g g' e hr hs ih =>
      have honly₁ : ∀ e ∈ es, OnlyWrites fd e := fun e he => honly e (List.mem_append_left _ he)
      obtain ⟨k, hk₁, hfile, hmode⟩ := handle_of_run hr hk fun e he => (honly₁ e he).not_close
      rw [← hfile] at ho'
      obtain ⟨o₁, h', ho₁, hk', -, -, hstep⟩ := hs.writer
        (hr.invariant Fs.Valid hv fun _ _ _ hv hs => hv.step hs) hk₁ (hmode.trans hm)
        (honly e (List.mem_append_right _ (List.mem_singleton_self e))) ho'
      rw [hfile] at ho₁
      obtain ⟨o, k', ho, hk₂, hoff, hcontent⟩ := ih honly₁ ho₁
      rw [hk₁] at hk₂
      cases hk₂
      have hle : h.offset ≤ o.content.length := hv.inside fd h o ⟨hk, ho⟩ hm
      refine ⟨o, h', ho, hk', ?_⟩
      rcases hstep with ⟨hnone, hoff', hc⟩ | ⟨data, hsent, hoff', hc⟩
      · rw [sentAll_snoc, hnone, Option.toList_none, List.append_nil, hoff', hc]
        exact ⟨hoff, hcontent⟩
      · rw [sentAll_snoc, hsent, Option.toList_some, List.flatten_append, List.length_append,
          hoff', hoff, Nat.add_assoc]
        refine ⟨by simp, Or.inr ⟨by simp, ?_⟩⟩
        rw [hc, hoff]
        rcases hcontent with ⟨hnil, hc₁⟩ | ⟨-, hc₁⟩
        · rw [hnil, hc₁]
          simp
        · have hlen : (o.content.take h.offset ++ (sentAll fd es).flatten).length
              = h.offset + (sentAll fd es).flatten.length := length_written hle _
          rw [hc₁, ← hlen, List.take_length, List.append_assoc]
          simp

/-! ## A reader -/

/-- The data a `READ` through the handle delivers. -/
def got (fd : Nat) (e : Event) : Option Bytes :=
  match e.request, e.response with
  | .read args, ⟨.success, .bytes data⟩ => if args.fd = fd then some data else none
  | _, _ => none

/-- What the `READ`s through the handle deliver, in their order. -/
def gotAll (fd : Nat) (es : List Event) : List Bytes := es.filterMap (got fd)

/-- What is delivered last comes last. -/
theorem gotAll_snoc (fd : Nat) (es : List Event) (e : Event) :
    gotAll fd (es ++ [e]) = gotAll fd es ++ (got fd e).toList := by
  rw [gotAll, List.filterMap_append]
  cases hgot : got fd e with
  | none => simp [hgot, gotAll]
  | some data => simp [hgot, gotAll]

/-- All requests through the handle are `READ`s. -/
def OnlyReads (fd : Nat) (e : Event) : Prop :=
  handleOf e.request = some fd → ∃ args, e.request = .read args

/-- A reader does not close the handle. -/
theorem OnlyReads.not_close (honly : OnlyReads fd e) (args : CloseArgs)
    (hreq : e.request = .close args) : args.fd ≠ fd := by
  rintro rfl
  obtain ⟨args', hreq'⟩ := honly (by rw [hreq]; rfl)
  exact nomatch hreq.symm.trans hreq'

/-- Only what goes through the number delivers something. -/
theorem got_other (h : handleOf e.request ≠ some fd) : got fd e = none := by
  rw [got]
  split
  · next args _ hreq _ =>
      exact if_neg fun he => h (by rw [hreq, ← he]; rfl)
  · rfl

/-- What fails delivers nothing. -/
theorem got_failed (h : e.response.status ≠ .success) : got fd e = none := by
  rw [got]
  split
  · next hresp => exact absurd (by rw [hresp]) h
  · rfl

/-- What one request makes of a handle and its file, when requests through the
    handle are `READ`s and the file is not written to. -/
theorem FsStep.reader (hs : FsStep f e f') (hk : f.handles fd = some h) (honly : OnlyReads fd e)
    (hspares : Spares f h.file e) (ho' : f'.dir.objects h.file = some o') :
    ∃ o h', f.dir.objects h.file = some o ∧ o'.content = o.content ∧ f'.handles fd = some h' ∧
      ((got fd e = none ∧ h'.offset = h.offset) ∨
        ∃ data, got fd e = some data ∧ h'.offset = h.offset + data.length ∧
          h'.offset ≤ o.content.length ∧ data = (o.content.drop h.offset).take data.length) := by
  obtain ⟨h', hk', -, -⟩ := hs.same_file hk honly.not_close
  obtain ⟨o, ho, hc⟩ : ∃ o, f.dir.objects h.file = some o ∧ o'.content = o.content := by
    rcases hs.content ho' with ⟨o, ho, hc, -⟩ | ⟨o, wd, w, data, -, hw, -, hwf, hsent, -⟩ |
      ⟨hnew, -⟩
    · exact ⟨o, ho, hc⟩
    · rw [hspares wd w hw hwf] at hsent
      exact nomatch hsent
    · exact absurd rfl (hnew.2 fd h hk)
  refine ⟨o, h', ho, hc, hk', ?_⟩
  by_cases hfd : handleOf e.request = some fd
  case neg =>
    refine Or.inl ⟨got_other hfd, ?_⟩
    rcases hs.handle hk' with ⟨hsame, -⟩ | ⟨hfree, -⟩ | ⟨k, p, -, hreq, -⟩
    · rw [hk] at hsame
      cases hsame
      rfl
    · rw [hk] at hfree
      exact nomatch hfree
    · exact absurd hreq hfd
  case pos =>
    obtain ⟨args, hread⟩ := honly hfd
    obtain rfl : args.fd = fd := by
      rw [hread] at hfd
      exact Option.some.inj hfd
    cases hs with
    | @refused st hwhy hresp =>
        rw [hk] at hk'
        cases hk'
        refine Or.inl ⟨got_failed ?_, rfl⟩
        rw [hresp]
        exact hwhy.status
    | @read args' k p hreq hp hsize hresp =>
        rw [hread] at hreq
        cases hreq
        rw [hp.1] at hk
        cases hk
        rw [hp.2] at ho
        cases ho
        change Function.update f.handles args.fd _ args.fd = some h' at hk'
        rw [Function.update_self] at hk'
        cases hk'
        have hlen : ((o.content.drop h.offset).take args.size).length = args.size := by
          rw [List.length_take, List.length_drop]
          omega
        refine Or.inr ⟨(o.content.drop h.offset).take args.size, ?_, ?_, hsize, ?_⟩
        · rw [got, hread, hresp]
          exact if_pos rfl
        · rw [hlen]
        · rw [hlen]
    | created hreq | modeChanged hreq | renamed hreq | reported hreq | linked hreq
    | symlinked hreq | opened hreq | closed hreq | wrote hreq | tooLong hreq | sought hreq
    | unlinked hreq => exact nomatch hread.symm.trans hreq

/-- The session of a reader: as long as nobody writes to the file, the reads
    deliver it from where the handle stood, without gap or repetition. -/
theorem reader_run (hr : Run (guarded (fun f e => Spares f h.file e) FsStep) f es g)
    (hk : f.handles fd = some h) (honly : ∀ e ∈ es, OnlyReads fd e)
    (ho' : g.dir.objects h.file = some o') :
    ∃ o h', f.dir.objects h.file = some o ∧ o'.content = o.content ∧ g.handles fd = some h' ∧
      h'.offset = h.offset + (gotAll fd es).flatten.length ∧
      (gotAll fd es = [] ∨ h'.offset ≤ o.content.length) ∧
      (gotAll fd es).flatten
        = (o.content.drop h.offset).take (gotAll fd es).flatten.length := by
  induction hr generalizing o' with
  | start => exact ⟨o', h, ho', rfl, hk, rfl, Or.inl rfl, by simp [gotAll]⟩
  | @next es g g' e hr hs ih =>
      have honly₁ : ∀ e ∈ es, OnlyReads fd e := fun e he => honly e (List.mem_append_left _ he)
      obtain ⟨k, hk₁, hfile, -⟩ := handle_of_run hr.unguard hk fun e he => (honly₁ e he).not_close
      obtain ⟨hspares, hs⟩ := hs
      rw [← hfile] at ho' hspares
      obtain ⟨o₁, h', ho₁, hc₁, hk', hstep⟩ := hs.reader hk₁
        (honly e (List.mem_append_right _ (List.mem_singleton_self e))) hspares ho'
      rw [hfile] at ho₁
      obtain ⟨o, k', ho, hc, hk₂, hoff, hle, hgot⟩ := ih honly₁ ho₁
      rw [hk₁] at hk₂
      cases hk₂
      refine ⟨o, h', ho, hc₁.trans hc, hk', ?_⟩
      rcases hstep with ⟨hnone, hoff'⟩ | ⟨data, hdata, hoff', hle', heq⟩
      · rw [gotAll_snoc, hnone, Option.toList_none, List.append_nil, hoff']
        exact ⟨hoff, hle, hgot⟩
      · rw [hc, hoff] at heq
        rw [hc] at hle'
        rw [gotAll_snoc, hdata, Option.toList_some, List.flatten_append, List.length_append,
          hoff', hoff, Nat.add_assoc]
        refine ⟨by simp, Or.inr (by omega), ?_⟩
        rw [List.take_add, List.drop_drop, ← hgot]
        simp only [List.flatten_singleton]
        rw [← heq]

end LibfsFileSystem
