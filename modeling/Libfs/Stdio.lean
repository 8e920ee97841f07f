import Libfs.CHeap
import Mathlib.Data.List.Basic

/-! # Bytes in memory and in a file

    `memcpy` to and from buffers of a known size, and the two ways a C
    program writes a file: a stream opened with `"a+"` writes at the end of
    the file whatever `fseek` was called before, a stream opened with `"r+"`
    reads and writes at the seek position.  Each operation has one rule that
    says which byte stands where afterwards. -/

namespace LibfsStdio

open LibfsHeap

/-- A run of bytes: a buffer or the contents of a file. -/
abbrev Bytes := List UInt8

/-- Reading `n` bytes of a buffer from `off` on. -/
def slice (buf : Bytes) (off n : Nat) : C Bytes :=
  if off + n ≤ buf.length then .ok ((buf.drop off).take n) else .error .undefinedBehaviour

/-- Writing bytes into a buffer from `off` on. -/
def poke (buf : Bytes) (off : Nat) (bs : Bytes) : C Bytes :=
  if off + bs.length ≤ buf.length then
    .ok (buf.take off ++ bs ++ buf.drop (off + bs.length))
  else .error .undefinedBehaviour

/-- `fwrite` on a stream opened with `"a+"`. -/
def fwriteAppend (file bs : Bytes) : Bytes := file ++ bs

/-- `fseek` to `pos` and `fwrite` on a stream opened with `"r+"`: a gap behind
    the old end of the file is filled with zeros. -/
def fwriteAt (file : Bytes) (pos : Nat) (bs : Bytes) : Bytes :=
  if bs = [] then file
  else (file ++ List.replicate (pos - file.length) 0).take pos ++ bs
    ++ file.drop (pos + bs.length)

/-- `fseek` to `pos` and `fread` of `n` bytes: what is there, up to the end of
    the file. -/
def freadAt (file : Bytes) (pos n : Nat) : Bytes := (file.drop pos).take n

/-- The first `n` bytes of `bs`, made up to `n` bytes with zeros. -/
def pad (n : Nat) (bs : Bytes) : Bytes := bs.take n ++ List.replicate (n - bs.length) 0

/-! ## Where each byte stands afterwards -/

theorem slice_ok {buf bs : Bytes} {off n : Nat} (h : slice buf off n = .ok bs) :
    off + n ≤ buf.length ∧ bs = (buf.drop off).take n := by
  unfold slice at h
  split at h
  · next hle => exact ⟨hle, (Except.ok.inj h).symm⟩
  · exact nomatch h

theorem slice_of_le {buf : Bytes} {off n : Nat} (h : off + n ≤ buf.length) :
    slice buf off n = .ok ((buf.drop off).take n) :=
  if_pos h

theorem poke_of_le {buf bs : Bytes} {off : Nat} (h : off + bs.length ≤ buf.length) :
    poke buf off bs = .ok (buf.take off ++ bs ++ buf.drop (off + bs.length)) :=
  if_pos h

theorem poke_ok {buf bs buf' : Bytes} {off : Nat} (h : poke buf off bs = .ok buf') :
    off + bs.length ≤ buf.length ∧ buf'.length = buf.length ∧
      buf' = buf.take off ++ bs ++ buf.drop (off + bs.length) := by
  unfold poke at h
  split at h
  · next hle =>
      cases h
      refine ⟨hle, ?_, rfl⟩
      simp only [List.length_append, List.length_take, List.length_drop]
      omega
  · exact nomatch h

/-- Bytes laid over a part of others: each byte is one of theirs there, and the
    old one elsewhere. -/
theorem overlaid_getElem? {buf bs : Bytes} {off : Nat} (h : off + bs.length ≤ buf.length) (i : Nat) :
    (buf.take off ++ bs ++ buf.drop (off + bs.length))[i]?
      = if off ≤ i ∧ i < off + bs.length then bs[i - off]? else buf[i]? := by
  have hlen : (buf.take off).length = off := by rw [List.length_take]; omega
  by_cases h1 : i < off
  · rw [if_neg (by omega), List.append_assoc,
      List.getElem?_append_left (by rw [hlen]; exact h1), List.getElem?_take_of_lt h1]
  · by_cases h2 : i < off + bs.length
    · rw [if_pos ⟨by omega, h2⟩, List.getElem?_append_left, List.getElem?_append_right, hlen]
      · omega
      · rw [List.length_append, hlen]
        exact h2
    · rw [if_neg (by omega), List.getElem?_append_right, List.getElem?_drop]
      · congr 1
        rw [List.length_append, hlen]
        omega
      · rw [List.length_append, hlen]
        omega

theorem poke_getElem? {buf bs buf' : Bytes} {off : Nat} (h : poke buf off bs = .ok buf') (i : Nat) :
    buf'[i]? = if off ≤ i ∧ i < off + bs.length then bs[i - off]? else buf[i]? := by
  obtain ⟨hfit, -, rfl⟩ := poke_ok h
  exact overlaid_getElem? hfit i

/-- A write inside the file does not change its length. -/
theorem fwriteAt_length {file bs : Bytes} {pos : Nat} (h : pos + bs.length ≤ file.length) :
    (fwriteAt file pos bs).length = file.length := by
  unfold fwriteAt
  split
  · rfl
  · simp only [List.length_append, List.length_take, List.length_drop, List.length_replicate]
    omega

/-- A write inside the file changes the bytes it covers and no others. -/
theorem fwriteAt_getElem? {file bs : Bytes} {pos : Nat} (h : pos + bs.length ≤ file.length)
    (i : Nat) :
    (fwriteAt file pos bs)[i]?
      = if pos ≤ i ∧ i < pos + bs.length then bs[i - pos]? else file[i]? := by
  unfold fwriteAt
  split
  · next hnil =>
      rw [hnil, if_neg (by simp)]
  · rw [show pos - file.length = 0 by omega, List.replicate_zero, List.append_nil]
    exact overlaid_getElem? h i

theorem freadAt_getElem? (file : Bytes) (pos n i : Nat) :
    (freadAt file pos n)[i]? = if i < n then file[pos + i]? else none := by
  unfold freadAt
  by_cases h : i < n
  · rw [if_pos h, List.getElem?_take_of_lt h, List.getElem?_drop]
  · rw [if_neg h, List.getElem?_take_eq_none (by omega)]

/-- A read that stays inside the file delivers as much as was asked for. -/
theorem freadAt_length {file : Bytes} {pos n : Nat} (h : pos + n ≤ file.length) :
    (freadAt file pos n).length = n := by
  unfold freadAt
  rw [List.length_take, List.length_drop]
  omega

@[simp] theorem pad_length (n : Nat) (bs : Bytes) : (pad n bs).length = n := by
  unfold pad
  rw [List.length_append, List.length_take, List.length_replicate]
  omega

theorem pad_getElem? {n j : Nat} (bs : Bytes) (hj : j < n) :
    (pad n bs)[j]? = if j < bs.length then bs[j]? else some 0 := by
  unfold pad
  by_cases hbs : j < bs.length
  · rw [if_pos hbs, List.getElem?_append_left (by rw [List.length_take]; omega),
      List.getElem?_take_of_lt hj]
  · have hlen : (bs.take n).length = bs.length := by rw [List.length_take]; omega
    rw [if_neg hbs, List.getElem?_append_right (by omega),
      List.getElem?_replicate_of_lt (by omega)]

theorem pad_take {n : Nat} (bs : Bytes) (h : bs.length ≤ n) : (pad n bs).take bs.length = bs := by
  unfold pad
  rw [List.take_of_length_le h, List.take_left]

/-- Only the first `n` bytes count. -/
theorem pad_of_take (n : Nat) (bs : Bytes) : pad n (bs.take n) = pad n bs := by
  unfold pad
  rw [List.take_take, Nat.min_self, List.length_take]
  congr 2
  omega

/-- `memcpy` into a zeroed buffer. -/
theorem poke_zeros {n : Nat} (bs : Bytes) (h : bs.length ≤ n) :
    poke (List.replicate n 0) 0 bs = .ok (pad n bs) := by
  rw [poke_of_le (by rw [List.length_replicate]; omega)]
  unfold pad
  rw [List.take_zero, List.nil_append, Nat.zero_add, List.drop_replicate,
    List.take_of_length_le h]

end LibfsStdio
