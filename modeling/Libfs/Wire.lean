import Libfs.Stdio
import Mathlib.Algebra.Group.Int.Defs
import Mathlib.Data.List.TakeWhile
import Mathlib.Data.Nat.Cast.Basic

/-! # Fields behind one another in a buffer

    A program that passes its arguments through a byte buffer copies one
    field behind the other, at an offset it advances by hand, and the reader
    does the same with the reads.  A `Format` is a kind of field: the bytes a
    value is written as, and the read that gets it back wherever in a buffer
    these bytes stand. -/

namespace LibfsWire

open LibfsHeap LibfsStdio

variable {α : Type}

/-! ## Writing -/

/-- `memcpy` of one run of bytes behind the other, from `off` on. -/
def copyAll (buf : Bytes) (off : Nat) : List Bytes → C Bytes
  | [] => .ok buf
  | bs :: fields => do
      let buf ← poke buf off bs
      copyAll buf (off + bs.length) fields

/-- Fields that end where the buffer ends replace what stood from `off` on. -/
theorem copyAll_of_fits (fields : List Bytes) :
    ∀ {buf : Bytes} {off : Nat}, off + fields.flatten.length = buf.length →
      copyAll buf off fields = .ok (buf.take off ++ fields.flatten) := by
  induction fields with
  | nil =>
      intro buf off h
      rw [List.flatten_nil, List.length_nil, Nat.add_zero] at h
      rw [copyAll, List.flatten_nil, List.append_nil, h, List.take_length]
  | cons bs fields ih =>
      intro buf off h
      rw [List.flatten_cons, List.length_append] at h
      have hin : off + bs.length ≤ buf.length := by omega
      have hlen : (buf.take off).length = off := by
        rw [List.length_take]
        omega
      rw [copyAll, poke_of_le hin, ok_bind, ih, List.flatten_cons]
      · -- the field stands behind what was there before
        have hfront : (buf.take off ++ bs).length = off + bs.length := by
          rw [List.length_append, hlen]
        rw [List.take_left' hfront, List.append_assoc]
      · rw [List.length_append, List.length_append, List.length_drop, hlen]
        omega

/-! ## Reading -/

/-- From `off` on, `data` holds `rest`. -/
structure Stands (data : Bytes) (off : Nat) (rest : Bytes) : Prop where
  inside : off ≤ data.length
  drop : data.drop off = rest

theorem Stands.start (data : Bytes) : Stands data 0 data := ⟨Nat.zero_le _, rfl⟩

theorem Stands.slice {data bs rest : Bytes} {off : Nat} (h : Stands data off (bs ++ rest)) :
    slice data off bs.length = .ok bs := by
  have hlen := congrArg List.length h.drop
  rw [List.length_drop, List.length_append] at hlen
  have hin := h.inside
  rw [slice_of_le (by omega), h.drop, List.take_left]

/-- Behind a field stands what follows it. -/
theorem Stands.next {data bs rest : Bytes} {off : Nat} (h : Stands data off (bs ++ rest)) :
    Stands data (off + bs.length) rest := by
  have hlen := congrArg List.length h.drop
  rw [List.length_drop, List.length_append] at hlen
  have hin := h.inside
  constructor
  · omega
  · rw [← List.drop_drop, h.drop, List.drop_left]

/-- A kind of field: the values it is meant for, the bytes it writes and how
    many they are, and a read that gives such a value back. -/
structure Format (α : Type) where
  fits : α → Prop
  write : α → Bytes
  size : α → Nat
  write_length : ∀ v : α, (write v).length = size v
  read : Bytes → Nat → C α
  read_write : ∀ {v : α}, fits v → ∀ {data : Bytes} {off : Nat} {rest : Bytes},
    Stands data off (write v ++ rest) → read data off = .ok v

attribute [simp] Format.write_length

/-- A read gives the field back and leaves the offset where the next begins. -/
theorem Format.read_next (f : Format α) {v : α} (hv : f.fits v) {data rest : Bytes} {off : Nat}
    (h : Stands data off (f.write v ++ rest)) :
    f.read data off = .ok v ∧ Stands data (off + f.size v) rest := by
  have hnext := h.next
  rw [f.write_length] at hnext
  exact ⟨f.read_write hv h, hnext⟩

/-- Two fields behind one another. -/
def Format.both {β : Type} (f : Format α) (g : Format β) : Format (α × β) where
  fits v := f.fits v.1 ∧ g.fits v.2
  write v := f.write v.1 ++ g.write v.2
  size v := f.size v.1 + g.size v.2
  write_length v := by rw [List.length_append, f.write_length, g.write_length]
  read data off := do
    let a ← f.read data off
    let b ← g.read data (off + f.size a)
    .ok (a, b)
  read_write := by
    intro v hv data off rest h
    rw [List.append_assoc] at h
    obtain ⟨hfirst, hrest⟩ := f.read_next hv.1 h
    rw [hfirst, ok_bind, g.read_write hv.2 hrest, ok_bind]

/-- The fields of a structure, as they stand behind one another. -/
def Format.fields {β : Type} (f : Format β) (split : α → β) (join : β → α)
    (hjoin : ∀ v, join (split v) = v) : Format α where
  fits v := f.fits (split v)
  write v := f.write (split v)
  size v := f.size (split v)
  write_length v := f.write_length (split v)
  read data off := do
    let b ← f.read data off
    .ok (join b)
  read_write := by
    intro v hv data off rest h
    rw [f.read_write hv h, ok_bind, hjoin]

/-! ## Numbers -/

/-- The `w` low bytes of a number, the lowest first. -/
def lowBytes : Nat → Nat → Bytes
  | 0, _ => []
  | w + 1, n => UInt8.ofNat n :: lowBytes w (n / 256)

/-- The number some bytes stand for. -/
def valueOf : Bytes → Nat
  | [] => 0
  | b :: bs => b.toNat + 256 * valueOf bs

@[simp] theorem lowBytes_length (w : Nat) : ∀ n, (lowBytes w n).length = w := by
  induction w with
  | zero =>
      intro n
      rfl
  | succ w ih =>
      intro n
      rw [lowBytes, List.length_cons, ih]

/-- The low bytes of a number stand for its remainder. -/
theorem valueOf_lowBytes (w : Nat) : ∀ n, valueOf (lowBytes w n) = n % 256 ^ w := by
  induction w with
  | zero =>
      intro n
      rw [Nat.pow_zero, Nat.mod_one]
      rfl
  | succ w ih =>
      intro n
      have hlow : (UInt8.ofNat n).toNat = n % 256 := UInt8.toNat_ofNat'
      rw [lowBytes, valueOf, ih, hlow, Nat.pow_succ', Nat.mod_mul]

/-- `unsigned` numbers of `w` bytes. -/
def unsignedFormat (w : Nat) : Format Nat where
  fits n := n < 256 ^ w
  write := lowBytes w
  size _ := w
  write_length := lowBytes_length w
  read data off := do
    let bs ← slice data off w
    .ok (valueOf bs)
  read_write := by
    intro n hn data off rest h
    have hslice := h.slice
    rw [lowBytes_length] at hslice
    rw [hslice, ok_bind, valueOf_lowBytes, Nat.mod_eq_of_lt hn]

@[simp] theorem unsignedFormat_size (w n : Nat) : (unsignedFormat w).size n = w := rfl

/-- Signed numbers of `w` bytes, in two's complement. -/
def signedFormat (w : Nat) : Format Int where
  fits n := -(256 ^ w : Int) ≤ 2 * n ∧ 2 * n < 256 ^ w
  write n := lowBytes w (n % 256 ^ w).toNat
  size _ := w
  write_length n := lowBytes_length w _
  read data off := do
    let bs ← slice data off w
    .ok ((valueOf bs : Int).bmod (256 ^ w))
  read_write := by
    intro n hn data off rest h
    have hslice := h.slice
    rw [lowBytes_length] at hslice
    rw [hslice, ok_bind, valueOf_lowBytes]
    have hpos : (0 : Int) < 256 ^ w := Int.pow_pos (by decide)
    have hcast : (((n % 256 ^ w).toNat % 256 ^ w : Nat) : Int) = n % ((256 ^ w : Nat) : Int) := by
      push_cast
      rw [Int.toNat_of_nonneg (Int.emod_nonneg n (Int.ne_of_gt hpos)), Int.emod_emod]
    rw [hcast, Int.emod_bmod, Int.bmod_eq_of_le]
    · push_cast
      omega
    · push_cast
      omega

@[simp] theorem signedFormat_size (w : Nat) (n : Int) : (signedFormat w).size n = w := rfl

/-! ## Strings -/

/-- A C string: its bytes up to the terminator. -/
def terminated (bs : Bytes) : Bytes := bs ++ [0]

/-- The bytes from `off` on up to the first zero, or to the end of the
    buffer. -/
def stringAt (data : Bytes) (off : Nat) : Bytes := (data.drop off).takeWhile (· != 0)

@[simp] theorem terminated_length (bs : Bytes) : (terminated bs).length = bs.length + 1 := by
  rw [terminated, List.length_append, List.length_singleton]

theorem stringAt_noNul (data : Bytes) (off : Nat) : (0 : UInt8) ∉ stringAt data off := by
  intro h
  have hne : ((0 : UInt8) != 0) = true := List.mem_takeWhile_imp (p := (· != 0)) h
  exact absurd hne (by decide)

/-- A string ends at its terminator, whatever follows. -/
theorem takeWhile_terminated {bs : Bytes} (hbs : (0 : UInt8) ∉ bs) (rest : Bytes) :
    (terminated bs ++ rest).takeWhile (· != 0) = bs := by
  rw [terminated, List.append_assoc, List.takeWhile_append_of_pos]
  · rw [List.singleton_append, List.takeWhile_cons_of_neg (by decide), List.append_nil]
  · intro b hb
    have hne : b ≠ 0 := fun h0 => hbs (h0 ▸ hb)
    exact bne_iff_ne.mpr hne

/-- A string that was written is found, and its terminator is in the buffer. -/
theorem Stands.stringAt {bs data rest : Bytes} {off : Nat} (hbs : (0 : UInt8) ∉ bs)
    (h : Stands data off (terminated bs ++ rest)) :
    stringAt data off = bs ∧ off + bs.length < data.length := by
  have hlen := congrArg List.length h.drop
  rw [List.length_drop, List.length_append, terminated_length] at hlen
  constructor
  · unfold LibfsWire.stringAt
    rw [h.drop, takeWhile_terminated hbs]
  · omega

end LibfsWire
