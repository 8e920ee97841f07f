import Mathlib.Data.List.Basic

/-! # Nodes on the C heap

    Doubly linked lists as a C program keeps them: every node is a block of
    its own with a `next` and a `prev` pointer, and a list is known by a
    pointer to its first node.  Addresses are handed out in order and never
    reused, so a pointer to a freed block stays a pointer to a freed block
    and following it is an error the model can see.

    Nothing here is about a particular program: the values a node carries
    are a parameter. -/

namespace LibfsHeap

/-- The ways a C call can fail to return to its caller. -/
inductive Stop where
  /-- A freed or wild pointer is followed, or a buffer is overrun. -/
  | undefinedBehaviour
  /-- A walk over a list never meets `NULL`. -/
  | endlessLoop
  /-- `exit(EXIT_FAILURE)`. -/
  | exitFailure
  /-- `sem_wait` or `pthread_mutex_lock` has nothing to take. -/
  | blocked
deriving DecidableEq, Repr

/-- A C computation: a value, or the reason there is none. -/
abbrev C (β : Type) := Except Stop β

theorem toOption_some {β : Type} {x : C β} {b : β} (h : x.toOption = some b) : x = .ok b := by
  cases x with
  | error e => cases h
  | ok c =>
      obtain rfl := Option.some.inj h
      rfl

/-- A pointer to a node; `none` is `NULL`. -/
abbrev Ptr := Option Nat

/-- A node: what it carries and its two links. -/
structure Cell (α : Type) where
  val : α
  next : Ptr
  prev : Ptr
deriving DecidableEq, Repr

/-- The blocks allocated so far, by address; a freed block is `none`. -/
abbrev Heap (α : Type) := List (Option (Cell α))

/-- A list as the program names it: the heap and the pointer to the first
    node. -/
structure Table (α : Type) where
  heap : Heap α
  head : Ptr
deriving DecidableEq, Repr

variable {α β γ : Type}

/-! ## Loads and stores -/

/-- `*a`, which only an allocated block has. -/
def Heap.load (h : Heap α) (a : Nat) : C (Cell α) :=
  match h[a]? with
  | some (some c) => .ok c
  | _ => .error .undefinedBehaviour

/-- `a->next = p`. -/
def Heap.setNext (h : Heap α) (a : Nat) (p : Ptr) : C (Heap α) := do
  let c ← h.load a
  .ok (h.set a (some { c with next := p }))

/-- `a->prev = p`. -/
def Heap.setPrev (h : Heap α) (a : Nat) (p : Ptr) : C (Heap α) := do
  let c ← h.load a
  .ok (h.set a (some { c with prev := p }))

/-- `if (p) p->next = q`. -/
def Heap.linkNext (h : Heap α) (p q : Ptr) : C (Heap α) :=
  match p with
  | some a => h.setNext a q
  | none => .ok h

/-- `if (p) p->prev = q`. -/
def Heap.linkPrev (h : Heap α) (p q : Ptr) : C (Heap α) :=
  match p with
  | some a => h.setPrev a q
  | none => .ok h

/-- `free(a)`. -/
def Heap.free (h : Heap α) (a : Nat) : C (Heap α) := do
  let _ ← h.load a
  .ok (h.set a none)

/-! ## Walks

    The budget of a walk is the number of blocks ever allocated: a list that
    visits more of them goes round in a circle. -/

/-- The first node from `p` on whose value passes the test. -/
def Heap.findFrom (h : Heap α) (test : α → Bool) : Nat → Ptr → C Ptr
  | _, none => .ok none
  | 0, some _ => .error .endlessLoop
  | n + 1, some a => do
      let c ← h.load a
      if test c.val then .ok (some a) else Heap.findFrom h test n c.next

/-- The last node from `a` on. -/
def Heap.lastFrom (h : Heap α) : Nat → Nat → C Nat
  | 0, _ => .error .endlessLoop
  | n + 1, a => do
      let c ← h.load a
      match c.next with
      | none => .ok a
      | some b => Heap.lastFrom h n b

/-- The values met from `p` on. -/
def Heap.valuesFrom (h : Heap α) : Nat → Ptr → C (List α)
  | _, none => .ok []
  | 0, some _ => .error .endlessLoop
  | n + 1, some a => do
      let c ← h.load a
      let vs ← Heap.valuesFrom h n c.next
      .ok (c.val :: vs)

/-! ## Tables -/

/-- The empty table: a head pointer that is `NULL`. -/
def Table.empty : Table α := ⟨[], none⟩

/-- The search loop, from a pointer the caller holds. -/
def Table.findAt (t : Table α) (p : Ptr) (test : α → Bool) : C Ptr :=
  t.heap.findFrom test t.heap.length p

/-- The search loop, from the table's head pointer. -/
def Table.find (t : Table α) (test : α → Bool) : C Ptr :=
  t.findAt t.head test

/-- The whole table read from its head pointer. -/
def Table.values (t : Table α) : C (List α) :=
  t.heap.valuesFrom t.heap.length t.head

/-- The value of the node at `a`. -/
def Table.get (t : Table α) (a : Nat) : C α := do
  let c ← t.heap.load a
  .ok c.val

/-- Assignments to the fields of the node at `a`. -/
def Table.put (t : Table α) (a : Nat) (v : α) : C (Table α) := do
  let c ← t.heap.load a
  .ok { t with heap := t.heap.set a (some { c with val := v }) }

/-- Allocate a node and hang it behind the last one.  `mk` fills the node in
    from the value of the node it follows, if there is one. -/
def Table.pushBack (t : Table α) (mk : Option α → α) : C (Nat × Table α) :=
  let node := t.heap.length
  match t.head with
  | none => .ok (node, ⟨t.heap ++ [some ⟨mk none, none, none⟩], some node⟩)
  | some first => do
      let curr ← t.heap.lastFrom t.heap.length first
      let c ← t.heap.load curr
      let heap := t.heap ++ [some ⟨mk (some c.val), none, some curr⟩]
      let heap ← heap.setNext curr (some node)
      .ok (node, ⟨heap, t.head⟩)

/-- Unhook and free the node at `a` in a function that was handed the head
    pointer by value: the caller's head pointer is left as it is. -/
def Table.detach (t : Table α) (a : Nat) : C (Table α) := do
  let c ← t.heap.load a
  let heap ← t.heap.linkNext c.prev c.next
  let heap ← heap.linkPrev c.next c.prev
  let heap ← heap.free a
  .ok { t with heap := heap }

/-- First half of `remove`: the node before `c`, or the head pointer, is made
    to skip `c`. -/
def Table.skipForward (t : Table α) (c : Cell α) : C (Table α) :=
  match c.prev with
  | some b => do
      let heap ← t.heap.setNext b c.next
      .ok ⟨heap, t.head⟩
  | none => do
      let heap ← t.heap.linkPrev c.next none
      .ok ⟨heap, c.next⟩

/-- Second half of `remove`: the node behind `c`, or the end of the list, is
    made to skip `c`. -/
def Heap.skipBackward (h : Heap α) (c : Cell α) : C (Heap α) :=
  match c.next with
  | some b => h.setPrev b c.prev
  | none => h.linkNext c.prev none

/-- Unhook and free the node at `a` in a function that was handed the address
    of the head pointer. -/
def Table.remove (t : Table α) (a : Nat) : C (Table α) := do
  let c ← t.heap.load a
  let t ← t.skipForward c
  let heap ← t.heap.skipBackward c
  let heap ← heap.free a
  .ok { t with heap := heap }

/-! ## Reading a computation that returned -/

/-- A computation that returned has a value. -/
theorem isOk_iff {x : C β} : x.isOk = true ↔ ∃ b, x = .ok b := by
  cases x with
  | error stop =>
      constructor
      · intro h
        exact nomatch h
      · rintro ⟨b, h⟩
        exact nomatch h
  | ok b => exact ⟨fun _ => ⟨b, rfl⟩, fun _ => rfl⟩

/-- A sequence returns exactly when both halves do. -/
theorem bind_ok_iff {x : C β} {f : β → C γ} {c : γ} :
    (x >>= f) = .ok c ↔ ∃ b, x = .ok b ∧ f b = .ok c := by
  constructor
  · intro h
    cases x with
    | error e => exact nomatch h
    | ok b => exact ⟨b, rfl, h⟩
  · rintro ⟨b, rfl, h⟩
    exact h

@[simp] theorem ok_bind (b : β) (f : β → C γ) : (Except.ok b >>= f) = f b := rfl

@[simp] theorem error_bind (e : Stop) (f : β → C γ) :
    ((Except.error e : C β) >>= f) = .error e := rfl

end LibfsHeap
