import DsiRest.Basic
import Mathlib.Data.List.Forall2

/-!
# Buffers of a GridFTP Operation

The argument that `write_gridftp_op` and `read_gridftp_op` share. Data passes between
libcurl and the data channels of a GridFTP operation in buffers, which wander between the
lists of a `GridftpOpArg`: `pendingBuffers` hold data, `registeredBuffers` belong to the
GridFTP server until it calls back, `freeBuffers` are to be used again.

The linked lists of the source are lists here, and a buffer is known by its `id`, which
stands for its address. `pendingBuffersLast` stands for the address of a `next` pointer:
`none` for that of the list head, `some id` for that of the buffer `id`.

## Main results

* `removeBuffer_matched` — the buffer of an operation is found by its address.
* `bufferGet_spec` — where the buffer comes from, and what becomes of the lists.
-/

namespace DsiRest

/-! ### Buffers -/

/-- A `globus_i_dsi_rest_buffer_t`; `buffer` is what was stored in its memory so far. -/
structure Buffer where
  id : ℕ
  bufferLen : ℕ
  bufferUsed : ℕ
  transferOffset : ℕ
  buffer : Bytes
  deriving DecidableEq, Repr

namespace Buffer

/-- `memcpy` and `memmove` into the buffer from index `start` on. -/
def store (b : Buffer) (start : ℕ) (data : Bytes) : Buffer :=
  { b with buffer := b.buffer.take start ++ data ++ b.buffer.drop (start + data.length) }

/-- The data of a buffer: the part of its memory that is used. -/
def data (b : Buffer) : Bytes :=
  b.buffer.take b.bufferUsed

@[simp] theorem store_id (b : Buffer) (start : ℕ) (data : Bytes) :
    (b.store start data).id = b.id := rfl

/-- What was stored can be read back with what was in front of it. -/
theorem take_store {b : Buffer} {start : ℕ} (h : start ≤ b.buffer.length) (data : Bytes) :
    (b.store start data).buffer.take (start + data.length) = b.buffer.take start ++ data := by
  rw [store, List.take_left']
  rw [List.length_append, List.length_take, Nat.min_eq_left h]

end Buffer

/-- The first buffer with a given address, and the list without it. -/
def removeBuffer (id : ℕ) : List Buffer → Option (Buffer × List Buffer)
  | [] => none
  | b :: bs =>
    if b.id = id then some (b, bs)
    else (removeBuffer id bs).map fun (found, left) => (found, b :: left)

/-- The buffer that is removed and what is left are the buffers there were. -/
theorem removeBuffer_perm {id : ℕ} {bs left : List Buffer} {b : Buffer}
    (h : removeBuffer id bs = some (b, left)) : (b :: left).Perm bs := by
  induction bs generalizing left with
  | nil => simp [removeBuffer] at h
  | cons first later ih =>
      rw [removeBuffer] at h
      split_ifs at h with hid
      · obtain ⟨rfl, rfl⟩ := Prod.mk.inj (Option.some.inj h)
        exact .refl _
      · obtain ⟨⟨found, left'⟩, hremove, heq⟩ := Option.map_eq_some_iff.mp h
        obtain ⟨rfl, rfl⟩ := Prod.mk.inj heq
        exact (List.Perm.swap first found left').trans ((ih hremove).cons first)

/-- Buffers may be matched with the operations they are registered for. A buffer is removed
just where an operation is found for its address, and the others stay matched. -/
theorem removeBuffer_matched {α : Type*} {R : Buffer → α → Prop} (address : α → ℕ)
    (haddress : ∀ b x, R b x → b.id = address x) {bs : List Buffer} {xs : List α}
    (h : List.Forall₂ R bs xs) (id : ℕ) :
    (removeBuffer id bs = none ∧ xs.find? (address · = id) = none) ∨
      ∃ b left x, removeBuffer id bs = some (b, left) ∧ xs.find? (address · = id) = some x ∧
        R b x ∧ List.Forall₂ R left (xs.eraseP (address · = id)) := by
  induction h with
  | nil => exact .inl ⟨rfl, rfl⟩
  | @cons b x bs xs hfirst hrest ih =>
      have hx : address x = b.id := (haddress b x hfirst).symm
      rw [removeBuffer]
      by_cases hid : b.id = id
      · rw [if_pos hid, List.eraseP_cons_of_pos (by simpa [hx] using hid),
          List.find?_cons_of_pos (by simpa [hx] using hid)]
        exact .inr ⟨b, bs, x, rfl, rfl, hfirst, hrest⟩
      · rw [if_neg hid, List.eraseP_cons_of_neg (by simpa [hx] using hid),
          List.find?_cons_of_neg (by simpa [hx] using hid)]
        rcases ih with ⟨hnone, hfind⟩ | ⟨b', left, x', hremove, hfind, hR, hleft⟩
        · exact .inl ⟨by rw [hnone]; rfl, hfind⟩
        · exact .inr ⟨b', b :: left, x', by rw [hremove]; rfl, hfind, hR, .cons hfirst hleft⟩

/-! ### The shared argument -/

/-- A `globus_i_dsi_rest_gridftp_op_arg_t`. `eofp` is the client's flag that the field of
that name points to, `allocated` the number of buffers allocated so far. -/
structure GridftpOpArg where
  result : Result
  offset : ℕ
  endOffset : ℕ
  eof : Bool
  eofp : Bool
  pendingBuffers : List Buffer
  pendingBuffersLast : Option ℕ
  currentBuffer : Option Buffer
  registeredBuffers : List Buffer
  registeredBuffersCount : ℤ
  freeBuffers : List Buffer
  allocated : ℕ

namespace GridftpOpArg

/-- `if (arg->result == GLOBUS_SUCCESS) arg->result = result`. -/
def record (arg : GridftpOpArg) (result : Result) : GridftpOpArg :=
  { arg with result := arg.result.latch result }

/-- A success changes nothing. -/
@[simp] theorem record_success (arg : GridftpOpArg) : arg.record .success = arg := by
  rw [record, Result.latch_success_right]

/-- The argument as `calloc` and the preparation leave it. -/
def prepare (offset endOffset : ℕ) (eof : Bool) : GridftpOpArg where
  result := .success
  offset := offset
  endOffset := endOffset
  eof := false
  eofp := eof
  pendingBuffers := []
  pendingBuffersLast := none
  currentBuffer := none
  registeredBuffers := []
  registeredBuffersCount := 0
  freeBuffers := []
  allocated := 0

end GridftpOpArg

/-- `globus_l_dsi_rest_prepare_write_gridftp_op_callback`; a `length` of `-1` is
`minusOne64`, as is the `end_offset` that stands for the end of the file. -/
def prepareWriteGridftpOp (offset length : ℕ) (eof : Bool) : GridftpOpArg :=
  .prepare offset (if length ≠ minusOne64 then add64 offset length else minusOne64) eof

/-- `globus_l_dsi_rest_prepare_read_gridftp_op`, which leaves `eofp` alone. -/
def prepareReadGridftpOp (offset length : ℕ) : GridftpOpArg :=
  .prepare offset (if length ≠ minusOne64 then add64 offset length else 0) false

/-! ### Getting a buffer -/

/-- `sizeof(globus_i_dsi_rest_buffer_t)`. -/
def sizeofBuffer : ℕ := 32

/-- The size of a new buffer. -/
def newBufferLen (size optimalBlocksize : ℕ) : ℕ :=
  min (max size optimalBlocksize) (minusOne64 - sizeofBuffer)

/-- `globus_i_dsi_rest_buffer_get`: the current buffer, else a free one, else a new one if
`malloc` succeeds. -/
def bufferGet (arg : GridftpOpArg) (size optimalBlocksize : ℕ) (malloc : Bool) :
    Option Buffer × GridftpOpArg :=
  match arg.currentBuffer with
  | some buffer => (some buffer, arg)
  | none =>
    match arg.freeBuffers with
    | buffer :: free =>
      (some buffer, { arg with currentBuffer := some buffer, freeBuffers := free })
    | [] =>
      if malloc then
        let buffer : Buffer :=
          ⟨arg.allocated, newBufferLen size optimalBlocksize, 0, minusOne64, []⟩
        (some buffer, { arg with currentBuffer := some buffer, allocated := arg.allocated + 1 })
      else (none, arg)

namespace GridftpOpArg

/-- The argument with other buffers registered and free. -/
def withBuffers (arg : GridftpOpArg) (registered free : List Buffer) (allocated : ℕ) :
    GridftpOpArg :=
  { arg with registeredBuffers := registered, freeBuffers := free, allocated := allocated }

/-- A buffer can be taken from the free buffers, leaving `free`, or be allocated. -/
inductive Supplies (arg : GridftpOpArg) (size : ℕ) : Buffer → List Buffer → ℕ → Prop
  | reused (buffer : Buffer) (free : List Buffer) (h : arg.freeBuffers = buffer :: free) :
    Supplies arg size buffer free arg.allocated
  | fresh (h : arg.freeBuffers = []) :
    Supplies arg size ⟨arg.allocated, size, 0, minusOne64, []⟩ [] (arg.allocated + 1)

end GridftpOpArg

/-- **Without a current buffer**, a free buffer or a new one becomes the current one. -/
theorem bufferGet_spec {arg arg' : GridftpOpArg} {size optimalBlocksize : ℕ} {malloc : Bool}
    {buffer : Option Buffer} (hcurrent : arg.currentBuffer = none)
    (h : bufferGet arg size optimalBlocksize malloc = (buffer, arg')) :
    (buffer = none ∧ arg' = arg ∧ malloc = false) ∨
      ∃ b free allocated, buffer = some b ∧
        arg.Supplies (newBufferLen size optimalBlocksize) b free allocated ∧
        arg' = { arg.withBuffers arg.registeredBuffers free allocated with
          currentBuffer := some b } := by
  rw [bufferGet, hcurrent] at h
  rcases hfree : arg.freeBuffers with _ | ⟨b, free⟩
  · rw [hfree] at h
    cases malloc with
    | false =>
        obtain ⟨rfl, rfl⟩ := Prod.mk.inj h
        exact .inl ⟨rfl, rfl, rfl⟩
    | true =>
        obtain ⟨rfl, rfl⟩ := Prod.mk.inj h
        exact .inr ⟨_, _, _, rfl, .fresh hfree, rfl⟩
  · rw [hfree] at h
    obtain ⟨rfl, rfl⟩ := Prod.mk.inj h
    exact .inr ⟨_, _, _, rfl, .reused b free hfree, rfl⟩

end DsiRest
