import DsiRest.ReadGridftpOp
import Mathlib.Data.List.Perm.Basic

/-!
# What the Buffers of a Download Hold

`Stored` is the invariant of the buffers between the operations of a download: no buffer is
in two lists, the registered buffers are those of the outstanding writes and hold what was
registered, and the writes follow each other in the file. Each operation of the reader and
the write callback keeps it. What is queued, `GridftpOpArg.queued`, only grows by what is
copied into the current buffer and only shrinks by what is registered.

## Main results

* `Stored.get`, `Stored.fill`, `Stored.enqueue`, `Sends.stored`, `Stored.complete` — the
  operations keep the invariant.
-/

namespace DsiRest

/-! ### Writes that follow each other -/

/-- The bytes of a sequence of writes. -/
def writtenBytes (writes : List Write) : Bytes :=
  writes.flatMap Write.data

/-- The bytes of the writes before and of those after. -/
theorem writtenBytes_append (before after : List Write) :
    writtenBytes (before ++ after) = writtenBytes before ++ writtenBytes after :=
  List.flatMap_append

/-- The writes are not empty, and each is registered at the position `p` plus the number of
bytes registered before it, in the arithmetic of `uint64_t`. -/
def Placed : ℕ → List Write → Prop
  | _, [] => True
  | p, w :: writes => w.offset = p % word ∧ w.data ≠ [] ∧ Placed (p + w.data.length) writes

/-- One more write. -/
theorem Placed.append {p : ℕ} {writes : List Write} {w : Write} (h : Placed p writes)
    (hoffset : w.offset = (p + (writtenBytes writes).length) % word) (hdata : w.data ≠ []) :
    Placed p (writes ++ [w]) := by
  induction writes generalizing p with
  | nil => exact ⟨hoffset, hdata, trivial⟩
  | cons first later ih =>
      obtain ⟨hfirst, hne, hlater⟩ := h
      refine ⟨hfirst, hne, ih hlater ?_⟩
      rw [hoffset, writtenBytes, List.flatMap_cons, List.length_append, Nat.add_assoc]
      rfl

/-- The write that is found and the others are the writes there were. -/
theorem perm_eraseP_of_find? {writes : List Write} {w : Write} {p : Write → Bool}
    (h : writes.find? p = some w) : (w :: writes.eraseP p).Perm writes := by
  obtain ⟨hw, front, back, rfl, hfront⟩ := List.find?_eq_some_iff_append.mp h
  rw [List.eraseP_append_right _ (by simpa using hfront), List.eraseP_cons_of_pos hw]
  exact List.perm_middle.symm

/-! ### The buffers -/

/-- The buffer behind the last one of a list. -/
theorem linkAfter_last {bs : List Buffer} {c : Buffer} (b : Buffer)
    (hnodup : (bs.map Buffer.id).Nodup) (hlast : bs.getLast? = some c) :
    linkAfter c.id b bs = some (bs ++ [b]) := by
  induction bs with
  | nil => simp at hlast
  | cons first later ih =>
      rw [linkAfter]
      rcases later with _ | ⟨second, more⟩
      · obtain rfl : first = c := by simpa using hlast
        rw [if_pos rfl]
        rfl
      · rw [List.getLast?_cons_cons] at hlast
        obtain ⟨hfirst, hrest⟩ := List.nodup_cons.mp hnodup
        have hne : first.id ≠ c.id := fun h0 =>
          hfirst (h0 ▸ List.mem_map_of_mem (List.mem_of_getLast? hlast))
        rw [if_neg hne, ih hrest hlast]
        rfl

/-- A buffer has room, and no more is used than it has and than was stored. -/
structure Buffer.Sound (b : Buffer) : Prop where
  pos : 0 < b.bufferLen
  lt : b.bufferLen < word
  used_le : b.bufferUsed ≤ b.bufferLen
  stored : b.bufferUsed ≤ b.buffer.length

namespace GridftpOpArg

/-- All buffers there are. -/
def buffers (arg : GridftpOpArg) : List Buffer :=
  arg.currentBuffer.toList ++
    (arg.pendingBuffers ++ (arg.registeredBuffers ++ arg.freeBuffers))

/-- Their addresses. -/
def addresses (arg : GridftpOpArg) : List ℕ :=
  arg.buffers.map Buffer.id

/-- The bytes that are in buffers but not registered yet. -/
def queued (arg : GridftpOpArg) : Bytes :=
  arg.pendingBuffers.flatMap Buffer.data ++ arg.currentBuffer.toList.flatMap Buffer.data

/-- The argument after the write of the registered buffer `b` completed, which leaves `left`
registered. -/
def release (arg : GridftpOpArg) (b : Buffer) (left : List Buffer) : GridftpOpArg :=
  { arg with
    registeredBuffers := left
    registeredBuffersCount := arg.registeredBuffersCount - 1
    freeBuffers := { b with bufferUsed := 0 } :: arg.freeBuffers }

/-- The current buffer is neither empty nor full. -/
def Partial (arg : GridftpOpArg) : Prop :=
  ∀ b ∈ arg.currentBuffer, 0 < b.bufferUsed ∧ b.bufferUsed < b.bufferLen

end GridftpOpArg

/-- A `pending_buffers_last` that is right leads to the end of the pending buffers. -/
theorem linkPending_of_last {arg : GridftpOpArg} (hnodup : arg.addresses.Nodup)
    (hlast : arg.pendingBuffersLast = arg.pendingBuffers.getLast?.map Buffer.id) (b : Buffer) :
    arg.linkPending b = some (arg.pendingBuffers ++ [b]) := by
  rw [GridftpOpArg.linkPending, hlast]
  rcases hend : arg.pendingBuffers.getLast? with _ | c
  · rw [List.getLast?_eq_none_iff.mp hend]
    rfl
  · have hsub : (arg.pendingBuffers.map Buffer.id).Sublist arg.addresses :=
      List.Sublist.map _ (((List.sublist_append_left _ _).trans (List.sublist_append_right _ _)))
    exact linkAfter_last b (hnodup.sublist hsub) hend

/-- The write callback releases the buffer it finds, whatever its result is. -/
theorem gridftpWriteCallback_of_remove {arg : GridftpOpArg} {id : ℕ} {b : Buffer}
    {left : List Buffer} (result : Result)
    (h : removeBuffer id arg.registeredBuffers = some (b, left)) :
    gridftpWriteCallback arg result id = arg.release b left := by
  rw [gridftpWriteCallback, h]
  rfl

/-- The invariant of the buffers, with the outstanding `writes` and all writes `registered`
so far, the first of them at `s`. -/
structure Stored (s : ℕ) (arg : GridftpOpArg) (writes registered : List Write) : Prop where
  matched : List.Forall₂ (fun b w => b.id = w.id ∧ b.data = w.data) arg.registeredBuffers writes
  count : arg.registeredBuffersCount = writes.length
  nodup : arg.addresses.Nodup
  fresh : ∀ id ∈ arg.addresses, id < arg.allocated
  sound : ∀ b ∈ arg.buffers, b.Sound
  free : ∀ b ∈ arg.freeBuffers, b.bufferUsed = 0
  pending : ∀ b ∈ arg.pendingBuffers, 0 < b.bufferUsed
  last : arg.pendingBuffersLast = arg.pendingBuffers.getLast?.map Buffer.id
  placed : Placed s registered
  offset : arg.offset = (s + (writtenBytes registered).length) % word

namespace Stored

variable {s : ℕ} {arg arg' : GridftpOpArg} {writes registered : List Write}

/-- A download starts without buffers. -/
theorem start {s length : ℕ} (hs : s < word) : Stored s (prepareReadGridftpOp s length) [] [] where
  matched := .nil
  count := rfl
  nodup := List.nodup_nil
  fresh := by simp [prepareReadGridftpOp, GridftpOpArg.prepare, GridftpOpArg.addresses,
    GridftpOpArg.buffers]
  sound := by simp [prepareReadGridftpOp, GridftpOpArg.prepare, GridftpOpArg.buffers]
  free := by simp [prepareReadGridftpOp, GridftpOpArg.prepare]
  pending := by simp [prepareReadGridftpOp, GridftpOpArg.prepare]
  last := rfl
  placed := trivial
  offset := (Nat.mod_eq_of_lt hs).symm

/-- The recorded result does not matter. -/
theorem congr_result (h : Stored s arg writes registered) (result : Result) :
    Stored s { arg with result := result } writes registered :=
  ⟨h.matched, h.count, h.nodup, h.fresh, h.sound, h.free, h.pending, h.last, h.placed, h.offset⟩

/-- The data of a sound buffer is as long as its used part. -/
theorem length_data {b : Buffer} (h : b.Sound) : b.data.length = b.bufferUsed := by
  rw [Buffer.data, List.length_take, Nat.min_eq_left h.stored]

/-- A free buffer becomes the current one. -/
theorem reuse {b : Buffer} {free : List Buffer} (h : Stored s arg writes registered)
    (hcurrent : arg.currentBuffer = none) (hfree : arg.freeBuffers = b :: free) :
    Stored s { arg with currentBuffer := some b, freeBuffers := free } writes registered := by
  have hperm : ([b] ++ (arg.pendingBuffers ++ (arg.registeredBuffers ++ free))).Perm
      arg.buffers := by
    rw [GridftpOpArg.buffers, hcurrent, hfree]
    exact List.perm_iff_count.mpr fun a => by
      simp only [Option.toList_none, List.count_append, List.count_cons, List.count_nil]
      omega
  refine ⟨h.matched, h.count, ((hperm.map Buffer.id).nodup_iff).mpr h.nodup,
    fun id hid => h.fresh id ((hperm.map Buffer.id).mem_iff.mp hid),
    fun b' hb' => h.sound b' (hperm.mem_iff.mp hb'), fun b' hb' => ?_, h.pending, h.last,
    h.placed, h.offset⟩
  exact h.free b' (hfree ▸ List.mem_cons_of_mem b hb')

/-- A new buffer becomes the current one. -/
theorem allocate {b : Buffer} (h : Stored s arg writes registered)
    (hcurrent : arg.currentBuffer = none) (hid : b.id = arg.allocated) (hb : b.Sound) :
    Stored s { arg with currentBuffer := some b, allocated := arg.allocated + 1 } writes
      registered := by
  have hbuffers : [b] ++ (arg.pendingBuffers ++ (arg.registeredBuffers ++ arg.freeBuffers))
      = b :: arg.buffers := by
    rw [GridftpOpArg.buffers, hcurrent]
    rfl
  have haddresses : ({ arg with currentBuffer := some b, allocated := arg.allocated + 1 } :
      GridftpOpArg).addresses = arg.allocated :: arg.addresses := by
    rw [← hid]
    exact congrArg (List.map Buffer.id) hbuffers
  refine ⟨h.matched, h.count, ?_, fun id hmem => ?_, fun b' hmem => ?_, h.free, h.pending, h.last,
    h.placed, h.offset⟩
  · rw [haddresses]
    exact List.nodup_cons.mpr ⟨fun hmem => Nat.lt_irrefl _ (h.fresh _ hmem), h.nodup⟩
  · rw [haddresses] at hmem
    rcases List.mem_cons.mp hmem with rfl | hmem
    · exact Nat.lt_succ_self _
    · exact Nat.lt_succ_of_lt (h.fresh id hmem)
  · rcases List.mem_cons.mp ((congrArg (b' ∈ ·) hbuffers).mp hmem) with rfl | hmem
    · exact hb
    · exact h.sound b' hmem

/-- A buffer can be had that is the current one, or that is free or new and empty. -/
theorem get {size optimalBlocksize : ℕ} {malloc : Bool} {b : Buffer}
    (h : Stored s arg writes registered) (hpartly : arg.Partial) (hsize : 0 < size)
    (hget : bufferGet arg size optimalBlocksize malloc = (some b, arg')) :
    Stored s arg' writes registered ∧ arg'.queued = arg.queued ∧ arg'.currentBuffer = some b ∧
      b.bufferUsed < b.bufferLen := by
  rcases hcurrent : arg.currentBuffer with _ | current
  · rcases bufferGet_spec hcurrent hget with ⟨hnone, -⟩ | ⟨b', free, n, hb', hsupplies, rfl⟩
    · exact absurd hnone (by simp)
    obtain rfl := Option.some.inj hb'
    have hqueued : b.bufferUsed = 0 → ({ arg.withBuffers arg.registeredBuffers free n with
        currentBuffer := some b } : GridftpOpArg).queued = arg.queued := by
      intro hzero
      simp [GridftpOpArg.queued, GridftpOpArg.withBuffers, hcurrent, Buffer.data, hzero]
    cases hsupplies with
    | reused b free hfree =>
        have hzero : b.bufferUsed = 0 := h.free b (by rw [hfree]; exact List.mem_cons_self)
        have hsound : b.Sound := h.sound b (by simp [GridftpOpArg.buffers, hfree])
        exact ⟨h.reuse hcurrent hfree, hqueued hzero, rfl, hzero ▸ hsound.pos⟩
    | fresh hfree =>
        have hlen : 0 < newBufferLen size optimalBlocksize ∧
            newBufferLen size optimalBlocksize < word := by
          have hroom : minusOne64 - sizeofBuffer < word := by decide
          have hsome : 0 < minusOne64 - sizeofBuffer := by decide
          rw [newBufferLen]
          omega
        have hstored := h.allocate hcurrent
          (b := ⟨arg.allocated, newBufferLen size optimalBlocksize, 0, minusOne64, []⟩) rfl
          ⟨hlen.1, hlen.2, Nat.zero_le _, Nat.le_refl _⟩
        rw [hfree] at hstored
        exact ⟨hstored, hqueued rfl, rfl, hlen.1⟩
  · rw [bufferGet, hcurrent] at hget
    obtain ⟨hb, rfl⟩ := Prod.mk.inj hget
    obtain rfl := Option.some.inj hb
    exact ⟨h, rfl, hcurrent, (hpartly current (by rw [hcurrent]; rfl)).2⟩

/-- The front of a chunk is copied into the current buffer, as much of it as there is room
for. -/
theorem fill {b : Buffer} {data rest : Bytes} (h : Stored s arg writes registered)
    (hcurrent : arg.currentBuffer = some b) (hroom : b.bufferUsed < b.bufferLen)
    (hfill : arg.fillCurrent b data = some (arg', rest)) :
    Stored s arg' writes registered ∧ arg'.queued ++ rest = arg.queued ++ data ∧
      ∃ b', arg'.currentBuffer = some b' ∧ 0 < b'.bufferUsed := by
  have hb : b ∈ arg.buffers := by simp [GridftpOpArg.buffers, hcurrent]
  obtain ⟨hpos, hlt, hle, hstored⟩ := h.sound b hb
  rw [GridftpOpArg.fillCurrent, sub64_eq hlt hle] at hfill
  simp only at hfill
  obtain ⟨k, hk, hklen, hkroom⟩ : ∃ k, (if b.bufferLen - b.bufferUsed < data.length
      then b.bufferLen - b.bufferUsed else data.length) = k ∧ k ≤ data.length ∧
        b.bufferUsed + k ≤ b.bufferLen :=
    ⟨_, rfl, by split_ifs <;> omega, by split_ifs <;> omega⟩
  rw [hk] at hfill
  split_ifs at hfill with hzero
  obtain ⟨rfl, rfl⟩ := Prod.mk.inj (Option.some.inj hfill)
  have htake : (data.take k).length = k := by rw [List.length_take, Nat.min_eq_left hklen]
  have hused : add64 b.bufferUsed k = b.bufferUsed + k :=
    add64_eq (Nat.lt_of_le_of_lt hkroom hlt)
  have hdata : (b.store b.bufferUsed (data.take k)).buffer.take (b.bufferUsed + k)
      = b.data ++ data.take k := by
    have hstore := b.take_store hstored (data.take k)
    rwa [htake] at hstore
  rw [hused]
  refine ⟨⟨h.matched, h.count, ?_, ?_, fun b' hb' => ?_, h.free, h.pending, h.last, h.placed,
    h.offset⟩, ?_, _, rfl, Nat.lt_of_lt_of_le (Nat.pos_of_ne_zero hzero) (Nat.le_add_left _ _)⟩
  · simpa [GridftpOpArg.addresses, GridftpOpArg.buffers, hcurrent] using h.nodup
  · simpa [GridftpOpArg.addresses, GridftpOpArg.buffers, hcurrent] using h.fresh
  · rcases List.mem_cons.mp hb' with rfl | hb'
    · refine ⟨hpos, hlt, hkroom, ?_⟩
      have hlen := congrArg List.length hdata
      rw [List.length_take, List.length_append, length_data ⟨hpos, hlt, hle, hstored⟩,
        htake] at hlen
      exact (by omega : b.bufferUsed + k ≤ (b.store b.bufferUsed (data.take k)).buffer.length)
    · exact h.sound b' (by
        rw [GridftpOpArg.buffers, hcurrent]
        exact List.mem_cons_of_mem b hb')
  · have hnew : ({ b.store b.bufferUsed (data.take k) with
        bufferUsed := b.bufferUsed + k } : Buffer).data = b.data ++ data.take k := hdata
    simp only [GridftpOpArg.queued, hcurrent, Option.toList_some, List.flatMap_cons,
      List.flatMap_nil, List.append_nil, hnew, List.append_assoc, List.take_append_drop]

/-- There is room to copy into, so that the assertion holds. -/
theorem exists_fill {b : Buffer} {data : Bytes} (h : Stored s arg writes registered)
    (hcurrent : arg.currentBuffer = some b) (hroom : b.bufferUsed < b.bufferLen)
    (hdata : data ≠ []) : ∃ arg' rest, arg.fillCurrent b data = some (arg', rest) ∧
      rest.length < data.length := by
  obtain ⟨-, hlt, hle, -⟩ := h.sound b (by simp [GridftpOpArg.buffers, hcurrent])
  have hpos := List.length_pos_of_ne_nil hdata
  rw [GridftpOpArg.fillCurrent, sub64_eq hlt hle]
  simp only
  have hcopy : 0 < (if b.bufferLen - b.bufferUsed < data.length then b.bufferLen - b.bufferUsed
      else data.length) := by split_ifs <;> omega
  rw [if_neg hcopy.ne']
  refine ⟨_, _, rfl, ?_⟩
  rw [List.length_drop]
  omega

/-- `pending_buffers_last` leads to the end of the pending buffers. -/
theorem linkPending (h : Stored s arg writes registered) (b : Buffer) :
    arg.linkPending b = some (arg.pendingBuffers ++ [b]) :=
  linkPending_of_last h.nodup h.last b

/-- The current buffer is appended to the pending ones when it is full, or at the end of the
data. -/
theorem enqueue {eof : Bool} (h : Stored s arg writes registered)
    (hcurrent : ∀ b ∈ arg.currentBuffer, 0 < b.bufferUsed)
    (henqueue : arg.enqueueCurrent eof = some arg') :
    Stored s arg' writes registered ∧ arg'.queued = arg.queued ∧ arg'.Partial ∧
      (eof = true → arg'.currentBuffer = none) := by
  rw [GridftpOpArg.enqueueCurrent] at henqueue
  rcases hbuffer : arg.currentBuffer with _ | b
  · rw [hbuffer] at henqueue
    obtain rfl := Option.some.inj henqueue
    exact ⟨h, rfl, by simp [GridftpOpArg.Partial, hbuffer], fun _ => hbuffer⟩
  · have hpos := hcurrent b (by rw [hbuffer]; rfl)
    have hb : b ∈ arg.buffers := by simp [GridftpOpArg.buffers, hbuffer]
    rw [hbuffer] at henqueue
    simp only at henqueue
    split_ifs at henqueue with hfull
    · rw [h.linkPending b] at henqueue
      obtain rfl := Option.some.inj henqueue
      have hperm : (arg.pendingBuffers ++ [b] ++ (arg.registeredBuffers ++ arg.freeBuffers)).Perm
          arg.buffers := by
        rw [GridftpOpArg.buffers, hbuffer]
        exact List.perm_iff_count.mpr fun a => by
          simp only [Option.toList_some, List.count_append, List.count_cons, List.count_nil]
          omega
      refine ⟨⟨h.matched, h.count, ?_, ?_, fun b' hb' => ?_, h.free, ?_, ?_, h.placed, h.offset⟩,
        ?_, by simp [GridftpOpArg.Partial], fun _ => rfl⟩
      · exact ((hperm.map Buffer.id).nodup_iff).mpr h.nodup
      · exact fun id hid => h.fresh id ((hperm.map Buffer.id).mem_iff.mp hid)
      · exact h.sound b' (hperm.mem_iff.mp hb')
      · exact List.forall_mem_append.mpr ⟨h.pending, List.forall_mem_singleton.mpr hpos⟩
      · simp
      · simp [GridftpOpArg.queued, hbuffer]
    · obtain rfl := Option.some.inj henqueue
      rw [not_or] at hfull
      refine ⟨h, rfl, fun b' hb' => ?_, fun heof => absurd ⟨heof, hpos⟩ hfull.1⟩
      rw [hbuffer] at hb'
      obtain rfl := Option.some.inj hb'
      exact ⟨hpos, Nat.lt_of_le_of_ne (h.sound b hb).used_le hfull.2⟩

/-- The write of the first pending buffer is registered. -/
theorem sendFirst {b : Buffer} {later : List Buffer} (h : Stored s arg writes registered)
    (hpending : arg.pendingBuffers = b :: later) :
    Stored s (arg.sendFirst b later) (⟨b.id, arg.offset, b.data⟩ :: writes)
      (registered ++ [⟨b.id, arg.offset, b.data⟩]) := by
  have hb : b ∈ arg.pendingBuffers := hpending ▸ List.mem_cons_self
  have hsound : b.Sound := h.sound b (by simp [GridftpOpArg.buffers, hb])
  have hdata : b.data ≠ [] :=
    List.ne_nil_of_length_pos (length_data hsound ▸ h.pending b hb)
  have hperm : (arg.sendFirst b later).buffers.Perm arg.buffers := by
    rw [GridftpOpArg.buffers, GridftpOpArg.buffers, hpending]
    exact List.perm_iff_count.mpr fun a => by
      simp only [GridftpOpArg.sendFirst, List.count_append, List.count_cons]
      omega
  refine ⟨.cons ⟨rfl, rfl⟩ h.matched, ?_, ?_, ?_, ?_, h.free, ?_, ?_, ?_, ?_⟩
  · exact (congrArg (· + 1) h.count).trans (Nat.cast_succ writes.length).symm
  · exact ((hperm.map Buffer.id).nodup_iff).mpr h.nodup
  · exact fun id hid => h.fresh id ((hperm.map Buffer.id).mem_iff.mp hid)
  · exact fun b' hb' => h.sound b' (hperm.mem_iff.mp hb')
  · exact fun b' hb' => h.pending b' (hpending ▸ List.mem_cons_of_mem b hb')
  · have hlast := h.last
    rw [hpending] at hlast
    rw [GridftpOpArg.sendFirst]
    rcases later with _ | ⟨second, more⟩
    · rfl
    · simpa using hlast
  · exact h.placed.append h.offset hdata
  · rw [writtenBytes_append, List.length_append, ← Nat.add_assoc]
    simp only [GridftpOpArg.sendFirst, add64, h.offset, writtenBytes, List.flatMap_singleton,
      length_data hsound, Nat.mod_add_mod]

/-- The buffer of an outstanding write is cleared and is free again when the write
completes. -/
theorem complete {id : ℕ} {w : Write} (result : Result) (h : Stored s arg writes registered)
    (hfind : writes.find? (·.id = id) = some w) :
    Stored s (gridftpWriteCallback arg result id) (writes.eraseP (·.id = id)) registered := by
  rcases removeBuffer_matched Write.id (fun _ _ hR => hR.1) h.matched id with
    ⟨-, hnone⟩ | ⟨b, left, w', hremove, -, -, hleft⟩
  · exact absurd (hnone.symm.trans hfind) (by simp)
  rw [gridftpWriteCallback_of_remove result hremove]
  -- up to the order of the lists only `bufferUsed` of the removed buffer changes
  have hafter : (arg.release b left).buffers.Perm
      ({ b with bufferUsed := 0 } ::
        (arg.currentBuffer.toList ++ (arg.pendingBuffers ++ (left ++ arg.freeBuffers)))) :=
    List.perm_iff_count.mpr fun a => by
      simp only [GridftpOpArg.buffers, GridftpOpArg.release, List.count_append, List.count_cons]
      omega
  have hbefore : (b :: (arg.currentBuffer.toList ++
      (arg.pendingBuffers ++ (left ++ arg.freeBuffers)))).Perm arg.buffers := by
    refine List.perm_iff_count.mpr fun a => ?_
    have hcount := (removeBuffer_perm hremove).count_eq a
    simp only [GridftpOpArg.buffers, List.count_append, List.count_cons] at hcount ⊢
    omega
  have haddresses : (arg.release b left).addresses.Perm arg.addresses :=
    (hafter.map Buffer.id).trans (hbefore.map Buffer.id)
  have hlength : (writes.eraseP (·.id = id)).length + 1 = writes.length := by
    rw [← (perm_eraseP_of_find? hfind).length_eq, List.length_cons]
  refine ⟨hleft, ?_, haddresses.nodup_iff.mpr h.nodup,
    fun id' hid' => h.fresh id' (haddresses.mem_iff.mp hid'), fun b' hb' => ?_,
    List.forall_mem_cons.mpr ⟨rfl, h.free⟩, h.pending, h.last, h.placed, h.offset⟩
  · have hcount := h.count
    simp only [GridftpOpArg.release]
    omega
  · rcases List.mem_cons.mp (hafter.mem_iff.mp hb') with rfl | hmem
    · obtain ⟨hpos, hlt, -, -⟩ := h.sound b (hbefore.mem_iff.mp List.mem_cons_self)
      exact ⟨hpos, hlt, Nat.zero_le _, Nat.zero_le _⟩
    · exact h.sound b' (hbefore.mem_iff.mp (List.mem_cons_of_mem b hmem))

end Stored

/-- A completion moves nothing that is queued. -/
theorem queued_writeCallback (arg : GridftpOpArg) (result : Result) (id : ℕ) :
    (gridftpWriteCallback arg result id).queued = arg.queued ∧
      (gridftpWriteCallback arg result id).currentBuffer = arg.currentBuffer := by
  rw [gridftpWriteCallback]
  rcases removeBuffer id arg.registeredBuffers with _ | ⟨b, left⟩
  · exact ⟨rfl, rfl⟩
  · exact ⟨rfl, rfl⟩

/-! ### Sending -/

/-- What `globus_l_dsi_rest_send_pending` does from the `i`-th registration on: nothing is
pending, the registration is refused, or the first pending buffer is sent and it goes on. -/
inductive Sends (registerWrite : ℕ → Result) :
    ℕ → GridftpOpArg → Result → GridftpOpArg → List Write → Prop
  | done (i : ℕ) (arg : GridftpOpArg) (hpending : arg.pendingBuffers = []) :
    Sends registerWrite i arg .success arg []
  | refused (i : ℕ) (arg : GridftpOpArg) (e : GlobusError) (hrefused : registerWrite i = .error e) :
    Sends registerWrite i arg (.error e) (arg.record (.error e)) []
  | sent (i : ℕ) (arg : GridftpOpArg) (b : Buffer) (later : List Buffer) (result : Result)
      (last : GridftpOpArg) (writes : List Write) (hpending : arg.pendingBuffers = b :: later)
      (hlater : Sends registerWrite (i + 1) (arg.sendFirst b later) result last writes) :
    Sends registerWrite i arg result last (⟨b.id, arg.offset, b.data⟩ :: writes)

/-- **The loop does what `Sends` says.** -/
theorem sends_of_loop (registerWrite : ℕ → Result) (i : ℕ) {arg : GridftpOpArg}
    {pending : List Buffer} (hpending : arg.pendingBuffers = pending) :
    Sends registerWrite i arg (sendPending registerWrite i pending arg).1
      (sendPending registerWrite i pending arg).2.1
      (sendPending registerWrite i pending arg).2.2 := by
  induction pending generalizing i arg with
  | nil => exact .done i arg hpending
  | cons b later ih =>
      rw [sendPending]
      rcases hrefused : registerWrite i with _ | e
      · exact .sent i arg b later _ _ _ hpending (ih (i + 1) rfl)
      · exact .refused i arg e hrefused

namespace Sends

variable {s i : ℕ} {arg last : GridftpOpArg} {result : Result} {writes registered sent : List Write}
  {registerWrite : ℕ → Result}

/-- Without a refusal all pending buffers are sent. -/
theorem success (h : Sends registerWrite i arg result last sent)
    (hworks : ∀ i, registerWrite i = .success) : result = .success := by
  induction h with
  | done => rfl
  | refused i arg e hrefused => exact absurd (hrefused.symm.trans (hworks i)) (by simp)
  | sent _ _ _ _ _ _ _ _ _ ih => exact ih

/-- After a success nothing is pending. -/
theorem pending_eq_nil (h : Sends registerWrite i arg result last sent)
    (hresult : result = .success) : last.pendingBuffers = [] := by
  induction h with
  | done i arg hpending => exact hpending
  | refused i arg e hrefused => exact absurd hresult (by simp)
  | sent _ _ _ _ _ _ _ _ _ ih => exact ih hresult

/-- The current buffer is not sent. -/
theorem currentBuffer (h : Sends registerWrite i arg result last sent) :
    last.currentBuffer = arg.currentBuffer := by
  induction h with
  | done => rfl
  | refused => rfl
  | sent _ _ _ _ _ _ _ _ _ ih => exact ih

/-- What is sent was queued. -/
theorem queued (h : Sends registerWrite i arg result last sent) :
    writtenBytes sent ++ last.queued = arg.queued := by
  induction h with
  | done => rfl
  | refused => rfl
  | sent i arg b later result last writes hpending _ ih =>
      rw [writtenBytes, List.flatMap_cons, List.append_assoc]
      refine (congrArg (b.data ++ ·) ih).trans ?_
      rw [GridftpOpArg.queued, GridftpOpArg.queued, hpending, List.flatMap_cons,
        List.append_assoc]
      rfl

/-- Sending keeps the invariant. -/
theorem stored (h : Sends registerWrite i arg result last sent)
    (hstored : Stored s arg writes registered) :
    Stored s last (sent.reverse ++ writes) (registered ++ sent) := by
  induction h generalizing writes registered with
  | done => simpa using hstored
  | refused i arg e hrefused =>
      rw [List.reverse_nil, List.nil_append, List.append_nil]
      exact hstored.congr_result _
  | sent i arg b later result last more hpending _ ih =>
      have hfirst := ih (hstored.sendFirst hpending)
      rw [List.append_assoc, List.singleton_append] at hfirst
      simpa only [List.reverse_cons, List.append_assoc, List.singleton_append] using hfirst

end Sends

/-! ### Turns of the reader -/

namespace Stored

variable {s : ℕ} {arg : GridftpOpArg} {writes registered : List Write}

/-- A turn comes to its end. -/
theorem exists_sendCurrent (h : Stored s arg writes registered) (server : WriteServer)
    (eof : Bool) : ∃ sent, arg.sendCurrent server eof = some sent := by
  rw [GridftpOpArg.sendCurrent, GridftpOpArg.enqueueCurrent]
  rcases arg.currentBuffer with _ | b
  · exact ⟨_, rfl⟩
  · simp only
    split_ifs
    · rw [h.linkPending b]
      exact ⟨_, rfl⟩
    · exact ⟨_, rfl⟩

/-- **The end of a turn.** The current buffer is enqueued where it has to be, and what is
pending is sent. -/
theorem sendCurrent {server : WriteServer} {eof : Bool} {result : Result} {last : GridftpOpArg}
    {sent : List Write} (h : Stored s arg writes registered)
    (hcurrent : ∀ b ∈ arg.currentBuffer, 0 < b.bufferUsed)
    (hsend : arg.sendCurrent server eof = some (result, last, sent)) :
    Stored s last (sent.reverse ++ writes) (registered ++ sent) ∧ last.Partial ∧
      writtenBytes sent ++ last.queued = arg.queued ∧
      (eof = true → result = .success → last.queued = []) ∧
      ((∀ i, server.registerWrite i = .success) → result = .success) := by
  obtain ⟨full, henqueue, hloop⟩ := Option.map_eq_some_iff.mp hsend
  obtain ⟨hstored, hqueued, hpartly, hnone⟩ := h.enqueue hcurrent henqueue
  have hsends : Sends server.registerWrite 0 full _ _ _ :=
    sends_of_loop server.registerWrite 0 rfl
  rw [hloop] at hsends
  refine ⟨hsends.stored hstored, ?_, hsends.queued.trans hqueued, fun heof hresult => ?_,
    hsends.success⟩
  · rw [GridftpOpArg.Partial, hsends.currentBuffer]
    exact hpartly
  · rw [GridftpOpArg.queued, hsends.pending_eq_nil hresult, hsends.currentBuffer, hnone heof]
    rfl

end Stored

end DsiRest
