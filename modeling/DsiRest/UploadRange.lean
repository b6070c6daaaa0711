import DsiRest.UploadStream

/-!
# The Range of an Upload

An upload of a part of a file needs reads that complete in order, and asks for no more than
the part. What is still to be asked for is computed from the capacities of the registered
buffers, not from the lengths that were asked for. A read of less than its buffer's
capacity, at the end of the part, makes this go wrong: as soon as `offset` has advanced,
`remaining` wraps below zero, and whole blocks behind the part are asked for.

`Upload.Fits` is the condition under which it goes right: whenever reads are registered with
a slot free, the capacities of the registered buffers still fit the range.

## Main results

* `upload_range` — as long as the capacities fit, the range is never exceeded.
* `upload_range_exceeded` — a range of one block and a half.
-/

namespace DsiRest

open Reassembly

/-! ### Bytes in flight -/

/-- The sum of the capacities of the registered buffers. -/
def GridftpOpArg.capacity (arg : GridftpOpArg) : ℕ :=
  (arg.registeredBuffers.map Buffer.bufferLen).sum

/-- The number of bytes that reads were registered for. -/
def requested (reads : List Read) : ℕ :=
  (reads.map Read.length).sum

/-- The number of bytes that were delivered. -/
def Upload.received (u : Upload) : ℕ :=
  (u.completions.map fun c => c.data.length).sum

/-- The pending bytes are the positions of the pending queue. -/
theorem GridftpOpArg.total_pending (arg : GridftpOpArg) :
    total (arg.pendingBuffers.map Buffer.extent) = arg.pendingBytes := by
  rw [total, pendingBytes, List.map_map]
  rfl

@[simp] theorem requested_cons (r : Read) (reads : List Read) :
    requested (r :: reads) = r.length + requested reads := rfl

/-- A read that is no longer outstanding. -/
theorem requested_eraseP {reads : List Read} {id : ℕ} {r : Read}
    (h : reads.find? (·.id = id) = some r) :
    requested reads = requested (reads.eraseP (·.id = id)) + r.length := by
  induction reads with
  | nil => simp at h
  | cons q reads ih =>
      by_cases hq : q.id = id
      · rw [List.find?_cons_of_pos (by simpa using hq)] at h
        obtain rfl := Option.some.inj h
        rw [List.eraseP_cons_of_pos (by simpa using hq), requested_cons, Nat.add_comm]
      · rw [List.find?_cons_of_neg (by simpa using hq)] at h
        rw [List.eraseP_cons_of_neg (by simpa using hq), requested_cons, requested_cons, ih h,
          Nat.add_assoc]

/-- The bytes asked for fit the registered buffers. -/
theorem Matched.requested_le {registered : List Buffer} {reads : List Read}
    (h : Matched registered reads) : requested reads ≤ (registered.map Buffer.bufferLen).sum := by
  induction h with
  | nil => exact Nat.le_refl _
  | cons hfirst _ ih => exact Nat.add_le_add hfirst.2.2 ih

/-- The registered bytes are the sum of the capacities, unless that is no word. -/
theorem Matched.countBuffersAvailable {registered : List Buffer} {reads : List Read}
    (h : Matched registered reads) (hlt : (registered.map Buffer.bufferLen).sum < word) :
    countBuffersAvailable registered = (registered.map Buffer.bufferLen).sum := by
  have hfold : ∀ n, n + (registered.map Buffer.bufferLen).sum < word →
      registered.foldl (fun available b => add64 available (sub64 b.bufferLen b.bufferUsed)) n
        = n + (registered.map Buffer.bufferLen).sum := by
    clear hlt
    induction h with
    | nil => exact fun n _ => rfl
    | @cons b r registered reads hfirst _ ih =>
        intro n hn
        rw [List.map_cons, List.sum_cons] at hn ⊢
        rw [List.foldl_cons, hfirst.2.1, sub64_eq (by omega) (Nat.zero_le _), Nat.sub_zero,
          add64_eq (by omega), ih (n + b.bufferLen) (by omega), Nat.add_assoc]
  rw [DsiRest.countBuffersAvailable, hfold 0 (by rwa [Nat.zero_add]), Nat.zero_add]

/-! ### Registering reads of a range -/

/-- `remaining` is what is left of the range, if that is not negative. -/
theorem remainingLength_eq {arg : GridftpOpArg} {bytesRegistered : ℕ} (optimalBlocksize : ℕ)
    (hend : arg.endOffset < minusOne64) (h : arg.offset + bytesRegistered ≤ arg.endOffset) :
    remainingLength arg optimalBlocksize bytesRegistered
      = arg.endOffset - (arg.offset + bytesRegistered) := by
  have hword : arg.endOffset < word := Nat.lt_trans hend (by decide)
  rw [remainingLength, if_pos (Nat.ne_of_lt hend), sub64_eq hword (by omega),
    sub64_eq (by omega) (by omega), Nat.sub_sub]

/-- `remaining` is not negative as an `off_t` then. -/
theorem remainingLength_lt {arg : GridftpOpArg} {optimalBlocksize bytesRegistered : ℕ}
    (hend : arg.endOffset < minusOne64) (hlength : arg.endOffset - arg.offset < 2 ^ 63)
    (h : arg.offset + bytesRegistered ≤ arg.endOffset) :
    remainingLength arg optimalBlocksize bytesRegistered < 2 ^ 63 := by
  rw [remainingLength_eq optimalBlocksize hend h]
  omega

/-- A turn of the loop computed no negative length, and registered a read only for a part of
what remained. -/
structure Turn.Sound (t : Turn) : Prop where
  remaining_lt : t.remaining < 2 ^ 63
  thisRead_le : ∀ k, t.thisRead = some k → 0 < t.remaining ∧ k ≤ t.remaining

/-- **Registering reads keeps to the range** if the bytes that count as registered do, and
the bytes asked for are at most those. -/
theorem Registers.ranged {server : ReadServer} {turns i bytesRegistered : ℕ}
    {arg : GridftpOpArg} {reads : List Read} {r : Registering}
    (h : Registers server turns i arg reads bytesRegistered r)
    (hend : arg.endOffset < minusOne64) (hlength : arg.endOffset - arg.offset < 2 ^ 63)
    (hle : arg.offset + bytesRegistered ≤ arg.endOffset)
    (hreads : requested reads ≤ bytesRegistered) :
    arg.offset + requested r.reads ≤ arg.endOffset ∧ ∀ t ∈ r.turns, t.Sound := by
  induction h with
  | done => exact ⟨Nat.le_trans (Nat.add_le_add_left hreads _) hle, by simp⟩
  | usedUp =>
      refine ⟨Nat.le_trans (Nat.add_le_add_left hreads _) hle, fun t ht => ?_⟩
      obtain rfl := List.mem_singleton.mp ht
      exact ⟨by decide, by simp⟩
  | noMemory | refused =>
      refine ⟨Nat.le_trans (Nat.add_le_add_left hreads _) hle, fun t ht => ?_⟩
      obtain rfl := List.mem_singleton.mp ht
      exact ⟨remainingLength_lt hend hlength hle, by simp⟩
  | registered turns i arg reads bytesRegistered b free allocated thisRead later _ hused _ hthis
      _ ih =>
      have hremaining := remainingLength_eq server.optimalBlocksize hend hle
      have hpos : 0 < remainingLength arg server.optimalBlocksize bytesRegistered :=
        Nat.pos_of_ne_zero fun hzero => hused ⟨Nat.ne_of_lt hend, hzero⟩
      have hmin : thisRead ≤ remainingLength arg server.optimalBlocksize bytesRegistered :=
        hthis ▸ Nat.min_le_left _ _
      have hnext : arg.offset + (bytesRegistered + thisRead) ≤ arg.endOffset := by omega
      have hadd : add64 bytesRegistered thisRead = bytesRegistered + thisRead :=
        add64_eq (Nat.lt_of_le_of_lt (Nat.le_trans (Nat.le_add_left _ _) hnext)
          (Nat.lt_trans hend (by decide)))
      obtain ⟨hrange, hturns⟩ := ih hend hlength (hadd ▸ hnext) (by
        rw [hadd, requested_cons, Nat.add_comm]
        exact Nat.add_le_add_right hreads thisRead)
      refine ⟨hrange, List.forall_mem_cons.mpr ⟨⟨remainingLength_lt hend hlength hle, ?_⟩, hturns⟩⟩
      intro k hk
      obtain rfl := Option.some.inj hk
      exact ⟨hpos, hmin⟩

/-- Once the bytes that count as registered use up the range, no read is registered. -/
theorem Registers.reads_of_used {server : ReadServer} {turns i bytesRegistered : ℕ}
    {arg : GridftpOpArg} {reads : List Read} {r : Registering}
    (h : Registers server turns i arg reads bytesRegistered r)
    (hend : arg.endOffset < minusOne64)
    (hused : arg.offset + bytesRegistered = arg.endOffset) : r.reads = reads := by
  cases h with
  | done | usedUp | noMemory | refused => rfl
  | registered _ _ _ _ _ b free allocated thisRead later _ hleft =>
      refine absurd ⟨Nat.ne_of_lt hend, ?_⟩ hleft
      rw [remainingLength_eq server.optimalBlocksize hend hused.le, hused, Nat.sub_self]

/-! ### Copying from a contiguous queue -/

/-- The pending buffers are one piece of the file behind `offset`, with their data. -/
structure InOrder (arg : GridftpOpArg) : Prop where
  contiguous : Contiguous arg.offset (arg.pendingBuffers.map Buffer.extent)
  full : ∀ b ∈ arg.pendingBuffers, b.bufferUsed ≤ b.buffer.length

/-- Nothing is pending unless it is ready. -/
theorem InOrder.pending_eq_nil {arg : GridftpOpArg} (h : InOrder arg)
    (hready : arg.isTransferOffsetReady = false) : arg.pendingBuffers = [] := by
  rcases hpending : arg.pendingBuffers with _ | ⟨b, later⟩
  · rfl
  · have hfirst := h.contiguous
    rw [hpending] at hfirst
    rw [GridftpOpArg.isTransferOffsetReady, hpending] at hready
    exact absurd hfirst.1 (ne_of_beq_false hready)

/-- A buffer that follows the pending ones is added at their end. -/
theorem InOrder.addPending {arg : GridftpOpArg} {b : Buffer} (h : InOrder arg)
    (hlt : arg.offset + arg.pendingBytes < word)
    (hstart : b.transferOffset = arg.offset + arg.pendingBytes) (hpos : 0 < b.bufferUsed)
    (hfull : b.bufferUsed ≤ b.buffer.length) :
    InOrder (arg.addPending b) ∧
      (arg.addPending b).pendingBytes = arg.pendingBytes + b.bufferUsed := by
  have hstops : ∀ p ∈ arg.pendingBuffers, p.extent.stop < word := by
    intro p hp
    have hle := h.contiguous.stop_le p.extent (List.mem_map_of_mem hp)
    rw [arg.total_pending] at hle
    exact Nat.lt_of_le_of_lt hle hlt
  have hstart' : b.extent.start = arg.offset + total (arg.pendingBuffers.map Buffer.extent) := by
    rw [arg.total_pending]
    exact hstart
  have hextents : (arg.addPending b).pendingBuffers.map Buffer.extent
      = arg.pendingBuffers.map Buffer.extent ++ [b.extent] := by
    rw [GridftpOpArg.extents_addPending hstops, h.contiguous.place hstart']
  refine ⟨⟨hextents ▸ h.contiguous.append hstart' hpos, fun p hp => ?_⟩,
    (arg.pendingBytes_addPending b).trans (Nat.add_comm _ _)⟩
  rcases GridftpOpArg.mem_addPending.mp hp with rfl | hp
  · exact hfull
  · exact h.full p hp

/-- The bytes of the first pending buffer and of the later ones. -/
theorem GridftpOpArg.pendingBytes_cons (arg : GridftpOpArg) {b : Buffer} {later : List Buffer}
    (hpending : arg.pendingBuffers = b :: later) :
    arg.pendingBytes = b.bufferUsed + (later.map Buffer.bufferUsed).sum := by
  rw [GridftpOpArg.pendingBytes, hpending, List.map_cons, List.sum_cons]

/-- Copying moves bytes from the pending buffers to the front of the offset. -/
theorem Copies.inOrder {bufferLength : ℕ} {arg last : GridftpOpArg} {filled all : Bytes}
    (h : Copies bufferLength arg filled all last) (ho : InOrder arg)
    (hlt : arg.offset + arg.pendingBytes < word) :
    InOrder last ∧ arg.offset ≤ last.offset ∧
      last.offset + last.pendingBytes = arg.offset + arg.pendingBytes := by
  induction h with
  | done arg filled => exact ⟨ho, Nat.le_refl _, rfl⟩
  | part arg filled b later k all last hpending hready hpos hfits hk _ ih =>
      obtain ⟨hcontiguous, hfull⟩ := ho
      rw [hpending] at hcontiguous hfull
      obtain ⟨-, -, hrest⟩ := hcontiguous
      rw [arg.pendingBytes_cons hpending] at hlt ⊢
      have hoffset : add64 arg.offset k = arg.offset + k := add64_eq (by omega)
      have hstop : (b.consumed k).extent.stop = b.extent.stop := by
        simp only [Extent.stop, Buffer.extent, Buffer.consumed, hready, hoffset]
        omega
      have ho' : InOrder (arg.copyPart b later k) := by
        refine ⟨⟨?_, ?_, hstop ▸ hrest⟩, List.forall_mem_cons.mpr
          ⟨b.consumed_le k (hfull b List.mem_cons_self), (List.forall_mem_cons.mp hfull).2⟩⟩
        · exact congrArg (add64 · k) hready
        · exact Nat.sub_pos_of_lt hk
      have hbytes : (arg.copyPart b later k).offset + (arg.copyPart b later k).pendingBytes
          = arg.offset + (b.bufferUsed + (later.map Buffer.bufferUsed).sum) := by
        simp only [GridftpOpArg.copyPart, GridftpOpArg.pendingBytes, List.map_cons, List.sum_cons,
          Buffer.consumed, hoffset]
        omega
      obtain ⟨hlast, hle, hsame⟩ := ih ho' (hbytes ▸ hlt)
      refine ⟨hlast, Nat.le_trans ?_ hle, hsame.trans hbytes⟩
      exact Nat.le_trans (Nat.le_add_right _ _) (Nat.le_of_eq hoffset.symm)
  | whole arg filled b later all last hpending hready hpos hfits _ ih =>
      obtain ⟨hcontiguous, hfull⟩ := ho
      rw [hpending] at hcontiguous hfull
      obtain ⟨-, -, hrest⟩ := hcontiguous
      rw [arg.pendingBytes_cons hpending] at hlt ⊢
      have hoffset : add64 arg.offset b.bufferUsed = arg.offset + b.bufferUsed :=
        add64_eq (by omega)
      have ho' : InOrder (arg.copyWhole b later) := by
        refine ⟨?_, (List.forall_mem_cons.mp hfull).2⟩
        have hstop : b.extent.stop = add64 arg.offset b.bufferUsed := by
          rw [hoffset, ← hready]
          rfl
        rw [hstop] at hrest
        exact hrest
      have hbytes : (arg.copyWhole b later).offset + (arg.copyWhole b later).pendingBytes
          = arg.offset + (b.bufferUsed + (later.map Buffer.bufferUsed).sum) := by
        simp only [GridftpOpArg.copyWhole, GridftpOpArg.pendingBytes, hoffset]
        omega
      obtain ⟨hlast, hle, hsame⟩ := ih ho' (hbytes ▸ hlt)
      refine ⟨hlast, Nat.le_trans ?_ hle, hsame.trans hbytes⟩
      exact Nat.le_trans (Nat.le_add_right _ _) (Nat.le_of_eq hoffset.symm)

/-! ### The condition -/

/-- Whenever reads are registered with a slot free, the capacities of the buffers registered
so far fit the range. -/
def GridftpOpArg.Fits (arg : GridftpOpArg) (server : ReadServer) : Prop :=
  arg.result = .success → arg.eof = false → arg.offset ≠ arg.endOffset →
    arg.isTransferOffsetReady = false →
    arg.registeredBuffers.length < server.optimalConcurrency →
    arg.offset + arg.capacity ≤ arg.endOffset

namespace Upload

/-- Before a section of a call the capacities fit the range. -/
def Fits (u : Upload) : UploadAction → Prop
  | .call server _ | .wake server => u.arg.Fits server
  | .complete _ _ => True

/-- A completion delivers at most what was asked for, and what it delivers follows what was
delivered before. -/
structure Follows (s : ℕ) (u : Upload) (id : ℕ) (c : Completion) : Prop where
  fits : ∃ r, u.reads.find? (·.id = id) = some r ∧ c.data.length ≤ r.length
  offset : c.data ≠ [] → c.offset = s + u.received

/-- What is assumed of the surroundings of an upload from `s` on: reads complete in order. -/
def ServesInOrder (s : ℕ) (u : Upload) : UploadAction → Prop
  | .call _ _ | .wake _ => True
  | .complete id c => u.Follows s id c

/-! ### The invariant -/

/-- The bytes that are still outstanding and those before them do not exceed the range. -/
def Within (s n : ℕ) (u : Upload) : Prop :=
  u.arg.offset + u.arg.pendingBytes + requested u.reads ≤ s + n

/-- The invariant of an upload of the `n` bytes from `s` on. -/
structure Ranged (s n : ℕ) (u : Upload) : Prop where
  current : u.arg.currentBuffer = none
  endOffset : u.arg.endOffset = s + n
  matched : Matched u.arg.registeredBuffers u.reads
  le : s ≤ u.arg.offset
  inOrder : InOrder u.arg
  within : u.Within s n
  position : u.arg.result = .success → u.arg.offset + u.arg.pendingBytes = s + u.received
  turns : ∀ t ∈ u.turns, t.Sound
  waiting : u.waiting ≠ none → u.arg.offset ≠ u.arg.endOffset

/-- An upload starts in a state of the invariant. -/
theorem Ranged.start {s n : ℕ} (hs : s < 2 ^ 63) (hn : n < 2 ^ 63) (eof : Bool) :
    Ranged s n (start (prepareWriteGridftpOp s n eof)) where
  current := rfl
  endOffset := by
    have hne : n ≠ minusOne64 := Nat.ne_of_lt (Nat.lt_trans hn (by decide))
    have hadd : add64 s n = s + n :=
      add64_eq (Nat.lt_of_lt_of_le (by omega : s + n < 2 ^ 64) (Nat.le_refl _))
    exact (if_pos hne).trans hadd
  matched := .nil
  le := Nat.le_refl s
  inOrder := ⟨trivial, by simp [Upload.start, prepareWriteGridftpOp, GridftpOpArg.prepare]⟩
  within := Nat.le_add_right s n
  position := fun _ => rfl
  turns := by simp [Upload.start]
  waiting := fun h => absurd rfl h

/-- Registering reads keeps the range, if the capacities fit it. -/
theorem Ranged.registering {s n : ℕ} {u : Upload} {server : ReadServer} {r : Registering}
    (hend : s + n < minusOne64) (hn : n < 2 ^ 63) (h : Ranged s n u) (hfits : u.arg.Fits server)
    (hoffset : u.arg.offset ≠ u.arg.endOffset)
    (hready : u.arg.isTransferOffsetReady = false)
    (hr : RegistersReads server u.arg u.reads r) :
    u.arg.offset + u.arg.pendingBytes + requested r.reads ≤ s + n ∧ (∀ t ∈ r.turns, t.Sound) ∧
      (u.arg.offset + u.arg.pendingBytes + requested u.reads = s + n → r.reads = u.reads) := by
  have hpending : u.arg.pendingBytes = 0 := by
    rw [GridftpOpArg.pendingBytes, h.inOrder.pending_eq_nil hready]
    rfl
  have hwithin := h.within
  rw [Within] at hwithin
  rw [hpending, Nat.add_zero] at hwithin ⊢
  cases hr with
  | useless => exact ⟨hwithin, by simp, fun _ => rfl⟩
  | useful r hresult heof hreg =>
      by_cases hslot : u.arg.registeredBuffers.length < server.optimalConcurrency
      · have hcap := hfits hresult heof hoffset hready hslot
        have hrequested := h.matched.requested_le
        have hle := h.le
        have hword : u.arg.capacity < word := by
          refine Nat.lt_of_le_of_lt (Nat.le_trans (Nat.le_add_left _ _) hcap) ?_
          rw [h.endOffset]
          exact Nat.lt_trans hend (by decide)
        rw [h.matched.countBuffersAvailable hword] at hreg
        rw [← h.endOffset] at hend ⊢
        obtain ⟨hrange, hturns⟩ := hreg.ranged hend (by rw [h.endOffset]; omega) hcap hrequested
        refine ⟨hrange, hturns, fun hfull => hreg.reads_of_used hend (Nat.le_antisymm hcap ?_)⟩
        rw [← hfull]
        exact Nat.add_le_add_left hrequested _
      · rw [Nat.sub_eq_zero_of_le (Nat.not_lt.mp hslot)] at hreg
        cases hreg
        exact ⟨hwithin, by simp, fun _ => rfl⟩

/-- A section of a call keeps the invariant, and registers no read once the range is
requested. -/
theorem Ranged.section {s n bufferLength : ℕ} {u : Upload} {server : ReadServer}
    {result : Result} {ws : WriteSection} (hend : s + n < minusOne64) (hn : n < 2 ^ 63)
    (h : Ranged s n u) (hfits : u.arg.Fits server) (hoffset : u.arg.offset ≠ u.arg.endOffset)
    (hws : Sections server bufferLength result u.arg u.reads ws) :
    Ranged s n (u.after bufferLength ws) ∧
      (u.arg.offset + u.arg.pendingBytes + requested u.reads = s + n → ws.reads = u.reads) := by
  cases hws with
  | failed _ hfailed =>
      refine ⟨⟨h.current, h.endOffset, h.matched, h.le, h.inOrder, h.within, h.position, ?_, ?_⟩,
        fun _ => rfl⟩
      · simpa [after] using h.turns
      · exact fun hwaiting => absurd rfl hwaiting
  | copied _ hresult all last hcopies =>
      obtain ⟨-, hendOffset, -, hcurrent, hregistered⟩ := hcopies.unchanged
      have hlt : u.arg.offset + u.arg.pendingBytes < word :=
        Nat.lt_of_le_of_lt (Nat.le_trans (Nat.le_add_right _ _) h.within)
          (Nat.lt_trans hend (by decide))
      obtain ⟨hinOrder, hle, hsame⟩ := hcopies.inOrder h.inOrder hlt
      refine ⟨⟨?_, ?_, ?_, Nat.le_trans h.le hle, hinOrder, ?_, ?_, ?_, ?_⟩, fun _ => rfl⟩
      · exact hcurrent.trans h.current
      · exact hendOffset.trans h.endOffset
      · exact hregistered.symm ▸ h.matched
      · exact Nat.le_trans (Nat.le_of_eq (congrArg (· + requested u.reads) hsame)) h.within
      · exact fun _ => hsame.trans (h.position hresult)
      · simpa [after] using h.turns
      · exact fun hwaiting => absurd rfl hwaiting
  | gaveUp hready r hr _ _ =>
      obtain ⟨hwithin, hturns, hfull⟩ :=
        h.registering hend hn hfits hoffset (Bool.or_eq_false_iff.mp hready).1 hr
      rw [hr.recorded]
      refine ⟨⟨h.current, h.endOffset, hr.matched h.matched, h.le,
        ⟨h.inOrder.contiguous, h.inOrder.full⟩, hwithin,
        fun hsuccess => h.position (Result.latch_eq_success.mp hsuccess).1, ?_, ?_⟩, hfull⟩
      · exact List.forall_mem_append.mpr ⟨h.turns, hturns⟩
      · exact fun hwaiting => absurd rfl hwaiting
  | waits hready r hr =>
      obtain ⟨hwithin, hturns, hfull⟩ :=
        h.registering hend hn hfits hoffset (Bool.or_eq_false_iff.mp hready).1 hr
      rw [hr.recorded]
      exact ⟨⟨h.current, h.endOffset, hr.matched h.matched, h.le,
        ⟨h.inOrder.contiguous, h.inOrder.full⟩, hwithin,
        fun hsuccess => h.position (Result.latch_eq_success.mp hsuccess).1,
        List.forall_mem_append.mpr ⟨h.turns, hturns⟩, fun _ => hoffset⟩, hfull⟩

/-- The completion of a read keeps the invariant. -/
theorem Ranged.complete {s n id : ℕ} {u : Upload} {c : Completion} {arg' : GridftpOpArg}
    (hend : s + n < minusOne64) (h : Ranged s n u) (hc : u.Follows s id c)
    (hcompletes : Completes u.arg id c arg') :
    Ranged s n { u with
      arg := arg', reads := u.reads.eraseP (·.id = id), completions := u.completions ++ [c] } := by
  obtain ⟨r, hfind, hlength⟩ := hc.fits
  have hrequested := requested_eraseP hfind
  have hwithin := h.within
  rw [Within, hrequested] at hwithin
  have hreceived : ((u.completions ++ [c]).map fun c => c.data.length).sum
      = u.received + c.data.length := by
    simp [received]
  cases hcompletes with
  | bad b registered freed hremove hfailed =>
      refine ⟨h.current, h.endOffset, (h.matched.remove hremove).1, h.le,
        ⟨h.inOrder.contiguous, h.inOrder.full⟩, ?_, fun hresult => absurd hresult hfailed, h.turns,
        h.waiting⟩
      exact Nat.le_trans (Nat.add_le_add_left (Nat.le_add_right _ _) _) hwithin
  | empty b registered freed hremove hresult hdata =>
      refine ⟨h.current, h.endOffset, (h.matched.remove hremove).1, h.le,
        ⟨h.inOrder.contiguous, h.inOrder.full⟩, ?_, fun _ => ?_, h.turns, h.waiting⟩
      · exact Nat.le_trans (Nat.add_le_add_left (Nat.le_add_right _ _) _) hwithin
      · rw [received, hreceived, hdata]
        exact h.position (Result.latch_eq_success.mp hresult).1
  | added b registered hremove hresult hdata =>
      have hposition := h.position (Result.latch_eq_success.mp hresult).1
      have hstart : c.offset = u.arg.offset + u.arg.pendingBytes :=
        (hc.offset hdata).trans hposition.symm
      set base := (u.arg.note c.result c.eof (u.arg.ends c.offset c.data.length)).withBuffers
        registered u.arg.freeBuffers u.arg.allocated
      have hlt : u.arg.offset + u.arg.pendingBytes < word :=
        Nat.lt_of_le_of_lt (Nat.le_trans (Nat.le_add_right _ _) hwithin)
          (Nat.lt_trans hend (by decide))
      have hbase : InOrder base := ⟨h.inOrder.contiguous, h.inOrder.full⟩
      obtain ⟨hinOrder, hbytes⟩ := hbase.addPending (b := b.completed c.data c.offset) hlt hstart
        (List.length_pos_of_ne_nil hdata) (b.completed_le c.data c.offset)
      have hbytes' : (base.addPending (b.completed c.data c.offset)).pendingBytes
          = u.arg.pendingBytes + c.data.length := hbytes
      refine ⟨h.current, h.endOffset, (h.matched.remove hremove).1, h.le, hinOrder, ?_, fun _ => ?_,
        h.turns, h.waiting⟩
      · rw [Within, hbytes']
        refine Nat.le_trans ?_ hwithin
        have hsum : u.arg.offset + (u.arg.pendingBytes + c.data.length)
            + requested (u.reads.eraseP (·.id = id))
            ≤ u.arg.offset + u.arg.pendingBytes
              + (requested (u.reads.eraseP (·.id = id)) + r.length) := by omega
        exact hsum
      · rw [received, hreceived, hbytes', ← Nat.add_assoc, ← Nat.add_assoc, ← hposition]
        rfl

/-- **One step keeps the invariant**, and registers no read once the range is requested. -/
theorem Ranged.step {s n : ℕ} (hend : s + n < minusOne64) (hn : n < 2 ^ 63) {u u' : Upload}
    {action : UploadAction} (h : Ranged s n u) (hserves : u.ServesInOrder s action)
    (hfits : u.Fits action) (hstep : u.step action = some u') :
    Ranged s n u' ∧ (u.arg.offset + u.arg.pendingBytes + requested u.reads = s + n →
      u'.reads.Sublist u.reads) := by
  cases steps_of_step h.current h.inOrder.full hstep with
  | ended server bufferLength _ =>
      refine ⟨⟨h.current, h.endOffset, h.matched, h.le,
        ⟨h.inOrder.contiguous, h.inOrder.full⟩, h.within, h.position, ?_,
        fun hwaiting => absurd rfl hwaiting⟩, fun _ => List.Sublist.refl _⟩
      simpa [after] using h.turns
  | call server bufferLength ws hoffset hws =>
      obtain ⟨hranged, hreads⟩ := h.section hend hn hfits hoffset hws
      exact ⟨hranged, fun hfull => by rw [after_reads, hreads hfull]⟩
  | wake server bufferLength result ws hwaiting hws =>
      obtain ⟨hranged, hreads⟩ := h.section hend hn hfits (h.waiting (by simp [hwaiting])) hws
      exact ⟨hranged, fun hfull => by rw [after_reads, hreads hfull]⟩
  | complete id c arg' hcompletes =>
      exact ⟨h.complete hend hserves hcompletes, fun _ => List.eraseP_sublist⟩

end Upload

/-- **An upload keeps to its range** in every run in which the capacities of the registered
buffers fit it: the offset with the pending bytes and the bytes asked for never exceeds
`s + n`, `remaining` is never negative, and no read is registered once the range is
requested. -/
theorem upload_range {s n : ℕ} {eof : Bool} {actions : List UploadAction} {u : Upload}
    (hs : s < 2 ^ 63) (hn : n < 2 ^ 63)
    (hserves : Guarded.Along Upload.step (Upload.ServesInOrder s)
      (.start (prepareWriteGridftpOp s n eof)) actions)
    (hfits : Guarded.Along Upload.step Upload.Fits
      (.start (prepareWriteGridftpOp s n eof)) actions)
    (hrun : Guarded.run Upload.step (.start (prepareWriteGridftpOp s n eof)) actions = some u) :
    u.Within s n ∧ (∀ t ∈ u.turns, t.Sound) ∧
      (u.arg.offset + u.arg.pendingBytes + requested u.reads = s + n →
        ∀ action u', u.ServesInOrder s action → u.Fits action → u.step action = some u' →
          u'.reads.Sublist u.reads) := by
  have hend : s + n < minusOne64 :=
    Nat.lt_of_le_of_lt (by omega : s + n ≤ 2 ^ 64 - 2) (by decide)
  have h : Upload.Ranged s n u :=
    Guarded.invariant (fun _ _ _ hu hP hstep => (hu.step hend hn hP.1 hP.2 hstep).1)
      (Upload.Ranged.start hs hn eof) (hserves.and hfits) hrun
  exact ⟨h.within, h.turns, fun hfull action u' hserves hfits hstep =>
    (h.step hend hn hserves hfits hstep).2 hfull⟩

/-- The case of a range of two blocks, of which the first one arrived when the next call
registers reads. -/
theorem upload_range_twoBlocks :
    let server : ReadServer := ⟨10, 2, fun _ => true, fun _ => .success⟩
    let block : Completion := ⟨.success, List.replicate 10 65, 0, false⟩
    let actions : List UploadAction :=
      [.call server 10, .complete 0 block, .wake server, .call server 10]
    ∃ u, Guarded.run Upload.step (.start (prepareWriteGridftpOp 0 20 false)) actions = some u ∧
      u.arg.offset = 10 ∧ u.reads = [⟨1, 10⟩] ∧ u.Within 0 20 ∧ (∀ t ∈ u.turns, t.Sound) ∧
      (u.arg.offset + u.arg.pendingBytes + requested u.reads = 0 + 20 →
        ∀ action u', u.ServesInOrder 0 action → u.Fits action → u.step action = some u' →
          u'.reads.Sublist u.reads) := by
  intro server block actions
  have hserves : Guarded.Along Upload.step (Upload.ServesInOrder 0)
      (.start (prepareWriteGridftpOp 0 20 false)) actions := by
    refine ⟨trivial, fun t ht => ⟨?_, fun _ _ => ⟨trivial, fun _ _ => ⟨trivial, fun _ _ => trivial⟩⟩⟩⟩
    have hreads : (Upload.step (.start (prepareWriteGridftpOp 0 20 false)) (.call server 10)).map
        (fun t => (t.reads, t.received)) = some ([⟨1, 10⟩, ⟨0, 10⟩], 0) := by decide +kernel
    rw [ht] at hreads
    obtain ⟨hreads, hreceived⟩ := Prod.mk.inj (Option.some.inj hreads)
    exact ⟨⟨⟨0, 10⟩, by rw [hreads]; rfl, by decide⟩, fun _ => by rw [hreceived]⟩
  have hfits : Guarded.Along Upload.step Upload.Fits
      (.start (prepareWriteGridftpOp 0 20 false)) actions := by
    refine ⟨fun _ _ _ _ _ => by decide, fun t ht => ⟨trivial, fun t' ht' => ⟨?_, fun t'' ht'' =>
      ⟨?_, fun _ _ => trivial⟩⟩⟩⟩
    · intro _ _ _ hready _
      have hready' : (Guarded.run Upload.step (.start (prepareWriteGridftpOp 0 20 false))
          (actions.take 2)).map (fun u => u.arg.isTransferOffsetReady) = some true := by
        decide +kernel
      have hrun : Guarded.run Upload.step (.start (prepareWriteGridftpOp 0 20 false))
          (actions.take 2) = some t' :=
        Guarded.run_cons.mpr ⟨t, ht, Guarded.run_cons.mpr ⟨t', ht', rfl⟩⟩
      rw [hrun, Option.map_some, hready] at hready'
      simp at hready'
    · intro _ _ _ _ _
      have hcapacity : (Guarded.run Upload.step (.start (prepareWriteGridftpOp 0 20 false))
          (actions.take 3)).map (fun u => (u.arg.offset, u.arg.capacity, u.arg.endOffset))
            = some (10, 10, 20) := by
        decide +kernel
      have hrun : Guarded.run Upload.step (.start (prepareWriteGridftpOp 0 20 false))
          (actions.take 3) = some t'' :=
        Guarded.run_cons.mpr ⟨t, ht, Guarded.run_cons.mpr ⟨t', ht', Guarded.run_cons.mpr
          ⟨t'', ht'', rfl⟩⟩⟩
      rw [hrun] at hcapacity
      obtain ⟨hoffset, hrest⟩ := Prod.mk.inj (Option.some.inj hcapacity)
      obtain ⟨hcapacity, hend⟩ := Prod.mk.inj hrest
      rw [hoffset, hcapacity, hend]
  have hu : (Guarded.run Upload.step (.start (prepareWriteGridftpOp 0 20 false)) actions).map
      (fun u => (u.arg.offset, u.reads)) = some (10, [⟨1, 10⟩]) := by decide +kernel
  obtain ⟨u, hrun, hu⟩ := Option.map_eq_some_iff.mp hu
  obtain ⟨hoffset, hreads⟩ := Prod.mk.inj hu
  obtain ⟨hwithin, hturns, hfull⟩ := upload_range (by decide) (by decide) hserves hfits hrun
  exact ⟨u, hrun, hoffset, hreads, hwithin, hturns, hfull⟩

/-- **A range of one block and a half** is exceeded: the second read asks for half a block
only, but its buffer counts as a whole one, so that `remaining` is `-5` when the first block
was sent, and the next call registers a read of a whole block behind the range. -/
theorem upload_range_exceeded :
    let server : ReadServer := ⟨10, 2, fun _ => true, fun _ => .success⟩
    let block : Completion := ⟨.success, List.replicate 10 65, 0, false⟩
    let actions : List UploadAction :=
      [.call server 10, .complete 0 block, .wake server, .call server 10]
    Guarded.Along Upload.step (Upload.ServesInOrder 0)
        (.start (prepareWriteGridftpOp 0 15 false)) actions ∧
      ∃ u, Guarded.run Upload.step (.start (prepareWriteGridftpOp 0 15 false)) actions = some u ∧
        u.arg.offset = 10 ∧ u.reads = [⟨0, 10⟩, ⟨1, 5⟩] ∧
        u.turns = [⟨15, some 10⟩, ⟨5, some 5⟩, ⟨word - 5, some 10⟩] ∧ ¬u.Within 0 15 := by
  intro server block actions
  constructor
  · refine ⟨trivial, fun t ht => ⟨?_, fun _ _ => ⟨trivial, fun _ _ => ⟨trivial, fun _ _ => trivial⟩⟩⟩⟩
    have hreads : (Upload.step (.start (prepareWriteGridftpOp 0 15 false)) (.call server 10)).map
        (fun t => (t.reads, t.received)) = some ([⟨1, 5⟩, ⟨0, 10⟩], 0) := by decide +kernel
    rw [ht] at hreads
    obtain ⟨hreads, hreceived⟩ := Prod.mk.inj (Option.some.inj hreads)
    exact ⟨⟨⟨0, 10⟩, by rw [hreads]; rfl, by decide⟩, fun _ => by rw [hreceived]⟩
  have hu : (Guarded.run Upload.step (.start (prepareWriteGridftpOp 0 15 false)) actions).map
      (fun u => (u.arg.offset, u.reads, u.turns))
        = some (10, [⟨0, 10⟩, ⟨1, 5⟩], [⟨15, some 10⟩, ⟨5, some 5⟩, ⟨word - 5, some 10⟩]) := by
    decide +kernel
  obtain ⟨u, hrun, hu⟩ := Option.map_eq_some_iff.mp hu
  obtain ⟨hoffset, hrest⟩ := Prod.mk.inj hu
  obtain ⟨hreads, hturns⟩ := Prod.mk.inj hrest
  refine ⟨u, hrun, hoffset, hreads, hturns, fun hwithin => ?_⟩
  rw [Upload.Within, hoffset, hreads] at hwithin
  simp only [requested_cons] at hwithin
  omega

end DsiRest
