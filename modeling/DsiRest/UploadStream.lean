import DsiRest.Lib.Guarded
import DsiRest.Lib.Reassembly
import DsiRest.UploadSteps

/-!
# An Upload Sends the File

The GridFTP server delivers the blocks of a file in any order. `Upload.Serves` states what
it promises, and `Upload.Exact` is the invariant of an upload whose server keeps it: the
pending buffers are a queue of the blocks behind `offset` in the sense of
`Reassembly.Assembled`, and the bytes copied so far are those of the file up to `offset`.

## Main results

* `upload_exact` — in every interleaving the bytes copied are those of the file, in order,
  and a call that copies nothing has come to its end.
-/

namespace DsiRest

open Reassembly

/-! ### Blocks of the file -/

/-- The positions a pending buffer holds. -/
def Buffer.extent (b : Buffer) : Extent :=
  ⟨b.transferOffset, b.bufferUsed⟩

/-- The positions a completed read delivered. -/
def Completion.extent (c : Completion) : Extent :=
  ⟨c.offset, c.data.length⟩

namespace Upload

/-- The blocks delivered so far. -/
def delivered (u : Upload) : List Extent :=
  u.completions.map Completion.extent

/-- Some completion reported the end of the file. -/
def eofSeen (u : Upload) : Bool :=
  u.completions.any Completion.eof

end Upload

/-- A buffer is added to the pending ones where its block belongs in their queue. -/
theorem GridftpOpArg.extents_addPending {arg : GridftpOpArg} {b : Buffer}
    (h : ∀ p ∈ arg.pendingBuffers, p.extent.stop < word) :
    (arg.addPending b).pendingBuffers.map Buffer.extent
      = place b.extent (arg.pendingBuffers.map Buffer.extent) := by
  simp only [addPending]
  generalize arg.pendingBuffers = pending at h ⊢
  induction pending with
  | nil => rfl
  | cons p later ih =>
      obtain ⟨hp, hlater⟩ := List.forall_mem_cons.mp h
      have hend : p.transferEnd = p.extent.stop := add64_eq hp
      have htail := ih hlater
      simp only [place] at htail ⊢
      by_cases hle : p.extent.stop ≤ b.extent.start
      · have hle' : p.transferEnd ≤ b.transferOffset := hend ▸ hle
        simp [hle, hle', htail]
      · have hle' : ¬p.transferEnd ≤ b.transferOffset := hend ▸ hle
        simp [hle, hle']

/-- The pending buffers with the new one. -/
theorem GridftpOpArg.mem_addPending {arg : GridftpOpArg} {b p : Buffer} :
    p ∈ (arg.addPending b).pendingBuffers ↔ p = b ∨ p ∈ arg.pendingBuffers := by
  conv_rhs => rw [← List.takeWhile_append_dropWhile
    (p := fun tmp : Buffer => decide (tmp.transferEnd ≤ b.transferOffset))
    (l := arg.pendingBuffers)]
  simp only [addPending, List.mem_append, List.mem_cons]
  exact or_left_comm

/-- The number of bytes in the pending buffers. -/
def GridftpOpArg.pendingBytes (arg : GridftpOpArg) : ℕ :=
  (arg.pendingBuffers.map Buffer.bufferUsed).sum

/-- A pending buffer adds its bytes. -/
theorem GridftpOpArg.pendingBytes_addPending (arg : GridftpOpArg) (b : Buffer) :
    (arg.addPending b).pendingBytes = b.bufferUsed + arg.pendingBytes := by
  have hsplit := congrArg (fun l => (l.map Buffer.bufferUsed).sum)
    (List.takeWhile_append_dropWhile
      (p := fun tmp : Buffer => decide (tmp.transferEnd ≤ b.transferOffset))
      (l := arg.pendingBuffers))
  simp only [List.map_append, List.sum_append] at hsplit
  simp only [pendingBytes, addPending, List.map_append, List.map_cons, List.sum_append,
    List.sum_cons]
  omega

/-- The first pending buffer does not start at the offset as long as that is not ready. -/
theorem extents_head_of_not_ready {arg : GridftpOpArg} (h : arg.isTransferOffsetReady = false) :
    ∀ e ∈ (arg.pendingBuffers.map Buffer.extent).head?, e.start ≠ arg.offset := by
  intro e he
  rw [GridftpOpArg.isTransferOffsetReady] at h
  rcases hpending : arg.pendingBuffers with _ | ⟨b, later⟩
  · simp [hpending] at he
  · rw [hpending] at h he
    obtain rfl := Option.some.inj he
    exact ne_of_beq_false h

/-! ### The queue of the pending buffers -/

section Queue

variable {s : ℕ} {arg : GridftpOpArg} {delivered : List Extent}

/-- The blocks of the pending buffers stay assembled when the first one is copied in part. -/
theorem assembled_copyPart {b : Buffer} {later : List Buffer} {k : ℕ}
    (h : Assembled s arg.offset (arg.pendingBuffers.map Buffer.extent) delivered)
    (hbound : ∀ e ∈ delivered, e.stop < word) (hpending : arg.pendingBuffers = b :: later)
    (hready : b.transferOffset = arg.offset) (hk : k < b.bufferUsed) :
    (arg.copyPart b later k).offset = arg.offset + k ∧
      Assembled s (arg.copyPart b later k).offset
        ((arg.copyPart b later k).pendingBuffers.map Buffer.extent) delivered := by
  rw [hpending, List.map_cons] at h
  have hstop := h.stop_lt hbound b.extent List.mem_cons_self
  simp only [Extent.stop, Buffer.extent] at hstop
  have hoffset : add64 arg.offset k = arg.offset + k := add64_eq (by omega)
  have htransfer : add64 b.transferOffset k = arg.offset + k := by rw [hready, hoffset]
  refine ⟨hoffset, ?_⟩
  have hpart := h.passPart hready hk
  rw [GridftpOpArg.copyPart]
  simp only [List.map_cons, hoffset]
  rw [Buffer.extent, Buffer.consumed]
  simp only [htransfer]
  exact hpart

/-- The blocks of the pending buffers stay assembled when the first one is copied as a
whole. -/
theorem assembled_copyWhole {b : Buffer} {later : List Buffer}
    (h : Assembled s arg.offset (arg.pendingBuffers.map Buffer.extent) delivered)
    (hbound : ∀ e ∈ delivered, e.stop < word) (hpending : arg.pendingBuffers = b :: later)
    (hready : b.transferOffset = arg.offset) :
    (arg.copyWhole b later).offset = arg.offset + b.bufferUsed ∧
      Assembled s (arg.copyWhole b later).offset
        ((arg.copyWhole b later).pendingBuffers.map Buffer.extent) delivered := by
  rw [hpending, List.map_cons] at h
  have hstop := h.stop_lt hbound b.extent List.mem_cons_self
  simp only [Extent.stop, Buffer.extent] at hstop
  have hoffset : add64 arg.offset b.bufferUsed = arg.offset + b.bufferUsed :=
    add64_eq (by omega)
  refine ⟨hoffset, ?_⟩
  have hwhole := h.pass hready
  rw [Extent.stop, Buffer.extent, hready] at hwhole
  rw [GridftpOpArg.copyWhole]
  simp only [hoffset]
  exact hwhole

/-- A new block is queued among the blocks of the pending buffers. -/
theorem assembled_addPending {b : Buffer}
    (h : Assembled s arg.offset (arg.pendingBuffers.map Buffer.extent) delivered)
    (hbound : ∀ e ∈ delivered, e.stop < word) (hpos : 0 < b.bufferUsed)
    (hapart : ∀ e ∈ delivered, e.Apart b.extent) :
    Assembled s (arg.addPending b).offset
      ((arg.addPending b).pendingBuffers.map Buffer.extent) (delivered ++ [b.extent]) := by
  have hstop : ∀ p ∈ arg.pendingBuffers, p.extent.stop < word :=
    fun p hp => h.stop_lt hbound p.extent (List.mem_map_of_mem hp)
  rw [GridftpOpArg.extents_addPending hstop]
  exact h.place hpos hapart

end Queue

/-! ### The stream behind the pending buffers -/

/-- The pending buffers hold the delivered blocks of the file `F` that were not passed on
yet, where the file was passed on from `s` up to `offset`. -/
structure Streamed (F : ℕ → Byte) (s : ℕ) (arg : GridftpOpArg) (delivered : List Extent) :
    Prop where
  assembled : Assembled s arg.offset (arg.pendingBuffers.map Buffer.extent) delivered
  content : ∀ b ∈ arg.pendingBuffers, b.data = slice F b.transferOffset b.bufferUsed
  bound : ∀ e ∈ delivered, e.stop < minusOne64

namespace Streamed

variable {F : ℕ → Byte} {s : ℕ} {arg : GridftpOpArg} {delivered : List Extent}

/-- The data of a pending buffer is in its memory. -/
theorem full (h : Streamed F s arg delivered) :
    ∀ b ∈ arg.pendingBuffers, b.bufferUsed ≤ b.buffer.length := by
  intro b hb
  have hlen := congrArg List.length (h.content b hb)
  rw [length_slice, Buffer.data, List.length_take] at hlen
  omega

/-- A pending buffer is not empty. -/
theorem pos (h : Streamed F s arg delivered) {b : Buffer} (hb : b ∈ arg.pendingBuffers) :
    0 < b.bufferUsed :=
  h.assembled.nonempty b.extent (List.mem_map_of_mem hb)

/-- A pending buffer ends below the largest word. -/
theorem stop_lt (h : Streamed F s arg delivered) :
    ∀ b ∈ arg.pendingBuffers, b.extent.stop < minusOne64 :=
  fun b hb => h.assembled.stop_lt h.bound b.extent (List.mem_map_of_mem hb)

/-- A delivered block ends at a position that is a word. -/
theorem bound_word (h : Streamed F s arg delivered) : ∀ e ∈ delivered, e.stop < word :=
  fun e he => Nat.lt_trans (h.bound e he) (by decide)

/-- The offset stays below the largest word. -/
theorem offset_lt (h : Streamed F s arg delivered) (hs : s < minusOne64) :
    arg.offset < minusOne64 := by
  rcases Nat.eq_or_lt_of_le h.assembled.le with heq | hlt
  · exact heq ▸ hs
  · obtain ⟨e, he, -, hend⟩ := (h.assembled.covered (arg.offset - 1)).mpr (.inl (by omega))
    have hbound := h.bound e he
    omega

/-- Nothing changes when only the buffers that are not pending do. -/
theorem congr {arg' : GridftpOpArg} (h : Streamed F s arg delivered)
    (hoffset : arg'.offset = arg.offset) (hpending : arg'.pendingBuffers = arg.pendingBuffers) :
    Streamed F s arg' delivered :=
  ⟨by rw [hoffset, hpending]; exact h.assembled, by rw [hpending]; exact h.content, h.bound⟩

/-- The first pending buffer is copied in part. -/
theorem copyPart {b : Buffer} {later : List Buffer} {k : ℕ} (h : Streamed F s arg delivered)
    (hpending : arg.pendingBuffers = b :: later) (hready : b.transferOffset = arg.offset)
    (hk : k < b.bufferUsed) :
    (arg.copyPart b later k).offset = arg.offset + k ∧
      Streamed F s (arg.copyPart b later k) delivered := by
  have hb : b ∈ arg.pendingBuffers := hpending ▸ List.mem_cons_self
  obtain ⟨hoffset, hassembled⟩ :=
    assembled_copyPart h.assembled h.bound_word hpending hready hk
  refine ⟨hoffset, hassembled, ?_, h.bound⟩
  intro b' hb'
  rcases List.mem_cons.mp hb' with rfl | hb'
  · have hadd : add64 arg.offset k = arg.offset + k := hoffset
    rw [Buffer.data_consumed (h.full b hb), h.content b hb, drop_slice F hk.le]
    simp only [Buffer.consumed, hready, hadd]
  · exact h.content b' (hpending ▸ List.mem_cons_of_mem b hb')

/-- The first pending buffer is copied as a whole. -/
theorem copyWhole {b : Buffer} {later : List Buffer} (h : Streamed F s arg delivered)
    (hpending : arg.pendingBuffers = b :: later) (hready : b.transferOffset = arg.offset) :
    (arg.copyWhole b later).offset = arg.offset + b.bufferUsed ∧
      Streamed F s (arg.copyWhole b later) delivered := by
  obtain ⟨hoffset, hassembled⟩ :=
    assembled_copyWhole h.assembled h.bound_word hpending hready
  exact ⟨hoffset, hassembled,
    fun b' hb' => h.content b' (hpending ▸ List.mem_cons_of_mem b hb'), h.bound⟩

/-- A block without data comes in. -/
theorem deliverEmpty (h : Streamed F s arg delivered) {x : Extent} (hx : x.length = 0)
    (hbound : x.stop < minusOne64) : Streamed F s arg (delivered ++ [x]) where
  assembled := h.assembled.deliverEmpty hx
  content := h.content
  bound e he := by
    rcases List.mem_append.mp he with he | he
    · exact h.bound e he
    · exact List.mem_singleton.mp he ▸ hbound

/-- A buffer with a new block of the file is added to the pending ones. -/
theorem addPending (h : Streamed F s arg delivered) {b : Buffer} (hpos : 0 < b.bufferUsed)
    (hapart : ∀ e ∈ delivered, e.Apart b.extent)
    (hcontent : b.data = slice F b.transferOffset b.bufferUsed)
    (hbound : b.extent.stop < minusOne64) :
    Streamed F s (arg.addPending b) (delivered ++ [b.extent]) where
  assembled := assembled_addPending h.assembled h.bound_word hpos hapart
  content p hp := by
    rcases GridftpOpArg.mem_addPending.mp hp with rfl | hp
    · exact hcontent
    · exact h.content p hp
  bound e he := by
    rcases List.mem_append.mp he with he | he
    · exact h.bound e he
    · exact List.mem_singleton.mp he ▸ hbound

end Streamed

/-- **Copying passes the file on.** The bytes copied are those behind `offset`, at most as
many as the buffer has room for, and at least one if the first pending buffer is ready. -/
theorem Copies.streamed {F : ℕ → Byte} {s bufferLength : ℕ} {arg last : GridftpOpArg}
    {filled all : Bytes} {delivered : List Extent}
    (h : Copies bufferLength arg filled all last) (hs : Streamed F s arg delivered)
    (hroom : filled.length ≤ bufferLength) :
    Streamed F s last delivered ∧ all.length ≤ bufferLength ∧
      ∃ k, last.offset = arg.offset + k ∧ all = filled ++ slice F arg.offset k ∧
        (arg.isTransferOffsetReady = true → filled.length < bufferLength → 0 < k) := by
  induction h with
  | done arg filled hstop =>
      refine ⟨hs, hroom, 0, rfl, by simp, fun hready hlt => ?_⟩
      rcases hstop with hle | hnot
      · omega
      · exact absurd (hready.symm.trans hnot) (by decide)
  | part arg filled b later k all last hpending hready hpos hfits hk _ ih =>
      obtain ⟨hoffset, hs'⟩ := hs.copyPart hpending hready hk
      have hb : b ∈ arg.pendingBuffers := hpending ▸ List.mem_cons_self
      have htake : b.buffer.take k = slice F arg.offset k := by
        have hdata := congrArg (List.take k) (hs.content b hb)
        rw [Buffer.data, List.take_take, Nat.min_eq_left hk.le, take_slice F hk.le, hready] at hdata
        exact hdata
      obtain ⟨hlast, hlen, more, hmore, hall, -⟩ :=
        ih hs' (by rw [htake, List.length_append, length_slice]; exact hfits)
      refine ⟨hlast, hlen, k + more, by rw [hmore, hoffset, Nat.add_assoc], ?_, fun _ _ => by omega⟩
      rw [hall, htake, hoffset, List.append_assoc, ← slice_add]
  | whole arg filled b later all last hpending hready hpos hfits _ ih =>
      obtain ⟨hoffset, hs'⟩ := hs.copyWhole hpending hready
      have hb : b ∈ arg.pendingBuffers := hpending ▸ List.mem_cons_self
      have hdata : b.data = slice F arg.offset b.bufferUsed := hready ▸ hs.content b hb
      obtain ⟨hlast, hlen, more, hmore, hall, -⟩ :=
        ih hs' (by rw [hdata, List.length_append, length_slice]; exact hfits)
      refine ⟨hlast, hlen, b.bufferUsed + more, by rw [hmore, hoffset, Nat.add_assoc], ?_,
        fun _ _ => by omega⟩
      rw [hall, hdata, hoffset, List.append_assoc, ← slice_add]

/-! ### The GridFTP server -/

/-- No operation of the server or of `malloc` fails, and it uses blocks of a length that is
an `int`. -/
structure ReadServer.Works (server : ReadServer) : Prop where
  blocksize_pos : 0 < server.optimalBlocksize
  blocksize_lt : server.optimalBlocksize < 2 ^ 31
  concurrency_pos : 1 ≤ server.optimalConcurrency
  malloc : ∀ i, server.malloc i = true
  registerRead : ∀ i, server.registerRead i = .success

namespace Upload

/-- A completion delivers a block of the file `F` for an outstanding read. The block is apart
from the blocks before, only the end of the file comes without data, and when the end was
seen and no read is outstanding, then exactly the `n` positions from `s` on were
delivered. -/
structure Delivers (F : ℕ → Byte) (s n : ℕ) (u : Upload) (id : ℕ) (c : Completion) : Prop where
  result : c.result = .success
  fits : ∃ r ∈ u.reads, r.id = id ∧ c.data.length ≤ r.length
  offset_lt : c.offset < 2 ^ 63
  content : c.data = slice F c.offset c.data.length
  apart : ∀ d ∈ u.completions, d.extent.Apart c.extent
  eof : c.data = [] → c.eof = true
  cover : (u.eofSeen || c.eof) = true → u.reads.eraseP (·.id = id) = [] →
    ∀ p, Covered (u.delivered ++ [c.extent]) p ↔ s ≤ p ∧ p < s + n

/-- What is assumed of the surroundings of an upload of the file `F`. -/
def Serves (F : ℕ → Byte) (s n : ℕ) (u : Upload) : UploadAction → Prop
  | .call server bufferLength => server.Works ∧ 0 < bufferLength ∧ bufferLength < 2 ^ 31
  | .wake server => server.Works
  | .complete id c => u.Delivers F s n id c

/-! ### The invariant -/

/-- The invariant of an upload of `n` bytes of the file `F` from `s` on. -/
structure Exact (F : ℕ → Byte) (s n : ℕ) (u : Upload) : Prop where
  streamed : Streamed F s u.arg u.delivered
  copied : u.copied = slice F s (u.arg.offset - s)
  matched : Matched u.arg.registeredBuffers u.reads
  small : ∀ r ∈ u.reads, r.length ≤ 2 ^ 31 - 1
  current : u.arg.currentBuffer = none
  result : u.arg.result = .success
  endOffset : u.arg.endOffset = minusOne64
  eof : u.arg.eof = u.eofSeen
  waiting : ∀ w ∈ u.waiting, 0 < w.1 ∧ w.2 = .success
  cover : u.eofSeen = true → u.reads = [] → ∀ p, Covered u.delivered p ↔ s ≤ p ∧ p < s + n
  calls : ∀ c ∈ u.calls, c.copied.length ≤ c.bufferLength ∧ c.result = .success
  finished : (∃ c ∈ u.calls, c.copied = []) →
    u.eofSeen = true ∧ u.reads = [] ∧ u.arg.offset = s + n

/-- An upload starts in a state of the invariant. -/
theorem Exact.start (F : ℕ → Byte) (s n : ℕ) (eof : Bool) :
    Exact F s n (start (prepareWriteGridftpOp s minusOne64 eof)) where
  streamed := ⟨Assembled.start s,
    by simp [Upload.start, prepareWriteGridftpOp, GridftpOpArg.prepare],
    by simp [Upload.start, delivered]⟩
  copied := by simp [Upload.start, prepareWriteGridftpOp, GridftpOpArg.prepare, Upload.copied]
  matched := .nil
  small := by simp [Upload.start]
  current := rfl
  result := rfl
  endOffset := rfl
  eof := rfl
  waiting := by simp [Upload.start]
  cover := by simp [Upload.start, eofSeen]
  calls := by simp [Upload.start]
  finished := by simp [Upload.start]

/-- A section that waits keeps the invariant. -/
theorem Exact.waits {F : ℕ → Byte} {s n bufferLength : ℕ} {u : Upload} {server : ReadServer}
    {r : Registering} (h : Exact F s n u) (hserver : server.Works) (hpos : 0 < bufferLength)
    (hr : RegistersReads server u.arg u.reads r) :
    Exact F s n (u.after bufferLength
      ⟨.waiting r.result, r.arg.record r.result, r.reads, r.turns⟩) := by
  have hsuccess := hr.success hserver.malloc hserver.registerRead
  have heof : u.eofSeen = true → r.reads = u.reads := fun hseen =>
    hr.reads_of_eof (h.eof.trans hseen)
  rw [hr.recorded, hsuccess, GridftpOpArg.record_success]
  refine ⟨h.streamed.congr rfl rfl, h.copied, hr.matched h.matched, ?_, h.current, h.result,
    h.endOffset, h.eof, ?_, ?_, h.calls, ?_⟩
  · exact hr.length_le h.endOffset (Nat.le_sub_one_of_lt hserver.blocksize_lt) h.small
  · rintro w hw
    obtain rfl := Option.some.inj hw
    exact ⟨hpos, rfl⟩
  · exact fun hseen hnone => h.cover hseen ((heof hseen).symm.trans hnone)
  · intro hempty
    obtain ⟨hseen, hnone, hoffset⟩ := h.finished hempty
    exact ⟨hseen, (heof hseen).trans hnone, hoffset⟩

/-- A section that has nothing to copy comes at the end of the transfer. -/
theorem Exact.finished_of_not_ready {F : ℕ → Byte} {s n : ℕ} {u : Upload} (h : Exact F s n u)
    (hready : (u.arg.isTransferOffsetReady || u.arg.isReadingComplete) = true)
    (hnot : u.arg.isTransferOffsetReady = false) :
    u.eofSeen = true ∧ u.reads = [] ∧ u.arg.offset = s + n := by
  rw [hnot, Bool.false_or, GridftpOpArg.isReadingComplete, Bool.and_eq_true,
    List.isEmpty_iff, h.matched.eq_nil_iff] at hready
  have hseen := h.eof.symm.trans hready.1
  obtain ⟨hend, -⟩ := h.streamed.assembled.complete (extents_head_of_not_ready hnot)
    (h.cover hseen hready.2)
  exact ⟨hseen, hready.2, hend⟩

/-- A section that copies keeps the invariant. -/
theorem Exact.copies {F : ℕ → Byte} {s n bufferLength : ℕ} {u : Upload} {all : Bytes}
    {last : GridftpOpArg} (h : Exact F s n u) (hpos : 0 < bufferLength)
    (hready : (u.arg.isTransferOffsetReady || u.arg.isReadingComplete) = true)
    (hcopies : Copies bufferLength u.arg [] all last) :
    Exact F s n (u.after bufferLength ⟨.returned .success all, last, u.reads, []⟩) := by
  obtain ⟨hstreamed, hlen, k, hoffset, hall, hprogress⟩ :=
    hcopies.streamed h.streamed (Nat.zero_le _)
  obtain ⟨hresult', hend, heof, hcurrent, hregistered⟩ := hcopies.unchanged
  rw [List.nil_append] at hall
  have hle := h.streamed.assembled.le
  refine ⟨hstreamed, ?_, ?_, h.small, ?_, ?_, ?_, ?_, by simp [Upload.after], h.cover, ?_, ?_⟩
  · have hcopied : u.copied ++ all = slice F s (last.offset - s) := by
      rw [h.copied, hall, hoffset, Nat.sub_add_comm hle, slice_add, Nat.add_sub_cancel' hle]
    refine Eq.trans ?_ hcopied
    simp [Upload.after, Upload.copied]
  · exact hregistered.symm ▸ h.matched
  · exact hcurrent.trans h.current
  · exact hresult'.trans h.result
  · exact hend.trans h.endOffset
  · exact heof.trans h.eof
  · intro c hc
    rcases List.mem_append.mp hc with hc | hc
    · exact h.calls c hc
    · obtain rfl := List.mem_singleton.mp hc
      exact ⟨hlen, rfl⟩
  · rintro ⟨c, hc, hempty⟩
    rcases List.mem_append.mp hc with hc | hc
    · -- everything was copied before
      obtain ⟨hseen, hnone, hend⟩ := h.finished ⟨c, hc, hempty⟩
      have hlast := hstreamed.assembled.next_le
        fun p hp => ((h.cover hseen hnone p).mp hp).2
      have hge : s + n ≤ last.offset := by omega
      exact ⟨hseen, hnone, Nat.le_antisymm hlast hge⟩
    · obtain rfl := List.mem_singleton.mp hc
      have hk : k = 0 := by
        have hlength := congrArg List.length (hall.symm.trans hempty)
        rwa [length_slice] at hlength
      have hnot : u.arg.isTransferOffsetReady = false := by
        by_contra hyes
        have hk' := hprogress (Bool.eq_true_of_not_eq_false hyes) hpos
        omega
      obtain ⟨hseen, hnone, hend⟩ := h.finished_of_not_ready hready hnot
      exact ⟨hseen, hnone, by rw [← hend]; exact hoffset.trans (by rw [hk, Nat.add_zero])⟩

/-- A section of a call keeps the invariant. -/
theorem Exact.section {F : ℕ → Byte} {s n bufferLength : ℕ} {u : Upload} {server : ReadServer}
    {ws : WriteSection} (h : Exact F s n u) (hserver : server.Works) (hpos : 0 < bufferLength)
    (hws : Sections server bufferLength .success u.arg u.reads ws) :
    Exact F s n (u.after bufferLength ws) := by
  cases hws with
  | failed _ hfailed => exact absurd h.result hfailed
  | gaveUp _ r hr hfailed _ =>
      rw [hr.recorded, hr.success hserver.malloc hserver.registerRead,
        GridftpOpArg.record_success] at hfailed
      exact absurd h.result hfailed
  | waits _ r hr => exact h.waits hserver hpos hr
  | copied hready _ all last hcopies => exact h.copies hpos hready hcopies

/-- The completion of a read keeps the invariant. -/
theorem Exact.complete {F : ℕ → Byte} {s n id : ℕ} {u : Upload} {c : Completion}
    {arg' : GridftpOpArg} (h : Exact F s n u) (hc : u.Delivers F s n id c)
    (hcompletes : Completes u.arg id c arg') :
    Exact F s n { u with
      arg := arg', reads := u.reads.eraseP (·.id = id), completions := u.completions ++ [c] } := by
  have hlatch : u.arg.result.latch c.result = .success := by rw [h.result, hc.result]; rfl
  have hbound : c.extent.stop < minusOne64 := by
    obtain ⟨r, hr, -, hle⟩ := hc.fits
    have hsmall := h.small r hr
    have hlt := hc.offset_lt
    simp only [Extent.stop, Completion.extent]
    exact Nat.lt_of_lt_of_le (by omega : _ < 2 ^ 63 + 2 ^ 31) (by decide)
  have hends : u.arg.ends c.offset c.data.length = false := by
    have hadd : add64 c.offset c.data.length = c.extent.stop :=
      add64_eq (Nat.lt_trans hbound (by decide))
    rw [GridftpOpArg.ends, h.endOffset, hadd]
    exact decide_eq_false fun hend => Nat.ne_of_lt hbound hend.2
  have heof : (u.arg.eof || (c.eof || u.arg.ends c.offset c.data.length))
      = (u.completions ++ [c]).any Completion.eof := by
    rw [hends, h.eof, eofSeen]
    simp
  have hdelivered : (u.completions ++ [c]).map Completion.extent = u.delivered ++ [c.extent] := by
    simp [delivered]
  have hreads : u.reads ≠ [] := by
    obtain ⟨r, hr, -, -⟩ := hc.fits
    exact List.ne_nil_of_mem hr
  have hsmall : ∀ r ∈ u.reads.eraseP (·.id = id), r.length ≤ 2 ^ 31 - 1 :=
    fun r hr => h.small r (List.mem_of_mem_eraseP hr)
  have hcover : (u.completions ++ [c]).any Completion.eof = true →
      u.reads.eraseP (·.id = id) = [] →
      ∀ p, Covered ((u.completions ++ [c]).map Completion.extent) p ↔ s ≤ p ∧ p < s + n := by
    intro hseen hnone
    rw [hdelivered]
    exact hc.cover (by simpa [eofSeen] using hseen) hnone
  have hfinished : (∃ c ∈ u.calls, c.copied = []) → False :=
    fun hempty => hreads (h.finished hempty).2.1
  cases hcompletes with
  | bad b registered freed hremove hfailed => exact absurd hlatch hfailed
  | empty b registered freed hremove _ hdata =>
      have hstreamed := h.streamed.deliverEmpty (x := c.extent)
        (by rw [Completion.extent, hdata]; rfl) hbound
      rw [← hdelivered] at hstreamed
      exact ⟨hstreamed.congr rfl rfl, h.copied, (h.matched.remove hremove).1, hsmall,
        h.current, hlatch, h.endOffset, heof, h.waiting, hcover, h.calls,
        fun hempty => (hfinished hempty).elim⟩
  | added b registered hremove _ hdata =>
      have hstreamed := h.streamed.addPending (b := b.completed c.data c.offset)
        (List.length_pos_of_ne_nil hdata)
        (fun e he => by
          obtain ⟨d, hd, rfl⟩ := List.mem_map.mp he
          exact hc.apart d hd)
        (by rw [Buffer.data_completed]; exact hc.content) hbound
      rw [show (b.completed c.data c.offset).extent = c.extent from rfl, ← hdelivered] at hstreamed
      exact ⟨hstreamed.congr rfl rfl, h.copied, (h.matched.remove hremove).1, hsmall,
        h.current, hlatch, h.endOffset, heof, h.waiting, hcover, h.calls,
        fun hempty => (hfinished hempty).elim⟩

/-- The offset is not that of the end of a range. -/
theorem Exact.offset_ne {F : ℕ → Byte} {s n : ℕ} (hs : s + n < 2 ^ 63) {u : Upload}
    (h : Exact F s n u) : u.arg.offset ≠ u.arg.endOffset := by
  rw [h.endOffset]
  exact Nat.ne_of_lt (h.streamed.offset_lt
    (Nat.lt_trans (Nat.lt_of_le_of_lt (Nat.le_add_right s n) hs) (by decide)))

/-- A step does what `Steps` says. -/
theorem Exact.steps {F : ℕ → Byte} {s n : ℕ} {u u' : Upload} {action : UploadAction}
    (h : Exact F s n u) (hstep : u.step action = some u') : u.Steps action u' :=
  steps_of_step h.current h.streamed.full hstep

/-- **One step keeps the invariant.** -/
theorem Exact.step {F : ℕ → Byte} {s n : ℕ} (hs : s + n < 2 ^ 63) {u u' : Upload}
    {action : UploadAction} (h : Exact F s n u) (hserves : u.Serves F s n action)
    (hstep : u.step action = some u') : Exact F s n u' := by
  cases h.steps hstep with
  | ended server bufferLength hend => exact absurd hend (h.offset_ne hs)
  | call server bufferLength ws _ hws =>
      obtain ⟨hserver, hpos, -⟩ := hserves
      exact h.section hserver hpos hws
  | wake server bufferLength result ws hwaiting hws =>
      obtain ⟨hpos, rfl⟩ := h.waiting (bufferLength, result) hwaiting
      exact h.section hserves hpos hws
  | complete id c arg' hcompletes => exact h.complete hserves hcompletes

end Upload

/-- **An upload sends the file.** Take an upload of all of a file `F` from `s` on, to which
the server delivers `n` bytes. In every run in which no operation fails, the bytes copied
so far are those of the file up to `offset`, every call copied at most as many bytes as its
buffer holds, and after a call that copied none the file was sent to its end. -/
theorem upload_exact {F : ℕ → Byte} {s n : ℕ} {eof : Bool} {actions : List UploadAction}
    {u : Upload} (hs : s + n < 2 ^ 63)
    (hserves : Guarded.Along Upload.step (Upload.Serves F s n)
      (.start (prepareWriteGridftpOp s minusOne64 eof)) actions)
    (hrun : Guarded.run Upload.step (.start (prepareWriteGridftpOp s minusOne64 eof)) actions
      = some u) :
    s ≤ u.arg.offset ∧ u.copied = slice F s (u.arg.offset - s) ∧
      ∀ c ∈ u.calls, c.copied.length ≤ c.bufferLength ∧ c.result = .success ∧
        (c.copied = [] → u.arg.offset = s + n) := by
  have h := Guarded.invariant (fun _ _ _ hu hP hstep => Upload.Exact.step hs hu hP hstep)
    (Upload.Exact.start F s n eof) hserves hrun
  refine ⟨h.streamed.assembled.le, h.copied, fun c hc => ?_⟩
  obtain ⟨hlen, hresult⟩ := h.calls c hc
  exact ⟨hlen, hresult, fun hempty => (h.finished ⟨c, hc, hempty⟩).2.2⟩

/-- The case of the three bytes `ABC` that arrive in two blocks, the second one first. -/
theorem upload_exact_outOfOrder :
    let F : ℕ → Byte := fun p => UInt8.ofNat (65 + p)
    let server : ReadServer := ⟨2, 2, fun _ => true, fun _ => .success⟩
    let actions : List UploadAction :=
      [.call server 4, .complete 1 ⟨.success, bytes "C", 2, true⟩,
        .complete 0 ⟨.success, bytes "AB", 0, false⟩, .wake server, .call server 4]
    ∃ u, Guarded.run Upload.step (.start (prepareWriteGridftpOp 0 minusOne64 false)) actions
        = some u ∧
      u.calls = [⟨4, .success, bytes "ABC"⟩, ⟨4, .success, []⟩] ∧
      u.copied = slice F 0 u.arg.offset ∧
      ∀ c ∈ u.calls, c.copied.length ≤ c.bufferLength ∧ c.result = .success ∧
        (c.copied = [] → u.arg.offset = 0 + 3) := by
  intro F server actions
  have hworks : server.Works := ⟨by decide, by decide, by decide, fun _ => rfl, fun _ => rfl⟩
  have hcover : ∀ p, Covered [⟨2, 1⟩, ⟨0, 2⟩] p ↔ 0 ≤ p ∧ p < 0 + 3 := by
    intro p
    simp only [covered_cons, Extent.Contains, Extent.stop, not_covered_nil, or_false]
    omega
  have hserves : Guarded.Along Upload.step (Upload.Serves F 0 3)
      (.start (prepareWriteGridftpOp 0 minusOne64 false)) actions := by
    refine Guarded.along_cons ⟨hworks, by decide, by decide⟩ rfl ?_
    refine Guarded.along_cons ?_ rfl (Guarded.along_cons ?_ rfl ?_)
    · exact ⟨rfl, ⟨⟨1, 2⟩, .head _, rfl, by decide⟩, by decide, rfl,
        fun _ hd => absurd hd List.not_mem_nil, by decide, fun _ hnone => absurd hnone (by decide)⟩
    · refine ⟨rfl, ⟨⟨0, 2⟩, .head _, rfl, by decide⟩, by decide, rfl, ?_, by decide,
        fun _ _ => hcover⟩
      intro d hd p hp
      obtain rfl := List.mem_singleton.mp hd
      exact fun hp' => Nat.lt_irrefl p (Nat.lt_of_lt_of_le hp'.2 hp.1)
    · exact ⟨hworks, fun _ _ => ⟨⟨hworks, by decide, by decide⟩, fun _ _ => trivial⟩⟩
  have hcalls : (Guarded.run Upload.step (.start (prepareWriteGridftpOp 0 minusOne64 false))
      actions).map Upload.calls = some [⟨4, .success, bytes "ABC"⟩, ⟨4, .success, []⟩] := by
    decide +kernel
  obtain ⟨u, hrun, hu⟩ := Option.map_eq_some_iff.mp hcalls
  obtain ⟨-, hcopied, hall⟩ := upload_exact (by decide) hserves hrun
  exact ⟨u, hrun, hu, hcopied, hall⟩

end DsiRest
