import DsiRest.BufferLists
import DsiRest.DownloadFlow
import DsiRest.Lib.Simulation
import DsiRest.UploadRange

/-!
# The Memory of the Buffers

A GridFTP operation never gives a buffer back to `malloc` before its end, so its memory is
that of all buffers it ever allocated. A buffer is allocated only while no buffer is free.
In a download every other buffer is then in use and has one of the slots, as long as nothing
is called after a failure. In an upload it is registered, and has a slot, or it is pending
and waits for bytes before its own.

## Main results

* `download_memory` — a download takes no more buffers than there are slots.
* `upload_memory` — an upload takes as many more as there are blocks that arrived too early.
-/

namespace DsiRest

open Reassembly

/-! ### The memory of a list of buffers -/

/-- The memory that `malloc` was asked for. -/
def bytesOf (buffers : List Buffer) : ℕ :=
  (buffers.map fun b => sizeofBuffer + b.bufferLen).sum

@[simp] theorem bytesOf_nil : bytesOf [] = 0 := rfl

@[simp] theorem bytesOf_cons (b : Buffer) (bs : List Buffer) :
    bytesOf (b :: bs) = sizeofBuffer + b.bufferLen + bytesOf bs := by
  simp [bytesOf]

@[simp] theorem bytesOf_append (bs cs : List Buffer) :
    bytesOf (bs ++ cs) = bytesOf bs + bytesOf cs := by
  simp [bytesOf]

theorem bytesOf_perm {bs cs : List Buffer} (h : bs.Perm cs) : bytesOf bs = bytesOf cs :=
  (h.map _).sum_nat

/-- Storing data does not change the size of a buffer. -/
@[simp] theorem Buffer.store_bufferLen (b : Buffer) (start : ℕ) (data : Bytes) :
    (b.store start data).bufferLen = b.bufferLen := rfl

namespace GridftpOpArg

variable {arg arg' : GridftpOpArg} {limit : ℕ}

/-- The memory of the buffers of an operation. -/
def memory (arg : GridftpOpArg) : ℕ :=
  bytesOf arg.buffers

/-- The memory by the places of the buffers. -/
theorem memory_eq (arg : GridftpOpArg) :
    arg.memory = bytesOf arg.currentBuffer.toList + bytesOf arg.pendingBuffers
      + bytesOf arg.registeredBuffers + bytesOf arg.freeBuffers := by
  simp only [memory, buffers, bytesOf_append, Nat.add_assoc]

/-- The buffers that were allocated are in use or free. -/
theorem Linked.allocated_eq (h : Linked arg) :
    arg.allocated = arg.held + arg.freeBuffers.length := by
  have hlength := h.partition.length_eq
  simp only [addresses, buffers, List.map_append, List.length_append, List.length_map,
    List.length_range] at hlength
  rw [held]
  omega

/-- The buffers have at most `limit` bytes on average. -/
def Frugal (limit : ℕ) (arg : GridftpOpArg) : Prop :=
  arg.memory ≤ arg.allocated * (sizeofBuffer + limit)

/-- There is no memory before the first buffer. -/
theorem Frugal.prepare (limit offset endOffset : ℕ) (eof : Bool) :
    Frugal limit (.prepare offset endOffset eof) :=
  Nat.zero_le _

/-- Buffers change their places. -/
theorem Frugal.congr (h : Frugal limit arg) (hmemory : arg'.memory = arg.memory)
    (hallocated : arg'.allocated = arg.allocated) : Frugal limit arg' := by
  rw [Frugal, hmemory, hallocated]
  exact h

/-- A buffer that is supplied has its memory already, or gets at most the limit. -/
theorem Supplies.frugal {size n : ℕ} {b : Buffer} {free : List Buffer} (hsize : size ≤ limit)
    (hb : arg.Supplies size b free n) (h : Frugal limit arg)
    (hmemory : arg'.memory + bytesOf arg.freeBuffers = arg.memory + bytesOf (b :: free))
    (hallocated : arg'.allocated = n) : Frugal limit arg' := by
  rw [Frugal, hallocated]
  rw [Frugal] at h
  cases hb with
  | reused b free hfree =>
      rw [hfree] at hmemory
      omega
  | fresh hfree =>
      rw [hfree, bytesOf_nil, bytesOf_cons, bytesOf_nil] at hmemory
      rw [Nat.add_mul, Nat.one_mul]
      simp only at hmemory
      omega

end GridftpOpArg

open GridftpOpArg

/-- A new buffer is not larger than what both of its sizes allow. -/
theorem newBufferLen_le {size optimalBlocksize limit : ℕ} (hsize : size ≤ limit)
    (hblock : optimalBlocksize ≤ limit) : newBufferLen size optimalBlocksize ≤ limit :=
  (Nat.min_le_left _ _).trans (max_le hsize hblock)

/-! ### Downloads -/

section Download

variable {arg arg' : GridftpOpArg} {limit : ℕ}

/-- Getting a buffer takes at most the memory of one that has the limit. -/
theorem frugal_bufferGet {size optimalBlocksize : ℕ} {malloc : Bool} {buffer : Option Buffer}
    (h : Frugal limit arg) (hsize : size ≤ limit) (hblock : optimalBlocksize ≤ limit)
    (hget : bufferGet arg size optimalBlocksize malloc = (buffer, arg')) : Frugal limit arg' := by
  rcases hcurrent : arg.currentBuffer with _ | b
  · rcases bufferGet_spec hcurrent hget with ⟨-, rfl, -⟩ | ⟨b, free, n, -, hb, rfl⟩
    · exact h
    · refine hb.frugal (newBufferLen_le hsize hblock) h ?_ rfl
      simp only [memory_eq, withBuffers, hcurrent, Option.toList_none, Option.toList_some,
        bytesOf_cons, bytesOf_nil]
      omega
  · rw [bufferGet, hcurrent] at hget
    obtain ⟨-, rfl⟩ := Prod.mk.inj hget
    exact h

/-- A buffer is only allocated while no other one is free. -/
theorem allocated_bufferGet {size optimalBlocksize : ℕ} {malloc : Bool} {buffer : Option Buffer}
    (hget : bufferGet arg size optimalBlocksize malloc = (buffer, arg')) :
    arg'.allocated = arg.allocated ∨ arg'.freeBuffers = [] := by
  rcases hcurrent : arg.currentBuffer with _ | b
  · rcases bufferGet_spec hcurrent hget with ⟨-, rfl, -⟩ | ⟨b, free, n, -, hb, rfl⟩
    · exact .inl rfl
    · cases hb with
      | reused => exact .inl rfl
      | fresh => exact .inr rfl
  · rw [bufferGet, hcurrent] at hget
    obtain ⟨-, rfl⟩ := Prod.mk.inj hget
    exact .inl rfl

/-- Copying into the current buffer takes no memory. -/
theorem memory_fillCurrent {b : Buffer} {data rest : Bytes} (hcurrent : arg.currentBuffer = some b)
    (hfill : arg.fillCurrent b data = some (arg', rest)) :
    arg'.memory = arg.memory ∧ arg'.allocated = arg.allocated ∧ rest.length ≤ data.length := by
  rw [fillCurrent] at hfill
  simp only at hfill
  split_ifs at hfill
  · obtain ⟨rfl, rfl⟩ := Prod.mk.inj (Option.some.inj hfill)
    simp [memory_eq, hcurrent]
  · obtain ⟨rfl, rfl⟩ := Prod.mk.inj (Option.some.inj hfill)
    simp [memory_eq, hcurrent]

/-- Enqueueing the current buffer takes no memory. -/
theorem memory_enqueueCurrent {eof : Bool} (h : Linked arg)
    (henqueue : arg.enqueueCurrent eof = some arg') :
    arg'.memory = arg.memory ∧ arg'.allocated = arg.allocated := by
  rw [enqueueCurrent] at henqueue
  rcases hcurrent : arg.currentBuffer with _ | b
  · rw [hcurrent] at henqueue
    obtain rfl := Option.some.inj henqueue
    exact ⟨rfl, rfl⟩
  · rw [hcurrent] at henqueue
    simp only at henqueue
    split_ifs at henqueue
    · rw [linkPending_of_last h.nodup h.last b] at henqueue
      obtain rfl := Option.some.inj henqueue
      refine ⟨?_, rfl⟩
      simp only [memory_eq, hcurrent, Option.toList_none, Option.toList_some, bytesOf_append,
        bytesOf_nil]
      omega
    · obtain rfl := Option.some.inj henqueue
      exact ⟨rfl, rfl⟩

/-- Sending the pending buffers takes no memory. -/
theorem Sends.memory {registerWrite : ℕ → Result} {i : ℕ} {last : GridftpOpArg} {result : Result}
    {sent : List Write} (h : Sends registerWrite i arg result last sent) :
    last.memory = arg.memory ∧ last.allocated = arg.allocated := by
  induction h with
  | done => exact ⟨rfl, rfl⟩
  | refused => exact ⟨rfl, rfl⟩
  | sent i arg b later result last writes hpending _ ih =>
      refine ⟨ih.1.trans ?_, ih.2⟩
      simp only [memory_eq, GridftpOpArg.sendFirst, hpending, bytesOf_cons]
      omega

/-- The end of a turn takes no memory and no buffer, and it leaves nothing pending unless it
fails. -/
theorem memory_sendCurrent {s : ℕ} {writes registered : List Write} {server : WriteServer}
    {eof : Bool} {result : Result} {sent : List Write} (hlinked : Linked arg)
    (hstored : Stored s arg writes registered)
    (hsend : arg.sendCurrent server eof = some (result, arg', sent)) :
    arg'.memory = arg.memory ∧ arg'.allocated = arg.allocated ∧ arg'.held = arg.held ∧
      (result = .success → arg'.pendingBuffers = []) := by
  obtain ⟨full, henqueue, hloop⟩ := Option.map_eq_some_iff.mp hsend
  have hsends : Sends server.registerWrite 0 full _ _ _ :=
    sends_of_loop server.registerWrite 0 rfl
  rw [hloop] at hsends
  obtain ⟨hmemory, hallocated⟩ := memory_enqueueCurrent hlinked henqueue
  exact ⟨hsends.memory.1.trans hmemory, hsends.memory.2.trans hallocated,
    hsends.held.trans (held_enqueueCurrent hstored henqueue), hsends.pending_eq_nil⟩

/-- The completion of a write takes no memory. -/
theorem memory_writeCallback (arg : GridftpOpArg) (result : Result) (id : ℕ) :
    (gridftpWriteCallback arg result id).memory = arg.memory ∧
      (gridftpWriteCallback arg result id).allocated = arg.allocated := by
  rcases hremove : removeBuffer id arg.registeredBuffers with _ | ⟨b, left⟩
  · rw [gridftpWriteCallback, hremove]
    exact ⟨rfl, rfl⟩
  · rw [gridftpWriteCallback_of_remove result hremove]
    refine ⟨?_, rfl⟩
    have hbytes := bytesOf_perm (removeBuffer_perm hremove)
    simp only [memory_eq, GridftpOpArg.release, bytesOf_cons] at hbytes ⊢
    omega

end Download

namespace Download

/-- What is assumed of the surroundings of a download: its chunks and blocks keep to the
limit, the concurrency to the number of slots, and no chunk arrives after a call failed. -/
def Spares (slots limit : ℕ) (d : Download) : DownloadAction → Prop
  | .call chunk => chunk ≠ [] → chunk.length ≤ limit ∧ d.AllSucceed
  | .turn server => server.optimalConcurrency ≤ slots ∧ server.optimalBlocksize ≤ limit
  | .complete _ _ => True

instance (slots limit : ℕ) (d : Download) : ∀ action, Decidable (d.Spares slots limit action)
  | .call chunk => inferInstanceAs (Decidable (chunk ≠ [] → chunk.length ≤ limit ∧
      ∀ c ∈ d.calls, c.result = .success))
  | .turn server => inferInstanceAs (Decidable (server.optimalConcurrency ≤ slots ∧
      server.optimalBlocksize ≤ limit))
  | .complete _ _ => isTrue trivial

/-- The invariant of the memory: the buffers in use have a slot each, and so had all buffers
when the last one was allocated. -/
structure Bounded (slots limit : ℕ) (d : Download) : Prop where
  linked : Linked d.arg
  frugal : Frugal limit d.arg
  held : d.arg.held ≤ slots
  allocated : d.arg.allocated ≤ slots
  rest : d.reader.rest.length ≤ limit
  slot : ∀ chunk rest n, d.reader = .slot chunk rest n → n ≤ slots
  calls : d.reader.rest ≠ [] → d.AllSucceed
  pending : d.AllSucceed → (∀ e, d.reader ≠ .drain (.error e)) → d.arg.pendingBuffers = []

/-- There are no buffers at first. -/
theorem Bounded.start (slots limit s length : ℕ) :
    Bounded slots limit (.start (prepareReadGridftpOp s length)) where
  linked := Linked.prepare _ _ _
  frugal := Frugal.prepare _ _ _ _
  held := Nat.zero_le _
  allocated := Nat.zero_le _
  rest := Nat.zero_le _
  slot := fun _ _ _ hreader => absurd hreader (by simp [Download.start])
  calls := fun hrest => absurd rfl hrest
  pending := fun _ _ => rfl

variable {s slots limit : ℕ} {d d' : Download}

/-- The calls all succeeded if they did with one more. -/
theorem AllSucceed.of_returned {chunk : Bytes} {result : Result}
    (h : (d.returned chunk result).AllSucceed) : d.AllSucceed ∧ result = .success :=
  ⟨fun c hc => h c (List.mem_append_left _ hc),
    h ⟨chunk, result⟩ (List.mem_append_right _ (List.mem_singleton.mpr rfl))⟩

/-- **A turn for a chunk** takes a buffer into use only for a free slot. -/
theorem Bounded.chunkTurn {server : WriteServer} {n : ℕ} {chunk rest : Bytes}
    (h : Bounded slots limit d) (hsound : Sound s d) (hn : n ≤ slots)
    (hblock : server.optimalBlocksize ≤ limit) (hrest : rest ≠ []) (hlimit : rest.length ≤ limit)
    (hsucceed : d.AllSucceed) (hdrain : ∀ e, d.reader ≠ .drain (.error e))
    (hturn : d.chunkTurn server n chunk rest = some d') : Bounded slots limit d' := by
  have hnone : d.arg.pendingBuffers = [] := h.pending hsucceed hdrain
  rw [Download.chunkTurn] at hturn
  split_ifs at hturn with hfull
  · obtain rfl := Option.some.inj hturn
    refine ⟨h.linked, h.frugal, h.held, h.allocated, hlimit, fun _ _ m hreader => ?_,
      fun _ => hsucceed, fun _ _ => hnone⟩
    obtain ⟨-, -, rfl⟩ := Reader.slot.inj hreader
    exact hn
  rcases hget : bufferGet d.arg rest.length server.optimalBlocksize server.malloc with
    ⟨_ | b, arg₁⟩
  · -- `malloc` fails, so nothing was changed
    rw [hget] at hturn
    obtain rfl := Option.some.inj hturn
    rcases hcurrent : d.arg.currentBuffer with _ | b
    · rcases bufferGet_spec hcurrent hget with ⟨-, rfl, -⟩ | ⟨b, _, _, hb, -, -⟩
      · exact ⟨h.linked.congr rfl rfl rfl rfl, h.frugal, h.held, h.allocated, Nat.zero_le _,
          fun _ _ _ hreader => absurd hreader (by simp [returned]), fun hne => absurd rfl hne,
          fun _ _ => hnone⟩
      · exact absurd hb (by simp)
    · rw [bufferGet, hcurrent] at hget
      exact absurd (congrArg Prod.fst hget) (by simp)
  · rw [hget] at hturn
    obtain ⟨⟨arg₂, left⟩, hfill, hturn⟩ := Option.bind_eq_some_iff.mp hturn
    obtain ⟨⟨result, arg₃, sent⟩, hsend, hturn⟩ := Option.bind_eq_some_iff.mp hturn
    obtain ⟨hstored₁, -, hcurrent, hroom⟩ :=
      hsound.stored.get hsound.partly (List.length_pos_of_ne_nil hrest) hget
    obtain ⟨hstored₂, -, -⟩ := hstored₁.fill hcurrent hroom hfill
    have hlinked₁ := (linked_bufferGet h.linked hget).1
    have hlinked₂ := linked_fillCurrent hlinked₁ hcurrent hfill
    obtain ⟨hmemory₂, hallocated₂, hshorter⟩ := memory_fillCurrent hcurrent hfill
    obtain ⟨hmemory₃, hallocated₃, hheld₃, hpending⟩ := memory_sendCurrent hlinked₂ hstored₂ hsend
    have hlinked₃ := linked_sendCurrent hlinked₂ hsend
    have hfrugal₃ : Frugal limit arg₃ :=
      (frugal_bufferGet h.frugal hlimit hblock hget).congr (hmemory₃.trans hmemory₂)
        (hallocated₃.trans hallocated₂)
    have hheld₂ := GridftpOpArg.held_fillCurrent hcurrent hfill
    -- without a current buffer there is a free slot for the one that is taken
    have hslot : arg₁.held ≤ slots := by
      have htaken := GridftpOpArg.held_bufferGet hget
      have hcount : d.arg.registeredBuffersCount = d.arg.registeredBuffers.length := by
        rw [hsound.stored.count, hsound.stored.matched.length_eq]
      have hbefore := h.held
      have hempty := congrArg List.length hnone
      simp only [GridftpOpArg.held, List.length_nil] at htaken hbefore hempty ⊢
      omega
    have hall : arg₃.allocated ≤ slots := by
      rw [hallocated₃, hallocated₂]
      rcases allocated_bufferGet hget with hsame | hfree
      · exact hsame.trans_le h.allocated
      · rw [hlinked₁.allocated_eq, hfree, List.length_nil, Nat.add_zero]
        exact hslot
    have hheld : arg₃.held ≤ slots := (hheld₃.trans hheld₂).trans_le hslot
    simp only at hturn
    split_ifs at hturn with hgoes
    · obtain rfl := Option.some.inj hturn
      exact ⟨hlinked₃, hfrugal₃, hheld, hall, hshorter.trans hlimit,
        fun _ _ _ hreader => absurd hreader (by simp), fun _ => hsucceed,
        fun _ _ => hpending hgoes.1⟩
    · obtain rfl := Option.some.inj hturn
      exact ⟨hlinked₃, hfrugal₃, hheld, hall, Nat.zero_le _,
        fun _ _ _ hreader => absurd hreader (by simp [returned]), fun hne => absurd rfl hne,
        fun hsucceeded _ => hpending hsucceeded.of_returned.2⟩

/-- **One step keeps the bound.** -/
theorem Bounded.step {action : DownloadAction} (h : Bounded slots limit d) (hsound : Sound s d)
    (hspares : d.Spares slots limit action) (hstep : d.step action = some d') :
    Bounded slots limit d' := by
  have hinside := hsound.inside
  cases action with
  | call chunk =>
      rw [Download.step] at hstep
      split_ifs at hstep with hidle hempty
      · obtain rfl := Option.some.inj hstep
        exact ⟨h.linked, h.frugal, h.held, h.allocated, Nat.zero_le _,
          fun _ _ _ hreader => absurd hreader (by simp), fun hne => absurd rfl hne,
          fun hsucceed _ => h.pending hsucceed (by simp [hidle.1])⟩
      · obtain rfl := Option.some.inj hstep
        obtain ⟨hlength, hsucceed⟩ := hspares hempty
        exact ⟨h.linked, h.frugal, h.held, h.allocated, hlength,
          fun _ _ _ hreader => absurd hreader (by simp), fun _ => hsucceed,
          fun _ _ => h.pending hsucceed (by simp [hidle.1])⟩
  | turn server =>
      obtain ⟨hconcurrency, hblock⟩ := hspares
      have hrest := h.rest
      have hcalls := h.calls
      rw [Download.step] at hstep
      split at hstep
      case h_1 => cases hstep
      case h_2 chunk rest hreader =>
        rw [hreader] at hinside hrest hcalls
        exact h.chunkTurn hsound hconcurrency hblock hinside.2 hrest (hcalls hinside.2)
          (by simp [hreader]) hstep
      case h_3 chunk rest n hreader =>
        rw [hreader] at hinside hrest hcalls
        exact h.chunkTurn hsound (h.slot chunk rest n hreader) hblock hinside.2 hrest
          (hcalls hinside.2) (by simp [hreader]) hstep
      case h_4 hreader =>
        obtain ⟨⟨result, arg, sent⟩, hsend, rfl⟩ := Option.map_eq_some_iff.mp hstep
        obtain ⟨hmemory, hallocated, hheld, hpending⟩ :=
          memory_sendCurrent h.linked hsound.stored hsend
        refine ⟨linked_sendCurrent h.linked hsend, h.frugal.congr hmemory hallocated,
          hheld.trans_le h.held, hallocated.trans_le h.allocated, Nat.zero_le _,
          fun _ _ _ hslot => absurd hslot (by simp), fun hne => absurd rfl hne,
          fun _ hdrain => hpending ?_⟩
        cases result with
        | success => rfl
        | error e => exact absurd rfl (hdrain e)
      case h_5 result hreader =>
        split_ifs at hstep
        · obtain rfl := Option.some.inj hstep
          exact h
        · obtain rfl := Option.some.inj hstep
          refine ⟨h.linked, h.frugal, h.held, h.allocated, Nat.zero_le _,
            fun _ _ _ hslot => absurd hslot (by simp [returned]), fun hne => absurd rfl hne,
            fun hsucceed _ => ?_⟩
          obtain ⟨hbefore, rfl⟩ := hsucceed.of_returned
          exact h.pending hbefore (by simp [hreader])
  | complete id result =>
      rw [Download.step] at hstep
      split_ifs at hstep
      obtain ⟨w, -, rfl⟩ := Option.map_eq_some_iff.mp hstep
      obtain ⟨hheld, hpending⟩ := held_writeCallback d.arg result id
      obtain ⟨hmemory, hallocated⟩ := memory_writeCallback d.arg result id
      exact ⟨linked_writeCallback h.linked result id, h.frugal.congr hmemory hallocated,
        hheld.trans h.held, hallocated.trans_le h.allocated, h.rest, h.slot, h.calls,
        fun hsucceed hdrain => hpending.trans (h.pending hsucceed hdrain)⟩

end Download

/-- **The memory of a download.** In every run whose concurrency is at most `slots`, and in
which no chunk arrives after a failed call, at most `slots` buffers are allocated. They take
at most the memory of as many buffers of the largest chunk or block. -/
theorem download_memory {s length slots limit : ℕ} {actions : List DownloadAction} {d : Download}
    (hs : s < word)
    (hspares : Guarded.Along Download.step (Download.Spares slots limit)
      (.start (prepareReadGridftpOp s length)) actions)
    (hrun : Guarded.run Download.step (.start (prepareReadGridftpOp s length)) actions = some d) :
    d.arg.allocated ≤ slots ∧ d.arg.memory ≤ slots * (sizeofBuffer + limit) := by
  obtain ⟨-, h⟩ := Guarded.invariant
    (I := fun d => Download.Sound s d ∧ d.Bounded slots limit)
    (fun _ _ _ hd hP hstep => ⟨hd.1.step hstep, hd.2.step hd.1 hP hstep⟩)
    ⟨Download.Sound.start hs, Download.Bounded.start slots limit s length⟩ hspares hrun
  exact ⟨h.allocated, h.frugal.trans (Nat.mul_le_mul_right _ h.allocated)⟩

/-- The case of the three bytes `ABC` in two chunks, buffers of two bytes and one slot: the
second buffer is the first one again. -/
theorem download_memory_twoChunks :
    let server : WriteServer := ⟨2, 1, true, fun _ => .success⟩
    let actions : List DownloadAction :=
      [.call (bytes "AB"), .turn server, .call (bytes "C"), .turn server, .complete 0 .success,
        .turn server, .call [], .turn server]
    ∃ d, Guarded.run Download.step (.start (prepareReadGridftpOp 0 minusOne64)) actions = some d ∧
      writtenBytes d.registered = bytes "ABC" ∧ d.arg.allocated ≤ 1 ∧
      d.arg.memory ≤ 1 * (sizeofBuffer + 2) := by
  intro server actions
  have hspares : Guarded.Along Download.step (Download.Spares 1 2)
      (.start (prepareReadGridftpOp 0 minusOne64)) actions := by
    decide +kernel
  have hend : (Guarded.run Download.step (.start (prepareReadGridftpOp 0 minusOne64)) actions).map
      (fun d => writtenBytes d.registered) = some (bytes "ABC") := by
    decide +kernel
  obtain ⟨d, hrun, hwritten⟩ := Option.map_eq_some_iff.mp hend
  exact ⟨d, hrun, hwritten, download_memory (by decide) hspares hrun⟩

/-! ### Uploads -/

/-- Registering reads takes at most the memory of buffers that have the limit. -/
theorem Registers.frugal {limit : ℕ} {server : ReadServer} {turns i bytesRegistered : ℕ}
    {arg : GridftpOpArg} {reads : List Read} {r : Registering}
    (h : Registers server turns i arg reads bytesRegistered r)
    (hblock : server.optimalBlocksize ≤ limit) (hfrugal : Frugal limit arg) :
    Frugal limit r.arg := by
  induction h with
  | done | usedUp | noMemory => exact hfrugal
  | refused turns i arg reads bytesRegistered b free n e hb _ =>
      refine hb.frugal (newBufferLen_le hblock hblock) hfrugal ?_ rfl
      simp only [memory_eq, withBuffers, bytesOf_cons, Buffer.registered]
      omega
  | registered turns i arg reads bytesRegistered b free n thisRead later hb _ _ _ _ ih =>
      refine ih (hb.frugal (newBufferLen_le hblock hblock) hfrugal ?_ rfl)
      simp only [memory_eq, withBuffers, bytesOf_cons, Buffer.registered]
      omega

/-- Registering reads allocates a buffer only if those that are not pending are registered,
and a slot is left. -/
theorem Registers.allocated_le {slots bound : ℕ} {server : ReadServer}
    {turns i bytesRegistered : ℕ} {arg : GridftpOpArg} {reads : List Read} {r : Registering}
    (h : Registers server turns i arg reads bytesRegistered r)
    (hcurrent : arg.currentBuffer = none)
    (hparts : arg.allocated = arg.held + arg.freeBuffers.length)
    (hturns : turns ≤ slots - arg.registeredBuffers.length)
    (hbound : slots + arg.pendingBuffers.length ≤ bound) (hle : arg.allocated ≤ bound) :
    r.arg.allocated ≤ bound := by
  induction h with
  | done | usedUp | noMemory => exact hle
  | refused turns i arg reads bytesRegistered b free n e hb _ =>
      cases hb with
      | reused => exact hle
      | fresh hfree =>
          simp only [held, hcurrent, hfree, Option.toList_none, List.length_nil] at hparts
          simp only [withBuffers]
          omega
  | registered turns i arg reads bytesRegistered b free n thisRead later hb _ _ _ _ ih =>
      have htaken : n + arg.freeBuffers.length = arg.allocated + free.length + 1 := by
        cases hb with
        | reused b free hfree => rw [hfree, List.length_cons, Nat.add_assoc]
        | fresh hfree => rw [hfree, List.length_nil]
      refine ih hcurrent ?_ ?_ hbound ?_
      · simp only [held, withBuffers, List.length_cons] at hparts ⊢
        omega
      · simp only [withBuffers, List.length_cons]
        omega
      · cases hb with
        | reused => exact hle
        | fresh hfree =>
            simp only [held, hcurrent, hfree, Option.toList_none, List.length_nil] at hparts
            simp only [withBuffers]
            omega

/-- Copying out of the pending buffers takes no memory. -/
theorem Copies.memory {bufferLength : ℕ} {arg last : GridftpOpArg} {filled all : Bytes}
    (h : Copies bufferLength arg filled all last) :
    last.memory = arg.memory ∧ last.allocated = arg.allocated := by
  induction h with
  | done => exact ⟨rfl, rfl⟩
  | part arg filled b later k all last hpending _ _ _ _ _ ih =>
      refine ⟨ih.1.trans ?_, ih.2⟩
      simp only [memory_eq, copyPart, hpending, bytesOf_cons, Buffer.consumed,
        Buffer.store_bufferLen]
  | whole arg filled b later all last hpending _ _ _ _ ih =>
      refine ⟨ih.1.trans ?_, ih.2⟩
      simp only [memory_eq, copyWhole, hpending, bytesOf_cons, Buffer.emptied]
      omega

/-- The completion of a read takes no memory. -/
theorem memory_readCallback {arg arg' : GridftpOpArg} {result : Result} {id : ℕ} {data : Bytes}
    {offset : ℕ} {eof signal : Bool}
    (h : gridftpReadCallback arg result id data offset eof = some (arg', signal)) :
    arg'.memory = arg.memory ∧ arg'.allocated = arg.allocated := by
  rw [gridftpReadCallback] at h
  simp only at h
  split at h
  case h_1 => cases h
  case h_2 b left hremove =>
    have hbytes : bytesOf (b :: left) = bytesOf arg.registeredBuffers :=
      bytesOf_perm (removeBuffer_perm hremove)
    split_ifs at h with hfailed hempty
    · obtain ⟨rfl, -⟩ := Prod.mk.inj (Option.some.inj h)
      refine ⟨?_, rfl⟩
      simp only [memory_eq, note, bytesOf_cons, Buffer.store_bufferLen] at hbytes ⊢
      omega
    · obtain ⟨rfl, -⟩ := Prod.mk.inj (Option.some.inj h)
      refine ⟨?_, rfl⟩
      simp only [memory_eq, note, bytesOf_cons, Buffer.store_bufferLen] at hbytes ⊢
      omega
    · obtain ⟨rfl, -⟩ := Prod.mk.inj (Option.some.inj h)
      refine ⟨?_, rfl⟩
      have hpending := congrArg bytesOf (List.takeWhile_append_dropWhile
        (p := fun tmp : Buffer => decide (tmp.transferEnd ≤ offset)) (l := arg.pendingBuffers))
      simp only [memory_eq, addPending, note, bytesOf_append, bytesOf_cons,
        Buffer.store_bufferLen] at hbytes hpending ⊢
      omega

namespace Upload

/-- What is assumed of the server of an upload: its blocks keep to the limit, and the
concurrency to the number of slots. -/
def Limits (slots limit : ℕ) (_ : Upload) : UploadAction → Prop
  | .call server _ | .wake server =>
    server.optimalConcurrency ≤ slots ∧ server.optimalBlocksize ≤ limit
  | .complete _ _ => True

instance (slots limit : ℕ) (u : Upload) : ∀ action, Decidable (u.Limits slots limit action)
  | .call server _ | .wake server => inferInstanceAs (Decidable (server.optimalConcurrency ≤ slots ∧
      server.optimalBlocksize ≤ limit))
  | .complete _ _ => isTrue trivial

/-- While the next bytes are missing, at most `early` blocks are there already. -/
def Behind (early : ℕ) (u : Upload) : UploadAction → Prop
  | .call _ _ | .wake _ =>
    u.arg.isTransferOffsetReady = false → u.arg.pendingBuffers.length ≤ early
  | .complete _ _ => True

/-- The invariant of the memory. -/
structure Bounded (slots early limit : ℕ) (u : Upload) : Prop where
  tracked : Tracked u
  linked : Linked u.arg
  frugal : Frugal limit u.arg
  allocated : u.arg.allocated ≤ slots + early

/-- There are no buffers at first. -/
theorem Bounded.start (slots early limit offset length : ℕ) (eof : Bool) :
    Bounded slots early limit (start (prepareWriteGridftpOp offset length eof)) :=
  ⟨Tracked.start offset length eof, Linked.prepare _ _ _, Frugal.prepare _ _ _ _, Nat.zero_le _⟩

variable {s slots early limit : ℕ} {u u' : Upload}

/-- A section of a call keeps the bound. -/
theorem Bounded.section {server : ReadServer} {bufferLength : ℕ} {result : Result}
    {ws : WriteSection} (h : Bounded slots early limit u)
    (hslots : server.optimalConcurrency ≤ slots) (hblock : server.optimalBlocksize ≤ limit)
    (hearly : u.arg.isTransferOffsetReady = false → u.arg.pendingBuffers.length ≤ early)
    (hws : Sections server bufferLength result u.arg u.reads ws) :
    Frugal limit ws.arg ∧ ws.arg.allocated ≤ slots + early := by
  have hregisters : ∀ {r : Registering}, u.arg.isTransferOffsetReady = false →
      RegistersReads server u.arg u.reads r →
      Frugal limit (r.arg.record r.result) ∧
        (r.arg.record r.result).allocated ≤ slots + early := by
    intro r hready hr
    cases hr with
    | useless => exact ⟨h.frugal, h.allocated⟩
    | useful r _ _ hr =>
        refine ⟨(hr.frugal hblock h.frugal).congr rfl rfl, ?_⟩
        exact hr.allocated_le h.tracked.current h.linked.allocated_eq
          (Nat.sub_le_sub_right hslots _) (Nat.add_le_add_left (hearly hready) _) h.allocated
  cases hws with
  | failed => exact ⟨h.frugal, h.allocated⟩
  | copied _ _ all last hcopies =>
      obtain ⟨hmemory, hallocated⟩ := hcopies.memory
      exact ⟨h.frugal.congr hmemory hallocated, hallocated.trans_le h.allocated⟩
  | gaveUp hready r hr | waits hready r hr =>
      exact hregisters (Bool.or_eq_false_iff.mp hready).1 hr

/-- **One step keeps the bound.** -/
theorem Bounded.step {action : UploadAction} (h : Bounded slots early limit u)
    (hlimits : u.Limits slots limit action) (hbehind : u.Behind early action)
    (hstep : u.step action = some u') : Bounded slots early limit u' := by
  have hkept : Frugal limit u'.arg ∧ u'.arg.allocated ≤ slots + early := by
    cases steps_of_step h.tracked.current h.tracked.full hstep with
    | ended server bufferLength _ =>
        rw [after_arg]
        exact ⟨h.frugal.congr rfl rfl, h.allocated⟩
    | call server bufferLength ws _ hws | wake server bufferLength result ws _ hws =>
        rw [after_arg]
        exact h.section hlimits.1 hlimits.2 hbehind hws
    | complete id c arg' hcompletes =>
        rw [Upload.step] at hstep
        split_ifs at hstep
        obtain ⟨⟨arg'', signal⟩, hcallback, heq⟩ := Option.map_eq_some_iff.mp hstep
        have harg : arg'' = arg' := congrArg Upload.arg heq
        obtain ⟨hmemory, hallocated⟩ := memory_readCallback (harg ▸ hcallback)
        exact ⟨h.frugal.congr hmemory hallocated, hallocated.trans_le h.allocated⟩
  exact ⟨h.tracked.step hstep, step_linked h.tracked h.linked hstep, hkept.1, hkept.2⟩

/-- The blocks arrive in the order of the file, from `s` on. -/
def ArrivesInOrder (s : ℕ) (u : Upload) : UploadAction → Prop
  | .complete _ c => c.data ≠ [] → c.offset = s + u.received ∧ c.offset + c.data.length < word
  | _ => True

instance (s : ℕ) (u : Upload) : ∀ action, Decidable (u.ArrivesInOrder s action)
  | .call _ _ | .wake _ => isTrue trivial
  | .complete _ c => inferInstanceAs (Decidable (c.data ≠ [] →
      c.offset = s + u.received ∧ c.offset + c.data.length < word))

/-- What is pending is one piece of the file then, and ready. -/
structure Sequential (s : ℕ) (u : Upload) : Prop where
  tracked : Tracked u
  inOrder : InOrder u.arg
  position : u.arg.result = .success → u.arg.offset + u.arg.pendingBytes = s + u.received
  within : u.arg.offset + u.arg.pendingBytes < word

/-- Nothing is pending at first. -/
theorem Sequential.start {s : ℕ} (hs : s < word) (length : ℕ) (eof : Bool) :
    Sequential s (start (prepareWriteGridftpOp s length eof)) where
  tracked := Tracked.start s length eof
  inOrder := ⟨trivial, by simp [Upload.start, prepareWriteGridftpOp, GridftpOpArg.prepare]⟩
  position := fun _ => rfl
  within := hs

/-- A section of a call keeps what is pending one piece. -/
theorem Sequential.section {server : ReadServer} {bufferLength : ℕ} {result : Result}
    {ws : WriteSection} (h : Sequential s u)
    (hws : Sections server bufferLength result u.arg u.reads ws) :
    InOrder ws.arg ∧ ws.arg.offset + ws.arg.pendingBytes = u.arg.offset + u.arg.pendingBytes ∧
      (ws.arg.result = .success → u.arg.result = .success) := by
  cases hws with
  | failed => exact ⟨h.inOrder, rfl, id⟩
  | copied _ hresult all last hcopies =>
      obtain ⟨hinOrder, -, hsame⟩ := hcopies.inOrder h.inOrder h.within
      exact ⟨hinOrder, hsame, fun _ => hresult⟩
  | gaveUp _ r hr | waits _ r hr =>
      rw [hr.recorded]
      exact ⟨⟨h.inOrder.contiguous, h.inOrder.full⟩, rfl,
        fun hsuccess => (Result.latch_eq_success.mp hsuccess).1⟩

/-- The completion of a read in order keeps what is pending one piece. -/
theorem Sequential.complete {id : ℕ} {c : Completion} {arg' : GridftpOpArg}
    (h : Sequential s u) (hc : u.ArrivesInOrder s (.complete id c))
    (hcompletes : Completes u.arg id c arg') :
    InOrder arg' ∧ (arg'.result = .success →
        arg'.offset + arg'.pendingBytes = s + (u.received + c.data.length)) ∧
      arg'.offset + arg'.pendingBytes < word := by
  cases hcompletes with
  | bad b registered freed hremove hfailed =>
      exact ⟨⟨h.inOrder.contiguous, h.inOrder.full⟩, fun hresult => absurd hresult hfailed, h.within⟩
  | empty b registered freed hremove hresult hdata =>
      refine ⟨⟨h.inOrder.contiguous, h.inOrder.full⟩, fun _ => ?_, h.within⟩
      rw [hdata]
      exact h.position (Result.latch_eq_success.mp hresult).1
  | added b registered hremove hresult hdata =>
      have hposition := h.position (Result.latch_eq_success.mp hresult).1
      obtain ⟨hoffset, hlt⟩ := hc hdata
      set base := (u.arg.note c.result c.eof (u.arg.ends c.offset c.data.length)).withBuffers
        registered u.arg.freeBuffers u.arg.allocated
      have hbase : InOrder base := ⟨h.inOrder.contiguous, h.inOrder.full⟩
      obtain ⟨hinOrder, hbytes⟩ := hbase.addPending (b := b.completed c.data c.offset) h.within
        (hoffset.trans hposition.symm) (List.length_pos_of_ne_nil hdata)
        (b.completed_le c.data c.offset)
      have hsame : (base.addPending (b.completed c.data c.offset)).offset
          + (base.addPending (b.completed c.data c.offset)).pendingBytes
          = s + (u.received + c.data.length) := by
        rw [hbytes, ← Nat.add_assoc, ← Nat.add_assoc, ← hposition]
        rfl
      refine ⟨hinOrder, fun _ => hsame, ?_⟩
      rw [hsame, ← Nat.add_assoc, ← hoffset]
      exact hlt

/-- The bytes received so far do not change in a section of a call. -/
@[simp] theorem after_received (u : Upload) (bufferLength : ℕ) (ws : WriteSection) :
    (u.after bufferLength ws).received = u.received := by
  rw [after]
  split <;> rfl

/-- **One step keeps what is pending one piece.** -/
theorem Sequential.step {action : UploadAction} (h : Sequential s u)
    (harrives : u.ArrivesInOrder s action) (hstep : u.step action = some u') :
    Sequential s u' := by
  have htracked := h.tracked.step hstep
  cases steps_of_step h.tracked.current h.tracked.full hstep with
  | ended server bufferLength _ =>
      exact ⟨htracked, ⟨h.inOrder.contiguous, h.inOrder.full⟩, h.position, h.within⟩
  | call server bufferLength ws _ hws | wake server bufferLength result ws _ hws =>
      obtain ⟨hinOrder, hsame, hresult⟩ := h.section hws
      refine ⟨htracked, ?_, ?_, ?_⟩
      · rwa [after_arg]
      · rw [after_arg, after_received, hsame]
        exact fun hsuccess => h.position (hresult hsuccess)
      · rw [after_arg, hsame]
        exact h.within
  | complete id c arg' hcompletes =>
      obtain ⟨hinOrder, hposition, hwithin⟩ := h.complete harrives hcompletes
      refine ⟨htracked, hinOrder, ?_, hwithin⟩
      have hreceived : ((u.completions ++ [c]).map fun c => c.data.length).sum
          = u.received + c.data.length := by
        simp [received]
      rw [received, hreceived]
      exact hposition

/-- No block is there before its time then. -/
theorem Sequential.behind (h : Sequential s u) (action : UploadAction) : u.Behind 0 action := by
  cases action with
  | call | wake =>
      intro hready
      rw [h.inOrder.pending_eq_nil hready]
      exact Nat.le_refl _
  | complete => trivial

end Upload

/-- **The memory of an upload.** In every run whose concurrency is at most `slots`, at most
`slots + early` buffers are allocated, if at most `early` blocks are ever there while bytes
before them are missing. If the blocks arrive in the order of the file, `slots` buffers are
enough. -/
theorem upload_memory {s length slots limit : ℕ} {eof : Bool} {actions : List UploadAction}
    {u : Upload} (hs : s < word)
    (hlimits : Guarded.Along Upload.step (Upload.Limits slots limit)
      (.start (prepareWriteGridftpOp s length eof)) actions)
    (hrun : Guarded.run Upload.step (.start (prepareWriteGridftpOp s length eof)) actions
      = some u) :
    (∀ early, Guarded.Along Upload.step (Upload.Behind early)
        (.start (prepareWriteGridftpOp s length eof)) actions →
      u.arg.allocated ≤ slots + early ∧
        u.arg.memory ≤ (slots + early) * (sizeofBuffer + limit)) ∧
    (Guarded.Along Upload.step (Upload.ArrivesInOrder s)
        (.start (prepareWriteGridftpOp s length eof)) actions →
      u.arg.allocated ≤ slots ∧ u.arg.memory ≤ slots * (sizeofBuffer + limit)) := by
  have hbounded : ∀ early, Guarded.Along Upload.step (Upload.Behind early)
        (.start (prepareWriteGridftpOp s length eof)) actions →
      u.arg.allocated ≤ slots + early ∧
        u.arg.memory ≤ (slots + early) * (sizeofBuffer + limit) := by
    intro early hbehind
    have h : Upload.Bounded slots early limit u :=
      Guarded.invariant (fun _ _ _ hu hP hstep => hu.step hP.1 hP.2 hstep)
        (Upload.Bounded.start slots early limit s length eof) (hlimits.and hbehind) hrun
    exact ⟨h.allocated, h.frugal.trans (Nat.mul_le_mul_right _ h.allocated)⟩
  refine ⟨hbounded, fun harrives => hbounded 0 ?_⟩
  exact Guarded.Along.imp (I := Upload.Sequential s) (P := fun _ _ => True)
    (fun _ _ _ hu hG hstep => hu.step hG hstep) (fun _ action _ hu _ _ _ => hu.behind action)
    (Upload.Sequential.start hs length eof) harrives hrun
    (Guarded.Along.of_forall (fun _ _ => trivial) _ _)

/-- The case of two blocks in their order and two slots: the third read gets the first
buffer. -/
theorem upload_memory_twoBlocks :
    let server : ReadServer := ⟨2, 2, fun _ => true, fun _ => .success⟩
    let actions : List UploadAction :=
      [.call server 2, .complete 0 ⟨.success, bytes "AB", 0, false⟩, .wake server,
        .complete 1 ⟨.success, bytes "CD", 2, false⟩, .call server 2, .call server 2]
    ∃ u, Guarded.run Upload.step (.start (prepareWriteGridftpOp 0 minusOne64 false)) actions
        = some u ∧ u.copied = bytes "ABCD" ∧ u.arg.allocated ≤ 2 ∧
      u.arg.memory ≤ 2 * (sizeofBuffer + 2) := by
  intro server actions
  have hlimits : Guarded.Along Upload.step (Upload.Limits 2 2)
      (.start (prepareWriteGridftpOp 0 minusOne64 false)) actions := by
    decide +kernel
  have harrives : Guarded.Along Upload.step (Upload.ArrivesInOrder 0)
      (.start (prepareWriteGridftpOp 0 minusOne64 false)) actions := by
    decide +kernel
  have hend : (Guarded.run Upload.step (.start (prepareWriteGridftpOp 0 minusOne64 false))
      actions).map Upload.copied = some (bytes "ABCD") := by
    decide +kernel
  obtain ⟨u, hrun, hcopied⟩ := Option.map_eq_some_iff.mp hend
  exact ⟨u, hrun, hcopied, (upload_memory (by decide) hlimits hrun).2 harrives⟩

/-! ### Blocks that arrive too early -/

namespace Upload

/-- A server with two slots and blocks of one byte. -/
def twoSlots : ReadServer :=
  ⟨1, 2, fun _ => true, fun _ => .success⟩

/-- The block of the file at position `k`. -/
def blockAt (F : ℕ → Byte) (k : ℕ) : Completion :=
  ⟨.success, slice F k 1, k, false⟩

/-- The state of an upload whose first block did not arrive, and the next `k` blocks did; the
buffers `ids` are registered. -/
structure Delayed (ids : List ℕ) (k : ℕ) (u : Upload) : Prop where
  waiting : u.waiting = some (1, .success)
  reads : u.reads = ids.map (Read.mk · 1)
  registered : u.arg.registeredBuffers.map Buffer.id = ids
  pending : ∀ b ∈ u.arg.pendingBuffers, 0 < b.transferOffset ∧ b.transferEnd ≤ k + 1
  early : u.arg.pendingBuffers.length = k
  completed : ∀ c ∈ u.completions, c.eof = false ∧ c.offset + c.data.length ≤ k + 1
  calls : u.calls = []
  result : u.arg.result = .success
  offset : u.arg.offset = 0
  endOffset : u.arg.endOffset = minusOne64
  eof : u.arg.eof = false
  current : u.arg.currentBuffer = none
  free : u.arg.freeBuffers = []
  allocated : u.arg.allocated = k + ids.length

variable {ids : List ℕ} {k n : ℕ} {u u' : Upload} {F : ℕ → Byte}

/-- The next bytes are missing. -/
theorem Delayed.not_ready (h : Delayed ids k u) : u.arg.isTransferOffsetReady = false := by
  rw [isTransferOffsetReady]
  split
  · rfl
  · rename_i b later hpending
    obtain ⟨hpos, -⟩ := h.pending b (by rw [hpending]; exact List.mem_cons_self)
    rw [h.offset]
    exact beq_false_of_ne (Nat.ne_of_gt hpos)

/-- The first call registers a read for each slot. -/
theorem exists_delayed_zero (eof : Bool) :
    ∃ u, (start (prepareWriteGridftpOp 0 minusOne64 eof)).step (.call twoSlots 1) = some u ∧
      Delayed [1, 0] 0 u := by
  refine ⟨_, rfl, ?_⟩
  constructor <;> first | rfl | skip
  · exact fun b hb => absurd hb List.not_mem_nil
  · exact fun c hc => absurd hc List.not_mem_nil

/-- The head of the read callback notes nothing new. -/
theorem note_success {arg : GridftpOpArg} (hresult : arg.result = .success)
    (heof : arg.eof = false) : arg.note .success false false = arg := by
  cases arg
  simp only at hresult heof
  subst hresult heof
  simp [note, Result.latch]

/-- The block behind those that arrived can arrive as well, and stays pending. -/
theorem Delayed.exists_complete (h : Delayed [k + 1, 0] k u) (hk : k < 2 ^ 62) :
    ∃ u', u.step (.complete (k + 1) (blockAt F (k + 1))) = some u' ∧ Delayed [0] (k + 1) u' := by
  obtain ⟨b, later, hregistered, hid, hlater⟩ := List.map_eq_cons_iff.mp h.registered
  have hremove : removeBuffer (k + 1) u.arg.registeredBuffers = some (b, later) := by
    rw [hregistered, removeBuffer, if_pos hid]
  have hadd : add64 (k + 1) 1 = k + 2 :=
    add64_eq (Nat.lt_of_lt_of_le (by omega : k + 1 + 1 < 2 ^ 64) (Nat.le_refl _))
  have hends : u.arg.ends (k + 1) 1 = false := by
    refine decide_eq_false fun hend => ?_
    rw [hadd, h.endOffset] at hend
    exact absurd hend.2 (Nat.ne_of_lt (Nat.lt_trans (by omega : k + 2 < 2 ^ 63) (by decide)))
  have hnote : u.arg.note .success false false = u.arg := note_success h.result h.eof
  have hcallback : gridftpReadCallback u.arg .success (k + 1) (slice F (k + 1) 1) (k + 1) false
      = some (({ u.arg with registeredBuffers := later }).addPending
        (b.completed (slice F (k + 1) 1) (k + 1)), true) := by
    rw [gridftpReadCallback]
    simp only [length_slice, hends, hnote, hremove, h.result]
    rfl
  set arg : GridftpOpArg := { u.arg with registeredBuffers := later }
  set b' := b.completed (slice F (k + 1) 1) (k + 1)
  have hstep : u.step (.complete (k + 1) (blockAt F (k + 1))) = some { u with
      arg := arg.addPending b', reads := [⟨0, 1⟩]
      completions := u.completions ++ [blockAt F (k + 1)] } := by
    rw [Upload.step, if_pos (by simp [h.reads]), blockAt, hcallback, h.reads]
    simp
  refine ⟨_, hstep, ?_⟩
  have hlength : (arg.addPending b').pendingBuffers.length = k + 1 := by
    have hsplit := congrArg List.length (List.takeWhile_append_dropWhile
      (p := fun tmp : Buffer => decide (tmp.transferEnd ≤ b'.transferOffset))
      (l := arg.pendingBuffers))
    have hearly : arg.pendingBuffers.length = k := h.early
    simp only [addPending, List.length_append, List.length_cons] at hsplit ⊢
    omega
  constructor
  · exact h.waiting
  · rfl
  · exact hlater
  · intro c hc
    rcases mem_addPending.mp hc with rfl | hc
    · refine ⟨Nat.succ_pos k, Nat.le_of_eq ?_⟩
      exact (congrArg (add64 (k + 1)) (length_slice F (k + 1) 1)).trans hadd
    · exact ⟨(h.pending c hc).1, Nat.le_succ_of_le (h.pending c hc).2⟩
  · exact hlength
  · intro c hc
    rcases List.mem_append.mp hc with hc | hc
    · exact ⟨(h.completed c hc).1, Nat.le_succ_of_le (h.completed c hc).2⟩
    · obtain rfl := List.mem_singleton.mp hc
      simp [blockAt]
  · exact h.calls
  · exact h.result
  · exact h.offset
  · exact h.endOffset
  · exact h.eof
  · exact h.current
  · exact h.free
  · exact h.allocated

/-- A call that waits registers a read for the slot that is free, with a new buffer. -/
theorem Delayed.exists_wake (h : Delayed [0] k u) :
    ∃ u', u.step (.wake twoSlots) = some u' ∧ Delayed [k + 1, 0] k u' := by
  obtain ⟨b, later, hregistered, hid, hlater⟩ := List.map_eq_cons_iff.mp h.registered
  obtain rfl := List.map_eq_nil_iff.mp hlater
  have hlen : newBufferLen 1 1 = 1 := by decide
  have hget : bufferGet u.arg 1 1 true = (some ⟨k + 1, 1, 0, minusOne64, []⟩,
      { u.arg with
        currentBuffer := some ⟨k + 1, 1, 0, minusOne64, []⟩, freeBuffers := []
        allocated := k + 2 }) := by
    simp only [bufferGet, h.current, h.free, h.allocated, hlen, List.length_singleton, if_true]
  have hcomplete : u.arg.isReadingComplete = false := by
    rw [isReadingComplete, h.eof, Bool.false_and]
  have hloop : writeGridftpOpLoop twoSlots 1 .success u.arg u.reads = some ⟨.waiting .success,
      { u.arg with
        currentBuffer := none, freeBuffers := [], allocated := k + 2
        registeredBuffers := [⟨k + 1, 1, 0, minusOne64, []⟩, b] },
      [⟨k + 1, 1⟩, ⟨0, 1⟩], [⟨1, some 1⟩]⟩ := by
    rw [writeGridftpOpLoop, h.not_ready, hcomplete, Bool.or_self, if_neg Bool.false_ne_true,
      writeRegisterReads, if_pos ⟨h.result, h.eof⟩, hregistered]
    simp only [twoSlots, List.length_singleton, registerReadsLoop, hget, h.endOffset,
      remainingLength]
    simp [h.reads, GridftpOpArg.record, h.result, Result.latch, hregistered]
  have hstep : u.step (.wake twoSlots) = some { u with
      arg := { u.arg with
        currentBuffer := none, freeBuffers := [], allocated := k + 2
        registeredBuffers := [⟨k + 1, 1, 0, minusOne64, []⟩, b] }
      reads := [⟨k + 1, 1⟩, ⟨0, 1⟩], turns := u.turns ++ [⟨1, some 1⟩] } := by
    rw [Upload.step, h.waiting]
    simp only [hloop, Option.map_some, after]
  refine ⟨_, hstep, ?_⟩
  constructor
  · exact h.waiting
  · rfl
  · simp [hid]
  · exact h.pending
  · exact h.early
  · exact h.completed
  · exact h.calls
  · exact h.result
  · exact h.offset
  · exact h.endOffset
  · exact h.eof
  · rfl
  · rfl
  · rfl

/-- The server delivers what the file has at the position. -/
theorem Delayed.serves (h : Delayed [k + 1, 0] k u) (hk : k < 2 ^ 62) :
    u.Serves F 0 n (.complete (k + 1) (blockAt F (k + 1))) where
  result := rfl
  fits := ⟨⟨k + 1, 1⟩, by simp [h.reads], rfl, by simp [blockAt]⟩
  offset_lt := by
    simp only [blockAt]
    omega
  content := by simp [blockAt]
  apart := by
    intro d hd p hp hp'
    obtain ⟨-, hstop⟩ := h.completed d hd
    simp only [Extent.Contains, Extent.stop, Completion.extent, blockAt] at hp hp'
    omega
  eof := fun hdata => absurd (congrArg List.length hdata) (by simp [blockAt])
  cover := by
    have hnone : u.eofSeen = false := by
      rw [eofSeen, List.any_eq_false]
      exact fun c hc => by simp [(h.completed c hc).1]
    rw [hnone]
    exact fun hseen => absurd hseen Bool.false_ne_true

/-- The server does what it is asked. -/
theorem twoSlots_works : twoSlots.Works :=
  ⟨by decide, by decide, by decide, fun _ => rfl, fun _ => rfl⟩

/-- The first block can stay away for as long as the file is. -/
theorem exists_delayed (F : ℕ → Byte) (n : ℕ) {early : ℕ} (eof : Bool) (hk : k < 2 ^ 62)
    (hearly : k ≤ early) :
    ∃ actions u, Guarded.Along step (Serves F 0 n)
        (start (prepareWriteGridftpOp 0 minusOne64 eof)) actions ∧
      Guarded.Along step (Limits 2 1) (start (prepareWriteGridftpOp 0 minusOne64 eof)) actions ∧
      Guarded.Along step (Behind early) (start (prepareWriteGridftpOp 0 minusOne64 eof)) actions ∧
      Guarded.run step (start (prepareWriteGridftpOp 0 minusOne64 eof)) actions = some u ∧
      Delayed [k + 1, 0] k u := by
  induction k with
  | zero =>
      obtain ⟨u, hstep, h⟩ := exists_delayed_zero eof
      refine ⟨[.call twoSlots 1], u, ?_, ?_, ?_, Guarded.run_singleton hstep, h⟩
      · exact Guarded.along_cons ⟨twoSlots_works, by decide, by decide⟩ hstep trivial
      · exact Guarded.along_cons ⟨Nat.le_refl _, Nat.le_refl _⟩ hstep trivial
      · exact Guarded.along_cons (fun _ => Nat.zero_le _) hstep trivial
  | succ k ih =>
      obtain ⟨actions, u, hserves, hlimits, hbehind, hrun, h⟩ := ih (by omega) (by omega)
      obtain ⟨v, hcomplete, hv⟩ := h.exists_complete (F := F) (by omega)
      obtain ⟨w, hwake, hw⟩ := hv.exists_wake
      refine ⟨actions ++ [.complete (k + 1) (blockAt F (k + 1)), .wake twoSlots], w, ?_, ?_, ?_,
        ?_, hw⟩
      · exact Guarded.along_append hrun hserves (Guarded.along_cons (h.serves (by omega)) hcomplete
          (Guarded.along_cons twoSlots_works hwake trivial))
      · exact Guarded.along_append hrun hlimits (Guarded.along_cons trivial hcomplete
          (Guarded.along_cons ⟨Nat.le_refl _, Nat.le_refl _⟩ hwake trivial))
      · exact Guarded.along_append hrun hbehind (Guarded.along_cons trivial hcomplete
          (Guarded.along_cons (fun _ => hv.early.trans_le hearly) hwake trivial))
      · rw [Guarded.run_append hrun]
        exact Guarded.run_cons.mpr ⟨v, hcomplete, Guarded.run_singleton hwake⟩

end Upload

end DsiRest
