import DsiRest.WriteGridftpOp

/-!
# What One Step of an Upload Does

The functions behind `Upload.step` are turned into relations with one case for each way they
can go: `Registers` for the loop that registers reads, `Copies` for the loop that copies
from the pending buffers, `Sections` for a section of a call, `Completes` for the read
callback, and `Upload.Steps` for a step. Invariants of an upload are proved case by case over
these.

## Main results

* `registers_of_loop` — what registering reads does, turn by turn.
* `copies_of_copyPending` — what copying does, buffer by buffer.
* `sections_of_loop` — how a section of a call can end.
* `completes_of_callback` — what the completion of a read does.
* `Upload.steps_of_step` — what a step does.
-/

namespace DsiRest

/-! ### What registering reads does -/

/-- The buffer of a read that was registered. -/
def Buffer.registered (b : Buffer) : Buffer :=
  { b with transferOffset := minusOne64 }

/-- What the loop does, turn by turn, as long as there is no current buffer: it ends because
no slot is left, the range is used up, or `malloc` or the registration fails, and otherwise
registers a read for a buffer and goes on. -/
inductive Registers (server : ReadServer) :
    ℕ → ℕ → GridftpOpArg → List Read → ℕ → Registering → Prop
  | done (i : ℕ) (arg : GridftpOpArg) (reads : List Read) (bytesRegistered : ℕ) :
    Registers server 0 i arg reads bytesRegistered ⟨.success, arg, reads, []⟩
  | usedUp (turns i : ℕ) (arg : GridftpOpArg) (reads : List Read) (bytesRegistered : ℕ)
      (hused : arg.endOffset ≠ minusOne64 ∧
        remainingLength arg server.optimalBlocksize bytesRegistered = 0) :
    Registers server (turns + 1) i arg reads bytesRegistered ⟨.success, arg, reads, [⟨0, none⟩]⟩
  | noMemory (turns i : ℕ) (arg : GridftpOpArg) (reads : List Read) (bytesRegistered : ℕ)
      (hmalloc : server.malloc i = false) :
    Registers server (turns + 1) i arg reads bytesRegistered ⟨.error .memory, arg, reads,
      [⟨remainingLength arg server.optimalBlocksize bytesRegistered, none⟩]⟩
  | refused (turns i : ℕ) (arg : GridftpOpArg) (reads : List Read) (bytesRegistered : ℕ)
      (b : Buffer) (free : List Buffer) (allocated : ℕ) (e : GlobusError)
      (hb : arg.Supplies (newBufferLen server.optimalBlocksize server.optimalBlocksize)
        b free allocated)
      (hrefused : server.registerRead i = .error e) :
    Registers server (turns + 1) i arg reads bytesRegistered ⟨.error e,
      arg.withBuffers arg.registeredBuffers (b.registered :: free) allocated, reads,
      [⟨remainingLength arg server.optimalBlocksize bytesRegistered, none⟩]⟩
  | registered (turns i : ℕ) (arg : GridftpOpArg) (reads : List Read) (bytesRegistered : ℕ)
      (b : Buffer) (free : List Buffer) (allocated thisRead : ℕ) (later : Registering)
      (hb : arg.Supplies (newBufferLen server.optimalBlocksize server.optimalBlocksize)
        b free allocated)
      (hused : ¬(arg.endOffset ≠ minusOne64 ∧
        remainingLength arg server.optimalBlocksize bytesRegistered = 0))
      (hempty : b.bufferUsed = 0)
      (hthis : thisRead
        = min (remainingLength arg server.optimalBlocksize bytesRegistered) b.bufferLen)
      (hlater : Registers server turns (i + 1)
        (arg.withBuffers (b.registered :: arg.registeredBuffers) free allocated)
        (⟨b.id, thisRead⟩ :: reads) (add64 bytesRegistered thisRead) later) :
    Registers server (turns + 1) i arg reads bytesRegistered { later with
      turns := ⟨remainingLength arg server.optimalBlocksize bytesRegistered, some thisRead⟩
        :: later.turns }

/-- **The loop does what `Registers` says.** -/
theorem registers_of_loop {server : ReadServer} {turns i bytesRegistered : ℕ}
    {arg : GridftpOpArg} {reads : List Read} {r : Registering}
    (hcurrent : arg.currentBuffer = none)
    (h : registerReadsLoop server turns i arg reads bytesRegistered = some r) :
    Registers server turns i arg reads bytesRegistered r := by
  induction turns generalizing i arg reads bytesRegistered r with
  | zero =>
      obtain rfl := Option.some.inj h
      exact .done i arg reads bytesRegistered
  | succ turns ih =>
      rw [registerReadsLoop] at h
      by_cases hused : arg.endOffset ≠ minusOne64 ∧
        remainingLength arg server.optimalBlocksize bytesRegistered = 0
      · rw [if_pos hused] at h
        obtain rfl := Option.some.inj h
        rw [hused.2]
        exact .usedUp turns i arg reads bytesRegistered hused
      · rw [if_neg hused] at h
        rcases hget : bufferGet arg server.optimalBlocksize server.optimalBlocksize
          (server.malloc i) with ⟨buffer, arg'⟩
        rw [hget] at h
        rcases bufferGet_spec hcurrent hget with ⟨rfl, rfl, hmalloc⟩ | ⟨b, free, n, rfl, hb, rfl⟩
        · obtain rfl := Option.some.inj h
          cases arg'
          subst hcurrent
          exact .noMemory turns i _ reads bytesRegistered hmalloc
        · cases arg
          subst hcurrent
          simp only at h
          by_cases hempty : b.bufferUsed = 0
          · rw [if_neg (not_not.mpr hempty)] at h
            rcases hserver : server.registerRead i with _ | e
            · simp only [hserver, Option.map_eq_some_iff] at h
              obtain ⟨later, hlater, rfl⟩ := h
              refine .registered turns i _ reads bytesRegistered b free n _ later hb hused hempty ?_
                (ih rfl hlater)
              rw [min_def]
              split_ifs <;> omega
            · simp only [hserver] at h
              obtain rfl := Option.some.inj h
              exact .refused turns i _ reads bytesRegistered b free n e hb hserver
          · rw [if_pos hempty] at h
            exact absurd h (by simp)

/-- Registering reads leaves everything alone but the registered and the free buffers. -/
theorem Registers.frame {server : ReadServer} {turns i bytesRegistered : ℕ} {arg : GridftpOpArg}
    {reads : List Read} {r : Registering}
    (h : Registers server turns i arg reads bytesRegistered r) :
    r.arg = arg.withBuffers r.arg.registeredBuffers r.arg.freeBuffers r.arg.allocated := by
  induction h with
  | done | usedUp | noMemory | refused => rfl
  | registered turns i arg reads bytesRegistered b free allocated thisRead later _ _ _ _ _ ih =>
      exact ih

/-- Without a failure of `malloc` or of a registration the result is a success. -/
theorem Registers.success {server : ReadServer} {turns i bytesRegistered : ℕ}
    {arg : GridftpOpArg} {reads : List Read} {r : Registering}
    (h : Registers server turns i arg reads bytesRegistered r)
    (hmalloc : ∀ i, server.malloc i = true) (hregister : ∀ i, server.registerRead i = .success) :
    r.result = .success := by
  induction h with
  | done | usedUp => rfl
  | noMemory turns i arg reads bytesRegistered hnone =>
      exact absurd ((hmalloc i).symm.trans hnone) (by decide)
  | refused turns i arg reads bytesRegistered b free allocated e _ hrefused =>
      exact absurd ((hregister i).symm.trans hrefused) (by simp)
  | registered _ _ _ _ _ _ _ _ _ _ _ _ _ _ _ ih => exact ih

/-- A read of the whole file asks for at most a block. -/
theorem Registers.length_le {server : ReadServer} {turns i bytesRegistered : ℕ}
    {arg : GridftpOpArg} {reads : List Read} {r : Registering}
    (h : Registers server turns i arg reads bytesRegistered r)
    (hend : arg.endOffset = minusOne64) {bound : ℕ} (hbound : server.optimalBlocksize ≤ bound)
    (hreads : ∀ q ∈ reads, q.length ≤ bound) : ∀ q ∈ r.reads, q.length ≤ bound := by
  induction h with
  | done | usedUp | noMemory | refused => exact hreads
  | registered turns i arg reads bytesRegistered b free allocated thisRead later _ _ _ hthis _ ih =>
      refine ih hend (List.forall_mem_cons.mpr ⟨?_, hreads⟩)
      rw [remainingLength, if_neg (not_not.mpr hend)] at hthis
      rw [hthis]
      exact Nat.le_trans (Nat.min_le_left _ _) hbound

/-- The registered buffers belong to the outstanding reads, one for one, and are empty and
long enough. -/
def Matched (registered : List Buffer) (reads : List Read) : Prop :=
  List.Forall₂ (fun b r => b.id = r.id ∧ b.bufferUsed = 0 ∧ r.length ≤ b.bufferLen) registered reads

/-- Buffers and reads stay matched while reads are registered. -/
theorem Registers.matched {server : ReadServer} {turns i bytesRegistered : ℕ}
    {arg : GridftpOpArg} {reads : List Read} {r : Registering}
    (h : Registers server turns i arg reads bytesRegistered r)
    (hm : Matched arg.registeredBuffers reads) : Matched r.arg.registeredBuffers r.reads := by
  induction h with
  | done | usedUp | noMemory | refused => exact hm
  | registered turns i arg reads bytesRegistered b free allocated thisRead later _ _ hempty hthis
      _ ih =>
      refine ih (.cons ⟨rfl, hempty, ?_⟩ hm)
      rw [hthis]
      exact Nat.min_le_right _ _

/-- Matched lists have the same length. -/
theorem Matched.eq_nil_iff {registered : List Buffer} {reads : List Read}
    (h : Matched registered reads) : registered = [] ↔ reads = [] := by
  rw [← List.length_eq_zero_iff, ← List.length_eq_zero_iff, h.length_eq]

/-- Taking out the buffer of a read leaves the other buffers and reads matched. -/
theorem Matched.remove {registered left : List Buffer} {reads : List Read} {id : ℕ} {b : Buffer}
    (h : Matched registered reads) (hremove : removeBuffer id registered = some (b, left)) :
    Matched left (reads.eraseP (·.id = id)) ∧
      ∃ r, reads.find? (·.id = id) = some r ∧ b.id = r.id ∧ b.bufferUsed = 0 ∧
        r.length ≤ b.bufferLen := by
  rcases removeBuffer_matched Read.id (fun _ _ hR => hR.1) h id with
    ⟨hnone, -⟩ | ⟨b', left', r, hremove', hfind, hR, hleft⟩
  · exact absurd (hnone.symm.trans hremove) (by simp)
  · obtain ⟨rfl, rfl⟩ := Prod.mk.inj (Option.some.inj (hremove'.symm.trans hremove))
    exact ⟨hleft, r, hfind, hR⟩

/-! ### What copying does -/

/-- A `size_t` whose conversion to `int` is positive is at least that `int`. -/
theorem intOfSize_le {n : ℕ} (h : 0 < intOfSize n) :
    0 < sizeOfInt (intOfSize n) ∧ sizeOfInt (intOfSize n) ≤ n ∧
      sizeOfInt (intOfSize n) < 2 ^ 31 := by
  obtain ⟨k, hk⟩ := Int.eq_ofNat_of_zero_le h.le
  have hbounds : k < 2 ^ 31 ∧ k ≤ n := by
    have hmod : (n : ℤ).bmod (2 ^ 32) = k := hk
    rw [Int.bmod_def] at hmod
    split_ifs at hmod <;> omega
  rw [hk] at h ⊢
  rw [sizeOfInt_natCast (Nat.lt_trans hbounds.1 (by decide))]
  exact ⟨by omega, hbounds.2, hbounds.1⟩

/-- A `size_t` whose conversion to `int` is negative is at least `2 ^ 31`. -/
theorem le_of_intOfSize_neg {n : ℕ} (h : intOfSize n < 0) : 2 ^ 31 ≤ n := by
  by_contra hlt
  rw [intOfSize_eq (by omega)] at h
  omega

/-- A positive `to_copy` fits the room in the buffer and the data there is. -/
theorem toCopyLength_spec {bufferLength bufferFilled bufferUsed : ℕ}
    (h : 0 < toCopyLength bufferLength bufferFilled bufferUsed) :
    let amt := sizeOfInt (toCopyLength bufferLength bufferFilled bufferUsed)
    0 < amt ∧ amt ≤ bufferLength - bufferFilled ∧ amt ≤ bufferUsed := by
  rw [toCopyLength] at h ⊢
  simp only at h ⊢
  split_ifs at h ⊢ with hless
  · obtain ⟨hpos, hle, hlt⟩ := intOfSize_le h
    refine ⟨hpos, ?_, hle⟩
    rcases lt_trichotomy (intOfSize (bufferLength - bufferFilled)) 0 with hneg | hzero | hroom
    · have hroom := le_of_intOfSize_neg hneg
      omega
    · rw [hzero] at hless
      simp [sizeOfInt] at hless
    · have hroom := (intOfSize_le hroom).2.1
      omega
  · obtain ⟨hpos, hle, -⟩ := intOfSize_le h
    exact ⟨hpos, hle, by omega⟩

/-- A pending buffer of which `k` bytes were copied. -/
def Buffer.consumed (b : Buffer) (k : ℕ) : Buffer :=
  { b.store 0 ((b.buffer.drop k).take (b.bufferUsed - k)) with
    bufferUsed := b.bufferUsed - k, transferOffset := add64 b.transferOffset k }

/-- The data of a buffer of which `k` bytes were copied is the rest of its data. -/
theorem Buffer.data_consumed {b : Buffer} {k : ℕ} (h : b.bufferUsed ≤ b.buffer.length) :
    (b.consumed k).data = b.data.drop k := by
  have hlen : ((b.buffer.drop k).take (b.bufferUsed - k)).length = b.bufferUsed - k := by
    rw [List.length_take, List.length_drop]
    omega
  have hstore := b.take_store (Nat.zero_le _) ((b.buffer.drop k).take (b.bufferUsed - k))
  rw [hlen, Nat.zero_add, List.take_zero, List.nil_append] at hstore
  rw [data, data, List.drop_take]
  exact hstore

/-- What is left of the data of a buffer is in its memory. -/
theorem Buffer.consumed_le {b : Buffer} (k : ℕ) (h : b.bufferUsed ≤ b.buffer.length) :
    (b.consumed k).bufferUsed ≤ (b.consumed k).buffer.length := by
  have hlen := congrArg List.length (Buffer.data_consumed (k := k) h)
  simp only [data, List.length_take, List.length_drop] at hlen
  simp only [consumed] at hlen ⊢
  omega

/-- A buffer that was copied as a whole. -/
def Buffer.emptied (b : Buffer) : Buffer :=
  { b with transferOffset := minusOne64, bufferUsed := 0 }

/-- The argument after the first pending buffer was copied in part. -/
def GridftpOpArg.copyPart (arg : GridftpOpArg) (b : Buffer) (later : List Buffer) (k : ℕ) :
    GridftpOpArg :=
  { arg with offset := add64 arg.offset k, pendingBuffers := b.consumed k :: later }

/-- The argument after the first pending buffer was copied as a whole. -/
def GridftpOpArg.copyWhole (arg : GridftpOpArg) (b : Buffer) (later : List Buffer) :
    GridftpOpArg :=
  { arg with
    offset := add64 arg.offset b.bufferUsed, pendingBuffers := later
    pendingBuffersLast := if later = [] then none else arg.pendingBuffersLast
    freeBuffers := b.emptied :: arg.freeBuffers }

/-- What the copying loop does, buffer by buffer: it copies a part of the first pending
buffer or all of it as long as that starts at the offset and there is room. -/
inductive Copies (bufferLength : ℕ) :
    GridftpOpArg → Bytes → Bytes → GridftpOpArg → Prop
  | done (arg : GridftpOpArg) (filled : Bytes)
      (hstop : bufferLength ≤ filled.length ∨ arg.isTransferOffsetReady = false) :
    Copies bufferLength arg filled filled arg
  | part (arg : GridftpOpArg) (filled : Bytes) (b : Buffer) (later : List Buffer) (k : ℕ)
      (all : Bytes) (last : GridftpOpArg) (hpending : arg.pendingBuffers = b :: later)
      (hready : b.transferOffset = arg.offset) (hpos : 0 < k)
      (hroom : filled.length + k ≤ bufferLength) (hk : k < b.bufferUsed)
      (hrest : Copies bufferLength (arg.copyPart b later k) (filled ++ b.buffer.take k) all last) :
    Copies bufferLength arg filled all last
  | whole (arg : GridftpOpArg) (filled : Bytes) (b : Buffer) (later : List Buffer)
      (all : Bytes) (last : GridftpOpArg) (hpending : arg.pendingBuffers = b :: later)
      (hready : b.transferOffset = arg.offset) (hpos : 0 < b.bufferUsed)
      (hroom : filled.length + b.bufferUsed ≤ bufferLength)
      (hrest : Copies bufferLength (arg.copyWhole b later) (filled ++ b.data) all last) :
    Copies bufferLength arg filled all last

/-- **The copying loop does what `Copies` says.** -/
theorem copies_of_copyPending {bufferLength turns : ℕ} {arg last : GridftpOpArg}
    {filled all : Bytes} (hturns : bufferLength ≤ filled.length + turns)
    (hfull : ∀ b ∈ arg.pendingBuffers, b.bufferUsed ≤ b.buffer.length)
    (h : copyPending bufferLength turns arg filled = some (all, last)) :
    Copies bufferLength arg filled all last := by
  induction turns generalizing arg filled with
  | zero =>
      obtain ⟨rfl, rfl⟩ := Prod.mk.inj (Option.some.inj h)
      exact .done arg filled (.inl hturns)
  | succ turns ih =>
      rw [copyPending] at h
      rcases hpending : arg.pendingBuffers with _ | ⟨b, later⟩
      · rw [hpending] at h
        obtain ⟨rfl, rfl⟩ := Prod.mk.inj (Option.some.inj h)
        exact .done arg filled (.inr (by rw [GridftpOpArg.isTransferOffsetReady, hpending]))
      · rw [hpending] at h
        by_cases hgo : filled.length < bufferLength ∧ b.transferOffset = arg.offset
        · simp only at h
          rw [if_pos hgo] at h
          rw [hpending, List.forall_mem_cons] at hfull
          by_cases hassert : toCopyLength bufferLength filled.length b.bufferUsed ≤ 0
          · rw [if_pos hassert] at h
            exact absurd h (by simp)
          · rw [if_neg hassert] at h
            obtain ⟨hpos, hroom, hused⟩ := toCopyLength_spec (Int.not_le.mp hassert)
            generalize sizeOfInt (toCopyLength bufferLength filled.length b.bufferUsed) = amt
              at h hpos hroom hused
            have hlen : bufferLength ≤ (filled ++ b.buffer.take amt).length + turns := by
              rw [List.length_append, List.length_take]
              omega
            by_cases hpart : amt < b.bufferUsed
            · rw [if_pos hpart] at h
              refine .part arg filled b later amt all last hpending hgo.2 hpos (by omega) hpart
                (ih hlen ?_ h)
              exact List.forall_mem_cons.mpr ⟨b.consumed_le amt hfull.1, hfull.2⟩
            · rw [if_neg hpart] at h
              have hall : amt = b.bufferUsed := Nat.le_antisymm hused (Nat.not_lt.mp hpart)
              subst hall
              exact .whole arg filled b later all last hpending hgo.2 hpos (by omega)
                (ih hlen hfull.2 h)
        · simp only at h
          rw [if_neg hgo] at h
          obtain ⟨rfl, rfl⟩ := Prod.mk.inj (Option.some.inj h)
          refine .done arg filled ?_
          rw [GridftpOpArg.isTransferOffsetReady, hpending]
          rw [not_and_or, Nat.not_lt] at hgo
          exact hgo.imp_right fun hne => by simpa using hne

/-- Copying changes the offset and the pending and free buffers only. -/
theorem Copies.unchanged {bufferLength : ℕ} {arg last : GridftpOpArg} {filled all : Bytes}
    (h : Copies bufferLength arg filled all last) :
    last.result = arg.result ∧ last.endOffset = arg.endOffset ∧ last.eof = arg.eof ∧
      last.currentBuffer = arg.currentBuffer ∧ last.registeredBuffers = arg.registeredBuffers := by
  induction h with
  | done => exact ⟨rfl, rfl, rfl, rfl, rfl⟩
  | part _ _ _ _ _ _ _ _ _ _ _ _ _ ih => exact ih
  | whole _ _ _ _ _ _ _ _ _ _ _ ih => exact ih

/-! ### What a section of a call does -/

/-- What `globus_l_dsi_rest_write_register_reads` does: nothing after a failure or the end
of the data. -/
inductive RegistersReads (server : ReadServer) (arg : GridftpOpArg) (reads : List Read) :
    Registering → Prop
  | useless (h : ¬(arg.result = .success ∧ arg.eof = false)) :
    RegistersReads server arg reads ⟨.success, arg, reads, []⟩
  | useful (r : Registering) (hresult : arg.result = .success) (heof : arg.eof = false)
      (h : Registers server (server.optimalConcurrency - arg.registeredBuffers.length)
        arg.registeredBuffers.length arg reads (countBuffersAvailable arg.registeredBuffers) r) :
    RegistersReads server arg reads r

/-- How a section of a call that starts at the waiting loop can end. -/
inductive Sections (server : ReadServer) (bufferLength : ℕ) (result : Result)
    (arg : GridftpOpArg) (reads : List Read) : WriteSection → Prop
  | failed (hready : (arg.isTransferOffsetReady || arg.isReadingComplete) = true)
      (hfailed : arg.result ≠ .success) :
    Sections server bufferLength result arg reads ⟨.returned arg.result [], arg, reads, []⟩
  | copied (hready : (arg.isTransferOffsetReady || arg.isReadingComplete) = true)
      (hresult : arg.result = .success) (all : Bytes) (last : GridftpOpArg)
      (h : Copies bufferLength arg [] all last) :
    Sections server bufferLength result arg reads ⟨.returned result all, last, reads, []⟩
  | gaveUp (hready : (arg.isTransferOffsetReady || arg.isReadingComplete) = false)
      (r : Registering) (h : RegistersReads server arg reads r)
      (hfailed : (r.arg.record r.result).result ≠ .success) (hnone : r.arg.registeredBuffers = []) :
    Sections server bufferLength result arg reads
      ⟨.returned (r.arg.record r.result).result [], r.arg.record r.result, r.reads, r.turns⟩
  | waits (hready : (arg.isTransferOffsetReady || arg.isReadingComplete) = false)
      (r : Registering) (h : RegistersReads server arg reads r) :
    Sections server bufferLength result arg reads
      ⟨.waiting r.result, r.arg.record r.result, r.reads, r.turns⟩

/-- Registering reads does what `RegistersReads` says. -/
theorem registersReads_of_write {server : ReadServer} {arg : GridftpOpArg} {reads : List Read}
    {r : Registering} (hcurrent : arg.currentBuffer = none)
    (h : writeRegisterReads server arg reads = some r) : RegistersReads server arg reads r := by
  rw [writeRegisterReads] at h
  by_cases huseful : arg.result = .success ∧ arg.eof = false
  · rw [if_pos huseful] at h
    exact .useful r huseful.1 huseful.2 (registers_of_loop hcurrent h)
  · rw [if_neg huseful] at h
    obtain rfl := Option.some.inj h
    exact .useless huseful

/-- **A section ends as `Sections` says.** -/
theorem sections_of_loop {server : ReadServer} {bufferLength : ℕ} {result : Result}
    {arg : GridftpOpArg} {reads : List Read} {ws : WriteSection}
    (hcurrent : arg.currentBuffer = none)
    (hfull : ∀ b ∈ arg.pendingBuffers, b.bufferUsed ≤ b.buffer.length)
    (h : writeGridftpOpLoop server bufferLength result arg reads = some ws) :
    Sections server bufferLength result arg reads ws := by
  rw [writeGridftpOpLoop] at h
  rcases hready : arg.isTransferOffsetReady || arg.isReadingComplete with _ | _
  · rw [hready, if_neg Bool.false_ne_true, Option.bind_eq_bind, Option.bind_eq_some_iff] at h
    obtain ⟨r, hr, h⟩ := h
    have hregisters := registersReads_of_write hcurrent hr
    by_cases hend : (r.arg.record r.result).result ≠ .success ∧
      (r.arg.record r.result).registeredBuffers = []
    · simp only [if_pos hend, writeGridftpOpCopy, if_pos hend.1] at h
      obtain rfl := Option.some.inj h
      exact .gaveUp hready r hregisters hend.1 hend.2
    · simp only [if_neg hend] at h
      obtain rfl := Option.some.inj h
      exact .waits hready r hregisters
  · rw [hready, if_pos rfl, writeGridftpOpCopy] at h
    by_cases hresult : arg.result = .success
    · rw [if_neg (not_not.mpr hresult), Option.map_eq_some_iff] at h
      obtain ⟨⟨all, last⟩, hcopy, rfl⟩ := h
      exact .copied hready hresult all last
        (copies_of_copyPending (by simp) hfull hcopy)
    · rw [if_pos hresult] at h
      obtain rfl := Option.some.inj h
      exact .failed hready hresult

namespace RegistersReads

variable {server : ReadServer} {arg : GridftpOpArg} {reads : List Read} {r : Registering}

/-- Registering reads leaves everything alone but the registered and the free buffers. -/
theorem frame (h : RegistersReads server arg reads r) :
    r.arg = arg.withBuffers r.arg.registeredBuffers r.arg.freeBuffers r.arg.allocated := by
  cases h with
  | useless => rfl
  | useful r _ _ h => exact h.frame

/-- The argument after the result was recorded. -/
theorem recorded (h : RegistersReads server arg reads r) :
    r.arg.record r.result = (arg.record r.result).withBuffers
      r.arg.registeredBuffers r.arg.freeBuffers r.arg.allocated := by
  rw [GridftpOpArg.record, h.frame]
  rfl

/-- Buffers and reads stay matched while reads are registered. -/
theorem matched (h : RegistersReads server arg reads r)
    (hm : Matched arg.registeredBuffers reads) : Matched r.arg.registeredBuffers r.reads := by
  cases h with
  | useless => exact hm
  | useful r _ _ h => exact h.matched hm

/-- Without a failure of `malloc` or of a registration the result is a success. -/
theorem success (h : RegistersReads server arg reads r) (hmalloc : ∀ i, server.malloc i = true)
    (hregister : ∀ i, server.registerRead i = .success) : r.result = .success := by
  cases h with
  | useless => rfl
  | useful r _ _ h => exact h.success hmalloc hregister

/-- A read of the whole file asks for at most a block. -/
theorem length_le (h : RegistersReads server arg reads r) (hend : arg.endOffset = minusOne64)
    {bound : ℕ} (hbound : server.optimalBlocksize ≤ bound)
    (hreads : ∀ q ∈ reads, q.length ≤ bound) : ∀ q ∈ r.reads, q.length ≤ bound := by
  cases h with
  | useless => exact hreads
  | useful r _ _ h => exact h.length_le hend hbound hreads

/-- After the end of the data no read is registered. -/
theorem reads_of_eof (h : RegistersReads server arg reads r) (heof : arg.eof = true) :
    r.reads = reads := by
  cases h with
  | useless => rfl
  | useful r _ hnot _ => exact absurd (heof.symm.trans hnot) (by decide)

end RegistersReads

/-- The outstanding reads after a section of a call. -/
@[simp] theorem Upload.after_reads (u : Upload) (bufferLength : ℕ) (ws : WriteSection) :
    (u.after bufferLength ws).reads = ws.reads := by
  rw [after]
  split <;> rfl

/-! ### What the read callback does -/

/-- The buffer of a completed read, with the data it got. -/
def Buffer.completed (b : Buffer) (data : Bytes) (offset : ℕ) : Buffer :=
  { b.store 0 data with transferOffset := offset, bufferUsed := data.length }

/-- A completed read leaves its data in the buffer. -/
theorem Buffer.data_completed (b : Buffer) (data : Bytes) (offset : ℕ) :
    (b.completed data offset).data = data := by
  have hstore := b.take_store (Nat.zero_le _) data
  rw [Nat.zero_add, List.take_zero, List.nil_append] at hstore
  exact hstore

/-- The data of a completed read is in the memory of its buffer. -/
theorem Buffer.completed_le (b : Buffer) (data : Bytes) (offset : ℕ) :
    (b.completed data offset).bufferUsed ≤ (b.completed data offset).buffer.length := by
  have hlen := congrArg List.length (b.data_completed data offset)
  have hused : (b.completed data offset).bufferUsed = data.length := rfl
  rw [Buffer.data, List.length_take] at hlen
  omega

/-- What a completed read does: its buffer is taken from the registered ones and goes to the
free buffers, after a failure or without data, or to the pending ones. -/
inductive Completes (arg : GridftpOpArg) (id : ℕ) (c : Completion) : GridftpOpArg → Prop
  | bad (b : Buffer) (registered : List Buffer) (freed : Buffer)
      (hremove : removeBuffer id arg.registeredBuffers = some (b, registered))
      (hfailed : arg.result.latch c.result ≠ .success) :
    Completes arg id c { (arg.note c.result c.eof (arg.ends c.offset c.data.length)).withBuffers
      registered (freed :: arg.freeBuffers) arg.allocated with eof := true }
  | empty (b : Buffer) (registered : List Buffer) (freed : Buffer)
      (hremove : removeBuffer id arg.registeredBuffers = some (b, registered))
      (hresult : arg.result.latch c.result = .success) (hdata : c.data = []) :
    Completes arg id c ((arg.note c.result c.eof (arg.ends c.offset c.data.length)).withBuffers
      registered (freed :: arg.freeBuffers) arg.allocated)
  | added (b : Buffer) (registered : List Buffer)
      (hremove : removeBuffer id arg.registeredBuffers = some (b, registered))
      (hresult : arg.result.latch c.result = .success) (hdata : c.data ≠ []) :
    Completes arg id c (((arg.note c.result c.eof (arg.ends c.offset c.data.length)).withBuffers
      registered arg.freeBuffers arg.allocated).addPending (b.completed c.data c.offset))

/-- **The read callback does what `Completes` says.** -/
theorem completes_of_callback {arg arg' : GridftpOpArg} {id : ℕ} {c : Completion} {signal : Bool}
    (h : gridftpReadCallback arg c.result id c.data c.offset c.eof = some (arg', signal)) :
    Completes arg id c arg' := by
  rw [gridftpReadCallback] at h
  simp only at h
  split at h
  case h_1 => exact absurd h (by simp)
  case h_2 b registered hremove =>
    split_ifs at h with hfailed hempty
    · obtain ⟨rfl, -⟩ := Prod.mk.inj (Option.some.inj h)
      exact .bad b registered _ hremove hfailed
    · obtain ⟨rfl, -⟩ := Prod.mk.inj (Option.some.inj h)
      exact .empty b registered _ hremove (not_not.mp hfailed) (List.length_eq_zero_iff.mp hempty)
    · obtain ⟨rfl, -⟩ := Prod.mk.inj (Option.some.inj h)
      exact .added b registered hremove (not_not.mp hfailed)
        fun hdata => hempty (List.length_eq_zero_iff.mpr hdata)

/-! ### What a step does -/

/-- What a step of an upload does: a call at the end of the range returns at once, and
otherwise a section of a call ends, or a completion comes in. -/
inductive Upload.Steps (u : Upload) : UploadAction → Upload → Prop
  | ended (server : ReadServer) (bufferLength : ℕ) (hend : u.arg.offset = u.arg.endOffset) :
    Upload.Steps u (.call server bufferLength)
      (u.after bufferLength ⟨.returned .success [], { u.arg with eof := true }, u.reads, []⟩)
  | call (server : ReadServer) (bufferLength : ℕ) (ws : WriteSection)
      (hoffset : u.arg.offset ≠ u.arg.endOffset)
      (hws : Sections server bufferLength .success u.arg u.reads ws) :
    Upload.Steps u (.call server bufferLength) (u.after bufferLength ws)
  | wake (server : ReadServer) (bufferLength : ℕ) (result : Result) (ws : WriteSection)
      (hwaiting : u.waiting = some (bufferLength, result))
      (hws : Sections server bufferLength result u.arg u.reads ws) :
    Upload.Steps u (.wake server) (u.after bufferLength ws)
  | complete (id : ℕ) (c : Completion) (arg' : GridftpOpArg)
      (hcompletes : Completes u.arg id c arg') :
    Upload.Steps u (.complete id c) { u with
      arg := arg', reads := u.reads.eraseP (·.id = id), completions := u.completions ++ [c] }

/-- **A step does what `Upload.Steps` says.** -/
theorem Upload.steps_of_step {u u' : Upload} {action : UploadAction}
    (hcurrent : u.arg.currentBuffer = none)
    (hfull : ∀ b ∈ u.arg.pendingBuffers, b.bufferUsed ≤ b.buffer.length)
    (h : u.step action = some u') : u.Steps action u' := by
  cases action with
  | call server bufferLength =>
      rw [step] at h
      split at h
      · exact absurd h (by simp)
      · obtain ⟨ws, hws, rfl⟩ := Option.map_eq_some_iff.mp h
        rw [writeGridftpOp, GridftpOpArg.record_success] at hws
        by_cases hoffset : u.arg.offset = u.arg.endOffset
        · rw [if_pos hoffset] at hws
          obtain rfl := Option.some.inj hws
          exact .ended server bufferLength hoffset
        · rw [if_neg hoffset] at hws
          exact .call server bufferLength ws hoffset (sections_of_loop hcurrent hfull hws)
  | wake server =>
      rw [step] at h
      split at h
      · exact absurd h (by simp)
      · rename_i bufferLength result hwaiting
        obtain ⟨ws, hws, rfl⟩ := Option.map_eq_some_iff.mp h
        exact .wake server bufferLength result ws hwaiting (sections_of_loop hcurrent hfull hws)
  | complete id c =>
      rw [step] at h
      split_ifs at h
      obtain ⟨⟨arg', signal⟩, hcallback, rfl⟩ := Option.map_eq_some_iff.mp h
      exact .complete id c arg' (completes_of_callback hcallback)

end DsiRest
