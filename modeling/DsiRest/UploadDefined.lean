import DsiRest.UploadStream

/-!
# The Assertions of an Upload Hold

A step of an upload is undefined where an assertion of the source fails: a read is
registered for a buffer that is not empty, nothing is copied from a pending buffer, or a
completion has no buffer. `Upload.Usable` is the invariant that excludes this where no
operation of the server fails.

## Main results

* `upload_defined` — whatever happens next, a step of an upload can be made.
-/

namespace DsiRest

/-! ### Registering reads -/

/-- A buffer that is had is empty, like the free buffers. -/
theorem GridftpOpArg.Supplies.empty {arg : GridftpOpArg} {size n : ℕ} {b : Buffer}
    {free : List Buffer} (h : arg.Supplies size b free n)
    (hfree : ∀ b ∈ arg.freeBuffers, b.bufferUsed = 0) :
    b.bufferUsed = 0 ∧ ∀ b' ∈ free, b'.bufferUsed = 0 := by
  cases h with
  | reused b free hsome => exact List.forall_mem_cons.mp (hsome ▸ hfree)
  | fresh hnone => exact ⟨rfl, fun _ hb' => absurd hb' List.not_mem_nil⟩

/-- As long as the free buffers are empty, reads can be registered. -/
theorem exists_registerReadsLoop (server : ReadServer) (turns : ℕ) :
    ∀ (i : ℕ) (arg : GridftpOpArg) (reads : List Read) (bytesRegistered : ℕ),
      arg.currentBuffer = none → (∀ b ∈ arg.freeBuffers, b.bufferUsed = 0) →
      ∃ r, registerReadsLoop server turns i arg reads bytesRegistered = some r := by
  induction turns with
  | zero => exact fun _ _ _ _ _ _ => ⟨_, rfl⟩
  | succ turns ih =>
      intro i arg reads bytesRegistered hcurrent hfree
      rw [registerReadsLoop]
      simp only
      split_ifs with hused
      · exact ⟨_, rfl⟩
      rcases hget : bufferGet arg server.optimalBlocksize server.optimalBlocksize
        (server.malloc i) with ⟨buffer, arg'⟩
      rcases bufferGet_spec hcurrent hget with ⟨rfl, rfl, -⟩ | ⟨b, free, n, rfl, hb, rfl⟩
      · exact ⟨_, rfl⟩
      · have hempty := hb.empty hfree
        simp only [if_neg (not_not.mpr hempty.1)]
        rcases server.registerRead i with _ | e
        · obtain ⟨later, hlater⟩ := ih (i + 1)
            { arg.withBuffers (b.registered :: arg.registeredBuffers) free n with
              currentBuffer := none } _ _ rfl hempty.2
          exact ⟨_, Option.map_eq_some_iff.mpr ⟨later, hlater, rfl⟩⟩
        · exact ⟨_, rfl⟩

/-- The free buffers stay empty while reads are registered. -/
theorem Registers.free {server : ReadServer} {turns i bytesRegistered : ℕ} {arg : GridftpOpArg}
    {reads : List Read} {r : Registering}
    (h : Registers server turns i arg reads bytesRegistered r)
    (hfree : ∀ b ∈ arg.freeBuffers, b.bufferUsed = 0) :
    ∀ b ∈ r.arg.freeBuffers, b.bufferUsed = 0 := by
  induction h with
  | done | usedUp | noMemory => exact hfree
  | refused turns i arg reads bytesRegistered b free allocated e hb _ =>
      exact List.forall_mem_cons.mpr (hb.empty hfree)
  | registered turns i arg reads bytesRegistered b free allocated thisRead later hb _ _ _ _ ih =>
      exact ih (hb.empty hfree).2

/-! ### Copying -/

/-- There is something to copy while there are room and data. -/
theorem toCopyLength_pos {bufferLength bufferFilled bufferUsed : ℕ}
    (hroom : bufferFilled < bufferLength) (hlength : bufferLength < 2 ^ 31)
    (hpos : 0 < bufferUsed) (hused : bufferUsed < 2 ^ 31) :
    0 < toCopyLength bufferLength bufferFilled bufferUsed := by
  rw [toCopyLength, intOfSize_eq (by omega), intOfSize_eq hused]
  split_ifs <;> omega

/-- As long as the pending buffers hold data whose length is an `int`, copying goes on. -/
theorem exists_copyPending {bufferLength : ℕ} (hlength : bufferLength < 2 ^ 31) (turns : ℕ) :
    ∀ {arg : GridftpOpArg} (filled : Bytes),
      (∀ b ∈ arg.pendingBuffers, 0 < b.bufferUsed ∧ b.bufferUsed < 2 ^ 31) →
      ∃ copied, copyPending bufferLength turns arg filled = some copied := by
  induction turns with
  | zero => exact fun _ _ => ⟨_, rfl⟩
  | succ turns ih =>
      intro arg filled hpending
      rw [copyPending]
      rcases hbuffers : arg.pendingBuffers with _ | ⟨b, later⟩
      · exact ⟨_, rfl⟩
      rw [hbuffers, List.forall_mem_cons] at hpending
      obtain ⟨⟨hpos, hused⟩, hlater⟩ := hpending
      by_cases hgo : filled.length < bufferLength ∧ b.transferOffset = arg.offset
      · have hassert := toCopyLength_pos hgo.1 hlength hpos hused
        simp only [if_pos hgo, if_neg (Int.not_le.mpr hassert)]
        by_cases hpart : sizeOfInt (toCopyLength bufferLength filled.length b.bufferUsed) <
          b.bufferUsed
        · rw [if_pos hpart]
          refine ih _ (List.forall_mem_cons.mpr ⟨?_, hlater⟩)
          exact ⟨Nat.sub_pos_of_lt hpart, Nat.lt_of_le_of_lt (Nat.sub_le _ _) hused⟩
        · rw [if_neg hpart]
          exact ih _ hlater
      · simp only [if_neg hgo]
        exact ⟨_, rfl⟩

/-- Copying leaves no large pending buffer. -/
theorem Copies.small {bufferLength : ℕ} {arg last : GridftpOpArg} {filled all : Bytes}
    (h : Copies bufferLength arg filled all last)
    (hpending : ∀ b ∈ arg.pendingBuffers, b.bufferUsed < 2 ^ 31) :
    ∀ b ∈ last.pendingBuffers, b.bufferUsed < 2 ^ 31 := by
  induction h with
  | done => exact hpending
  | part arg filled b later k all last hbuffers _ _ _ _ _ ih =>
      rw [hbuffers, List.forall_mem_cons] at hpending
      exact ih (List.forall_mem_cons.mpr
        ⟨Nat.lt_of_le_of_lt (Nat.sub_le _ _) hpending.1, hpending.2⟩)
  | whole arg filled b later all last hbuffers _ _ _ _ ih =>
      rw [hbuffers, List.forall_mem_cons] at hpending
      exact ih hpending.2

/-- Buffers that were copied are empty. -/
theorem Copies.free {bufferLength : ℕ} {arg last : GridftpOpArg} {filled all : Bytes}
    (h : Copies bufferLength arg filled all last)
    (hfree : ∀ b ∈ arg.freeBuffers, b.bufferUsed = 0) :
    ∀ b ∈ last.freeBuffers, b.bufferUsed = 0 := by
  induction h with
  | done => exact hfree
  | part _ _ _ _ _ _ _ _ _ _ _ _ _ ih => exact ih hfree
  | whole arg filled b later all last _ _ _ _ _ ih =>
      exact ih (List.forall_mem_cons.mpr ⟨rfl, hfree⟩)

/-- The free buffers stay empty while reads are registered. -/
theorem RegistersReads.free {server : ReadServer} {arg : GridftpOpArg} {reads : List Read}
    {r : Registering} (h : RegistersReads server arg reads r)
    (hfree : ∀ b ∈ arg.freeBuffers, b.bufferUsed = 0) :
    ∀ b ∈ r.arg.freeBuffers, b.bufferUsed = 0 := by
  cases h with
  | useless => exact hfree
  | useful r _ _ h => exact h.free hfree

/-! ### Steps -/

namespace Upload

/-- The invariant that keeps the assertions. At the end of the file a buffer whose
`bufferUsed` is `-1` becomes free, but then no read is registered any more. -/
structure Usable (u : Upload) : Prop where
  free : u.arg.eof = false → ∀ b ∈ u.arg.freeBuffers, b.bufferUsed = 0
  small : ∀ b ∈ u.arg.pendingBuffers, b.bufferUsed < 2 ^ 31
  waiting : ∀ w ∈ u.waiting, w.1 < 2 ^ 31

/-- It depends on libcurl and the server whether an action can happen. -/
def Enabled (u : Upload) : UploadAction → Prop
  | .call _ _ => u.waiting = none
  | .wake _ => u.waiting ≠ none
  | .complete id _ => ∃ r ∈ u.reads, r.id = id

/-- A section of a call keeps the assertions. -/
theorem Usable.section {u : Upload} {server : ReadServer} {bufferLength : ℕ} {result : Result}
    {ws : WriteSection} (h : Usable u) (hlength : bufferLength < 2 ^ 31)
    (hws : Sections server bufferLength result u.arg u.reads ws) :
    Usable (u.after bufferLength ws) := by
  have hregisters : ∀ r, RegistersReads server u.arg u.reads r →
      (r.arg.record r.result).eof = u.arg.eof ∧
      (r.arg.record r.result).pendingBuffers = u.arg.pendingBuffers ∧
      (u.arg.eof = false → ∀ b ∈ (r.arg.record r.result).freeBuffers, b.bufferUsed = 0) := by
    intro r hr
    exact ⟨by rw [hr.recorded]; rfl, by rw [hr.recorded]; rfl, fun heof => hr.free (h.free heof)⟩
  cases hws with
  | failed => exact ⟨h.free, h.small, by simp [after]⟩
  | copied _ _ all last hcopies =>
      have heof := hcopies.unchanged.2.2.1
      exact ⟨fun hnot => hcopies.free (h.free (heof.symm.trans hnot)), hcopies.small h.small,
        by simp [after]⟩
  | gaveUp _ r hr =>
      obtain ⟨heof, hpending, hfree⟩ := hregisters r hr
      exact ⟨fun hnot => hfree (heof.symm.trans hnot),
        fun b hb => h.small b (hpending ▸ hb), by simp [after]⟩
  | waits _ r hr =>
      obtain ⟨heof, hpending, hfree⟩ := hregisters r hr
      refine ⟨fun hnot => hfree (heof.symm.trans hnot),
        fun b hb => h.small b (hpending ▸ hb), ?_⟩
      rintro w hw
      obtain rfl := Option.some.inj hw
      exact hlength

/-- The completion of a read keeps the assertions. -/
theorem Usable.complete {F : ℕ → Byte} {s n id : ℕ} {u : Upload} {c : Completion}
    {arg' : GridftpOpArg} (h : Usable u) (hexact : Exact F s n u) (hc : u.Delivers F s n id c)
    (hcompletes : Completes u.arg id c arg') :
    Usable { u with
      arg := arg', reads := u.reads.eraseP (·.id = id), completions := u.completions ++ [c] } := by
  have hlatch : u.arg.result.latch c.result = .success := by rw [hexact.result, hc.result]; rfl
  cases hcompletes with
  | bad b registered freed hremove hfailed => exact absurd hlatch hfailed
  | empty b registered freed hremove _ hdata =>
      have heof : (u.arg.eof || (c.eof || u.arg.ends c.offset c.data.length)) = true := by
        simp [hc.eof hdata]
      exact ⟨fun hnot => absurd (heof.symm.trans hnot) (by simp), h.small, h.waiting⟩
  | added b registered hremove _ hdata =>
      refine ⟨fun hnot => h.free ?_, fun p hp => ?_, h.waiting⟩
      · exact (Bool.or_eq_false_iff.mp hnot).1
      · rcases GridftpOpArg.mem_addPending.mp hp with rfl | hp
        · obtain ⟨r, hr, -, hle⟩ := hc.fits
          have hlength := hexact.small r hr
          have hused : (b.completed c.data c.offset).bufferUsed = c.data.length := rfl
          omega
        · exact h.small p hp

/-- One step keeps the assertions. -/
theorem Usable.step {F : ℕ → Byte} {s n : ℕ} (hs : s + n < 2 ^ 63) {u u' : Upload}
    {action : UploadAction} (h : Usable u) (hexact : Exact F s n u)
    (hserves : u.Serves F s n action) (hstep : u.step action = some u') : Usable u' := by
  cases hexact.steps hstep with
  | ended server bufferLength hend => exact absurd hend (hexact.offset_ne hs)
  | call server bufferLength ws _ hws => exact h.section hserves.2.2 hws
  | wake server bufferLength result ws hwaiting hws =>
      exact h.section (h.waiting _ hwaiting) hws
  | complete id c arg' hcompletes => exact h.complete hexact hserves hcompletes

/-- A section of a call can be made. -/
theorem Usable.exists_section {F : ℕ → Byte} {s n : ℕ} {u : Upload} (h : Usable u)
    (hexact : Exact F s n u) (server : ReadServer) {bufferLength : ℕ} (result : Result)
    (hlength : bufferLength < 2 ^ 31) :
    ∃ ws, writeGridftpOpLoop server bufferLength result u.arg u.reads = some ws := by
  rw [writeGridftpOpLoop]
  split_ifs
  · obtain ⟨copied, hcopied⟩ := exists_copyPending hlength bufferLength [] fun b hb =>
      ⟨hexact.streamed.pos hb, h.small b hb⟩
    rw [writeGridftpOpCopy, if_neg (not_not.mpr hexact.result)]
    exact ⟨_, Option.map_eq_some_iff.mpr ⟨copied, hcopied, rfl⟩⟩
  · have hregisters : ∃ r, writeRegisterReads server u.arg u.reads = some r := by
      rw [writeRegisterReads]
      split_ifs with huseful
      · exact exists_registerReadsLoop server _ _ _ _ _ hexact.current (h.free huseful.2)
      · exact ⟨_, rfl⟩
    obtain ⟨r, hr⟩ := hregisters
    rw [hr, Option.bind_eq_bind, Option.bind_some]
    simp only
    split_ifs with hend
    · rw [writeGridftpOpCopy, if_pos hend.1]
      exact ⟨_, rfl⟩
    · exact ⟨_, rfl⟩

end Upload

/-- **No assertion of an upload fails.** After every run in which no operation fails, any
action that is enabled leads to a next state. -/
theorem upload_defined {F : ℕ → Byte} {s n : ℕ} {eof : Bool} {actions : List UploadAction}
    {u : Upload} {action : UploadAction} (hs : s + n < 2 ^ 63)
    (hserves : Guarded.Along Upload.step (Upload.Serves F s n)
      (.start (prepareWriteGridftpOp s minusOne64 eof)) actions)
    (hrun : Guarded.run Upload.step (.start (prepareWriteGridftpOp s minusOne64 eof)) actions
      = some u) (hnext : u.Serves F s n action) (henabled : u.Enabled action) :
    ∃ u', u.step action = some u' := by
  have husable : Upload.Usable (.start (prepareWriteGridftpOp s minusOne64 eof)) :=
    ⟨fun _ _ hb => absurd hb List.not_mem_nil, fun _ hb => absurd hb List.not_mem_nil,
      fun _ hw => absurd hw (by simp [Upload.start])⟩
  obtain ⟨h, hexact⟩ := Guarded.invariant (I := fun u => u.Usable ∧ u.Exact F s n)
    (fun _ _ _ hu hP hstep => ⟨hu.1.step hs hu.2 hP hstep, hu.2.step hs hP hstep⟩)
    ⟨husable, Upload.Exact.start F s n eof⟩ hserves hrun
  cases action with
  | call server bufferLength =>
      obtain ⟨ws, hws⟩ := h.exists_section hexact server .success hnext.2.2
      refine ⟨u.after bufferLength ws, ?_⟩
      rw [Upload.step, henabled]
      simp only [writeGridftpOp, GridftpOpArg.record_success, if_neg (hexact.offset_ne hs), hws,
        Option.map_some]
  | wake server =>
      rcases hwaiting : u.waiting with _ | ⟨bufferLength, result⟩
      · exact absurd hwaiting henabled
      · obtain ⟨ws, hws⟩ := h.exists_section hexact server result (h.waiting _ hwaiting)
        refine ⟨u.after bufferLength ws, ?_⟩
        rw [Upload.step, hwaiting]
        simp only [hws, Option.map_some]
  | complete id c =>
      obtain ⟨r, hr, hid⟩ := henabled
      have hany : u.reads.any (·.id = id) = true :=
        List.any_eq_true.mpr ⟨r, hr, decide_eq_true hid⟩
      rw [Upload.step, if_pos hany, gridftpReadCallback]
      rcases removeBuffer_matched Read.id (fun _ _ hR => hR.1) hexact.matched id with
        ⟨-, hnone⟩ | ⟨b, left, r', hremove, -, -, -⟩
      · exact absurd (List.find?_eq_none.mp hnone r hr) (by simp [hid])
      · simp only
        have hremove' : removeBuffer id (u.arg.note c.result c.eof
            (u.arg.ends c.offset c.data.length)).registeredBuffers = some (b, left) := hremove
        rw [hremove']
        simp only
        split_ifs
        · exact ⟨_, rfl⟩
        · exact ⟨_, rfl⟩
        · exact ⟨_, rfl⟩

end DsiRest
