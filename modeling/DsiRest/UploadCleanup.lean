import DsiRest.Lib.Guarded
import DsiRest.UploadStream

/-!
# Cleaning Up after an Upload

When libcurl is done with a request, `globus_l_dsi_rest_request_cleanup_write_part` destroys
the mutex and the condition variable of the upload and frees its argument. It does not wait
for the reads that are still registered with the GridFTP server, as the cleanup of a download
does for its writes, and the read callback of such a read is called with the freed argument.

`Uploading.step` is a request that uploads: the steps of the upload, in which libcurl may stop
between any two calls, and the cleanup. The server goes on to complete reads after it.

## Main results

* `Sections.registeredBuffers_eq_nil` — a call that returns the end of the data leaves no read
  registered; a call that returns at the end of the range, or with data, may.
* `Upload.Tracked.step` — in every run, whatever fails, the registered buffers are those of
  the outstanding reads, and every read that was registered is outstanding or completed.
* `upload_released` — nothing is registered when the argument is freed, if the cleanup comes
  after the end of the data, or if no call reads ahead.
-/

namespace DsiRest

/-! ### What every run keeps -/

/-- The GridFTP server takes one read at a time. -/
def UploadAction.OneRead : UploadAction → Prop
  | .call server _ | .wake server => server.optimalConcurrency ≤ 1
  | .complete _ _ => True

/-- The number of reads that turns of the registering loop registered. -/
def accepted (turns : List Turn) : ℕ :=
  (turns.filterMap Turn.thisRead).length

theorem accepted_append (first second : List Turn) :
    accepted (first ++ second) = accepted first + accepted second := by
  rw [accepted, List.filterMap_append, List.length_append]
  rfl

/-- Registering reads adds the reads it says it registered. -/
theorem Registers.length_reads {server : ReadServer} {turns i bytesRegistered : ℕ}
    {arg : GridftpOpArg} {reads : List Read} {r : Registering}
    (h : Registers server turns i arg reads bytesRegistered r) :
    r.reads.length = reads.length + accepted r.turns := by
  induction h with
  | done | usedUp | noMemory | refused => rfl
  | registered turns i arg reads bytesRegistered b free allocated thisRead later _ _ _ _ _ ih =>
      rw [ih, List.length_cons, Nat.add_assoc, Nat.add_comm 1]
      rfl

theorem RegistersReads.length_reads {server : ReadServer} {arg : GridftpOpArg}
    {reads : List Read} {r : Registering} (h : RegistersReads server arg reads r) :
    r.reads.length = reads.length + accepted r.turns := by
  cases h with
  | useless => rfl
  | useful r _ _ h => exact h.length_reads

/-- Registering reads fills the slots that the GridFTP server offers, and no more. -/
theorem Registers.length_registered {server : ReadServer} {turns i bytesRegistered : ℕ}
    {arg : GridftpOpArg} {reads : List Read} {r : Registering}
    (h : Registers server turns i arg reads bytesRegistered r) :
    r.arg.registeredBuffers.length ≤ arg.registeredBuffers.length + turns := by
  induction h with
  | done | usedUp | noMemory => exact Nat.le_add_right _ _
  | refused => exact Nat.le_add_right _ _
  | registered turns i arg reads bytesRegistered b free allocated thisRead later _ _ _ _ _ ih =>
      simp only [GridftpOpArg.withBuffers, List.length_cons] at ih ⊢
      omega

/-- So there are never more reads than the server takes. -/
theorem RegistersReads.length_registered {server : ReadServer} {arg : GridftpOpArg}
    {reads : List Read} {r : Registering} (h : RegistersReads server arg reads r) {bound : ℕ}
    (hserver : server.optimalConcurrency ≤ bound) (hbefore : arg.registeredBuffers.length ≤ bound) :
    r.arg.registeredBuffers.length ≤ bound := by
  cases h with
  | useless => exact hbefore
  | useful r _ _ h =>
      have hmore := h.length_registered
      omega

/-- Copying leaves the data of the pending buffers in their memory. -/
theorem Copies.full {bufferLength : ℕ} {arg last : GridftpOpArg} {filled all : Bytes}
    (h : Copies bufferLength arg filled all last)
    (hfull : ∀ b ∈ arg.pendingBuffers, b.bufferUsed ≤ b.buffer.length) :
    ∀ b ∈ last.pendingBuffers, b.bufferUsed ≤ b.buffer.length := by
  induction h with
  | done => exact hfull
  | part arg filled b later k all last hpending _ _ _ _ _ ih =>
      rw [hpending, List.forall_mem_cons] at hfull
      exact ih (List.forall_mem_cons.mpr ⟨b.consumed_le k hfull.1, hfull.2⟩)
  | whole arg filled b later all last hpending _ _ _ _ ih =>
      rw [hpending, List.forall_mem_cons] at hfull
      exact ih hfull.2

/-- Copying adds to what is in the buffer, if there is room and the first pending buffer is
ready. -/
theorem Copies.length_lt {bufferLength : ℕ} {arg last : GridftpOpArg} {filled all : Bytes}
    (h : Copies bufferLength arg filled all last)
    (hfull : ∀ b ∈ arg.pendingBuffers, b.bufferUsed ≤ b.buffer.length) :
    filled.length ≤ all.length ∧
      (arg.isTransferOffsetReady = true → filled.length < bufferLength →
        filled.length < all.length) := by
  induction h with
  | done arg filled hstop =>
      refine ⟨Nat.le_refl _, fun hready hroom => ?_⟩
      rcases hstop with hle | hnot
      · omega
      · exact absurd (hready.symm.trans hnot) (by decide)
  | part arg filled b later k all last hpending _ hpos _ hk _ ih =>
      rw [hpending, List.forall_mem_cons] at hfull
      have hmore := (ih (List.forall_mem_cons.mpr ⟨b.consumed_le k hfull.1, hfull.2⟩)).1
      have hb := hfull.1
      rw [List.length_append, List.length_take] at hmore
      exact ⟨by omega, fun _ _ => by omega⟩
  | whole arg filled b later all last hpending _ hpos _ _ ih =>
      rw [hpending, List.forall_mem_cons] at hfull
      have hmore := (ih hfull.2).1
      have hb := hfull.1
      rw [List.length_append, Buffer.data, List.length_take] at hmore
      exact ⟨by omega, fun _ _ => by omega⟩

/-- **The end of the data** leaves nothing registered: a call that waited for data and
returned none, with success, found that reading was complete. -/
theorem Sections.registeredBuffers_eq_nil {server : ReadServer} {bufferLength : ℕ}
    {result : Result} {arg arg' : GridftpOpArg} {reads reads' : List Read} {turns : List Turn}
    (hfull : ∀ b ∈ arg.pendingBuffers, b.bufferUsed ≤ b.buffer.length) (hpos : 0 < bufferLength)
    (h : Sections server bufferLength result arg reads
      ⟨.returned .success [], arg', reads', turns⟩) : arg'.registeredBuffers = [] := by
  generalize hended : SectionEnd.returned .success [] = ended at h
  generalize hws : WriteSection.mk ended arg' reads' turns = ws at h
  cases h with
  | failed _ hfailed =>
      obtain ⟨rfl, -⟩ := WriteSection.mk.inj hws
      exact absurd (SectionEnd.returned.inj hended).1.symm hfailed
  | copied hready _ all last hcopies =>
      obtain ⟨rfl, rfl, -⟩ := WriteSection.mk.inj hws
      obtain ⟨-, rfl⟩ := SectionEnd.returned.inj hended
      have hnot : arg.isTransferOffsetReady = false := by
        by_contra hyes
        exact Nat.lt_irrefl 0
          ((hcopies.length_lt hfull).2 (Bool.eq_true_of_not_eq_false hyes) hpos)
      rw [hnot, Bool.false_or, GridftpOpArg.isReadingComplete, Bool.and_eq_true,
        List.isEmpty_iff] at hready
      exact hcopies.unchanged.2.2.2.2.trans hready.2
  | gaveUp _ r _ hfailed hnone =>
      obtain ⟨rfl, -⟩ := WriteSection.mk.inj hws
      exact absurd (SectionEnd.returned.inj hended).1.symm hfailed
  | waits =>
      obtain ⟨rfl, -⟩ := WriteSection.mk.inj hws
      exact absurd hended (by simp)

/-- A read that completes was registered. -/
theorem Completes.registered_ne_nil {arg arg' : GridftpOpArg} {id : ℕ} {c : Completion}
    (h : Completes arg id c arg') : arg.registeredBuffers ≠ [] := by
  intro hnil
  cases h with
  | bad b left _ hremove | empty b left _ hremove | added b left hremove =>
      rw [hnil] at hremove
      exact absurd hremove (by simp [removeBuffer])

namespace Upload

/-- The reads that the GridFTP server accepted so far. -/
def registrations (u : Upload) : ℕ :=
  accepted u.turns

/-- What holds of an upload in every run: there is no current buffer between two sections,
pending buffers hold their data, the registered buffers are those of the outstanding reads,
and the reads that were accepted are outstanding or completed. -/
structure Tracked (u : Upload) : Prop where
  current : u.arg.currentBuffer = none
  full : ∀ b ∈ u.arg.pendingBuffers, b.bufferUsed ≤ b.buffer.length
  matched : Matched u.arg.registeredBuffers u.reads
  counted : u.reads.length + u.completions.length = u.registrations

/-- An upload starts without reads. -/
theorem Tracked.start (offset length : ℕ) (eof : Bool) :
    Tracked (start (prepareWriteGridftpOp offset length eof)) where
  current := rfl
  full := by simp [Upload.start, prepareWriteGridftpOp, GridftpOpArg.prepare]
  matched := .nil
  counted := rfl

/-- A section of a call keeps track of the reads. -/
theorem Tracked.section {u : Upload} {server : ReadServer} {bufferLength : ℕ} {result : Result}
    {ws : WriteSection} (h : Tracked u)
    (hws : Sections server bufferLength result u.arg u.reads ws) :
    Tracked (u.after bufferLength ws) := by
  have hcounted : ∀ {r : Registering}, RegistersReads server u.arg u.reads r →
      r.reads.length + u.completions.length = accepted (u.turns ++ r.turns) := by
    intro r hr
    have hbefore := h.counted
    rw [registrations] at hbefore
    rw [hr.length_reads, accepted_append]
    omega
  cases hws with
  | failed =>
      refine ⟨h.current, h.full, h.matched, ?_⟩
      simpa [after, registrations] using h.counted
  | copied _ _ all last hcopies =>
      obtain ⟨-, -, -, hcurrent, hregistered⟩ := hcopies.unchanged
      refine ⟨hcurrent.trans h.current, hcopies.full h.full, hregistered.symm ▸ h.matched, ?_⟩
      simpa [after, registrations] using h.counted
  | gaveUp _ r hr | waits _ r hr =>
      rw [hr.recorded]
      exact ⟨h.current, h.full, hr.matched h.matched, hcounted hr⟩

/-- The completion of a read keeps track of the others. -/
theorem Tracked.complete {u : Upload} {id : ℕ} {c : Completion} {arg' : GridftpOpArg}
    (h : Tracked u) (hcompletes : Completes u.arg id c arg') :
    Tracked { u with
      arg := arg', reads := u.reads.eraseP (·.id = id), completions := u.completions ++ [c] } := by
  have hcounted : ∀ {b : Buffer} {left : List Buffer},
      removeBuffer id u.arg.registeredBuffers = some (b, left) →
      (u.reads.eraseP (·.id = id)).length + (u.completions ++ [c]).length = u.registrations := by
    intro b left hremove
    obtain ⟨-, r, hfind, -⟩ := h.matched.remove hremove
    have hlen := List.length_eraseP_of_mem (List.mem_of_find?_eq_some hfind)
      (List.find?_some hfind)
    have hpos := List.length_pos_of_mem (List.mem_of_find?_eq_some hfind)
    have hbefore := h.counted
    rw [List.length_append, List.length_singleton]
    omega
  cases hcompletes with
  | bad b registered freed hremove | empty b registered freed hremove =>
      exact ⟨h.current, h.full, (h.matched.remove hremove).1, hcounted hremove⟩
  | added b registered hremove =>
      refine ⟨h.current, fun p hp => ?_, (h.matched.remove hremove).1, hcounted hremove⟩
      rcases GridftpOpArg.mem_addPending.mp hp with rfl | hp
      · exact b.completed_le c.data c.offset
      · exact h.full p hp

/-- **Every step keeps track of the reads**, whatever the GridFTP server does. -/
theorem Tracked.step {u u' : Upload} {action : UploadAction} (h : Tracked u)
    (hstep : u.step action = some u') : Tracked u' := by
  cases steps_of_step h.current h.full hstep with
  | ended server bufferLength _ =>
      refine ⟨h.current, h.full, h.matched, ?_⟩
      simpa [after, registrations] using h.counted
  | call server bufferLength ws _ hws => exact h.section hws
  | wake server bufferLength result ws _ hws => exact h.section hws
  | complete id c arg' hcompletes => exact h.complete hcompletes

/-! ### The end of the data -/

/-- libcurl did not call yet, or its last call told it that the upload is over: that call had
room, did not stand at the end of the range, and returned no data with a success. -/
def EndOfData (u : Upload) : Prop :=
  ∀ call ∈ u.calls.getLast?, 0 < call.bufferLength ∧ call.result = .success ∧
    call.copied = [] ∧ u.arg.offset ≠ u.arg.endOffset

instance (u : Upload) : Decidable u.EndOfData :=
  inferInstanceAs (Decidable (∀ _ ∈ _, _))

/-- The completion of a read does not end the data. -/
theorem EndOfData.of_complete {u : Upload} {id : ℕ} {c : Completion} {arg' : GridftpOpArg}
    {reads : List Read} {completions : List Completion} (hcompletes : Completes u.arg id c arg')
    (h : EndOfData { u with arg := arg', reads := reads, completions := completions }) :
    u.EndOfData := by
  intro call hcall
  have hlast := h call hcall
  cases hcompletes with
  | bad | empty | added => exact hlast

/-- The invariant of the end of the data: once a call has told it to libcurl, no read is
registered. -/
structure Settled (u : Upload) : Prop where
  tracked : Tracked u
  settled : u.waiting = none → u.EndOfData → u.arg.registeredBuffers = []

/-- An upload starts without reads. -/
theorem Settled.start (offset length : ℕ) (eof : Bool) :
    Settled (start (prepareWriteGridftpOp offset length eof)) :=
  ⟨Tracked.start offset length eof, fun _ _ => rfl⟩

/-- A section of a call that tells libcurl the end of the data leaves no read registered. -/
theorem Settled.section {u : Upload} {server : ReadServer} {bufferLength : ℕ} {result : Result}
    {ws : WriteSection} (h : Tracked u)
    (hws : Sections server bufferLength result u.arg u.reads ws) :
    Settled (u.after bufferLength ws) := by
  refine ⟨h.section hws, fun hnone hend => ?_⟩
  obtain ⟨ended, arg', reads', turns⟩ := ws
  rcases ended with later | ⟨returned, copied⟩
  · exact absurd hnone (by simp [after])
  · obtain ⟨hpos, rfl, rfl, -⟩ := hend ⟨bufferLength, returned, copied⟩ (by simp [after])
    exact hws.registeredBuffers_eq_nil h.full hpos

/-- **Every step keeps the end of the data**: behind it no read can complete any more. -/
theorem Settled.step {u u' : Upload} {action : UploadAction} (h : Settled u)
    (hstep : u.step action = some u') : Settled u' := by
  have htracked := h.tracked.step hstep
  cases steps_of_step h.tracked.current h.tracked.full hstep with
  | ended server bufferLength hend =>
      refine ⟨htracked, fun _ hdata => ?_⟩
      -- this call ends the upload by the range, whatever is registered
      obtain ⟨-, -, -, hne⟩ := hdata ⟨bufferLength, .success, []⟩ (by simp [after])
      exact absurd hend hne
  | call server bufferLength ws _ hws | wake server bufferLength result ws _ hws =>
      exact Settled.section h.tracked hws
  | complete id c arg' hcompletes =>
      refine ⟨htracked, fun hnone hdata => ?_⟩
      exact absurd (h.settled hnone (.of_complete hcompletes hdata)) hcompletes.registered_ne_nil

/-! ### One read at a time -/

/-- The invariant of an upload that does not read ahead: at most one read is registered, and
none unless a call waits for it. -/
structure Alone (u : Upload) : Prop where
  tracked : Tracked u
  one : u.arg.registeredBuffers.length ≤ 1
  waits : u.arg.registeredBuffers = [] ∨
    u.waiting ≠ none ∧ u.arg.isTransferOffsetReady = false

/-- An upload starts without reads. -/
theorem Alone.start (offset length : ℕ) (eof : Bool) :
    Alone (start (prepareWriteGridftpOp offset length eof)) :=
  ⟨Tracked.start offset length eof, Nat.zero_le _, .inl rfl⟩

/-- A section of a call returns without a registered read, or waits for one. -/
theorem Alone.section {u : Upload} {server : ReadServer} {bufferLength : ℕ} {result : Result}
    {ws : WriteSection} (h : Alone u) (hserver : server.optimalConcurrency ≤ 1)
    (hws : Sections server bufferLength result u.arg u.reads ws) :
    Alone (u.after bufferLength ws) := by
  have htracked := h.tracked.section hws
  -- what is ready does not wait for a read
  have hnone : (u.arg.isTransferOffsetReady || u.arg.isReadingComplete) = true →
      u.arg.registeredBuffers = [] := by
    intro hready
    rcases h.waits with hnil | ⟨-, hnot⟩
    · exact hnil
    · rw [hnot, Bool.false_or, GridftpOpArg.isReadingComplete, Bool.and_eq_true,
        List.isEmpty_iff] at hready
      exact hready.2
  cases hws with
  | failed hready => exact ⟨htracked, h.one, .inl (hnone hready)⟩
  | copied hready _ all last hcopies =>
      have hregistered : last.registeredBuffers = [] :=
        hcopies.unchanged.2.2.2.2.trans (hnone hready)
      exact ⟨htracked, (congrArg List.length hregistered).le.trans (Nat.zero_le _),
        .inl hregistered⟩
  | gaveUp hready r hr hfailed hnil =>
      exact ⟨htracked, (congrArg List.length hnil).le.trans (Nat.zero_le _), .inl hnil⟩
  | waits hready r hr =>
      refine ⟨htracked, hr.length_registered hserver h.one, .inr ⟨by simp [after], ?_⟩⟩
      have hnot := (Bool.or_eq_false_iff.mp hready).1
      rw [GridftpOpArg.isTransferOffsetReady] at hnot ⊢
      rw [after, hr.recorded]
      exact hnot

/-- **Every step keeps the one read**, if the GridFTP server takes no more. -/
theorem Alone.step {u u' : Upload} {action : UploadAction} (h : Alone u)
    (hserver : action.OneRead) (hstep : u.step action = some u') : Alone u' := by
  have htracked := h.tracked.step hstep
  cases steps_of_step h.tracked.current h.tracked.full hstep with
  | ended server bufferLength _ =>
      have hnone : u.waiting = none := by
        rcases hwaiting : u.waiting with _ | w
        · rfl
        · simp [Upload.step, hwaiting] at hstep
      refine ⟨htracked, h.one, .inl ?_⟩
      exact h.waits.resolve_right fun hnot => hnot.1 hnone
  | call server bufferLength ws _ hws => exact h.section hserver hws
  | wake server bufferLength result ws _ hws => exact h.section hserver hws
  | complete id c arg' hcompletes =>
      have hleft : arg'.registeredBuffers = [] := by
        have hrest : ∀ {b : Buffer} {left : List Buffer},
            removeBuffer id u.arg.registeredBuffers = some (b, left) → left = [] := by
          intro b left hremove
          have hone := h.one
          have hlength := (removeBuffer_perm hremove).length_eq
          rw [List.length_cons] at hlength
          exact List.length_eq_zero_iff.mp (by omega)
        cases hcompletes with
        | bad b left _ hremove | empty b left _ hremove | added b left hremove =>
            exact hrest hremove
      exact ⟨htracked, (congrArg List.length hleft).le.trans (Nat.zero_le _), .inl hleft⟩

end Upload

/-! ### The request -/

/-- A request that uploads. `freed` says whether its argument was freed, and `stale` are the
completions whose read callback was called with the freed argument. -/
structure Uploading where
  upload : Upload
  freed : Bool
  stale : List Completion

/-- What happens next: a step of the upload, or the cleanup of the request. -/
inductive UploadingAction
  | upload (action : UploadAction)
  | cleanup

/-- `globus_l_dsi_rest_request_cleanup_write_part` for `write_gridftp_op`, up to the call of
`free` for the argument itself. -/
def cleanupWriteGridftpOp (arg : GridftpOpArg) : GridftpOpArg :=
  { arg with freeBuffers := [] }

namespace Uploading

/-- A request that libcurl did not start yet. -/
def start (arg : GridftpOpArg) : Uploading :=
  ⟨.start arg, false, []⟩

/-- The next state. libcurl is done with the request when no call waits; reads complete
whether the request is still there or not. -/
def step (r : Uploading) : UploadingAction → Option Uploading
  | .cleanup =>
    if r.freed = false ∧ r.upload.waiting = none then
      some { r with
        upload := { r.upload with arg := cleanupWriteGridftpOp r.upload.arg }, freed := true }
    else none
  | .upload (.complete id c) =>
    if r.freed then
      if r.upload.reads.any (·.id = id) then
        some { r with
          upload := { r.upload with
            reads := r.upload.reads.eraseP (·.id = id)
            completions := r.upload.completions ++ [c] }
          stale := r.stale ++ [c] }
      else none
    else (r.upload.step (.complete id c)).map fun upload => { r with upload := upload }
  | .upload action =>
    if r.freed then none
    else (r.upload.step action).map fun upload => { r with upload := upload }

/-- No read is registered when the argument is freed, and no read callback is called with it
afterwards. -/
def Released (r : Uploading) : Prop :=
  (r.freed = true → r.upload.arg.registeredBuffers = []) ∧ r.stale = []

/-- The request is cleaned up only at the end of the data. -/
def EndsItself (r : Uploading) : UploadingAction → Prop
  | .upload _ => True
  | .cleanup => r.upload.EndOfData

instance (r : Uploading) : ∀ action, Decidable (r.EndsItself action)
  | .upload _ => isTrue trivial
  | .cleanup => inferInstanceAs (Decidable r.upload.EndOfData)

/-- The GridFTP server takes one read at a time. -/
def OneRead (_ : Uploading) : UploadingAction → Prop
  | .upload action => action.OneRead
  | .cleanup => True

/-- Before the cleanup a step is one of the upload. -/
theorem step_upload {r r' : Uploading} {action : UploadAction} (hfreed : r.freed = false)
    (h : r.step (.upload action) = some r') :
    ∃ upload, r.upload.step action = some upload ∧ r' = { r with upload := upload } := by
  have hstep : (r.upload.step action).map (fun upload => { r with upload := upload }) = some r' := by
    cases action with
    | call | wake | complete => simpa [step, hfreed] using h
  obtain ⟨upload, hupload, rfl⟩ := Option.map_eq_some_iff.mp hstep
  exact ⟨upload, hupload, rfl⟩

/-- After the cleanup reads are completed only. -/
theorem step_freed {r r' : Uploading} {action : UploadingAction} (hfreed : r.freed = true)
    (h : r.step action = some r') :
    ∃ id c, action = .upload (.complete id c) ∧ r.upload.reads.any (·.id = id) = true ∧
      r'.upload.arg = r.upload.arg ∧ r'.freed = true ∧ r'.stale = r.stale ++ [c] ∧
      r'.upload.reads = r.upload.reads.eraseP (·.id = id) := by
  cases action with
  | cleanup => simp [step, hfreed] at h
  | upload action =>
      cases action with
      | call | wake => simp [step, hfreed] at h
      | complete id c =>
          simp only [step, hfreed, if_true] at h
          split_ifs at h with hany
          obtain rfl := Option.some.inj h
          exact ⟨id, c, rfl, hany, rfl, rfl, rfl, rfl⟩

/-- The upload meets `J` until the cleanup, and nothing is outstanding after it. -/
structure Kept (J : Upload → Prop) (r : Uploading) : Prop where
  upload : if r.freed then r.upload.reads = [] else J r.upload
  released : Released r

/-- **The cleanup rule.** Where the steps of the upload keep `J`, and no read is outstanding
in a state of `J` in which the request may be cleaned up, the argument is freed in time. -/
theorem Kept.step {J : Upload → Prop} {G : Uploading → UploadingAction → Prop}
    {r r' : Uploading} {action : UploadingAction}
    (hmatched : ∀ u, J u → Matched u.arg.registeredBuffers u.reads)
    (hJ : ∀ r action u', J r.upload → G r (.upload action) → r.upload.step action = some u' → J u')
    (hnone : ∀ r, J r.upload → G r .cleanup → r.upload.waiting = none →
      r.upload.arg.registeredBuffers = [])
    (h : Kept J r) (hG : G r action) (hstep : r.step action = some r') : Kept J r' := by
  have hupload := h.upload
  rcases hfreed : r.freed with _ | _
  · rw [hfreed, if_neg Bool.false_ne_true] at hupload
    cases action with
    | cleanup =>
        rw [Uploading.step] at hstep
        split_ifs at hstep with hdone
        obtain rfl := Option.some.inj hstep
        have hnil := hnone r hupload hG hdone.2
        exact ⟨(hmatched _ hupload).eq_nil_iff.mp hnil, fun _ => hnil, h.released.2⟩
    | upload action =>
        obtain ⟨upload, hstep', rfl⟩ := step_upload hfreed hstep
        refine ⟨?_, fun hyes => absurd (hfreed.symm.trans hyes) (by decide), h.released.2⟩
        rw [hfreed, if_neg Bool.false_ne_true]
        exact hJ r action upload hupload hG hstep'
  · -- nothing is outstanding, so that nothing can happen
    rw [hfreed, if_pos rfl] at hupload
    obtain ⟨id, c, -, hany, -⟩ := step_freed hfreed hstep
    simp [hupload] at hany

end Uploading

/-- **When the argument is freed in time.** In every run of a request that uploads, whatever
fails and wherever libcurl stops, no read is registered when the argument is freed, and none
completes with the freed argument, if the cleanup comes at the end of the data, or if the
GridFTP server takes one read at a time. -/
theorem upload_released {offset length : ℕ} {eof : Bool} {actions : List UploadingAction}
    (h : Guarded.Along Uploading.step Uploading.EndsItself
          (.start (prepareWriteGridftpOp offset length eof)) actions ∨
        Guarded.Along Uploading.step Uploading.OneRead
          (.start (prepareWriteGridftpOp offset length eof)) actions) :
    Guarded.Throughout Uploading.step Uploading.Released
      (.start (prepareWriteGridftpOp offset length eof)) actions := by
  have hstart : Uploading.Released (.start (prepareWriteGridftpOp offset length eof)) :=
    ⟨fun hfreed => absurd hfreed Bool.false_ne_true, rfl⟩
  rcases h with hends | hone
  · refine hends.throughout (I := Uploading.Kept Upload.Settled) (fun _ _ _ hkept hG hstep => ?_)
      (fun _ hkept => hkept.released) ⟨Upload.Settled.start offset length eof, hstart⟩
    exact hkept.step (fun _ hu => hu.tracked.matched) (fun _ _ _ hu _ hstep => hu.step hstep)
      (fun _ hu hG hnone => hu.settled hnone hG) hG hstep
  · refine hone.throughout (I := Uploading.Kept Upload.Alone) (fun _ _ _ hkept hG hstep => ?_)
      (fun _ hkept => hkept.released) ⟨Upload.Alone.start offset length eof, hstart⟩
    exact hkept.step (fun _ hu => hu.tracked.matched) (fun _ _ _ hu hG hstep => hu.step hG hstep)
      (fun _ hu _ hnone => hu.waits.resolve_right fun hnot => hnot.1 hnone) hG hstep

/-- The case of an upload of two blocks that come in the wrong order, up to the end of the
file, and of one that reads a block at a time and that libcurl aborts. -/
theorem upload_released_twoReads :
    let block : ℕ → Completion := fun i => ⟨.success, List.replicate 10 65, 10 * i, i = 1⟩
    let two : ReadServer := ⟨10, 2, fun _ => true, fun _ => .success⟩
    let one : ReadServer := ⟨10, 1, fun _ => true, fun _ => .success⟩
    let whole : List UploadingAction := [.upload (.call two 20), .upload (.complete 1 (block 1)),
      .upload (.complete 0 (block 0)), .upload (.wake two), .upload (.call two 20), .cleanup]
    let aborted : List UploadingAction := [.upload (.call one 5), .upload (.complete 0 (block 0)),
      .upload (.wake one), .cleanup]
    (∃ r, Guarded.run Uploading.step (.start (prepareWriteGridftpOp 0 minusOne64 false)) whole
        = some r ∧ r.freed = true) ∧
      (∃ r, Guarded.run Uploading.step (.start (prepareWriteGridftpOp 0 20 false)) aborted
        = some r ∧ r.freed = true) ∧
      Guarded.Throughout Uploading.step Uploading.Released
        (.start (prepareWriteGridftpOp 0 minusOne64 false)) whole ∧
      Guarded.Throughout Uploading.step Uploading.Released
        (.start (prepareWriteGridftpOp 0 20 false)) aborted := by
  intro block two one whole aborted
  refine ⟨?_, ?_, upload_released (.inl (by decide +kernel)), upload_released (.inr ?_)⟩
  · exact Option.map_eq_some_iff.mp (show (Guarded.run Uploading.step
      (.start (prepareWriteGridftpOp 0 minusOne64 false)) whole).map Uploading.freed = some true by
      decide +kernel)
  · exact Option.map_eq_some_iff.mp (show (Guarded.run Uploading.step
      (.start (prepareWriteGridftpOp 0 20 false)) aborted).map Uploading.freed = some true by
      decide +kernel)
  · refine .of_forall_mem (fun action haction r => ?_) _
    simp only [aborted, List.mem_cons, List.not_mem_nil, or_false] at haction
    rcases haction with rfl | rfl | rfl | rfl
    · exact Nat.le_refl 1
    · trivial
    · exact Nat.le_refl 1
    · trivial

/-- **An aborted upload** of two blocks: the first one was sent when libcurl stops, the
argument is freed, and the second read completes with it. -/
theorem upload_released_aborted :
    let server : ReadServer := ⟨10, 2, fun _ => true, fun _ => .success⟩
    let block : ℕ → Completion := fun i => ⟨.success, List.replicate 10 65, 10 * i, false⟩
    let actions : List UploadingAction := [.upload (.call server 10), .upload (.complete 0 (block 0)),
      .upload (.wake server), .cleanup, .upload (.complete 1 (block 1))]
    ∃ r, Guarded.run Uploading.step (.start (prepareWriteGridftpOp 0 20 false)) actions = some r ∧
      r.freed = true ∧ r.upload.arg.registeredBuffers ≠ [] ∧ r.stale = [block 1] := by
  intro server block actions
  have hr : (Guarded.run Uploading.step (.start (prepareWriteGridftpOp 0 20 false)) actions).map
      (fun r => (r.freed, r.upload.arg.registeredBuffers.isEmpty, r.stale))
        = some (true, false, [block 1]) := by decide +kernel
  obtain ⟨r, hrun, hr⟩ := Option.map_eq_some_iff.mp hr
  obtain ⟨hfreed, hrest⟩ := Prod.mk.inj hr
  obtain ⟨hregistered, hstale⟩ := Prod.mk.inj hrest
  exact ⟨r, hrun, hfreed, List.isEmpty_eq_false_iff.mp hregistered, hstale⟩

end DsiRest
