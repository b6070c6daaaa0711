import DsiRest.UploadCleanup
import DsiRest.UploadDefined
import DsiRest.UploadRange

/-!
# Recycled Buffers are Empty

A buffer comes back to the free buffers of an upload when it was copied, when its read
failed, brought nothing, or could not be registered. Reads are registered for free buffers,
and the source asserts that these are empty. Each of the four places clears the buffer by
hand; the read callback leaves `-1` in the `buffer_used` of a buffer whose read brought
nothing, which the assertion finds as soon as a read is registered for it.

## Main results

* `Upload.Recycled.of_free` — what follows if the free buffers are empty.
* `upload_recycled_iff` — recycled buffers are empty exactly if no read succeeds without data.
* `upload_recycled_emptyRead` — a read without data makes the assertion fail.
-/

namespace DsiRest

/-! ### Counting registered bytes -/

/-- The value of `bytes_registered` after some turns of the loop that registers reads. -/
def GridftpOpArg.bytesRegistered (arg : GridftpOpArg) (turns : List Turn) : ℕ :=
  (turns.filterMap Turn.thisRead).foldl add64 (countBuffersAvailable arg.registeredBuffers)

/-- A sum of words is at most the sum without wrapping. -/
theorem add64_le (a b : ℕ) : add64 a b ≤ a + b :=
  Nat.mod_le _ _

/-- Empty buffers have no more bytes available than they have room for. -/
theorem countBuffersAvailable_le {buffers : List Buffer}
    (hempty : ∀ b ∈ buffers, b.bufferUsed = 0) :
    countBuffersAvailable buffers ≤ (buffers.map Buffer.bufferLen).sum := by
  have hfold : ∀ available,
      buffers.foldl (fun available b => add64 available (sub64 b.bufferLen b.bufferUsed)) available
        ≤ available + (buffers.map Buffer.bufferLen).sum := by
    induction buffers with
    | nil => exact fun available => Nat.le_refl _
    | cons b later ih =>
        intro available
        obtain ⟨hb, hlater⟩ := List.forall_mem_cons.mp hempty
        have hroom : sub64 b.bufferLen b.bufferUsed ≤ b.bufferLen := by
          rw [hb, sub64, Nat.zero_mod, Nat.sub_zero, Nat.add_mod_right]
          exact Nat.mod_le _ _
        have hsum := add64_le available (sub64 b.bufferLen b.bufferUsed)
        have hrest := ih hlater (add64 available (sub64 b.bufferLen b.bufferUsed))
        rw [List.foldl_cons, List.map_cons, List.sum_cons]
        omega
  have hcount := hfold 0
  rwa [Nat.zero_add] at hcount

/-- Registered buffers are empty. -/
theorem Matched.empty {registered : List Buffer} {reads : List Read}
    (h : Matched registered reads) : ∀ b ∈ registered, b.bufferUsed = 0 := by
  induction h with
  | nil => exact fun _ hb => absurd hb List.not_mem_nil
  | cons hfirst _ ih => exact List.forall_mem_cons.mpr ⟨hfirst.2.1, ih⟩

/-- The registered bytes stay below the capacity of the registered buffers. -/
theorem Registers.bytesRegistered_le {server : ReadServer} {turns i bytesRegistered : ℕ}
    {arg : GridftpOpArg} {reads : List Read} {r : Registering}
    (h : Registers server turns i arg reads bytesRegistered r)
    (hroom : bytesRegistered ≤ arg.capacity) :
    (r.turns.filterMap Turn.thisRead).foldl add64 bytesRegistered ≤ r.arg.capacity := by
  induction h with
  | done | usedUp | noMemory | refused => exact hroom
  | registered turns i arg reads bytesRegistered b free allocated thisRead later _ _ _ hthis _ ih =>
      refine ih ?_
      have hfits : thisRead ≤ b.bufferLen := hthis ▸ Nat.min_le_right _ _
      have hsum := add64_le bytesRegistered thisRead
      simp only [GridftpOpArg.capacity, GridftpOpArg.withBuffers, Buffer.registered, List.map_cons,
        List.sum_cons] at hroom ⊢
      omega

/-! ### Where buffers become free -/

/-- The buffer of a completed read is empty when it becomes free, unless the read succeeded
without data. -/
theorem free_readCallback {arg arg' : GridftpOpArg} {result : Result} {id : ℕ} {data : Bytes}
    {offset : ℕ} {eof signal : Bool} (hfree : ∀ b ∈ arg.freeBuffers, b.bufferUsed = 0)
    (h : gridftpReadCallback arg result id data offset eof = some (arg', signal)) :
    (∀ b ∈ arg'.freeBuffers, b.bufferUsed = 0) ↔
      (data = [] → arg.result.latch result ≠ .success) := by
  rw [gridftpReadCallback] at h
  simp only at h
  split at h
  case h_1 => cases h
  case h_2 b left hremove =>
    split_ifs at h with hfailed hempty
    · obtain ⟨rfl, -⟩ := Prod.mk.inj (Option.some.inj h)
      exact iff_of_true (List.forall_mem_cons.mpr ⟨rfl, hfree⟩) fun _ => hfailed
    · obtain ⟨rfl, -⟩ := Prod.mk.inj (Option.some.inj h)
      refine iff_of_false (fun hall => ?_) fun hdata => ?_
      · have hused : minusOne64 = 0 := (List.forall_mem_cons.mp hall).1
        exact absurd hused (by decide)
      · exact hdata (List.length_eq_zero_iff.mp hempty) (not_not.mp hfailed)
    · obtain ⟨rfl, -⟩ := Prod.mk.inj (Option.some.inj h)
      exact iff_of_true hfree fun hdata => absurd (List.length_eq_zero_iff.mpr hdata) hempty

/-! ### Runs -/

namespace Upload

/-- Free and registered buffers are empty. So the assertion holds when reads are registered
the next time, and no more bytes count as registered than the buffers have room for. -/
structure Recycled (u : Upload) : Prop where
  free : ∀ b ∈ u.arg.freeBuffers, b.bufferUsed = 0
  registered : ∀ b ∈ u.arg.registeredBuffers, b.bufferUsed = 0
  registers : ∀ server, ∃ r, writeRegisterReads server u.arg u.reads = some r
  room : ∀ server r, writeRegisterReads server u.arg u.reads = some r →
    u.arg.bytesRegistered r.turns ≤ r.arg.capacity

/-- A completion brings data, or it is discarded since something failed. -/
def BringsData (u : Upload) : UploadAction → Prop
  | .complete _ c => c.data = [] → u.arg.result.latch c.result ≠ .success
  | _ => True

/-- **Empty free buffers are all it takes.** -/
theorem Recycled.of_free {u : Upload} (h : Tracked u)
    (hfree : ∀ b ∈ u.arg.freeBuffers, b.bufferUsed = 0) : Recycled u := by
  have hregistered := h.matched.empty
  refine ⟨hfree, hregistered, fun server => ?_, fun server r hr => ?_⟩
  · rw [writeRegisterReads]
    split_ifs
    · exact exists_registerReadsLoop server _ _ _ _ _ h.current hfree
    · exact ⟨_, rfl⟩
  · have hcount := countBuffersAvailable_le hregistered
    cases registersReads_of_write h.current hr with
    | useless => exact hcount
    | useful r _ _ hr => exact hr.bytesRegistered_le hcount

/-- One step keeps the free buffers empty, unless a read succeeds without data. -/
theorem Recycled.step {u u' : Upload} {action : UploadAction} (h : Recycled u)
    (htracked : Tracked u) (hstep : u.step action = some u') :
    Recycled u' ↔ u.BringsData action := by
  have htracked' := htracked.step hstep
  have hiff : Recycled u' ↔ ∀ b ∈ u'.arg.freeBuffers, b.bufferUsed = 0 :=
    ⟨Recycled.free, Recycled.of_free htracked'⟩
  rw [hiff]
  have hsection : ∀ {server : ReadServer} {bufferLength : ℕ} {result : Result} {ws : WriteSection},
      Sections server bufferLength result u.arg u.reads ws →
      ∀ b ∈ (u.after bufferLength ws).arg.freeBuffers, b.bufferUsed = 0 := by
    intro server bufferLength result ws hws
    cases hws with
    | failed => exact h.free
    | copied _ _ all last hcopies => exact hcopies.free h.free
    | gaveUp _ r hr | waits _ r hr => exact hr.free h.free
  cases action with
  | call server bufferLength =>
      refine iff_of_true ?_ trivial
      cases steps_of_step htracked.current htracked.full hstep with
      | ended => exact h.free
      | call _ _ ws _ hws => exact hsection hws
  | wake server =>
      refine iff_of_true ?_ trivial
      cases steps_of_step htracked.current htracked.full hstep with
      | wake _ bufferLength result ws _ hws => exact hsection hws
  | complete id c =>
      rw [Upload.step] at hstep
      split_ifs at hstep
      obtain ⟨⟨arg', signal⟩, hcallback, rfl⟩ := Option.map_eq_some_iff.mp hstep
      exact free_readCallback h.free hcallback

end Upload

/-- **Recycled buffers are empty exactly if every read brings data.** In every run of an
upload, whatever fails in it, the free and the registered buffers are empty in all states, so
that the assertion on them holds and the registered bytes stay within the registered
capacity, if and only if no read completes with a success and without data, as long as
nothing has failed. -/
theorem upload_recycled_iff {offset length : ℕ} {eof : Bool} {actions : List UploadAction}
    {u : Upload}
    (hrun : Guarded.run Upload.step (.start (prepareWriteGridftpOp offset length eof)) actions
      = some u) :
    Guarded.Throughout Upload.step Upload.Recycled
        (.start (prepareWriteGridftpOp offset length eof)) actions ↔
      Guarded.Along Upload.step Upload.BringsData
        (.start (prepareWriteGridftpOp offset length eof)) actions := by
  have htracked := Upload.Tracked.start offset length eof
  refine Guarded.throughout_iff (I := Upload.Tracked) (G := fun _ _ => True)
    (fun _ _ _ h _ hstep _ => h.step hstep) (fun _ _ _ h hr _ hstep => hr.step h hstep)
    htracked ?_ (.of_forall (fun _ _ => trivial) _ _) hrun
  exact .of_free htracked fun _ hb => absurd hb List.not_mem_nil

/-- The case of an upload whose first read brings a block and whose second one fails. -/
theorem upload_recycled_iff_failedRead :
    let server : ReadServer := ⟨10, 2, fun _ => true, fun _ => .success⟩
    let actions : List UploadAction :=
      [.call server 10, .complete 0 ⟨.success, List.replicate 10 65, 0, false⟩,
        .complete 1 ⟨.error (.client 1), [], 0, true⟩]
    (∃ u, Guarded.run Upload.step (.start (prepareWriteGridftpOp 0 20 false)) actions = some u ∧
      u.arg.freeBuffers.map Buffer.bufferUsed = [0]) ∧
    Guarded.Throughout Upload.step Upload.Recycled (.start (prepareWriteGridftpOp 0 20 false))
      actions := by
  intro server actions
  have hend : (Guarded.run Upload.step (.start (prepareWriteGridftpOp 0 20 false)) actions).map
      (fun u => u.arg.freeBuffers.map Buffer.bufferUsed) = some [0] := by decide +kernel
  obtain ⟨u, hrun, hu⟩ := Option.map_eq_some_iff.mp hend
  refine ⟨⟨u, hrun, hu⟩, (upload_recycled_iff hrun).mpr ?_⟩
  refine ⟨trivial, fun t _ => ⟨fun hdata => absurd hdata (by simp), fun t' _ =>
    ⟨fun _ hlatch => ?_, fun _ _ => trivial⟩⟩⟩
  exact absurd (Result.latch_eq_success.mp hlatch).2 (by simp)

/-- **A read without data** is completed before the end of the file. Its buffer is free and
not empty, and the call that waits for data runs into the assertion. -/
theorem upload_recycled_emptyRead :
    let server : ReadServer := ⟨10, 1, fun _ => true, fun _ => .success⟩
    let actions : List UploadAction := [.call server 10, .complete 0 ⟨.success, [], 0, false⟩]
    ∃ u, Guarded.run Upload.step (.start (prepareWriteGridftpOp 0 20 false)) actions = some u ∧
      ¬u.Recycled ∧ u.waiting = some (10, .success) ∧
      writeRegisterReads server u.arg u.reads = none ∧ u.step (.wake server) = none := by
  intro server actions
  have hend : (Guarded.run Upload.step (.start (prepareWriteGridftpOp 0 20 false)) actions).map
      (fun u => (u.waiting, (writeRegisterReads server u.arg u.reads).isNone,
        (u.step (.wake server)).isNone)) = some (some (10, .success), true, true) := by
    decide +kernel
  obtain ⟨u, hrun, hu⟩ := Option.map_eq_some_iff.mp hend
  obtain ⟨hwaiting, hu⟩ := Prod.mk.inj hu
  obtain ⟨hregisters, hwake⟩ := Prod.mk.inj hu
  have hnone := Option.isNone_iff_eq_none.mp hregisters
  refine ⟨u, hrun, fun h => ?_, hwaiting, hnone, Option.isNone_iff_eq_none.mp hwake⟩
  obtain ⟨r, hr⟩ := h.registers server
  exact absurd (hnone.symm.trans hr) (by simp)

end DsiRest
