import DsiRest.BufferLists

/-!
# Holes in the Received Data

An upload ends with a call that returns a success and no data. A call looks for the end in
two places: it compares `offset` with `end_offset`, and it finds reading complete, which
depends on the end of the file and the registered buffers alone. Whether there is data to
copy depends on the first pending buffer. So where the received blocks have a hole, the data
behind it is pending when reading is complete, cannot be copied, and the call ends the body
as if it was all.

`Upload.Keeps` relates the received blocks to the pending buffers, whatever fails.

## Main results

* `Sections.leaves_iff` — when a section of a call ends the body with nothing pending.
* `upload_leavesNothing` — without a hole the end of an upload leaves no data behind, and as
  long as nothing fails this is the only way.
* `upload_leavesNothing_hole` — an upload whose first block is missing.
-/

namespace DsiRest

open Reassembly

/-! ### Copying -/

/-- Copying keeps the blocks of the pending buffers assembled. -/
theorem Copies.assembled {s bufferLength : ℕ} {arg last : GridftpOpArg} {filled all : Bytes}
    {kept : List Extent} (h : Copies bufferLength arg filled all last)
    (hassembled : Assembled s arg.offset (arg.pendingBuffers.map Buffer.extent) kept)
    (hbound : ∀ e ∈ kept, e.stop < word) :
    Assembled s last.offset (last.pendingBuffers.map Buffer.extent) kept := by
  induction h with
  | done => exact hassembled
  | part arg filled b later k all last hpending hready _ _ hk _ ih =>
      exact ih (assembled_copyPart hassembled hbound hpending hready hk).2
  | whole arg filled b later all last hpending hready _ _ _ ih =>
      exact ih (assembled_copyWhole hassembled hbound hpending hready).2

/-- Nothing is copied without room or without data at the offset. -/
theorem Copies.eq_of_stop {bufferLength : ℕ} {arg last : GridftpOpArg} {filled all : Bytes}
    (h : Copies bufferLength arg filled all last)
    (hstop : bufferLength ≤ filled.length ∨ arg.isTransferOffsetReady = false) :
    all = filled ∧ last = arg := by
  cases h with
  | done => exact ⟨rfl, rfl⟩
  | part arg filled b later k all last hpending hready hpos hroom =>
      rcases hstop with hfull | hnot
      · omega
      · rw [GridftpOpArg.isTransferOffsetReady, hpending] at hnot
        exact absurd hready (ne_of_beq_false hnot)
  | whole arg filled b later all last hpending hready hpos hroom =>
      rcases hstop with hfull | hnot
      · omega
      · rw [GridftpOpArg.isTransferOffsetReady, hpending] at hnot
        exact absurd hready (ne_of_beq_false hnot)

/-! ### The end of the body -/

namespace Upload

/-- A section of a call does not end the body too early: its buffer is not empty if there is
data at the offset, and if there is none when reading is complete, then the received blocks
have no hole. -/
def EndsInTime (s : ℕ) (u : Upload) (bufferLength : ℕ) : Prop :=
  (u.arg.isTransferOffsetReady = true → 0 < bufferLength) ∧
    (u.arg.isTransferOffsetReady = false → u.arg.isReadingComplete = true →
      Seamless s u.blocks)

/-- The received blocks have no hole where a call looks for the end of the body, and none
lies outside of the range where it finds that by its end. -/
def NoHole (s : ℕ) (u : Upload) : UploadAction → Prop
  | .call _ bufferLength =>
    if u.arg.offset = u.arg.endOffset then
      ∀ p, Covered u.blocks p → s ≤ p ∧ p < u.arg.endOffset
    else u.EndsInTime s bufferLength
  | .wake _ => ∀ w ∈ u.waiting, u.EndsInTime s w.1
  | .complete _ _ => True

/-- A call that returns a success and no data leaves nothing pending. -/
def LeavesNothing (u : Upload) (action : UploadAction) : Prop :=
  ∀ u', u.step action = some u' → ∀ call, u'.calls = u.calls ++ [call] →
    call.result = .success → call.copied = [] → u'.arg.pendingBuffers = []

/-- The invariant: the pending buffers hold blocks that were received, which are all of them
as long as nothing failed. -/
structure Keeps (s : ℕ) (u : Upload) : Prop where
  tracked : Tracked u
  kept : ∃ kept, Assembled s u.arg.offset (u.arg.pendingBuffers.map Buffer.extent) kept ∧
    (∀ e ∈ kept, e.stop < word ∧ e ∈ u.blocks) ∧ (u.arg.result = .success → kept = u.blocks)
  waiting : u.arg.result = .success → ∀ w ∈ u.waiting, w.2 = .success

/-- An upload starts in a state of the invariant. -/
theorem Keeps.start (offset length : ℕ) (eof : Bool) :
    Keeps offset (start (prepareWriteGridftpOp offset length eof)) where
  tracked := Tracked.start offset length eof
  kept := ⟨[], Assembled.start offset, fun _ he => absurd he List.not_mem_nil, fun _ => rfl⟩
  waiting _ _ hw := absurd hw (by simp [Upload.start])

/-- A section of a call keeps the invariant. -/
theorem Keeps.section {s bufferLength : ℕ} {u : Upload} {server : ReadServer} {result : Result}
    {ws : WriteSection} (h : Keeps s u)
    (hws : Sections server bufferLength result u.arg u.reads ws) :
    Keeps s (u.after bufferLength ws) := by
  have htracked := h.tracked.section hws
  obtain ⟨kept, hassembled, hmem, hall⟩ := h.kept
  refine ⟨htracked, ⟨kept, ?_⟩, ?_⟩
  · rw [after_arg, after_blocks]
    cases hws with
    | failed => exact ⟨hassembled, hmem, hall⟩
    | copied _ _ all last hcopies =>
        rw [hcopies.unchanged.1]
        exact ⟨hcopies.assembled hassembled fun e he => (hmem e he).1, hmem, hall⟩
    | gaveUp _ r hr | waits _ r hr =>
        rw [hr.recorded]
        exact ⟨hassembled, hmem, fun hresult => hall (Result.latch_eq_success.mp hresult).1⟩
  · rw [after_arg]
    cases hws with
    | failed | copied | gaveUp => exact fun _ w hw => absurd hw (by simp [after])
    | waits _ r hr =>
        intro hresult w hw
        obtain rfl := Option.some.inj hw
        exact (Result.latch_eq_success.mp hresult).2

/-- The completion of a read keeps the invariant. -/
theorem Keeps.complete {s id : ℕ} {u u' : Upload} {c : Completion} (h : Keeps s u)
    (hapart : u.DeliversApart (.complete id c)) (hstep : u.step (.complete id c) = some u') :
    Keeps s u' := by
  have htracked := h.tracked.step hstep
  obtain ⟨kept, hassembled, hmem, hall⟩ := h.kept
  cases steps_of_step h.tracked.current h.tracked.full hstep with
  | complete _ _ arg' hcompletes =>
      refine ⟨htracked, ?_, ?_⟩
      · rw [blocks_concat]
        have hmore : ∀ e ∈ kept,
            e.stop < word ∧ e ∈ u.blocks ++ if c.result = .success then [c.extent] else [] :=
          fun e he => ⟨(hmem e he).1, List.mem_append_left _ (hmem e he).2⟩
        -- a block that is kept is received, and the others were
        have hkeep : u.arg.result.latch c.result = .success →
            (∀ e ∈ kept ++ [c.extent], e.stop < word ∧
              e ∈ u.blocks ++ if c.result = .success then [c.extent] else []) ∧
            kept ++ [c.extent] = u.blocks ++ if c.result = .success then [c.extent] else [] := by
          intro hlatch
          obtain ⟨hresult, hsuccess⟩ := Result.latch_eq_success.mp hlatch
          rw [if_pos hsuccess, hall hresult]
          refine ⟨fun e he => ⟨?_, he⟩, rfl⟩
          rcases List.mem_append.mp he with he | he
          · exact (hmem e (hall hresult ▸ he)).1
          · exact List.mem_singleton.mp he ▸ (hapart hsuccess).1
        cases hcompletes with
        | bad b registered freed hremove hfailed =>
            exact ⟨kept, hassembled, hmore, fun hresult => absurd hresult hfailed⟩
        | empty b registered freed hremove hlatch hdata =>
            obtain ⟨hkept, heq⟩ := hkeep hlatch
            exact ⟨_, hassembled.deliverEmpty (by rw [Completion.extent, hdata]; rfl), hkept,
              fun _ => heq⟩
        | added b registered hremove hlatch hdata =>
            obtain ⟨hkept, heq⟩ := hkeep hlatch
            obtain ⟨hresult, hsuccess⟩ := Result.latch_eq_success.mp hlatch
            refine ⟨_, ?_, hkept, fun _ => heq⟩
            exact assembled_addPending (b := b.completed c.data c.offset) hassembled
              (fun e he => (hmem e he).1) (List.length_pos_of_ne_nil hdata)
              fun e he => (hapart hsuccess).2 e (hmem e he).2
      · intro hresult w hw
        refine h.waiting ?_ w hw
        cases hcompletes with
        | bad b registered freed hremove hfailed => exact absurd hresult hfailed
        | empty b registered freed hremove hlatch | added b registered hremove hlatch =>
            exact (Result.latch_eq_success.mp hlatch).1

/-- **One step keeps the invariant**, whatever fails in it. -/
theorem Keeps.step {s : ℕ} {u u' : Upload} {action : UploadAction} (h : Keeps s u)
    (hapart : u.DeliversApart action) (hstep : u.step action = some u') : Keeps s u' := by
  have htracked := h.tracked.step hstep
  cases action with
  | complete id c => exact h.complete hapart hstep
  | call server bufferLength =>
      cases steps_of_step h.tracked.current h.tracked.full hstep with
      | ended => exact ⟨htracked, h.kept, fun _ w hw => absurd hw (by simp [after])⟩
      | call _ _ ws _ hws => exact h.section hws
  | wake server =>
      cases steps_of_step h.tracked.current h.tracked.full hstep with
      | wake _ bufferLength result ws _ hws => exact h.section hws

/-- The call that a section of a call adds, if it returns. -/
theorem calls_after (u : Upload) (bufferLength : ℕ) (ws : WriteSection) :
    (∀ call, (u.after bufferLength ws).calls = u.calls ++ [call] → call.result = .success →
        call.copied = [] → (u.after bufferLength ws).arg.pendingBuffers = []) ↔
      (ws.ended = .returned .success [] → ws.arg.pendingBuffers = []) := by
  rw [after_arg]
  rcases hended : ws.ended with result | ⟨result, copied⟩
  · simp [after, hended]
  · constructor
    · rintro h heq
      obtain ⟨rfl, rfl⟩ := SectionEnd.returned.inj heq
      exact h ⟨bufferLength, .success, []⟩ (by simp [after, hended]) rfl rfl
    · rintro h call hcall hresult hcopied
      simp only [after, hended, List.append_cancel_left_eq, List.cons.injEq, and_true] at hcall
      subst hcall
      obtain rfl : result = .success := hresult
      obtain rfl : copied = [] := hcopied
      exact h rfl

/-- With nothing pending there is no data at the offset. -/
theorem not_ready_of_pendingBuffers {arg : GridftpOpArg} (h : arg.pendingBuffers = []) :
    arg.isTransferOffsetReady = false := by
  rw [GridftpOpArg.isTransferOffsetReady, h]

/-- What is kept where no data is at the offset: nothing, if the blocks have no hole. -/
theorem Keeps.pending_iff {s : ℕ} {u : Upload} (h : Keeps s u)
    (hresult : u.arg.result = .success) (hnot : u.arg.isTransferOffsetReady = false) :
    u.arg.pendingBuffers = [] ↔ Seamless s u.blocks := by
  obtain ⟨kept, hassembled, -, hall⟩ := h.kept
  rw [← hall hresult, ← hassembled.queue_eq_nil_iff_seamless (extents_head_of_not_ready hnot),
    List.map_eq_nil_iff]

/-- **A section of a call ends the body in time** where it leaves nothing pending, and as
long as nothing failed only there. -/
theorem Keeps.leaves_section {s bufferLength : ℕ} {u : Upload} {server : ReadServer}
    {result : Result} {ws : WriteSection} (h : Keeps s u)
    (hws : Sections server bufferLength result u.arg u.reads ws) :
    (u.EndsInTime s bufferLength →
        ws.ended = .returned .success [] → ws.arg.pendingBuffers = []) ∧
      (u.arg.result = .success → result = .success →
        (ws.ended = .returned .success [] → ws.arg.pendingBuffers = []) →
          u.EndsInTime s bufferLength) := by
  cases hws with
  | failed hready hfailed =>
      refine ⟨fun _ hended => ?_, fun hresult => absurd hresult hfailed⟩
      exact absurd (SectionEnd.returned.inj hended).1 hfailed
  | copied hready hresult all last hcopies =>
      constructor
      · rintro ⟨hroom, hseamless⟩ hended
        obtain ⟨-, rfl⟩ := SectionEnd.returned.inj hended
        have hnot : u.arg.isTransferOffsetReady = false := by
          by_contra hyes
          have hyes := Bool.eq_true_of_not_eq_false hyes
          exact Nat.lt_irrefl 0 ((hcopies.length_lt h.tracked.full).2 hyes (hroom hyes))
        rw [hnot, Bool.false_or] at hready
        obtain ⟨-, rfl⟩ := hcopies.eq_of_stop (.inr hnot)
        exact (h.pending_iff hresult hnot).mpr (hseamless hnot hready)
      · rintro - rfl hleaves
        refine ⟨fun hyes => ?_, fun hnot _ => ?_⟩
        · by_contra hroom
          obtain ⟨rfl, rfl⟩ := hcopies.eq_of_stop (.inl (Nat.not_lt.mp hroom))
          rw [not_ready_of_pendingBuffers (hleaves rfl)] at hyes
          exact absurd hyes Bool.false_ne_true
        · obtain ⟨rfl, rfl⟩ := hcopies.eq_of_stop (.inr hnot)
          exact (h.pending_iff hresult hnot).mp (hleaves rfl)
  | gaveUp hready r hr hfailed =>
      obtain ⟨hnot, hreading⟩ := Bool.or_eq_false_iff.mp hready
      refine ⟨fun _ hended => absurd (SectionEnd.returned.inj hended).1 hfailed, fun _ _ _ => ?_⟩
      exact ⟨fun hyes => absurd (hyes.symm.trans hnot) (by simp),
        fun _ hyes => absurd (hyes.symm.trans hreading) (by simp)⟩
  | waits hready r hr =>
      obtain ⟨hnot, hreading⟩ := Bool.or_eq_false_iff.mp hready
      refine ⟨fun _ hended => absurd hended (by simp), fun _ _ _ => ?_⟩
      exact ⟨fun hyes => absurd (hyes.symm.trans hnot) (by simp),
        fun _ hyes => absurd (hyes.symm.trans hreading) (by simp)⟩

/-- Where a call finds the end of the range, nothing is pending if no block lies outside of
it, and as long as nothing failed only then. -/
theorem Keeps.leaves_ended {s : ℕ} {u : Upload} (h : Keeps s u)
    (hend : u.arg.offset = u.arg.endOffset) :
    ((∀ p, Covered u.blocks p → s ≤ p ∧ p < u.arg.endOffset) → u.arg.pendingBuffers = []) ∧
      (u.arg.result = .success → u.arg.pendingBuffers = [] →
        ∀ p, Covered u.blocks p → s ≤ p ∧ p < u.arg.endOffset) := by
  obtain ⟨kept, hassembled, hmem, hall⟩ := h.kept
  have hiff := hassembled.queue_eq_nil_iff
  rw [List.map_eq_nil_iff, hend] at hiff
  refine ⟨fun hrange => hiff.mpr ?_, fun hresult hnil => hall hresult ▸ hiff.mp hnil⟩
  rintro p ⟨e, he, hp⟩
  exact hrange p ⟨e, (hmem e he).2, hp⟩

/-- **One step ends the body in time** if the received blocks have no hole, and as long as
nothing failed only then. -/
theorem Keeps.leavesNothing {s : ℕ} {u u' : Upload} {action : UploadAction} (h : Keeps s u)
    (hstep : u.step action = some u') :
    (u.NoHole s action → u.LeavesNothing action) ∧
      (u.arg.result = .success → u.LeavesNothing action → u.NoHole s action) := by
  have hleaves : u.LeavesNothing action ↔ ∀ call, u'.calls = u.calls ++ [call] →
      call.result = .success → call.copied = [] → u'.arg.pendingBuffers = [] := by
    refine ⟨fun hleaves => hleaves u' hstep, fun hleaves u'' hstep' => ?_⟩
    obtain rfl := Option.some.inj (hstep.symm.trans hstep')
    exact hleaves
  rw [hleaves]
  cases action with
  | complete id c =>
      cases steps_of_step h.tracked.current h.tracked.full hstep with
      | complete => exact ⟨fun _ call hcall => absurd hcall (by simp), fun _ _ => trivial⟩
  | call server bufferLength =>
      cases steps_of_step h.tracked.current h.tracked.full hstep with
      | ended _ _ hend =>
          rw [calls_after, NoHole, if_pos hend]
          obtain ⟨hif, honly⟩ := h.leaves_ended hend
          exact ⟨fun hrange _ => hif hrange, fun hresult hnil => honly hresult (hnil rfl)⟩
      | call _ _ ws hoffset hws =>
          rw [calls_after, NoHole, if_neg hoffset]
          obtain ⟨hif, honly⟩ := h.leaves_section hws
          exact ⟨hif, fun hresult => honly hresult rfl⟩
  | wake server =>
      cases steps_of_step h.tracked.current h.tracked.full hstep with
      | wake _ bufferLength result ws hwaiting hws =>
          rw [calls_after]
          obtain ⟨hif, honly⟩ := h.leaves_section hws
          refine ⟨fun hhole => hif (hhole _ hwaiting), fun hresult hnil w hw => ?_⟩
          obtain rfl := Option.some.inj (hwaiting.symm.trans hw)
          exact honly hresult (h.waiting hresult _ hwaiting) hnil

end Upload

/-- **The end of an upload without a hole leaves no data behind.** In every run of an upload
whose server delivers disjoint blocks, whatever fails in it, a call that returns a success
and no data leaves nothing pending, if the received blocks have no hole where calls look for
the end of the body. Where nothing fails, something is left in all other runs. -/
theorem upload_leavesNothing {offset length : ℕ} {eof : Bool} {actions : List UploadAction}
    {u : Upload}
    (hapart : Guarded.Along Upload.step Upload.DeliversApart
      (.start (prepareWriteGridftpOp offset length eof)) actions)
    (hrun : Guarded.run Upload.step (.start (prepareWriteGridftpOp offset length eof)) actions
      = some u) :
    (Guarded.Along Upload.step (Upload.NoHole offset)
        (.start (prepareWriteGridftpOp offset length eof)) actions →
      Guarded.Along Upload.step Upload.LeavesNothing
        (.start (prepareWriteGridftpOp offset length eof)) actions) ∧
    (Guarded.Along Upload.step (fun u _ => u.arg.result = .success)
        (.start (prepareWriteGridftpOp offset length eof)) actions →
      Guarded.Along Upload.step Upload.LeavesNothing
        (.start (prepareWriteGridftpOp offset length eof)) actions →
      Guarded.Along Upload.step (Upload.NoHole offset)
        (.start (prepareWriteGridftpOp offset length eof)) actions) := by
  have hstart := Upload.Keeps.start offset length eof
  constructor
  · exact hapart.imp (fun _ _ _ h hP hstep => h.step hP hstep)
      (fun _ _ _ h _ hstep => (h.leavesNothing hstep).1) hstart hrun
  · intro hresult
    exact (hapart.and hresult).imp (fun _ _ _ h hP hstep => h.step hP.1 hstep)
      (fun _ _ _ h hP hstep => (h.leavesNothing hstep).2 hP.2) hstart hrun

/-- The case of a file of one block, which arrives with the end of the file. -/
theorem upload_leavesNothing_oneBlock :
    let server : ReadServer := ⟨10, 1, fun _ => true, fun _ => .success⟩
    let actions : List UploadAction :=
      [.call server 10, .complete 0 ⟨.success, List.replicate 10 65, 0, true⟩, .wake server,
        .call server 10]
    (∃ u, Guarded.run Upload.step (.start (prepareWriteGridftpOp 0 minusOne64 false)) actions
        = some u ∧
      u.calls = [⟨10, .success, List.replicate 10 65⟩, ⟨10, .success, []⟩]) ∧
    Guarded.Along Upload.step Upload.LeavesNothing
      (.start (prepareWriteGridftpOp 0 minusOne64 false)) actions := by
  intro server actions
  have hend : (Guarded.run Upload.step (.start (prepareWriteGridftpOp 0 minusOne64 false))
      actions).map Upload.calls
        = some [⟨10, .success, List.replicate 10 65⟩, ⟨10, .success, []⟩] := by decide +kernel
  obtain ⟨u, hrun, hu⟩ := Option.map_eq_some_iff.mp hend
  have hapart : Guarded.Along Upload.step Upload.DeliversApart
      (.start (prepareWriteGridftpOp 0 minusOne64 false)) actions := by
    refine ⟨trivial, fun t ht => ⟨fun _ => ⟨by decide, ?_⟩, fun _ _ => ⟨trivial, fun _ _ =>
      ⟨trivial, fun _ _ => trivial⟩⟩⟩⟩
    have hblocks : (Upload.step (.start (prepareWriteGridftpOp 0 minusOne64 false))
        (.call server 10)).map Upload.blocks = some [] := by decide +kernel
    rw [ht] at hblocks
    rw [Option.some.inj hblocks]
    exact fun e he => absurd he List.not_mem_nil
  have hhole : Guarded.Along Upload.step (Upload.NoHole 0)
      (.start (prepareWriteGridftpOp 0 minusOne64 false)) actions := by
    refine ⟨⟨fun h => absurd h (by decide), fun _ h => absurd h (by decide)⟩, fun t ht =>
      ⟨trivial, fun t' ht' => ⟨?_, fun t'' ht'' => ⟨?_, fun _ _ => trivial⟩⟩⟩⟩
    · have hrun' : Guarded.run Upload.step (.start (prepareWriteGridftpOp 0 minusOne64 false))
          (actions.take 2) = some t' :=
        Guarded.run_cons.mpr ⟨t, ht, Guarded.run_cons.mpr ⟨t', ht', rfl⟩⟩
      have hstate : (Guarded.run Upload.step (.start (prepareWriteGridftpOp 0 minusOne64 false))
          (actions.take 2)).map (fun u => (u.waiting, u.arg.isTransferOffsetReady))
            = some (some (10, .success), true) := by decide +kernel
      rw [hrun'] at hstate
      obtain ⟨hwaiting, hready⟩ := Prod.mk.inj (Option.some.inj hstate)
      intro w hw
      obtain rfl := Option.some.inj (hwaiting.symm.trans hw)
      exact ⟨fun _ => by decide, fun hnot => absurd (hready.symm.trans hnot) (by decide)⟩
    · have hrun' : Guarded.run Upload.step (.start (prepareWriteGridftpOp 0 minusOne64 false))
          (actions.take 3) = some t'' :=
        Guarded.run_cons.mpr ⟨t, ht, Guarded.run_cons.mpr ⟨t', ht',
          Guarded.run_cons.mpr ⟨t'', ht'', rfl⟩⟩⟩
      have hstate : (Guarded.run Upload.step (.start (prepareWriteGridftpOp 0 minusOne64 false))
          (actions.take 3)).map (fun u => (u.blocks, decide (u.arg.offset = u.arg.endOffset)))
            = some ([⟨0, 10⟩], false) := by decide +kernel
      rw [hrun'] at hstate
      obtain ⟨hblocks, hoffset⟩ := Prod.mk.inj (Option.some.inj hstate)
      rw [Upload.NoHole, if_neg (of_decide_eq_false hoffset), Upload.EndsInTime, hblocks]
      refine ⟨fun _ => by decide, fun _ _ p hp => ?_⟩
      simp only [covered_cons, not_covered_nil, or_false, Extent.Contains, Extent.stop] at hp ⊢
      exact ⟨Nat.zero_le p, fun q _ hqp => by omega⟩
  exact ⟨⟨u, hrun, hu⟩, (upload_leavesNothing hapart hrun).1 hhole⟩

/-- **A hole.** The second block of a file arrives, and then the end of the file without the
first one. The call returns a success and no data, and the second block is left pending. -/
theorem upload_leavesNothing_hole :
    let server : ReadServer := ⟨10, 2, fun _ => true, fun _ => .success⟩
    let actions : List UploadAction :=
      [.call server 10, .complete 0 ⟨.success, List.replicate 10 66, 10, false⟩,
        .complete 1 ⟨.success, [], 0, true⟩]
    Guarded.Along Upload.step Upload.DeliversApart
      (.start (prepareWriteGridftpOp 0 minusOne64 false)) (actions ++ [.wake server]) ∧
    (∃ u, Guarded.run Upload.step (.start (prepareWriteGridftpOp 0 minusOne64 false))
        (actions ++ [.wake server]) = some u ∧
      u.calls = [⟨10, .success, []⟩] ∧
      u.arg.pendingBuffers.map Buffer.data = [List.replicate 10 66]) ∧
    ¬Guarded.Along Upload.step Upload.LeavesNothing
      (.start (prepareWriteGridftpOp 0 minusOne64 false)) (actions ++ [.wake server]) := by
  intro server actions
  refine ⟨⟨trivial, fun t ht => ⟨fun _ => ⟨by decide, ?_⟩, fun t' ht' => ⟨fun _ =>
    ⟨by decide, ?_⟩, fun _ _ => ⟨trivial, fun _ _ => trivial⟩⟩⟩⟩, ?_, fun hleaves => ?_⟩
  · have hblocks : (Upload.step (.start (prepareWriteGridftpOp 0 minusOne64 false))
        (.call server 10)).map Upload.blocks = some [] := by decide +kernel
    rw [ht] at hblocks
    rw [Option.some.inj hblocks]
    exact fun e he => absurd he List.not_mem_nil
  · rintro e - p - ⟨hp, hp'⟩
    simp only [Extent.stop, Completion.extent, List.length_nil] at hp hp'
    omega
  · have hend : (Guarded.run Upload.step (.start (prepareWriteGridftpOp 0 minusOne64 false))
        (actions ++ [.wake server])).map
          (fun u => (u.calls, u.arg.pendingBuffers.map Buffer.data))
            = some ([⟨10, .success, []⟩], [List.replicate 10 66]) := by decide +kernel
    obtain ⟨u, hrun, hu⟩ := Option.map_eq_some_iff.mp hend
    exact ⟨u, hrun, Prod.mk.inj hu⟩
  · have hend : (Guarded.run Upload.step (.start (prepareWriteGridftpOp 0 minusOne64 false))
        actions).map (fun u => (u.calls, (u.step (.wake server)).map fun u' =>
          (u'.calls, u'.arg.pendingBuffers.isEmpty)))
            = some ([], some ([⟨10, .success, []⟩], false)) := by decide +kernel
    obtain ⟨u, hrun, hu⟩ := Option.map_eq_some_iff.mp hend
    obtain ⟨hbefore, hwake⟩ := Prod.mk.inj hu
    obtain ⟨u', hstep, hu'⟩ := Option.map_eq_some_iff.mp hwake
    obtain ⟨hcalls, hpending⟩ := Prod.mk.inj hu'
    have hnil := hleaves.last hrun u' hstep ⟨10, .success, []⟩ (by rw [hbefore, hcalls]; rfl)
      rfl rfl
    rw [hnil] at hpending
    exact absurd hpending (by decide)

end DsiRest
