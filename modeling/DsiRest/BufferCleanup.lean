import DsiRest.DownloadStream
import DsiRest.UploadHoles

/-!
# Freeing the Buffers

The cleanup of a request walks the free buffers of its upload or download and frees them, and
then it frees the argument. It does not look at the other lists. A buffer that is current or
pending at that moment still holds bytes that did not get any further; those of an upload
were received and not copied, those of a download were copied into it and not registered.

So the buffers are all freed where a transfer came to its end by itself, and nothing was left
over: an upload told libcurl the end of the data, and the blocks it received had no hole; a
download was told the end of the data, and no call failed.

## Main results

* `GridftpOpArg.Linked.allFree_iff` — all buffers are free if none is in another place.
* `Upload.Emptied.step`, `Download.Sound.queued_eq_nil` — what the two directions leave behind.
* `buffersFreed` — the cleanup of a transfer that came to its end frees every buffer.
-/

namespace DsiRest

open GridftpOpArg Reassembly

/-! ### Free buffers -/

namespace GridftpOpArg

/-- Every buffer that was ever allocated is on the list of the free ones. -/
def AllFree (arg : GridftpOpArg) : Prop :=
  (arg.freeBuffers.map Buffer.id).Perm (List.range arg.allocated)

/-- All buffers are free if none is in another place. -/
theorem Linked.allFree_iff {arg : GridftpOpArg} (h : Linked arg) :
    arg.AllFree ↔ arg.currentBuffer = none ∧ arg.pendingBuffers = [] ∧
      arg.registeredBuffers = [] := by
  have hlength := h.partition.length_eq
  simp only [addresses, buffers, List.length_map, List.length_append, List.length_range] at hlength
  constructor
  · intro hfree
    have hall := hfree.length_eq
    rw [List.length_map, List.length_range] at hall
    refine ⟨?_, List.length_eq_zero_iff.mp (by omega), List.length_eq_zero_iff.mp (by omega)⟩
    rcases hcurrent : arg.currentBuffer with _ | b
    · rfl
    · rw [hcurrent, Option.toList_some, List.length_singleton] at hlength
      omega
  · rintro ⟨hcurrent, hpending, hregistered⟩
    have hpartition := h.partition
    simp only [addresses, buffers, hcurrent, hpending, hregistered, Option.toList_none,
      List.nil_append] at hpartition
    exact hpartition

end GridftpOpArg

/-! ### What an upload leaves behind -/

namespace Upload

/-- The invariant of the buffers of an upload: once libcurl was told the end of the data,
nothing is pending if the received blocks have no hole. -/
structure Emptied (s : ℕ) (u : Upload) : Prop where
  keeps : Keeps s u
  linked : Linked u.arg
  settled : Settled u
  emptied : u.waiting = none → u.EndOfData → Seamless s u.blocks → u.arg.pendingBuffers = []

/-- An upload starts without buffers. -/
theorem Emptied.start (offset length : ℕ) (eof : Bool) :
    Emptied offset (start (prepareWriteGridftpOp offset length eof)) :=
  ⟨Keeps.start offset length eof, Linked.prepare _ _ _, Settled.start offset length eof,
    fun _ _ _ => rfl⟩

/-- A section of a call that tells libcurl the end of the data leaves nothing pending but
what lies behind a hole. -/
theorem Emptied.section {s bufferLength : ℕ} {u : Upload} {server : ReadServer} {result : Result}
    {ws : WriteSection} (h : Keeps s u)
    (hws : Sections server bufferLength result u.arg u.reads ws)
    (hnone : (u.after bufferLength ws).waiting = none) (hend : (u.after bufferLength ws).EndOfData)
    (hseamless : Seamless s (u.after bufferLength ws).blocks) :
    (u.after bufferLength ws).arg.pendingBuffers = [] := by
  rw [after_blocks] at hseamless
  rcases hended : ws.ended with later | ⟨returned, copied⟩
  · exact absurd hnone (by simp [after, hended])
  · obtain ⟨hpos, hreturned, hcopied, -⟩ := hend ⟨bufferLength, returned, copied⟩
      (by simp [after, hended])
    obtain rfl : returned = .success := hreturned
    obtain rfl : copied = [] := hcopied
    rw [after_arg]
    exact (h.leaves_section hws).1 ⟨fun _ => hpos, fun _ _ => hseamless⟩ hended

/-- **One step of an upload** keeps the invariant. -/
theorem Emptied.step {s : ℕ} {u u' : Upload} {action : UploadAction} (h : Emptied s u)
    (hapart : u.DeliversApart action) (hstep : u.step action = some u') : Emptied s u' := by
  have htracked := h.keeps.tracked
  refine ⟨h.keeps.step hapart hstep, step_linked htracked h.linked hstep, h.settled.step hstep, ?_⟩
  cases steps_of_step htracked.current htracked.full hstep with
  | ended server bufferLength hend =>
      intro _ hdata
      obtain ⟨-, -, -, hne⟩ := hdata ⟨bufferLength, .success, []⟩ (by simp [after])
      exact absurd hend hne
  | call server bufferLength ws _ hws | wake server bufferLength result ws _ hws =>
      exact Emptied.section h.keeps hws
  | complete id c arg' hcompletes =>
      intro hnone hdata
      exact absurd (h.settled.settled hnone (.of_complete hcompletes hdata))
        hcompletes.registered_ne_nil

end Upload

namespace Uploading

/-- The reads of the upload deliver blocks apart from each other. -/
def DeliversApart (r : Uploading) : UploadingAction → Prop
  | .upload action => r.upload.DeliversApart action
  | .cleanup => True

instance (r : Uploading) : ∀ action, Decidable (r.DeliversApart action)
  | .upload (.complete _ c) => inferInstanceAs (Decidable (c.result = .success →
      c.extent.stop < word ∧ ∀ e ∈ r.upload.blocks, e.Apart c.extent))
  | .upload (.call _ _) | .upload (.wake _) | .cleanup => isTrue trivial

/-- Up to the cleanup the upload keeps its invariant. -/
def Emptied (s : ℕ) (r : Uploading) : Prop :=
  r.freed = false → r.upload.Emptied s

/-- One step of a request that uploads. -/
theorem Emptied.step {s : ℕ} {r r' : Uploading} {action : UploadingAction} (h : Emptied s r)
    (hapart : r.DeliversApart action) (hstep : r.step action = some r') : Emptied s r' := by
  rcases hfreed : r.freed with _ | _
  · cases action with
    | cleanup =>
        rw [Uploading.step] at hstep
        split_ifs at hstep
        obtain rfl := Option.some.inj hstep
        exact fun hnot => absurd hnot (by simp)
    | upload action =>
        obtain ⟨upload, hupload, rfl⟩ := step_upload hfreed hstep
        exact fun _ => (h hfreed).step hapart hupload
  · obtain ⟨-, -, -, -, -, hfreed', -, -⟩ := step_freed hfreed hstep
    exact fun hnot => absurd (hfreed'.symm.trans hnot) (by decide)

end Uploading

/-! ### What a download leaves behind -/

namespace Download

/-- No call was made yet, or the last one was told the end of the data, and no call failed. -/
def EndOfData (d : Download) : Prop :=
  d.AllSucceed ∧ ∀ call ∈ d.calls.getLast?, call.chunk = []

instance (d : Download) : Decidable d.EndOfData :=
  inferInstanceAs (Decidable ((∀ _ ∈ _, _) ∧ ∀ _ ∈ _, _))

/-- Such a download has nothing left in a buffer. -/
theorem Sound.queued_eq_nil {s : ℕ} {d : Download} (h : Sound s d) (hidle : d.reader = .idle)
    (hlocked : d.locked = false) (hend : d.EndOfData) : d.arg.queued = [] := by
  rcases hcalls : d.calls.getLast? with _ | call
  · have hflow := h.flow hend.1 hlocked
    rw [input, List.getLast?_eq_none_iff.mp hcalls, hidle] at hflow
    exact (List.append_eq_nil_iff.mp (List.append_eq_nil_iff.mp hflow).2).1
  · refine (h.ended hend.1 ⟨hidle, ?_⟩).1
    rw [hcalls, Option.map_some, hend.2 call hcalls]

end Download

/-! ### The request that downloads -/

/-- A request that downloads. `freed` says whether its argument was freed. -/
structure Downloading where
  download : Download
  freed : Bool

/-- What happens next: a step of the download, or the cleanup of the request. -/
inductive DownloadingAction
  | download (action : DownloadAction)
  | cleanup

/-- `globus_l_dsi_rest_request_cleanup_read_part` for `read_gridftp_op`, behind the wait for
the writes and up to the call of `free` for the argument itself. -/
def cleanupReadGridftpOp (arg : GridftpOpArg) : GridftpOpArg :=
  { arg with freeBuffers := [] }

namespace Downloading

/-- A request that libcurl did not start yet. -/
def start (arg : GridftpOpArg) : Downloading :=
  ⟨.start arg, false⟩

/-- The next state. The cleanup locks the mutex, when libcurl is done with the request, and
waits until no write is registered. -/
def step (r : Downloading) : DownloadingAction → Option Downloading
  | .cleanup =>
    if r.freed = false ∧ r.download.reader = .idle ∧ r.download.locked = false ∧
        r.download.arg.registeredBuffersCount = 0 then
      some {
        download := { r.download with arg := cleanupReadGridftpOp r.download.arg }, freed := true }
    else none
  | .download action =>
    if r.freed then none
    else (r.download.step action).map fun download => { r with download := download }

/-- Up to the cleanup the download keeps its invariants. -/
def Kept (s : ℕ) (r : Downloading) : Prop :=
  r.freed = false → r.download.Sound s ∧ Linked r.download.arg

/-- One step of a request that downloads. -/
theorem Kept.step {s : ℕ} {r r' : Downloading} {action : DownloadingAction} (h : Kept s r)
    (hstep : r.step action = some r') : Kept s r' := by
  cases action with
  | cleanup =>
      rw [Downloading.step] at hstep
      split_ifs at hstep
      obtain rfl := Option.some.inj hstep
      exact fun hnot => absurd hnot (by simp)
  | download action =>
      rw [Downloading.step] at hstep
      split_ifs at hstep with hfreed
      obtain ⟨download, hdownload, rfl⟩ := Option.map_eq_some_iff.mp hstep
      obtain ⟨hsound, hlinked⟩ := h (Bool.eq_false_of_not_eq_true hfreed)
      exact fun _ => ⟨hsound.step hdownload, Download.step_linked hlinked hdownload⟩

end Downloading

/-! ### Both directions -/

/-- Nothing is queued if no buffer is current or pending. -/
theorem Download.Sound.queued_eq_nil_iff {s : ℕ} {d : Download} (h : d.Sound s) :
    d.arg.queued = [] ↔ d.arg.currentBuffer = none ∧ d.arg.pendingBuffers = [] := by
  have hdata : ∀ b ∈ d.arg.buffers, 0 < b.bufferUsed → b.data ≠ [] := by
    intro b hb hused hnil
    have hlength := Stored.length_data (h.stored.sound b hb)
    rw [hnil, List.length_nil] at hlength
    omega
  constructor
  · intro hnil
    obtain ⟨hpending, hcurrent⟩ := List.append_eq_nil_iff.mp hnil
    rw [List.flatMap_eq_nil_iff] at hpending hcurrent
    refine ⟨Option.eq_none_iff_forall_not_mem.mpr fun b hb => ?_,
      List.eq_nil_iff_forall_not_mem.mpr fun b hb => ?_⟩
    · exact hdata b (by simp [buffers, Option.mem_def.mp hb]) (h.partly b hb).1
        (hcurrent b (Option.mem_toList.mpr hb))
    · exact hdata b (by simp [buffers, hb]) (h.stored.pending b hb) (hpending b hb)
  · rintro ⟨hcurrent, hpending⟩
    rw [queued, hcurrent, hpending]
    rfl

/-- **What the cleanup frees.** In every run of a request, all buffers that were allocated are
on the list the cleanup walks, if the transfer came to its end: an upload told libcurl the end
of the data, and its reads delivered blocks that do not overlap and have no hole; a download
was told the end of the data, and no call failed. -/
theorem buffersFreed (offset length : ℕ) :
    (∀ (eof : Bool) (actions : List UploadingAction) (r r' : Uploading),
      Guarded.Along Uploading.step Uploading.DeliversApart
        (.start (prepareWriteGridftpOp offset length eof)) actions →
      Guarded.run Uploading.step (.start (prepareWriteGridftpOp offset length eof)) actions
        = some r → r.step .cleanup = some r' →
      r.upload.EndOfData → Seamless offset r.upload.blocks → r.upload.arg.AllFree) ∧
    (∀ (actions : List DownloadingAction) (r r' : Downloading), offset < word →
      Guarded.run Downloading.step (.start (prepareReadGridftpOp offset length)) actions
        = some r → r.step .cleanup = some r' →
      r.download.EndOfData → r.download.arg.AllFree) := by
  constructor
  · intro eof actions r r' hapart hrun hcleanup hend hseamless
    rw [Uploading.step] at hcleanup
    split_ifs at hcleanup with hdone
    have hkept := Guarded.invariant (I := Uploading.Emptied offset)
      (fun _ _ _ h hG hstep => h.step hG hstep)
      (fun _ => Upload.Emptied.start offset length eof) hapart hrun
    have h := hkept hdone.1
    exact h.linked.allFree_iff.mpr ⟨h.keeps.tracked.current,
      h.emptied hdone.2 hend hseamless, h.settled.settled hdone.2 hend⟩
  · intro actions r r' hs hrun hcleanup hend
    rw [Downloading.step] at hcleanup
    split_ifs at hcleanup with hdone
    obtain ⟨hfreed, hidle, hlocked, hcount⟩ := hdone
    have hkept := Guarded.invariant (I := Downloading.Kept offset) (P := fun _ _ => True)
      (fun _ _ _ h _ hstep => h.step hstep)
      (fun _ => ⟨Download.Sound.start hs, Linked.prepare _ _ _⟩)
      (.of_forall (fun _ _ => trivial) _ _) hrun
    obtain ⟨h, hlinked⟩ := hkept hfreed
    obtain ⟨hcurrent, hpending⟩ :=
      h.queued_eq_nil_iff.mp (h.queued_eq_nil hidle hlocked hend)
    have hlength := h.stored.matched.length_eq
    have hcounted := h.stored.count
    exact hlinked.allFree_iff.mpr
      ⟨hcurrent, hpending, List.length_eq_zero_iff.mp (by omega)⟩

/-- The case of an upload of two blocks that come in the wrong order, and of a download of
two chunks, that both come to their end: the buffers of both are freed. -/
theorem buffersFreed_complete :
    let reader : ReadServer := ⟨10, 2, fun _ => true, fun _ => .success⟩
    let block : ℕ → Completion := fun i => ⟨.success, List.replicate 10 65, 10 * i, i = 1⟩
    let upload : List UploadingAction := [.upload (.call reader 20),
      .upload (.complete 1 (block 1)), .upload (.complete 0 (block 0)), .upload (.wake reader),
      .upload (.call reader 20)]
    let writer : WriteServer := ⟨2, 1, true, fun _ => .success⟩
    let download : List DownloadingAction := [.download (.call (bytes "ABC")),
      .download (.turn writer), .download (.complete 0 .success), .download (.call (bytes "D")),
      .download (.turn writer), .download (.call []), .download (.turn writer),
      .download (.complete 0 .success), .download (.turn writer)]
    (∃ r, Guarded.run Uploading.step (.start (prepareWriteGridftpOp 0 minusOne64 false)) upload
        = some r ∧ r.upload.arg.allocated = 2 ∧ r.upload.arg.AllFree) ∧
      ∃ r, Guarded.run Downloading.step (.start (prepareReadGridftpOp 0 minusOne64)) download
        = some r ∧ r.download.arg.AllFree := by
  intro reader block upload writer download
  constructor
  · have hapart : Guarded.Along Uploading.step Uploading.DeliversApart
        (.start (prepareWriteGridftpOp 0 minusOne64 false)) upload := by decide +kernel
    have hlast : ((Guarded.run Uploading.step (.start (prepareWriteGridftpOp 0 minusOne64 false))
        upload).bind fun r => (r.step .cleanup).map fun _ =>
          (r.upload.arg.allocated, r.upload.blocks, decide r.upload.EndOfData))
            = some (2, [⟨10, 10⟩, ⟨0, 10⟩], true) := by decide +kernel
    obtain ⟨r, hrun, hlast⟩ := Option.bind_eq_some_iff.mp hlast
    obtain ⟨r', hcleanup, hlast⟩ := Option.map_eq_some_iff.mp hlast
    obtain ⟨hallocated, hlast⟩ := Prod.mk.inj hlast
    obtain ⟨hblocks, hend⟩ := Prod.mk.inj hlast
    refine ⟨r, hrun, hallocated, (buffersFreed 0 minusOne64).1 false upload r r' hapart hrun
      hcleanup (of_decide_eq_true hend) ?_⟩
    rw [hblocks]
    intro p hp
    simp only [covered_cons, not_covered_nil, or_false, Extent.Contains, Extent.stop] at hp ⊢
    exact ⟨Nat.zero_le p, fun q _ hqp => by omega⟩
  · have hlast : ((Guarded.run Downloading.step (.start (prepareReadGridftpOp 0 minusOne64))
        download).bind fun r => (r.step .cleanup).map fun _ => decide r.download.EndOfData)
          = some true := by decide +kernel
    obtain ⟨r, hrun, hlast⟩ := Option.bind_eq_some_iff.mp hlast
    obtain ⟨r', hcleanup, hend⟩ := Option.map_eq_some_iff.mp hlast
    exact ⟨r, hrun, (buffersFreed 0 minusOne64).2 download r r' (by decide) hrun hcleanup
      (of_decide_eq_true hend)⟩

/-- **Aborted transfers.** libcurl stops a download after the first byte, which is in the
current buffer, and an upload whose block is pending: no buffer is on the list that is
freed. -/
theorem buffersFreed_aborted :
    let reader : ReadServer := ⟨10, 1, fun _ => true, fun _ => .success⟩
    let block : Completion := ⟨.success, List.replicate 10 65, 0, false⟩
    (∃ r, Guarded.run Uploading.step (.start (prepareWriteGridftpOp 0 20 false))
        [.upload (.call reader 5), .upload (.complete 0 block), .upload (.wake reader)] = some r ∧
      (r.step .cleanup).isSome ∧ ¬r.upload.arg.AllFree) ∧
    ∃ r, Guarded.run Downloading.step (.start (prepareReadGridftpOp 0 minusOne64))
        [.download (.call (bytes "A")), .download (.turn ⟨2, 1, true, fun _ => .success⟩)] = some r ∧
      (r.step .cleanup).isSome ∧ ¬r.download.arg.AllFree := by
  intro reader block
  have hlost : ∀ arg : GridftpOpArg, (arg.freeBuffers.length, arg.allocated) = (0, 1) →
      ¬arg.AllFree := by
    intro arg harg hfree
    obtain ⟨hnone, hone⟩ := Prod.mk.inj harg
    have hlength := hfree.length_eq
    rw [List.length_map, List.length_range] at hlength
    omega
  constructor
  · have hend : (Guarded.run Uploading.step (.start (prepareWriteGridftpOp 0 20 false))
        [.upload (.call reader 5), .upload (.complete 0 block), .upload (.wake reader)]).map
        (fun r => ((r.step .cleanup).isSome, r.upload.arg.freeBuffers.length,
          r.upload.arg.allocated)) = some (true, 0, 1) := by decide +kernel
    obtain ⟨r, hrun, hr⟩ := Option.map_eq_some_iff.mp hend
    obtain ⟨hcleanup, hr⟩ := Prod.mk.inj hr
    exact ⟨r, hrun, hcleanup, hlost _ hr⟩
  · have hend : (Guarded.run Downloading.step (.start (prepareReadGridftpOp 0 minusOne64))
        [.download (.call (bytes "A")), .download (.turn ⟨2, 1, true, fun _ => .success⟩)]).map
        (fun r => ((r.step .cleanup).isSome, r.download.arg.freeBuffers.length,
          r.download.arg.allocated)) = some (true, 0, 1) := by decide +kernel
    obtain ⟨r, hrun, hr⟩ := Option.map_eq_some_iff.mp hend
    obtain ⟨hcleanup, hr⟩ := Prod.mk.inj hr
    exact ⟨r, hrun, hcleanup, hlost _ hr⟩

end DsiRest
