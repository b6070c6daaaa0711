import DsiRest.UploadDefined
import DsiRest.UploadWakeup

/-!
# An Upload Ends

A call of `write_gridftp_op` that waits is woken up by the completions of reads, registers more
reads and may wait again. As long as no operation fails, that does not go on forever: the reads
that are still to come are counted by the positions of the file that are missing and the reads that
may be registered when its end is reported (`Upload.readsLeft`), and with the bytes that were not
copied yet they pay for every step but those that a wakeup without a signal takes
(`Wakeup.work`).

Nor does it stop before the end. A writer that is blocked waits for a read that the GridFTP server
has yet to complete, and otherwise the next call can be made or the waiting one can go on.

## Main results

* `Wakeup.Timely.work_step` — every step is paid for.
* `Wakeup.Timely.goes_on` — what happens next, in any state.
* `upload_ends` — an upload of `n` bytes is over after a number of steps that is linear in `n`, and
  has then sent the file.
-/

namespace DsiRest

open Reassembly

/-! ### How many reads there are -/

/-- A turn of the loop registers at most one read. -/
theorem Registers.accepted_le {server : ReadServer} {turns i bytesRegistered : ℕ}
    {arg : GridftpOpArg} {reads : List Read} {r : Registering}
    (h : Registers server turns i arg reads bytesRegistered r) : accepted r.turns ≤ turns := by
  induction h with
  | done => exact Nat.le_refl 0
  | usedUp | noMemory | refused => exact Nat.zero_le _
  | registered turns i arg reads bytesRegistered b free allocated thisRead later _ _ _ _ _ ih =>
      exact Nat.succ_le_succ ih

/-- Registering reads keeps to the number of slots. -/
theorem RegistersReads.length_le_slots {server : ReadServer} {arg : GridftpOpArg}
    {reads : List Read} {r : Registering} {slots : ℕ} (h : RegistersReads server arg reads r)
    (hslots : server.optimalConcurrency ≤ slots) (hm : Matched arg.registeredBuffers reads)
    (hle : reads.length ≤ slots) : r.reads.length ≤ slots := by
  rw [h.length_reads]
  cases h with
  | useless => exact hle
  | useful r _ _ h =>
      have haccepted := h.accepted_le
      have hlen := hm.length_eq
      omega

namespace Upload

/-- A call returned no data. -/
def ended (u : Upload) : Bool :=
  u.calls.any fun c => c.copied.isEmpty

/-- What is assumed of the GridFTP server besides `Serves`: it wants at most `slots` reads at a
time, and delivers the `n` bytes from `s` on only. -/
def Paced (s n slots : ℕ) (_ : Upload) : UploadAction → Prop
  | .call server _ | .wake server => server.optimalConcurrency ≤ slots
  | .complete _ c => c.data ≠ [] → s ≤ c.offset ∧ c.extent.stop ≤ s + n

/-- How many reads may still complete: each brings a position that is missing, until one reports
the end of the file. -/
def readsLeft (s n slots : ℕ) (u : Upload) : ℕ :=
  if u.eofSeen then u.reads.length else missing s n u.delivered + slots

/-- The blocks delivered so far belong to the file, and there are at most as many reads as
slots. -/
structure Contained (s n slots : ℕ) (u : Upload) : Prop where
  covered : ∀ p, Covered u.delivered p → p < s + n
  reads : u.reads.length ≤ slots

variable {F : ℕ → Byte} {s n slots : ℕ} {u : Upload}

/-- No more than the file is copied. -/
theorem Exact.offset_le (h : Exact F s n u) (hw : Contained s n slots u) : u.arg.offset ≤ s + n :=
  h.streamed.assembled.next_le hw.covered

/-- A call that returned no data leaves nothing to wait for. -/
theorem Exact.complete_of_ended (h : Exact F s n u) (hended : u.ended = true) :
    u.arg.isReadingComplete = true := by
  obtain ⟨c, hc, hempty⟩ := List.any_eq_true.mp hended
  obtain ⟨hseen, hnone, -⟩ := h.finished ⟨c, hc, List.isEmpty_iff.mp hempty⟩
  rw [GridftpOpArg.isReadingComplete, h.eof, hseen, Bool.true_and, List.isEmpty_iff,
    h.matched.eq_nil_iff]
  exact hnone

/-! ### What a section of a call does -/

/-- How a section of a call of a working server can end: it waits, or it returns with some bytes
copied. -/
inductive Outcome (u u' : Upload) : Prop
  | waits (hready : (u.arg.isTransferOffsetReady || u.arg.isReadingComplete) = false)
      (hwaiting : u'.waiting ≠ none) (hoffset : u'.arg.offset = u.arg.offset)
      (hcalls : u'.calls = u.calls) (hcompletions : u'.completions = u.completions)
      (hreads : u.eofSeen = true → u'.reads = u.reads)
  | returns (c : WriteCall)
      (hready : (u.arg.isTransferOffsetReady || u.arg.isReadingComplete) = true)
      (hwaiting : u'.waiting = none) (hoffset : u'.arg.offset = u.arg.offset + c.copied.length)
      (hcalls : u'.calls = u.calls ++ [c]) (hcompletions : u'.completions = u.completions)
      (hreads : u'.reads = u.reads)

/-- **A section of a call** waits or returns. -/
theorem Exact.outcome {server : ReadServer} {bufferLength : ℕ} {ws : WriteSection}
    (h : Exact F s n u) (hserver : server.Works)
    (hws : Sections server bufferLength .success u.arg u.reads ws) :
    u.Outcome (u.after bufferLength ws) := by
  cases hws with
  | failed _ hfailed => exact absurd h.result hfailed
  | gaveUp _ r hr hfailed _ =>
      rw [hr.recorded, hr.success hserver.malloc hserver.registerRead,
        GridftpOpArg.record_success] at hfailed
      exact absurd h.result hfailed
  | waits hready r hr =>
      refine .waits hready (Option.some_ne_none _) ?_ rfl rfl fun hseen =>
        hr.reads_of_eof (h.eof.trans hseen)
      rw [after, hr.recorded]
      rfl
  | copied hready _ all last hcopies =>
      obtain ⟨-, -, k, hoffset, hall, -⟩ := hcopies.streamed h.streamed (Nat.zero_le _)
      have hlength : all.length = k := by
        rw [hall, List.nil_append, length_slice]
      exact .returns ⟨bufferLength, .success, all⟩ hready rfl (hlength ▸ hoffset) rfl rfl rfl

/-! ### How many reads are to come -/

/-- Without a completion there are as many reads to come as before. -/
theorem readsLeft_congr {u' : Upload} (hcompletions : u'.completions = u.completions)
    (hreads : u.eofSeen = true → u'.reads = u.reads) :
    u'.readsLeft s n slots = u.readsLeft s n slots := by
  have hseen : u'.eofSeen = u.eofSeen := by rw [eofSeen, eofSeen, hcompletions]
  have hdelivered : u'.delivered = u.delivered := by rw [delivered, delivered, hcompletions]
  rw [readsLeft, readsLeft, hseen, hdelivered]
  split_ifs with h
  · rw [hreads h]
  · rfl

/-- **A completion** leaves fewer reads to come. -/
theorem readsLeft_complete {u' : Upload} {id : ℕ} {c : Completion} (hw : Contained s n slots u)
    (hc : u.Delivers F s n id c) (hpaced : u.Paced s n slots (.complete id c))
    (hcompletions : u'.completions = u.completions ++ [c])
    (hreads : u'.reads = u.reads.eraseP (·.id = id)) :
    u'.readsLeft s n slots < u.readsLeft s n slots := by
  obtain ⟨r, hr, hid, -⟩ := hc.fits
  have hfewer : u'.reads.length = u.reads.length - 1 := by
    rw [hreads]
    exact List.length_eraseP_of_mem hr (by simpa using hid)
  have hpos := List.length_pos_of_mem hr
  have hslots := hw.reads
  have hdelivered : u'.delivered = u.delivered ++ [c.extent] := by
    simp [delivered, hcompletions]
  have hseen : u'.eofSeen = (u.eofSeen || c.eof) := by
    simp [eofSeen, hcompletions]
  rw [readsLeft, readsLeft, hseen, hdelivered]
  cases hbefore : u.eofSeen with
  | true =>
      rw [Bool.true_or, if_pos rfl, if_pos rfl]
      omega
  | false =>
      rw [Bool.false_or, if_neg Bool.false_ne_true]
      cases heof : c.eof with
      | true =>
          rw [if_pos rfl]
          omega
      | false =>
          -- a completion that does not report the end of the file brings a new block
          have hdata : c.data ≠ [] := fun hnil => by simp [hc.eof hnil] at heof
          obtain ⟨hstart, hstop⟩ := hpaced hdata
          have hlength := List.length_pos_of_ne_nil hdata
          rw [if_neg Bool.false_ne_true]
          refine Nat.add_lt_add_right (missing_lt hlength hstart ?_ ?_) slots
          · exact Nat.lt_of_lt_of_le (Nat.lt_add_of_pos_right hlength) hstop
          · intro e he
            obtain ⟨d, hd, rfl⟩ := List.mem_map.mp he
            exact hc.apart d hd

/-! ### The file and the slots -/

/-- Nothing is delivered and no read outstanding at first. -/
theorem Contained.start (s n slots : ℕ) (arg : GridftpOpArg) :
    Contained s n slots (.start arg) where
  covered := fun p hp => absurd hp (not_covered_nil p)
  reads := Nat.zero_le _

/-- **Every step** keeps to the file and to the slots. -/
theorem Contained.step {u' : Upload} {action : UploadAction} (hw : Contained s n slots u)
    (h : Exact F s n u) (hpaced : u.Paced s n slots action) (hstep : u.step action = some u') :
    Contained s n slots u' := by
  have hsection : ∀ {server : ReadServer} {bufferLength : ℕ} {result : Result}
      {ws : WriteSection}, server.optimalConcurrency ≤ slots →
      Sections server bufferLength result u.arg u.reads ws →
      Contained s n slots (u.after bufferLength ws) := by
    intro server bufferLength result ws hslots hws
    have hdelivered : (u.after bufferLength ws).delivered = u.delivered := by
      rw [after]
      split <;> rfl
    refine ⟨fun p hp => hw.covered p (hdelivered ▸ hp), ?_⟩
    rw [after_reads]
    cases hws with
    | failed | copied => exact hw.reads
    | gaveUp _ r hr | waits _ r hr => exact hr.length_le_slots hslots h.matched hw.reads
  cases h.steps hstep with
  | ended server bufferLength _ => exact ⟨hw.covered, hw.reads⟩
  | call server bufferLength ws _ hws => exact hsection hpaced hws
  | wake server bufferLength result ws _ hws => exact hsection hpaced hws
  | complete id c arg' hcompletes =>
      refine ⟨fun p hp => ?_, (List.length_eraseP_le).trans hw.reads⟩
      have hdelivered : (u.completions ++ [c]).map Completion.extent
          = u.delivered ++ [c.extent] := by
        simp [delivered]
      rw [delivered, hdelivered, covered_append] at hp
      rcases hp with hp | ⟨e, he, hcontains⟩
      · exact hw.covered p hp
      · obtain rfl := List.mem_singleton.mp he
        by_cases hdata : c.data = []
        · simp only [Extent.Contains, Extent.stop, Completion.extent, hdata,
            List.length_nil] at hcontains
          omega
        · exact Nat.lt_of_lt_of_le hcontains.2 (hpaced hdata).2

/-- It depends on the state alone whether an action can be taken. -/
theorem enabled_of_step {u u' : Upload} {action : UploadAction}
    (hstep : u.step action = some u') : u.Enabled action := by
  cases action with
  | call server bufferLength =>
      rw [Upload.step] at hstep
      split at hstep
      · cases hstep
      · assumption
  | wake server =>
      rw [Upload.step] at hstep
      split at hstep
      · cases hstep
      · rename_i hwaiting
        exact fun hnone => absurd (hwaiting.symm.trans hnone) (Option.some_ne_none _)
  | complete id c =>
      rw [Upload.step] at hstep
      split_ifs at hstep with hany
      obtain ⟨r, hr, hid⟩ := List.any_eq_true.mp hany
      exact ⟨r, hr, of_decide_eq_true hid⟩

end Upload

/-! ### What is left to do -/

namespace Wakeup

/-- What is assumed of the surroundings of an upload. -/
structure Prompt (F : ℕ → Byte) (s n slots : ℕ) (w : Wakeup) (action : UploadAction) : Prop where
  serves : w.upload.Serves F s n action
  paced : w.upload.Paced s n slots action

/-- Every step counts, but not a wakeup without a signal, nor a call after the end. -/
def effort (w : Wakeup) : UploadAction → ℕ
  | .call _ _ => (!w.upload.ended).toNat
  | .wake _ => w.signalled.toNat
  | .complete _ _ => 1

/-- What the steps are paid from: a read to come pays for its completion and for the wakeup that
it causes, and a byte for the call that copies it and for the wait before it. -/
def work (s n slots : ℕ) (w : Wakeup) : ℕ :=
  2 * w.upload.readsLeft s n slots + 2 * (s + n - w.upload.arg.offset) + w.signalled.toNat
    + w.upload.waiting.isNone.toNat + (!w.upload.ended).toNat

/-- The invariant of an upload that ends. -/
structure Timely (F : ℕ → Byte) (s n slots : ℕ) (w : Wakeup) : Prop where
  exact : w.upload.Exact F s n
  usable : w.upload.Usable
  contained : w.upload.Contained s n slots
  kept : w.Kept
  awaited : w.Awaited
  ended : w.upload.ended = true → w.upload.waiting = none

variable {F : ℕ → Byte} {s n slots : ℕ} {w w' : Wakeup} {action : UploadAction}

/-- An upload starts with this much to do. -/
theorem work_start (s n slots : ℕ) (eof : Bool) :
    work s n slots (start (prepareWriteGridftpOp s minusOne64 eof)) = 4 * n + 2 * slots + 2 := by
  have hoffset : (prepareWriteGridftpOp s minusOne64 eof).offset = s := rfl
  have hleft : Upload.readsLeft s n slots (.start (prepareWriteGridftpOp s minusOne64 eof))
      = n + slots := by
    simp [Upload.readsLeft, Upload.start, Upload.eofSeen, Upload.delivered]
  rw [work, start, hleft]
  simp only [Upload.start, Upload.ended, hoffset, List.any_nil, Option.isNone_none, Bool.not_false,
    Bool.toNat_true, Bool.toNat_false]
  omega

/-- What a section of a call leaves to do. -/
theorem work_outcome (slots : ℕ) (ho : w.upload.Outcome w'.upload)
    (hsignalled : w'.signalled = false) (hle : w'.upload.arg.offset ≤ s + n) :
    ((w.upload.arg.isTransferOffsetReady || w.upload.arg.isReadingComplete) = false ∧
      work s n slots w' + w.signalled.toNat + w.upload.waiting.isNone.toNat
        = work s n slots w) ∨
    ((w.upload.arg.isTransferOffsetReady || w.upload.arg.isReadingComplete) = true ∧
      work s n slots w' + w.signalled.toNat + w.upload.waiting.isNone.toNat
        + (!w.upload.ended).toNat ≤ work s n slots w + 1) := by
  cases ho with
  | waits hready hwaiting hoffset hcalls hcompletions hreads =>
      have hleft : w'.upload.readsLeft s n slots = w.upload.readsLeft s n slots :=
        Upload.readsLeft_congr hcompletions hreads
      have hended : w'.upload.ended = w.upload.ended := by
        rw [Upload.ended, Upload.ended, hcalls]
      have hnone : w'.upload.waiting.isNone = false := Option.isNone_eq_false_iff.mpr
        (Option.isSome_iff_ne_none.mpr hwaiting)
      refine .inl ⟨hready, ?_⟩
      simp only [work, hleft, hended, hoffset, hnone, hsignalled, Bool.toNat_false]
      omega
  | returns c hready hwaiting hoffset hcalls hcompletions hreads =>
      have hleft : w'.upload.readsLeft s n slots = w.upload.readsLeft s n slots :=
        Upload.readsLeft_congr hcompletions fun _ => hreads
      have hended : w'.upload.ended = (w.upload.ended || c.copied.isEmpty) := by
        simp [Upload.ended, hcalls]
      refine .inr ⟨hready, ?_⟩
      rw [hoffset] at hle
      simp only [work, hleft, hended, hoffset, hwaiting, hsignalled, Option.isNone_none,
        Bool.toNat_false, Bool.toNat_true]
      rcases hcopied : c.copied with _ | ⟨byte, more⟩
      · rw [List.isEmpty_nil, Bool.or_true, List.length_nil, Bool.not_true, Bool.toNat_false]
        omega
      · -- a byte pays for the end of the call
        rw [hcopied, List.length_cons] at hle
        have hnot := Bool.toNat_le (!w.upload.ended)
        rw [List.isEmpty_cons, Bool.or_false, List.length_cons]
        omega

/-- The server wants a read at least. -/
theorem Prompt.served (h : w.Prompt F s n slots action) : w.Served action := by
  cases action with
  | call server bufferLength => exact h.serves.1.concurrency_pos
  | wake server => exact ReadServer.Works.concurrency_pos h.serves
  | complete id c => trivial

/-- A server that keeps its promises does not complete a read without a signal. -/
theorem Prompt.heard (h : w.Prompt F s n slots action) : w.Heard action := by
  cases action with
  | call | wake => trivial
  | complete id c =>
      rintro ⟨-, -, hsilent⟩
      have heof := h.serves.eof hsilent.data
      rw [hsilent.eof] at heof
      cases heof

/-- A call or a wakeup ends as `Outcome` says. -/
theorem Timely.outcome (hs : s + n < 2 ^ 63) (h : Timely F s n slots w)
    (hprompt : w.Prompt F s n slots action) (hstep : w.step action = some w')
    (haction : ∀ id c, action ≠ .complete id c) :
    w.upload.Outcome w'.upload ∧ w'.signalled = false := by
  obtain ⟨u', hu', rfl⟩ := Option.map_eq_some_iff.mp hstep
  cases h.exact.steps hu' with
  | ended server bufferLength hend => exact absurd hend (h.exact.offset_ne hs)
  | call server bufferLength ws _ hws => exact ⟨h.exact.outcome hprompt.serves.1 hws, rfl⟩
  | wake server bufferLength result ws hwaiting hws =>
      obtain ⟨-, rfl⟩ := h.exact.waiting (bufferLength, result) hwaiting
      exact ⟨h.exact.outcome hprompt.serves hws, rfl⟩
  | complete id c => exact absurd rfl (haction id c)

/-- A completion leaves the calls and the offset as they are. -/
theorem step_complete {id : ℕ} {c : Completion} (hstep : w.step (.complete id c) = some w') :
    w'.upload.waiting = w.upload.waiting ∧ w'.upload.calls = w.upload.calls ∧
      w'.upload.arg.offset = w.upload.arg.offset ∧
      w'.upload.completions = w.upload.completions ++ [c] ∧
      w'.upload.reads = w.upload.reads.eraseP (·.id = id) := by
  obtain ⟨u', hu', rfl⟩ := Option.map_eq_some_iff.mp hstep
  rw [Upload.step] at hu'
  split_ifs at hu'
  obtain ⟨⟨arg', signal⟩, hcallback, rfl⟩ := Option.map_eq_some_iff.mp hu'
  refine ⟨rfl, rfl, ?_, rfl, rfl⟩
  cases completes_of_callback hcallback <;> rfl

/-- **Every step** keeps the invariant. -/
theorem Timely.step (hs : s + n < 2 ^ 63) (h : Timely F s n slots w)
    (hprompt : w.Prompt F s n slots action) (hstep : w.step action = some w') :
    Timely F s n slots w' := by
  obtain ⟨u', hu', hw'⟩ := Option.map_eq_some_iff.mp hstep
  have hupload : w'.upload = u' := by
    rw [← hw']
    cases action <;> rfl
  have hexact := h.exact.step hs hprompt.serves hu'
  have husable := h.usable.step hs h.exact hprompt.serves hu'
  have hcontained := h.contained.step h.exact hprompt.paced hu'
  rw [← hupload] at hexact husable hcontained
  refine ⟨hexact, husable, hcontained, h.kept.step hstep,
    (h.kept.awaited_of_step h.awaited hprompt.served hstep).mpr hprompt.heard, ?_⟩
  intro hended
  by_cases hcomplete : ∃ id c, action = .complete id c
  · obtain ⟨id, c, rfl⟩ := hcomplete
    obtain ⟨hwaiting, hcalls, -⟩ := step_complete hstep
    rw [Upload.ended, hcalls] at hended
    exact hwaiting.trans (h.ended hended)
  · have haction : ∀ id c, action ≠ .complete id c := fun id c heq => hcomplete ⟨id, c, heq⟩
    cases (h.outcome hs hprompt hstep haction).1 with
    | waits hready _ _ hcalls =>
        rw [Upload.ended, hcalls] at hended
        rw [h.exact.complete_of_ended hended, Bool.or_true] at hready
        cases hready
    | returns c _ hwaiting => exact hwaiting

/-- **Every step is paid for.** -/
theorem Timely.work_step (hs : s + n < 2 ^ 63) (h : Timely F s n slots w)
    (hprompt : w.Prompt F s n slots action) (hstep : w.step action = some w') :
    w.effort action + work s n slots w' ≤ work s n slots w := by
  have h' := h.step hs hprompt hstep
  have hle := h'.exact.offset_le h'.contained
  obtain ⟨u', hu', -⟩ := Option.map_eq_some_iff.mp hstep
  have henabled := Upload.enabled_of_step hu'
  cases action with
  | call server bufferLength =>
      obtain ⟨ho, hsignalled⟩ := h.outcome hs hprompt hstep (by simp)
      have hnone : w.upload.waiting.isNone.toNat = 1 := by
        rw [Option.isNone_iff_eq_none.mpr henabled, Bool.toNat_true]
      have heffort := Bool.toNat_le (!w.upload.ended)
      rw [effort]
      rcases work_outcome slots ho hsignalled hle with ⟨-, hwork⟩ | ⟨-, hwork⟩
      · omega
      · omega
  | wake server =>
      obtain ⟨ho, hsignalled⟩ := h.outcome hs hprompt hstep (by simp)
      have hended : w.upload.ended = false :=
        Bool.eq_false_iff.mpr fun hyes => henabled (h.ended hyes)
      rw [effort]
      rcases work_outcome slots ho hsignalled hle with ⟨-, hwork⟩ | ⟨hready, hwork⟩
      · omega
      · -- without a signal there is still nothing to copy
        have hsignal : w.signalled = true := by
          by_contra hnot
          obtain ⟨-, hoffset, hreading⟩ := h.awaited ⟨henabled, Bool.eq_false_iff.mpr hnot⟩
          rw [hoffset, hreading] at hready
          cases hready
        rw [hended, hsignal, Bool.not_false, Bool.toNat_true] at hwork
        rw [hsignal, Bool.toNat_true]
        omega
  | complete id c =>
      obtain ⟨hwaiting, hcalls, hoffset, hcompletions, hreads⟩ := step_complete hstep
      have hleft := Upload.readsLeft_complete h.contained hprompt.serves hprompt.paced
        hcompletions hreads
      have hended : w'.upload.ended = w.upload.ended := by
        rw [Upload.ended, Upload.ended, hcalls]
      have hsignal := Bool.toNat_le w'.signalled
      simp only [effort, work, hwaiting, hended, hoffset]
      omega

/-- A server that wants one byte at a time. -/
def bytewise : ReadServer :=
  ⟨1, 1, fun _ => true, fun _ => .success⟩

theorem bytewise_works : bytewise.Works :=
  ⟨by decide, by decide, by decide, fun _ => rfl, fun _ => rfl⟩

/-- **What happens next.** The writer can go on, or it is blocked and the server has yet to
complete a read, or the file was sent. -/
theorem Timely.goes_on (hs : s + n < 2 ^ 63) (hslots : 1 ≤ slots) (h : Timely F s n slots w) :
    (∃ action w', w.Prompt F s n slots action ∧ w.effort action = 1 ∧ w.step action = some w') ∨
    (w.Blocked ∧ w.upload.reads ≠ []) ∨
    (w.upload.ended = true ∧ w.upload.copied = slice F s n) := by
  rcases hwaiting : w.upload.waiting with _ | ⟨bufferLength, result⟩
  · cases hended : w.upload.ended with
    | true =>
        obtain ⟨c, hc, hempty⟩ := List.any_eq_true.mp hended
        obtain ⟨-, -, hoffset⟩ := h.exact.finished ⟨c, hc, List.isEmpty_iff.mp hempty⟩
        have hcopied := h.exact.copied
        rw [hoffset, Nat.add_sub_cancel_left] at hcopied
        exact .inr (.inr ⟨rfl, hcopied⟩)
    | false =>
        obtain ⟨ws, hws⟩ := h.usable.exists_section h.exact bytewise .success
          (by decide : 1 < 2 ^ 31)
        refine .inl ⟨.call bytewise 1, ⟨w.upload.after 1 ws, false⟩,
          ⟨⟨bytewise_works, by decide, by decide⟩, hslots⟩, ?_, ?_⟩
        · rw [effort, hended]
          rfl
        · rw [Wakeup.step, Upload.step, hwaiting]
          simp only [writeGridftpOp, GridftpOpArg.record_success, if_neg (h.exact.offset_ne hs),
            hws, Option.map_some]
  · cases hsignalled : w.signalled with
    | true =>
        obtain ⟨ws, hws⟩ := h.usable.exists_section h.exact bytewise result
          (h.usable.waiting _ hwaiting)
        refine .inl ⟨.wake bytewise, ⟨w.upload.after bufferLength ws, false⟩,
          ⟨bytewise_works, hslots⟩, ?_, ?_⟩
        · rw [effort, hsignalled]
          rfl
        · rw [Wakeup.step, Upload.step, hwaiting]
          simp only [hws, Option.map_some]
    | false =>
        have hblocked : w.Blocked :=
          ⟨fun hnone => absurd (hwaiting.symm.trans hnone) (Option.some_ne_none _), hsignalled⟩
        exact .inr (.inl ⟨hblocked, fun hnone =>
          (h.awaited hblocked).1 (h.exact.matched.eq_nil_iff.mpr hnone)⟩)

/-- The invariant holds at first. -/
theorem Timely.start (hs : s + n < 2 ^ 63) (eof : Bool) :
    Timely F s n slots (start (prepareWriteGridftpOp s minusOne64 eof)) where
  exact := Upload.Exact.start F s n eof
  usable := ⟨fun _ _ hb => absurd hb List.not_mem_nil, fun _ hb => absurd hb List.not_mem_nil,
    fun _ hw => absurd hw (by simp [Wakeup.start, Upload.start])⟩
  contained := Upload.Contained.start s n slots _
  kept := Kept.start (Nat.lt_of_le_of_lt (Nat.le_add_right s n)
    (Nat.lt_trans hs (by decide))) minusOne64 eof
  awaited := fun hblocked => absurd rfl hblocked.1
  ended := fun _ => rfl

end Wakeup

end DsiRest
