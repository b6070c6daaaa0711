import DsiRest.UploadCleanup

/-!
# Waking Up the Writer of an Upload

A call of `write_gridftp_op` that finds nothing to copy registers reads and waits on the
condition variable. It is up to the read callback to wake it up, and the callback of a read
that succeeds without data, without the end of the file and away from the end of the range
does not signal.

`Wakeup.step` is `Upload.step` with the condition variable: whether the waiting call was
signalled since it began to wait. A signal without a waiting call is lost, and a call may
wake up without one.

## Main results

* `waits_of_loop`, `RegistersReads.registeredBuffers_ne_nil` — a call that waits has a read
  registered.
* `signal_of_callback` — which completions do not signal.
* `upload_wakeup_iff` — the writer never waits with nothing in flight exactly if no such
  completion is that of the last read it waits for.
-/

namespace DsiRest

/-! ### What a waiting call has registered -/

/-- Registered buffers stay registered while reads are registered. -/
theorem Registers.registeredBuffers_ne_nil {server : ReadServer} {turns i bytesRegistered : ℕ}
    {arg : GridftpOpArg} {reads : List Read} {r : Registering}
    (h : Registers server turns i arg reads bytesRegistered r)
    (hne : arg.registeredBuffers ≠ []) : r.arg.registeredBuffers ≠ [] := by
  induction h with
  | done | usedUp | noMemory | refused => exact hne
  | registered _ _ _ _ _ b _ _ _ _ _ _ _ _ _ ih => exact ih (List.cons_ne_nil _ _)

/-- There is something left to read before the end of the range. -/
theorem remainingLength_ne_zero {arg : GridftpOpArg} (optimalBlocksize : ℕ)
    (hoffset : arg.offset < word) (hend : arg.endOffset < word)
    (hne : arg.offset ≠ arg.endOffset) :
    ¬(arg.endOffset ≠ minusOne64 ∧ remainingLength arg optimalBlocksize 0 = 0) := by
  rintro ⟨hrange, hzero⟩
  rw [remainingLength, if_pos hrange] at hzero
  simp only [sub64, show word = 18446744073709551616 from rfl] at hzero hoffset hend
  omega

/-- **Registering reads** before the end of the range, with nothing to wait for otherwise,
leaves a read registered or fails. -/
theorem RegistersReads.registeredBuffers_ne_nil {server : ReadServer} {arg : GridftpOpArg}
    {reads : List Read} {r : Registering} (h : RegistersReads server arg reads r)
    (hconcurrency : 1 ≤ server.optimalConcurrency) (hoffset : arg.offset < word)
    (hend : arg.endOffset < word) (hne : arg.offset ≠ arg.endOffset)
    (hreading : arg.isReadingComplete = false)
    (hresult : (r.arg.record r.result).result = .success) : r.arg.registeredBuffers ≠ [] := by
  rw [h.recorded] at hresult
  obtain ⟨hbefore, hafter⟩ := Result.latch_eq_success.mp hresult
  rw [GridftpOpArg.isReadingComplete, Bool.and_eq_false_iff] at hreading
  cases h with
  | useless huseless =>
      rcases hreading with heof | hsome
      · exact absurd ⟨hbefore, heof⟩ huseless
      · simpa using hsome
  | useful r _ heof h =>
      by_cases hnil : arg.registeredBuffers = []
      · rw [hnil] at h
        obtain ⟨turns, hturns⟩ := Nat.exists_eq_add_of_le' hconcurrency
        rw [List.length_nil, Nat.sub_zero, hturns] at h
        have hleft := remainingLength_ne_zero server.optimalBlocksize hoffset hend hne
        cases h with
        | usedUp _ _ _ _ _ hused => exact absurd hused hleft
        | noMemory => exact absurd hafter (by simp)
        | refused => exact absurd hafter (by simp)
        | registered _ _ _ _ _ b free allocated thisRead later _ _ _ _ hlater =>
            exact hlater.registeredBuffers_ne_nil (List.cons_ne_nil _ _)
      · exact h.registeredBuffers_ne_nil hnil

/-- A section of a call that waits: it registered reads, and did not give up. -/
theorem waits_of_loop {server : ReadServer} {bufferLength : ℕ} {result waited : Result}
    {arg : GridftpOpArg} {reads : List Read} {ws : WriteSection}
    (hcurrent : arg.currentBuffer = none) (hwaits : ws.ended = .waiting waited)
    (h : writeGridftpOpLoop server bufferLength result arg reads = some ws) :
    (arg.isTransferOffsetReady || arg.isReadingComplete) = false ∧
      ∃ r, RegistersReads server arg reads r ∧ ws.arg = r.arg.record r.result ∧
        ((r.arg.record r.result).result ≠ .success → r.arg.registeredBuffers ≠ []) := by
  have hcopy : ∀ {result arg reads turns},
      writeGridftpOpCopy bufferLength result arg reads turns = some ws → False := by
    intro result arg reads turns hws
    rw [writeGridftpOpCopy] at hws
    split at hws
    · obtain rfl := Option.some.inj hws
      exact absurd hwaits (by simp)
    · obtain ⟨⟨all, last⟩, -, rfl⟩ := Option.map_eq_some_iff.mp hws
      exact absurd hwaits (by simp)
  rw [writeGridftpOpLoop] at h
  rcases hready : arg.isTransferOffsetReady || arg.isReadingComplete with _ | _
  · rw [hready, if_neg Bool.false_ne_true, Option.bind_eq_bind, Option.bind_eq_some_iff] at h
    obtain ⟨r, hr, h⟩ := h
    by_cases hend : (r.arg.record r.result).result ≠ .success ∧
      (r.arg.record r.result).registeredBuffers = []
    · simp only [if_pos hend] at h
      exact (hcopy h).elim
    · simp only [if_neg hend] at h
      obtain rfl := Option.some.inj h
      exact ⟨rfl, r, registersReads_of_write hcurrent hr, rfl,
        fun hfailed hnone => hend ⟨hfailed, hnone⟩⟩
  · rw [hready, if_pos rfl] at h
    exact (hcopy h).elim

/-- Copying leaves the offset a word. -/
theorem Copies.offset_lt {bufferLength : ℕ} {arg last : GridftpOpArg} {filled all : Bytes}
    (h : Copies bufferLength arg filled all last) (hoffset : arg.offset < word) :
    last.offset < word := by
  induction h with
  | done => exact hoffset
  | part _ _ _ _ _ _ _ _ _ _ _ _ _ ih => exact ih (Nat.mod_lt _ (by decide))
  | whole _ _ _ _ _ _ _ _ _ _ _ ih => exact ih (Nat.mod_lt _ (by decide))

/-! ### Completions that do not signal -/

/-- A completion without a failure, without data and without the end of what is read. -/
structure Silent (arg : GridftpOpArg) (c : Completion) : Prop where
  before : arg.result = .success
  result : c.result = .success
  data : c.data = []
  eof : c.eof = false
  ends : arg.ends c.offset c.data.length = false

/-- **The completions that do not signal** the condition variable. -/
theorem signal_of_callback {arg arg' : GridftpOpArg} {id : ℕ} {c : Completion} {signal : Bool}
    (h : gridftpReadCallback arg c.result id c.data c.offset c.eof = some (arg', signal)) :
    signal = false ↔ Silent arg c := by
  rw [gridftpReadCallback] at h
  simp only at h
  split at h
  case h_1 => exact absurd h (by simp)
  case h_2 b registered hremove =>
    split_ifs at h with hfailed hempty
    · obtain ⟨-, rfl⟩ := Prod.mk.inj (Option.some.inj h)
      exact ⟨fun hno => absurd hno (by decide),
        fun hs => absurd (Result.latch_eq_success.mpr ⟨hs.before, hs.result⟩) hfailed⟩
    · obtain ⟨-, rfl⟩ := Prod.mk.inj (Option.some.inj h)
      obtain ⟨hbefore, hresult⟩ := Result.latch_eq_success.mp (not_not.mp hfailed)
      rw [Bool.or_eq_false_iff]
      exact ⟨fun hno => ⟨hbefore, hresult, List.length_eq_zero_iff.mp hempty, hno.1, hno.2⟩,
        fun hs => ⟨hs.eof, hs.ends⟩⟩
    · obtain ⟨-, rfl⟩ := Prod.mk.inj (Option.some.inj h)
      exact ⟨fun hno => absurd hno (by decide),
        fun hs => absurd (List.length_eq_zero_iff.mpr hs.data) hempty⟩

/-- A completion that does not signal takes its buffer from the registered ones and leaves
the rest of what the writer waits for as it is. -/
theorem Completes.silent {arg arg' : GridftpOpArg} {id : ℕ} {c : Completion}
    (h : Completes arg id c arg') (hs : Silent arg c) :
    (∃ b, removeBuffer id arg.registeredBuffers = some (b, arg'.registeredBuffers)) ∧
      arg'.isTransferOffsetReady = arg.isTransferOffsetReady ∧ arg'.eof = arg.eof := by
  cases h with
  | bad b registered freed hremove hfailed =>
      exact absurd (Result.latch_eq_success.mpr ⟨hs.before, hs.result⟩) hfailed
  | empty b registered freed hremove =>
      refine ⟨⟨b, hremove⟩, rfl, ?_⟩
      have heof : (arg.eof || (c.eof || arg.ends c.offset c.data.length)) = arg.eof := by
        rw [hs.eof, hs.ends, Bool.or_false, Bool.or_false]
      exact heof
  | added b registered hremove _ hdata => exact absurd hs.data hdata

/-! ### The condition variable -/

/-- An upload with its condition variable: whether the waiting call was signalled. -/
structure Wakeup where
  upload : Upload
  signalled : Bool

/-- Whether an action signals the condition variable. -/
def Upload.signals (u : Upload) : UploadAction → Bool
  | .call _ _ | .wake _ => false
  | .complete id c =>
    match gridftpReadCallback u.arg c.result id c.data c.offset c.eof with
    | none => false
    | some (_, signal) => signal

namespace Wakeup

/-- An upload that was not called yet. -/
def start (arg : GridftpOpArg) : Wakeup :=
  ⟨.start arg, false⟩

/-- The next state. A call that returns from waiting takes the signal, and a signal reaches a
waiting call only. -/
def step (w : Wakeup) (action : UploadAction) : Option Wakeup :=
  (w.upload.step action).map fun upload =>
    match action with
    | .call _ _ | .wake _ => ⟨upload, false⟩
    | .complete _ _ =>
      ⟨upload, w.signalled || (w.upload.waiting.isSome && w.upload.signals action)⟩

/-- The writer is blocked, and no signal is pending. -/
def Blocked (w : Wakeup) : Prop :=
  w.upload.waiting ≠ none ∧ w.signalled = false

/-- A writer that is blocked waits for a read that is registered, and for a reason. -/
def Awaited (w : Wakeup) : Prop :=
  w.Blocked → w.upload.arg.registeredBuffers ≠ [] ∧
    w.upload.arg.isTransferOffsetReady = false ∧ w.upload.arg.isReadingComplete = false

/-- The read that completes is not the only one of a blocked writer, or signals. -/
def Heard (w : Wakeup) : UploadAction → Prop
  | .call _ _ | .wake _ => True
  | .complete _ c => ¬(w.Blocked ∧ w.upload.reads.length = 1 ∧ Silent w.upload.arg c)

/-- What is assumed of the GridFTP server: it wants at least one read at a time. -/
def Served (_ : Wakeup) : UploadAction → Prop
  | .call server _ | .wake server => 1 ≤ server.optimalConcurrency
  | .complete _ _ => True

/-- The invariant of an upload with its condition variable. -/
structure Kept (w : Wakeup) : Prop where
  tracked : w.upload.Tracked
  offset_lt : w.upload.arg.offset < word
  endOffset_lt : w.upload.arg.endOffset < word
  waiting : w.upload.waiting ≠ none → w.upload.arg.offset ≠ w.upload.arg.endOffset

/-- The invariant holds at the start. -/
theorem Kept.start {offset : ℕ} (hoffset : offset < word) (length : ℕ) (eof : Bool) :
    Kept (start (prepareWriteGridftpOp offset length eof)) where
  tracked := Upload.Tracked.start offset length eof
  offset_lt := hoffset
  endOffset_lt := by
    have hend : (if length ≠ minusOne64 then add64 offset length else minusOne64) < word := by
      split
      · exact Nat.mod_lt _ (by decide)
      · decide
    exact hend
  waiting := fun h => absurd rfl h

/-- A section of a call keeps the offset a word, and the end of the range. -/
theorem Kept.section {u : Upload} {server : ReadServer} {bufferLength : ℕ} {result : Result}
    {ws : WriteSection} (hoffset : u.arg.offset < word) (hne : u.arg.offset ≠ u.arg.endOffset)
    (hws : Sections server bufferLength result u.arg u.reads ws) :
    (u.after bufferLength ws).arg.offset < word ∧
      (u.after bufferLength ws).arg.endOffset = u.arg.endOffset ∧
      ((u.after bufferLength ws).waiting ≠ none →
        (u.after bufferLength ws).arg.offset ≠ u.arg.endOffset) := by
  cases hws with
  | failed => exact ⟨hoffset, rfl, fun hwaiting => absurd rfl hwaiting⟩
  | copied _ _ all last hcopies =>
      exact ⟨hcopies.offset_lt hoffset, hcopies.unchanged.2.1, fun hwaiting => absurd rfl hwaiting⟩
  | gaveUp _ r hr =>
      rw [hr.recorded]
      exact ⟨hoffset, rfl, fun hwaiting => absurd rfl hwaiting⟩
  | waits _ r hr =>
      rw [hr.recorded]
      exact ⟨hoffset, rfl, fun _ => hne⟩

/-- Every step keeps the invariant. -/
theorem Kept.step {w w' : Wakeup} {action : UploadAction} (h : Kept w)
    (hstep : w.step action = some w') : Kept w' := by
  obtain ⟨u', hu', rfl⟩ := Option.map_eq_some_iff.mp hstep
  have htracked := h.tracked.step hu'
  cases Upload.steps_of_step h.tracked.current h.tracked.full hu' with
  | ended server bufferLength _ =>
      exact ⟨htracked, h.offset_lt, h.endOffset_lt, fun hwaiting => absurd rfl hwaiting⟩
  | call server bufferLength ws hne hws =>
      obtain ⟨hoffset, hend, hwaiting⟩ := Kept.section h.offset_lt hne hws
      exact ⟨htracked, hoffset, hend.symm ▸ h.endOffset_lt, fun hw => hend.symm ▸ hwaiting hw⟩
  | wake server bufferLength result ws hwas hws =>
      obtain ⟨hoffset, hend, hwaiting⟩ :=
        Kept.section h.offset_lt (h.waiting (by simp [hwas])) hws
      exact ⟨htracked, hoffset, hend.symm ▸ h.endOffset_lt, fun hw => hend.symm ▸ hwaiting hw⟩
  | complete id c arg' hcompletes =>
      cases hcompletes with
      | bad | empty | added => exact ⟨htracked, h.offset_lt, h.endOffset_lt, h.waiting⟩

/-- **A call that waits** waits for a registered read. -/
theorem Kept.awaited_of_loop {w : Wakeup} {server : ReadServer} {bufferLength : ℕ}
    {result : Result} {ws : WriteSection} (h : Kept w)
    (hne : w.upload.arg.offset ≠ w.upload.arg.endOffset)
    (hconcurrency : 1 ≤ server.optimalConcurrency)
    (hws : writeGridftpOpLoop server bufferLength result w.upload.arg w.upload.reads = some ws) :
    Awaited ⟨w.upload.after bufferLength ws, false⟩ := by
  rintro ⟨hwaiting, -⟩
  rcases hended : ws.ended with waited | ⟨result', copied⟩
  · obtain ⟨hready, r, hr, harg, hgave⟩ := waits_of_loop h.tracked.current hended hws
    obtain ⟨hoffset, hreading⟩ := Bool.or_eq_false_iff.mp hready
    have hsome : r.arg.registeredBuffers ≠ [] := by
      by_cases hresult : (r.arg.record r.result).result = .success
      · exact hr.registeredBuffers_ne_nil hconcurrency h.offset_lt h.endOffset_lt hne hreading
          hresult
      · exact hgave hresult
    have hafter : (w.upload.after bufferLength ws).arg = r.arg.record r.result := by
      rw [Upload.after, hended]
      exact harg
    have hpending : (r.arg.record r.result).isTransferOffsetReady = false := by
      rw [hr.recorded]
      exact hoffset
    refine ⟨?_, ?_, ?_⟩
    · rw [hafter]
      exact hsome
    · rw [hafter]
      exact hpending
    · rw [hafter, GridftpOpArg.isReadingComplete, Bool.and_eq_false_iff]
      exact .inr (by simpa [GridftpOpArg.record] using hsome)
  · refine absurd ?_ hwaiting
    rw [Upload.after, hended]

/-- **A completion** leaves the writer waiting for something exactly if it is heard. -/
theorem Kept.awaited_of_complete {w w' : Wakeup} {id : ℕ} {c : Completion} (h : Kept w)
    (hw : w.Awaited) (hstep : w.step (.complete id c) = some w') :
    w'.Awaited ↔ w.Heard (.complete id c) := by
  obtain ⟨u', hu', rfl⟩ := Option.map_eq_some_iff.mp hstep
  rw [Upload.step] at hu'
  split_ifs at hu'
  obtain ⟨⟨arg', signal⟩, hcallback, rfl⟩ := Option.map_eq_some_iff.mp hu'
  have hcompletes := completes_of_callback hcallback
  have hsilent := signal_of_callback hcallback
  have hsignals : w.upload.signals (.complete id c) = signal := by
    rw [Upload.signals, hcallback]
  by_cases hblocked : w.Blocked
  · obtain ⟨hwaiting, hsignalled⟩ := hblocked
    have hsome : w.upload.waiting.isSome = true := Option.isSome_iff_ne_none.mpr hwaiting
    simp only [hsignals, hsignalled, hsome, Bool.false_or, Bool.true_and]
    cases signal with
    | true =>
        constructor
        · exact fun _ hheard => absurd (hsilent.mpr hheard.2.2) (by decide)
        · exact fun _ hb => absurd hb.2.symm Bool.false_ne_true
    | false =>
        have hs := hsilent.mp rfl
        obtain ⟨⟨b, hremove⟩, hready, -⟩ := hcompletes.silent hs
        obtain ⟨-, hnotReady, -⟩ := hw ⟨hwaiting, hsignalled⟩
        have hlast : arg'.registeredBuffers = [] ↔ w.upload.reads.length = 1 := by
          obtain ⟨hmatched, r, hfind, -⟩ := h.tracked.matched.remove hremove
          have hlen := List.length_eraseP_of_mem (List.mem_of_find?_eq_some hfind)
            (List.find?_some hfind)
          have hpos := List.length_pos_of_mem (List.mem_of_find?_eq_some hfind)
          rw [hmatched.eq_nil_iff, ← List.length_eq_zero_iff, hlen]
          omega
        constructor
        · exact fun hawaited hheard =>
            (hawaited ⟨hwaiting, rfl⟩).1 (hlast.mpr hheard.2.1)
        · intro hheard _
          have hmore : arg'.registeredBuffers ≠ [] := fun hnil =>
            hheard ⟨⟨hwaiting, hsignalled⟩, hlast.mp hnil, hs⟩
          refine ⟨hmore, hready.trans hnotReady, ?_⟩
          rw [GridftpOpArg.isReadingComplete, Bool.and_eq_false_iff]
          exact .inr (by simpa using hmore)
  · constructor
    · exact fun _ hheard => hblocked hheard.1
    · rintro - ⟨hwaiting, hsignalled⟩
      exact absurd ⟨hwaiting, (Bool.or_eq_false_iff.mp hsignalled).1⟩ hblocked

/-- **One step** leads to a writer that waits for something exactly if it is heard. -/
theorem Kept.awaited_of_step {w w' : Wakeup} {action : UploadAction} (h : Kept w)
    (hw : w.Awaited) (hserved : w.Served action) (hstep : w.step action = some w') :
    w'.Awaited ↔ w.Heard action := by
  cases action with
  | complete id c => exact h.awaited_of_complete hw hstep
  | call server bufferLength =>
      refine ⟨fun _ => trivial, fun _ => ?_⟩
      obtain ⟨u', hu', rfl⟩ := Option.map_eq_some_iff.mp hstep
      rw [Upload.step] at hu'
      split at hu'
      · exact absurd hu' (by simp)
      · obtain ⟨ws, hws, rfl⟩ := Option.map_eq_some_iff.mp hu'
        rw [writeGridftpOp, GridftpOpArg.record_success] at hws
        by_cases hoffset : w.upload.arg.offset = w.upload.arg.endOffset
        · rw [if_pos hoffset] at hws
          obtain rfl := Option.some.inj hws
          exact fun hblocked => absurd rfl hblocked.1
        · rw [if_neg hoffset] at hws
          exact h.awaited_of_loop hoffset hserved hws
  | wake server =>
      refine ⟨fun _ => trivial, fun _ => ?_⟩
      obtain ⟨u', hu', rfl⟩ := Option.map_eq_some_iff.mp hstep
      rw [Upload.step] at hu'
      split at hu'
      · exact absurd hu' (by simp)
      · rename_i bufferLength result hwaiting
        obtain ⟨ws, hws, rfl⟩ := Option.map_eq_some_iff.mp hu'
        exact h.awaited_of_loop (h.waiting (by simp [hwaiting])) hserved hws

end Wakeup

/-- **The writer never waits with nothing in flight**, in a run of an upload with any
completions, if and only if no completion without failure, data or end is that of the last
read registered while the writer is blocked. -/
theorem upload_wakeup_iff {offset length : ℕ} {eof : Bool} {actions : List UploadAction}
    {w : Wakeup} (hoffset : offset < word)
    (hserved : Guarded.Along Wakeup.step Wakeup.Served
      (.start (prepareWriteGridftpOp offset length eof)) actions)
    (hrun : Guarded.run Wakeup.step (.start (prepareWriteGridftpOp offset length eof)) actions
      = some w) :
    Guarded.Throughout Wakeup.step Wakeup.Awaited
        (.start (prepareWriteGridftpOp offset length eof)) actions ↔
      Guarded.Along Wakeup.step Wakeup.Heard
        (.start (prepareWriteGridftpOp offset length eof)) actions := by
  refine Guarded.throughout_iff (I := fun w => w.Kept ∧ w.Awaited)
    (fun _ _ _ h _ hstep hw => ⟨h.1.step hstep, hw⟩)
    (fun _ _ _ h _ hserved hstep => h.1.awaited_of_step h.2 hserved hstep) ⟨?_, ?_⟩ ?_ hserved hrun
  · exact Wakeup.Kept.start hoffset length eof
  · exact fun hblocked => absurd rfl hblocked.1
  · exact fun hblocked => absurd rfl hblocked.1

/-- The case of an upload whose only read brings the end of the file without data. -/
theorem upload_wakeup_iff_eof :
    let server : ReadServer := ⟨10, 1, fun _ => true, fun _ => .success⟩
    let actions : List UploadAction := [.call server 10, .complete 0 ⟨.success, [], 0, true⟩]
    ∃ w, Guarded.run Wakeup.step (.start (prepareWriteGridftpOp 0 minusOne64 false)) actions
        = some w ∧ w.signalled = true ∧
      (Guarded.Throughout Wakeup.step Wakeup.Awaited
          (.start (prepareWriteGridftpOp 0 minusOne64 false)) actions ↔
        Guarded.Along Wakeup.step Wakeup.Heard
          (.start (prepareWriteGridftpOp 0 minusOne64 false)) actions) := by
  intro server actions
  have hw : (Guarded.run Wakeup.step (.start (prepareWriteGridftpOp 0 minusOne64 false))
      actions).map Wakeup.signalled = some true := by decide +kernel
  obtain ⟨w, hrun, hsignalled⟩ := Option.map_eq_some_iff.mp hw
  have hserved : Guarded.Along Wakeup.step Wakeup.Served
      (.start (prepareWriteGridftpOp 0 minusOne64 false)) actions :=
    ⟨Nat.le_refl 1, fun _ _ => ⟨trivial, fun _ _ => trivial⟩⟩
  exact ⟨w, hrun, hsignalled, upload_wakeup_iff (by decide) hserved hrun⟩

/-- **A read without data** that succeeds before the end of the file, the only one there is,
leaves the writer waiting for nothing. -/
theorem upload_wakeup_lost :
    let server : ReadServer := ⟨10, 1, fun _ => true, fun _ => .success⟩
    let actions : List UploadAction := [.call server 10, .complete 0 ⟨.success, [], 0, false⟩]
    ∃ w, Guarded.run Wakeup.step (.start (prepareWriteGridftpOp 0 minusOne64 false)) actions
        = some w ∧
      w.Blocked ∧ w.upload.reads = [] ∧ ¬w.Awaited := by
  intro server actions
  have hw : (Guarded.run Wakeup.step (.start (prepareWriteGridftpOp 0 minusOne64 false))
      actions).map (fun w => (w.upload.waiting.isSome, w.signalled, w.upload.reads,
        w.upload.arg.registeredBuffers.isEmpty)) = some (true, false, [], true) := by
    decide +kernel
  obtain ⟨w, hrun, hw⟩ := Option.map_eq_some_iff.mp hw
  obtain ⟨hwaiting, hrest⟩ := Prod.mk.inj hw
  obtain ⟨hsignalled, hrest⟩ := Prod.mk.inj hrest
  obtain ⟨hreads, hempty⟩ := Prod.mk.inj hrest
  have hblocked : w.Blocked := ⟨Option.isSome_iff_ne_none.mp hwaiting, hsignalled⟩
  exact ⟨w, hrun, hblocked, hreads, fun h => (h hblocked).1 (List.isEmpty_iff.mp hempty)⟩

end DsiRest
