import DsiRest.DownloadFlow

/-!
# Every Call of the Reader Returns

`globus_l_dsi_rest_read_gridftp_op` waits on the condition variable for a slot, and at the end of
the data for the writes that are registered. The write callback signals whenever a write completes,
so the reader is never left waiting for nothing.

`DownloadWakeup.step` is `Download.step` with the condition variable. What a call may still do is
paid for by the bytes that it was made with: each of them is copied in some turn, and may be
registered in a write of its own, whose completion may wake up the reader once
(`DownloadWakeup.work`).

## Main results

* `DownloadWakeup.Kept.pays` — every step is paid for.
* `DownloadWakeup.Kept.goes_on` — what happens next, in any state.
* `download_ends` — whatever fails, the steps of a download are linear in the bytes and the calls,
  and a reader that is blocked waits for a write that can complete.
-/

namespace DsiRest

/-! ### What a turn costs -/

/-- Each write has a byte at least. -/
theorem Placed.length_le {p : ℕ} {writes : List Write} (h : Placed p writes) :
    writes.length ≤ (writtenBytes writes).length := by
  induction writes generalizing p with
  | nil => exact Nat.le_refl 0
  | cons w writes ih =>
      obtain ⟨-, hdata, hlater⟩ := h
      have hpos := List.length_pos_of_ne_nil hdata
      have hrest := ih hlater
      rw [writtenBytes] at hrest ⊢
      rw [List.flatMap_cons, List.length_append, List.length_cons]
      omega

/-- The last writes are placed behind the ones before. -/
theorem Placed.right {p : ℕ} {before after : List Write} (h : Placed p (before ++ after)) :
    ∃ q, Placed q after := by
  induction before generalizing p with
  | nil => exact ⟨p, h⟩
  | cons w before ih => exact ih h.2.2

namespace Download

/-- What the writes to come and the turns for the rest of the chunk are paid from. -/
def owed (d : Download) : ℕ :=
  2 * d.arg.queued.length + 4 * d.reader.rest.length + 2 * d.writes.length

/-- The calls that were made. -/
def made (d : Download) : ℕ :=
  d.calls.length + if d.reader = .idle then 0 else 1

/-- What the calls brought. -/
def earned (d : Download) : ℕ :=
  4 * d.input.length + 4 * d.made

variable {s : ℕ} {d d' : Download} {server : WriteServer}

/-- A turn that gets on pays for the writes it registers, and for itself. -/
theorem Packs.owed {rest left : Bytes} {arg : GridftpOpArg} {sent : List Write} {result : Result}
    (h : d.Packs s server rest arg sent left result) :
    2 * arg.queued.length + 4 * left.length + 2 * (sent.reverse ++ d.writes).length + 2
      ≤ 2 * d.arg.queued.length + 4 * rest.length + 2 * d.writes.length := by
  obtain ⟨q, hplaced⟩ := h.stored.placed.right
  have hwrites := hplaced.length_le
  have hflow := congrArg List.length h.flow
  have hless := h.less
  simp only [List.length_append, List.length_reverse] at hflow ⊢
  omega

/-- What a turn for a chunk costs: the reader waits, or it gets on. -/
theorem ChunkTurns.owed {c : ℕ} {chunk rest : Bytes} (h : ChunkTurns s d server c chunk rest d')
    (hrest : d.reader.rest = rest) (hne : rest ≠ []) :
    (d' = { d with reader := .slot chunk rest c } ∧ (c : ℤ) ≤ d.arg.registeredBuffersCount) ∨
    (d'.owed + 2 ≤ d.owed ∧ (d'.reader = .idle ∨ ∃ left, d'.reader = .turn chunk left)) := by
  have hpos := List.length_pos_of_ne_nil hne
  rw [Download.owed, Download.owed, hrest]
  cases h with
  | waits hfull => exact .inl ⟨rfl, hfull⟩
  | noMemory =>
      refine .inr ⟨?_, .inl rfl⟩
      have hqueued : d.outOfMemory.arg.queued = d.arg.queued := rfl
      simp only [returned, Reader.rest, hqueued, List.length_nil]
      simp only [outOfMemory]
      omega
  | goesOn arg sent left hpacks => exact .inr ⟨hpacks.owed, .inr ⟨left, rfl⟩⟩
  | returns arg sent left result hpacks =>
      refine .inr ⟨?_, .inl rfl⟩
      have howed := hpacks.owed
      simp only [returned, send, Reader.rest, List.length_nil]
      omega

/-- A turn that does not return leaves the call that is being made alone. -/
theorem earned_congr (hcalls : d'.calls = d.calls) (hchunk : d'.reader.chunk = d.reader.chunk)
    (hbusy : d.reader ≠ .idle) (hbusy' : d'.reader ≠ .idle) : d'.earned = d.earned := by
  simp only [earned, input, made, hcalls, hchunk, if_neg hbusy, if_neg hbusy']

/-- A call that returns was made. -/
theorem earned_returned {chunk : Bytes} (result : Result) (hchunk : d.reader.chunk = chunk)
    (hbusy : d.reader ≠ .idle) : (d.returned chunk result).earned = d.earned := by
  rw [earned, earned, input_returned result hchunk, made, made, if_neg hbusy]
  simp [returned]

/-- A turn brings nothing. -/
theorem ChunkTurns.earned {c : ℕ} {chunk rest : Bytes} (h : ChunkTurns s d server c chunk rest d')
    (hchunk : d.reader.chunk = chunk) (hbusy : d.reader ≠ .idle) : d'.earned = d.earned := by
  cases h with
  | waits => exact earned_congr rfl hchunk.symm hbusy (by simp)
  | noMemory => exact earned_returned (d := d.outOfMemory) .success hchunk hbusy
  | goesOn arg sent left => exact earned_congr rfl hchunk.symm hbusy (by simp)
  | returns arg sent left result =>
      exact earned_returned (d := d.send arg sent) result hchunk hbusy

/-- A turn brings nothing. -/
theorem Turns.earned (h : Turns s d server d') : d'.earned = d.earned := by
  cases h with
  | turn chunk rest d' hreader hturn =>
      exact hturn.earned (by rw [hreader]; rfl) (by simp [hreader])
  | slot chunk rest c d' hreader hturn =>
      exact hturn.earned (by rw [hreader]; rfl) (by simp [hreader])
  | last result arg sent hreader hsend =>
      exact earned_congr rfl (by rw [hreader]; rfl) (by simp [hreader]) (by simp)
  | drains => rfl
  | drained result hreader =>
      exact earned_returned result (by rw [hreader]; rfl) (by simp [hreader])

/-- A turn for a chunk that ends waiting for a slot found them all taken. -/
theorem ChunkTurns.slot_taken {c c' : ℕ} {chunk rest chunk' rest' : Bytes}
    (h : ChunkTurns s d server c chunk rest d') (hslot : d'.reader = .slot chunk' rest' c') :
    c' = c ∧ (c' : ℤ) ≤ d'.arg.registeredBuffersCount := by
  cases h with
  | waits hfull =>
      obtain ⟨-, -, rfl⟩ := Reader.slot.inj hslot
      exact ⟨rfl, hfull⟩
  | noMemory | goesOn | returns => cases hslot

/-- A turn that ends waiting for a slot found them all taken. -/
theorem Turns.slot_taken {c : ℕ} {chunk rest : Bytes} (h : Turns s d server d')
    (hslot : d'.reader = .slot chunk rest c) :
    (c : ℤ) ≤ d'.arg.registeredBuffersCount ∧
      (c = server.optimalConcurrency ∨ ∃ chunk rest, d.reader = .slot chunk rest c) := by
  cases h with
  | turn chunk' rest' d' hreader hturn =>
      obtain ⟨rfl, hfull⟩ := hturn.slot_taken hslot
      exact ⟨hfull, .inl rfl⟩
  | slot chunk' rest' c' d' hreader hturn =>
      obtain ⟨rfl, hfull⟩ := hturn.slot_taken hslot
      exact ⟨hfull, .inr ⟨chunk', rest', hreader⟩⟩
  | last => cases hslot
  | drains result hreader => cases hreader.symm.trans hslot
  | drained => cases hslot

/-- A turn that goes on waiting for the writes at the end found some registered. -/
theorem Turns.drain_left {result result' : Result} (h : Turns s d server d')
    (hdrain : d.reader = .drain result) (hdrain' : d'.reader = .drain result') :
    d'.arg.registeredBuffersCount ≠ 0 := by
  cases h with
  | turn chunk rest d' hreader | slot chunk rest c d' hreader => cases hreader.symm.trans hdrain
  | last result arg sent hreader => cases hreader.symm.trans hdrain
  | drains result hreader hwrites => exact hwrites
  | drained => cases hdrain'

/-- A call starts with all of its chunk left. -/
theorem step_call {chunk : Bytes} (hstep : d.step (.call chunk) = some d') :
    d.reader = .idle ∧ ∃ reader, d' = { d with reader := reader } ∧
      (reader = .turn chunk chunk ∨ chunk = [] ∧ reader = .last) := by
  rw [Download.step] at hstep
  split_ifs at hstep with hidle hempty
  · exact ⟨hidle.1, .last, (Option.some.inj hstep).symm, .inr ⟨hempty, rfl⟩⟩
  · exact ⟨hidle.1, .turn chunk chunk, (Option.some.inj hstep).symm, .inl rfl⟩

/-- A completion leaves the reader alone, and takes a write out. -/
theorem step_complete {id : ℕ} {result : Result} (hstep : d.step (.complete id result) = some d') :
    d'.reader = d.reader ∧ d'.calls = d.calls ∧ d'.arg.queued = d.arg.queued ∧
      d'.writes.length + 1 = d.writes.length := by
  rw [Download.step] at hstep
  split_ifs at hstep
  obtain ⟨write, hfind, rfl⟩ := Option.map_eq_some_iff.mp hstep
  refine ⟨rfl, rfl, (queued_writeCallback d.arg result id).1, ?_⟩
  exact (perm_eraseP_of_find? hfind).length_eq

end Download

/-! ### The condition variable -/

/-- Whether a turn from `d` to `d'` ends in `globus_cond_wait`. -/
def Download.entersWait (d d' : Download) : Bool :=
  match d.reader, d'.reader with
  | _, .slot _ _ _ => true
  | .drain result, .drain result' => decide (result = result')
  | _, _ => false

/-- `entersWait` computes `Waits`. -/
theorem Download.entersWait_iff {d d' : Download} : d.entersWait d' = true ↔ d.Waits d' := by
  rw [entersWait, Waits]
  cases hreader : d.reader <;> cases hreader' : d'.reader <;> simp [eq_comm]

/-- A download with its condition variable: whether the reader waits, and whether it was
signalled. -/
structure DownloadWakeup where
  download : Download
  waiting : Bool
  signalled : Bool

namespace DownloadWakeup

/-- A download that was not called yet. -/
def start (arg : GridftpOpArg) : DownloadWakeup :=
  ⟨.start arg, false, false⟩

/-- The next state. A reader that goes on takes the signal, and the write callback signals
always, which reaches a waiting reader only. -/
def step (w : DownloadWakeup) (action : DownloadAction) : Option DownloadWakeup :=
  (w.download.step action).map fun download =>
    match action with
    | .call _ => ⟨download, false, false⟩
    | .turn _ => ⟨download, w.download.entersWait download, false⟩
    | .complete _ _ => ⟨download, w.waiting, w.signalled || w.waiting⟩

/-- The reader is blocked, and no signal is pending. -/
def Blocked (w : DownloadWakeup) : Prop :=
  w.waiting = true ∧ w.signalled = false

/-- Every step counts but a wakeup without a signal. -/
def effort (w : DownloadWakeup) : DownloadAction → ℕ
  | .turn _ => if w.waiting then w.signalled.toNat else 1
  | .call _ | .complete _ _ => 1

/-- What is assumed of the GridFTP server: it wants at least one write at a time. -/
def Served (_ : DownloadWakeup) : DownloadAction → Prop
  | .turn server => 1 ≤ server.optimalConcurrency
  | .call _ | .complete _ _ => True

instance (w : DownloadWakeup) : ∀ action, Decidable (w.Served action)
  | .turn server => inferInstanceAs (Decidable (1 ≤ server.optimalConcurrency))
  | .call _ | .complete _ _ => isTrue trivial

/-- How many steps the reader takes at most without getting on. -/
def phase (w : DownloadWakeup) : ℕ :=
  match w.download.reader with
  | .idle => 0
  | .slot _ _ _ => 1
  | .turn _ _ => 2
  | .last => 3
  | .drain _ => if w.waiting then 1 else 2

/-- What the steps are paid from: a byte pays for the turn that copies it, for the wait before it,
and for the completion of a write that holds it and the wakeup that it causes. -/
def work (w : DownloadWakeup) : ℕ :=
  w.download.owed + w.signalled.toNat + w.phase

/-- The invariant of a download with its condition variable. -/
structure Kept (s : ℕ) (w : DownloadWakeup) : Prop where
  sound : Download.Sound s w.download
  slot : ∀ chunk rest c, w.download.reader = .slot chunk rest c → w.waiting = true ∧ 1 ≤ c
  waiting : w.waiting = true → (∃ chunk rest c, w.download.reader = .slot chunk rest c) ∨
    ∃ result, w.download.reader = .drain result
  awaited : w.Blocked →
    (∀ chunk rest c, w.download.reader = .slot chunk rest c →
      (c : ℤ) ≤ w.download.arg.registeredBuffersCount) ∧
    ∀ result, w.download.reader = .drain result → w.download.arg.registeredBuffersCount ≠ 0

/-- The invariant holds at first. -/
theorem Kept.start {s : ℕ} (hs : s < word) (length : ℕ) :
    Kept s (start (prepareReadGridftpOp s length)) where
  sound := Download.Sound.start hs
  slot := fun _ _ _ h => by cases h
  waiting := fun h => by cases h
  awaited := fun h => by cases h.1

variable {s : ℕ} {w w' : DownloadWakeup} {action : DownloadAction}

/-- **Every step** keeps the invariant. -/
theorem Kept.step (h : Kept s w) (hserved : w.Served action) (hstep : w.step action = some w') :
    Kept s w' := by
  obtain ⟨d', hd', rfl⟩ := Option.map_eq_some_iff.mp hstep
  have hsound := h.sound.step hd'
  cases action with
  | call chunk =>
      obtain ⟨-, reader, rfl, hreader⟩ := Download.step_call hd'
      refine ⟨hsound, fun chunk' rest' c hslot => ?_, fun hwaiting => absurd hwaiting (by simp),
        fun hblocked => absurd hblocked.1 (by simp)⟩
      rcases hreader with rfl | ⟨-, rfl⟩
      · cases hslot
      · cases hslot
  | turn server =>
      have hturn := h.sound.turns_of_step hd'
      refine ⟨hsound, fun chunk rest c hslot => ?_, fun hwaiting => ?_, fun hblocked => ?_⟩
      · refine ⟨Download.entersWait_iff.mpr (.inl ⟨chunk, rest, c, hslot⟩), ?_⟩
        rcases (hturn.slot_taken hslot).2 with rfl | ⟨chunk', rest', hreader⟩
        · exact hserved
        · exact (h.slot chunk' rest' c hreader).2
      · exact (Download.entersWait_iff.mp hwaiting).imp_right
          fun ⟨result, _, hdrain⟩ => ⟨result, hdrain⟩
      · refine ⟨fun chunk rest c hslot => (hturn.slot_taken hslot).1, fun result hdrain => ?_⟩
        rcases Download.entersWait_iff.mp hblocked.1 with ⟨chunk, rest, c, hslot⟩ | ⟨result', hd, -⟩
        · cases hslot.symm.trans hdrain
        · exact hturn.drain_left hd hdrain
  | complete id result =>
      have hreader := (Download.step_complete hd').1
      refine ⟨hsound, fun chunk rest c hslot => h.slot chunk rest c (hreader.symm.trans hslot),
        fun hwaiting => ?_, fun hblocked => ?_⟩
      · simp only [hreader]
        exact h.waiting hwaiting
      · obtain ⟨hwaiting, hsignalled⟩ := hblocked
        simp only at hwaiting hsignalled
        rw [hwaiting, Bool.or_true] at hsignalled
        cases hsignalled

/-- No step counts for more than one. -/
theorem effort_le (w : DownloadWakeup) (action : DownloadAction) : w.effort action ≤ 1 := by
  cases action with
  | call | complete => exact Nat.le_refl 1
  | turn server =>
      rw [effort]
      split_ifs
      · exact Bool.toNat_le _
      · exact Nat.le_refl 1

/-- A call is paid for by what it brings. -/
theorem pays_call {chunk : Bytes} (hstep : w.step (.call chunk) = some w') :
    w.effort (.call chunk) + w'.work + w.download.earned ≤ w.work + w'.download.earned := by
  obtain ⟨d', hd', rfl⟩ := Option.map_eq_some_iff.mp hstep
  obtain ⟨hidle, reader, rfl, hreader⟩ := Download.step_call hd'
  simp only [effort, work, phase, Download.owed, Download.earned, Download.input, Download.made,
    hidle, List.length_append]
  rcases hreader with rfl | ⟨rfl, rfl⟩
  · simp only [Reader.rest, Reader.chunk, List.length_nil, Bool.toNat_false, if_true]
    rw [if_neg (by simp)]
    omega
  · simp only [Reader.rest, Reader.chunk, List.length_nil, Bool.toNat_false, if_true]
    rw [if_neg (by simp)]
    omega

/-- A completion is paid for by its write, and the wakeup it causes too. -/
theorem pays_complete {id : ℕ} {result : Result} (hstep : w.step (.complete id result) = some w') :
    w.effort (.complete id result) + w'.work + w.download.earned
      ≤ w.work + w'.download.earned := by
  obtain ⟨d', hd', rfl⟩ := Option.map_eq_some_iff.mp hstep
  obtain ⟨hreader, hcalls, hqueued, hwrites⟩ := Download.step_complete hd'
  have hsignal := Bool.toNat_le (w.signalled || w.waiting)
  simp only [effort, work, phase, Download.owed, Download.earned, Download.input, Download.made,
    hreader, hcalls, hqueued]
  omega

/-- A turn for a chunk is paid for by the bytes that are copied, or, if the reader waits, by its
phase or the signal. -/
theorem work_chunkTurn {d' : Download} {server : WriteServer} {c : ℕ} {chunk rest : Bytes}
    {waiting : Bool} (hturn : Download.ChunkTurns s w.download server c chunk rest d')
    (hrest : w.download.reader.rest = rest) (hne : rest ≠ [])
    (hphase : w.phase = 2 ∨ w.phase = 1 ∧ w.waiting = true) :
    w.effort (.turn server) + (⟨d', waiting, false⟩ : DownloadWakeup).work ≤ w.work := by
  have hle := w.effort_le (.turn server)
  rcases hturn.owed hrest hne with ⟨rfl, -⟩ | ⟨howed, hplace⟩
  · have howed : ({ w.download with reader := .slot chunk rest c } : Download).owed
        = w.download.owed := by
      rw [Download.owed, Download.owed, hrest]
      rfl
    have hslot : (⟨{ w.download with reader := .slot chunk rest c }, waiting, false⟩ :
        DownloadWakeup).phase = 1 := rfl
    simp only [work, howed, hslot, Bool.toNat_false]
    rcases hphase with hphase | ⟨hphase, hwaiting⟩
    · omega
    · rw [effort, if_pos hwaiting]
      omega
  · have hplaced : (⟨d', waiting, false⟩ : DownloadWakeup).phase ≤ 2 := by
      rcases hplace with hidle | ⟨left, hmore⟩
      · simp [phase, hidle]
      · simp [phase, hmore]
    simp only [work, Bool.toNat_false]
    rcases hphase with hphase | ⟨hphase, hwaiting⟩
    · omega
    · rw [effort, if_pos hwaiting]
      omega

/-- **A turn is paid for.** -/
theorem Kept.work_turn {server : WriteServer} {d' : Download} (h : Kept s w)
    (hturn : Download.Turns s w.download server d') :
    w.effort (.turn server) + (⟨d', w.download.entersWait d', false⟩ : DownloadWakeup).work
      ≤ w.work := by
  have hinside := h.sound.inside
  have hle := w.effort_le (.turn server)
  cases hturn with
  | turn chunk rest d' hreader hturn =>
      rw [hreader] at hinside
      exact work_chunkTurn hturn (by rw [hreader]; rfl) hinside.2 (.inl (by simp [phase, hreader]))
  | slot chunk rest c d' hreader hturn =>
      rw [hreader] at hinside
      exact work_chunkTurn hturn (by rw [hreader]; rfl) hinside.2
        (.inr ⟨by simp [phase, hreader], (h.slot chunk rest c hreader).1⟩)
  | last result arg sent hreader hsend =>
      obtain ⟨hstored, -, hqueued, -⟩ :=
        h.sound.stored.sendCurrent (fun b hb => (h.sound.partly b hb).1) hsend
      obtain ⟨q, hplaced⟩ := hstored.placed.right
      have hwrites := hplaced.length_le
      have hbytes := congrArg List.length hqueued
      rw [List.length_append] at hbytes
      have hwait : w.download.entersWait { w.download.send arg sent with reader := .drain result }
          = false := by
        simp [Download.entersWait, hreader]
      rw [hwait]
      simp only [work, phase, Download.owed, Download.send, hreader, Reader.rest, List.length_nil,
        List.length_append, List.length_reverse, Bool.toNat_false, if_neg Bool.false_ne_true]
      omega
  | drains result hreader =>
      have hwait : w.download.entersWait w.download = true := by
        simp [Download.entersWait, hreader]
      rw [hwait]
      simp only [work, phase, effort, hreader, Bool.toNat_false, if_true] at hle ⊢
      split_ifs
      · omega
      · omega
  | drained result hreader =>
      have howed : (w.download.returned [] result).owed = w.download.owed := by
        rw [Download.owed, Download.owed, hreader]
        rfl
      have hidle : (w.download.returned [] result).reader = .idle := rfl
      simp only [work, phase, effort, howed, hidle, hreader, Bool.toNat_false] at hle ⊢
      split_ifs
      · omega
      · omega

/-- **Every step is paid for.** -/
theorem Kept.pays (h : Kept s w) (hstep : w.step action = some w') :
    w.effort action + w'.work + w.download.earned ≤ w.work + w'.download.earned := by
  cases action with
  | call chunk => exact pays_call hstep
  | complete id result => exact pays_complete hstep
  | turn server =>
      obtain ⟨d', hd', rfl⟩ := Option.map_eq_some_iff.mp hstep
      have hturn := h.sound.turns_of_step hd'
      have hwork := h.work_turn hturn
      have hearned := hturn.earned
      simp only [hearned] at hwork ⊢
      omega

/-- **What happens next.** The last call has returned, or the reader can go on whatever the server
answers, or it is blocked and a write is outstanding that can complete. -/
theorem Kept.goes_on (h : Kept s w) :
    w.download.reader = .idle ∨
    (∀ server, w.effort (.turn server) = 1 ∧ (w.step (.turn server)).isSome) ∨
    (w.Blocked ∧ w.download.writes ≠ [] ∧
      ∀ write ∈ w.download.writes, ∀ result, (w.step (.complete write.id result)).isSome) := by
  by_cases hidle : w.download.reader = .idle
  · exact .inl hidle
  by_cases hblocked : w.Blocked
  · obtain ⟨hslot, hdrain⟩ := h.awaited hblocked
    have hcount := h.sound.stored.count
    have hfree : w.download.locked = false :=
      Bool.eq_false_of_not_eq_true fun hlocked => hidle (h.sound.locked hlocked).1
    -- the reader waits for a slot or for the last writes, and has unlocked the mutex
    have hwaits : w.download.arg.registeredBuffersCount ≠ 0 ∧
        w.download.reader.unlocked = true := by
      rcases h.waiting hblocked.1 with ⟨chunk, rest, c, hreader⟩ | ⟨result, hreader⟩
      · have hpos := (h.slot chunk rest c hreader).2
        have hfull := hslot chunk rest c hreader
        exact ⟨by omega, by rw [hreader]; rfl⟩
      · exact ⟨hdrain result hreader, by rw [hreader]; rfl⟩
    refine .inr (.inr ⟨hblocked, fun hnone => ?_, fun write hwrite result => ?_⟩)
    · rw [hnone] at hcount
      exact hwaits.1 hcount
    · rw [DownloadWakeup.step, Option.isSome_map, Download.step, if_pos ⟨hwaits.2, hfree⟩,
        Option.isSome_map, List.find?_isSome]
      exact ⟨write, hwrite, by simp⟩
  · refine .inr (.inl fun server => ⟨?_, ?_⟩)
    · rw [effort]
      cases hwaiting : w.waiting with
      | false => rfl
      | true =>
          have hsignal : w.signalled = true :=
            Bool.eq_true_of_not_eq_false fun hnot => hblocked ⟨hwaiting, hnot⟩
          rw [hsignal]
          rfl
    · obtain ⟨d', hd', -⟩ := h.sound.exists_turn server hidle
      rw [DownloadWakeup.step, Option.isSome_map, hd']
      rfl

end DownloadWakeup

end DsiRest
