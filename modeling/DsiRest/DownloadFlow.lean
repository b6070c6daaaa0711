import DsiRest.DownloadStream

/-!
# The Flow Control of a Download

The reader waits for a free slot before it packs data into a buffer, but it does not when it
registers the last buffer at the end of the data. It need not: a buffer that is in use but
not registered took its slot when it was taken, and keeps it. `GridftpOpArg.held` counts the
buffers in use, wherever they are. Taking a buffer adds one, and nothing else does.

## Main results

* `Download.Slots.step` — with a constant concurrency no more buffers are in use than there
  are slots.
* `download_flowControl` — the registered buffers keep to the concurrency, and the reader
  waits only for writes that are outstanding.
-/

namespace DsiRest

/-! ### Buffers in use -/

namespace GridftpOpArg

/-- The number of buffers in use: current, pending or registered. -/
def held (arg : GridftpOpArg) : ℕ :=
  arg.currentBuffer.toList.length + arg.pendingBuffers.length + arg.registeredBuffers.length

variable {arg arg' : GridftpOpArg}

/-- A buffer is taken into use unless there is a current one. -/
theorem held_bufferGet {size optimalBlocksize : ℕ} {malloc : Bool} {b : Buffer}
    (hget : bufferGet arg size optimalBlocksize malloc = (some b, arg')) :
    arg'.held + arg.currentBuffer.toList.length = arg.held + 1 := by
  rcases hcurrent : arg.currentBuffer with _ | current
  · rcases bufferGet_spec hcurrent hget with ⟨hnone, -⟩ | ⟨b', free, n, -, -, rfl⟩
    · exact absurd hnone (by simp)
    · simp only [held, withBuffers, hcurrent, Option.toList_some, Option.toList_none,
        List.length_singleton, List.length_nil]
      omega
  · rw [bufferGet, hcurrent] at hget
    obtain ⟨-, rfl⟩ := Prod.mk.inj hget
    simp

/-- Copying into the current buffer takes no other buffer into use. -/
theorem held_fillCurrent {b : Buffer} {data rest : Bytes} (hcurrent : arg.currentBuffer = some b)
    (hfill : arg.fillCurrent b data = some (arg', rest)) : arg'.held = arg.held := by
  rw [fillCurrent] at hfill
  simp only at hfill
  split_ifs at hfill
  · obtain ⟨rfl, -⟩ := Prod.mk.inj (Option.some.inj hfill)
    simp [held, hcurrent]
  · obtain ⟨rfl, -⟩ := Prod.mk.inj (Option.some.inj hfill)
    simp [held, hcurrent]

/-- A current buffer that becomes pending stays in use. -/
theorem held_enqueueCurrent {s : ℕ} {writes registered : List Write} {eof : Bool}
    (h : Stored s arg writes registered) (henqueue : arg.enqueueCurrent eof = some arg') :
    arg'.held = arg.held := by
  rw [enqueueCurrent] at henqueue
  rcases hcurrent : arg.currentBuffer with _ | b
  · rw [hcurrent] at henqueue
    obtain rfl := Option.some.inj henqueue
    rfl
  · rw [hcurrent] at henqueue
    simp only at henqueue
    split_ifs at henqueue
    · rw [h.linkPending b] at henqueue
      obtain rfl := Option.some.inj henqueue
      simp only [held, hcurrent, Option.toList_none, Option.toList_some, List.length_nil,
        List.length_append, List.length_singleton]
      omega
    · obtain rfl := Option.some.inj henqueue
      rfl

end GridftpOpArg

/-- A pending buffer that is registered stays in use. -/
theorem Sends.held {i : ℕ} {arg last : GridftpOpArg} {result : Result} {sent : List Write}
    {registerWrite : ℕ → Result} (h : Sends registerWrite i arg result last sent) :
    last.held = arg.held := by
  induction h with
  | done => rfl
  | refused => rfl
  | sent i arg b later result last writes hpending _ ih =>
      rw [ih]
      simp only [GridftpOpArg.held, GridftpOpArg.sendFirst, hpending, List.length_cons]
      omega

/-- **At the end of a turn** no other buffers are in use, and nothing is pending after a
success. -/
theorem Stored.held_sendCurrent {s : ℕ} {arg last : GridftpOpArg} {writes registered : List Write}
    {server : WriteServer} {eof : Bool} {result : Result} {sent : List Write}
    (h : Stored s arg writes registered)
    (hsend : arg.sendCurrent server eof = some (result, last, sent)) :
    last.held = arg.held ∧
      ((∀ i, server.registerWrite i = .success) → last.pendingBuffers = []) := by
  obtain ⟨full, henqueue, hloop⟩ := Option.map_eq_some_iff.mp hsend
  have hsends : Sends server.registerWrite 0 full _ _ _ :=
    sends_of_loop server.registerWrite 0 rfl
  rw [hloop] at hsends
  exact ⟨hsends.held.trans (GridftpOpArg.held_enqueueCurrent h henqueue),
    fun hworks => hsends.pending_eq_nil (hsends.success hworks)⟩

/-- A write that completes gives its buffer back. -/
theorem held_writeCallback (arg : GridftpOpArg) (result : Result) (id : ℕ) :
    (gridftpWriteCallback arg result id).held ≤ arg.held ∧
      (gridftpWriteCallback arg result id).pendingBuffers = arg.pendingBuffers := by
  rcases hremove : removeBuffer id arg.registeredBuffers with _ | ⟨b, left⟩
  · rw [gridftpWriteCallback, hremove]
    exact ⟨Nat.le_refl _, rfl⟩
  · rw [gridftpWriteCallback_of_remove result hremove]
    refine ⟨?_, rfl⟩
    have hlength := (removeBuffer_perm hremove).length_eq
    simp only [GridftpOpArg.held, GridftpOpArg.release, List.length_cons] at hlength ⊢
    omega

/-! ### Slots -/

/-- No operation fails, and the concurrency is always the same. -/
def DownloadAction.WorksWith (c : ℕ) : DownloadAction → Prop
  | .turn server => server.Works ∧ server.optimalConcurrency = c
  | _ => True

namespace Download

/-- The invariant of a download with `c` slots: the buffers in use have one each, and nothing
is pending between two turns. -/
structure Slots (c : ℕ) (d : Download) : Prop where
  held : d.arg.held ≤ c
  pending : d.arg.pendingBuffers = []
  slot : ∀ chunk rest n, d.reader = .slot chunk rest n → n = c

/-- The registered buffers are counted, and they are in use. -/
theorem Slots.count {s c : ℕ} {d : Download} (h : Slots c d) (hsound : Sound s d) :
    d.arg.registeredBuffersCount = d.arg.registeredBuffers.length ∧
      d.arg.registeredBuffersCount ≤ c := by
  have hcount : d.arg.registeredBuffersCount = d.arg.registeredBuffers.length := by
    rw [hsound.stored.count, hsound.stored.matched.length_eq]
  have hheld := h.held
  rw [GridftpOpArg.held] at hheld
  exact ⟨hcount, by omega⟩

/-- A turn for a chunk takes a buffer into use only if there is a slot. -/
theorem Slots.chunkTurn {s c : ℕ} {d d' : Download} {server : WriteServer} {chunk rest : Bytes}
    (h : Slots c d) (hsound : Sound s d) (hworks : server.Works) (hrest : rest ≠ [])
    (hturn : d.chunkTurn server c chunk rest = some d') : Slots c d' := by
  rw [Download.chunkTurn] at hturn
  split_ifs at hturn with hfull
  · obtain rfl := Option.some.inj hturn
    refine ⟨h.held, h.pending, fun chunk' rest' n hreader => ?_⟩
    obtain ⟨-, -, rfl⟩ := Reader.slot.inj hreader
    rfl
  rcases hget : bufferGet d.arg rest.length server.optimalBlocksize server.malloc with
    ⟨_ | b, arg₁⟩
  · rw [hget] at hturn
    obtain rfl := Option.some.inj hturn
    rcases hcurrent : d.arg.currentBuffer with _ | b
    · rcases bufferGet_spec hcurrent hget with ⟨-, -, hmalloc⟩ | ⟨b, _, _, hb, -, -⟩
      · exact absurd (hmalloc.symm.trans hworks.malloc) (by simp)
      · exact absurd hb (by simp)
    · rw [bufferGet, hcurrent] at hget
      exact absurd (congrArg Prod.fst hget) (by simp)
  · rw [hget] at hturn
    obtain ⟨⟨arg₂, left⟩, hfill, hturn⟩ := Option.bind_eq_some_iff.mp hturn
    obtain ⟨⟨result, arg₃, sent⟩, hsend, hturn⟩ := Option.bind_eq_some_iff.mp hturn
    obtain ⟨hstored₁, -, hcurrent, hroom⟩ :=
      hsound.stored.get hsound.partly (List.length_pos_of_ne_nil hrest) hget
    obtain ⟨hstored₂, -, -⟩ := hstored₁.fill hcurrent hroom hfill
    obtain ⟨hheld, hpending⟩ := hstored₂.held_sendCurrent hsend
    -- without a current buffer there is a free slot for the one that is taken
    have hslot : arg₃.held ≤ c := by
      have htaken := GridftpOpArg.held_bufferGet hget
      have hfilled := GridftpOpArg.held_fillCurrent hcurrent hfill
      have hcount := (h.count hsound).1
      have hbefore := h.held
      have hnone := congrArg List.length h.pending
      simp only [GridftpOpArg.held, List.length_nil] at htaken hbefore hnone hfilled hheld ⊢
      omega
    simp only at hturn
    split_ifs at hturn
    · obtain rfl := Option.some.inj hturn
      exact ⟨hslot, hpending hworks.registerWrite, fun _ _ _ hreader => absurd hreader (by simp)⟩
    · obtain rfl := Option.some.inj hturn
      exact ⟨hslot, hpending hworks.registerWrite,
        fun _ _ _ hreader => absurd hreader (by simp [returned])⟩

/-- **One step keeps to the slots** if no operation fails in it. -/
theorem Slots.step {s c : ℕ} {d d' : Download} {action : DownloadAction} (h : Slots c d)
    (hsound : Sound s d) (hworks : action.WorksWith c) (hstep : d.step action = some d') :
    Slots c d' := by
  have hinside := hsound.inside
  cases action with
  | call chunk =>
      rw [Download.step] at hstep
      split_ifs at hstep
      · obtain rfl := Option.some.inj hstep
        exact ⟨h.held, h.pending, fun _ _ _ hreader => absurd hreader (by simp)⟩
      · obtain rfl := Option.some.inj hstep
        exact ⟨h.held, h.pending, fun _ _ _ hreader => absurd hreader (by simp)⟩
  | turn server =>
      obtain ⟨hserver, hc⟩ := hworks
      rw [Download.step] at hstep
      split at hstep
      case h_1 => cases hstep
      case h_2 chunk rest hreader =>
        rw [hreader] at hinside
        exact h.chunkTurn hsound hserver hinside.2 (hc ▸ hstep)
      case h_3 chunk rest n hreader =>
        rw [hreader] at hinside
        exact h.chunkTurn hsound hserver hinside.2 (h.slot chunk rest n hreader ▸ hstep)
      case h_4 hreader =>
        obtain ⟨⟨result, arg, sent⟩, hsend, rfl⟩ := Option.map_eq_some_iff.mp hstep
        obtain ⟨hheld, hpending⟩ := hsound.stored.held_sendCurrent hsend
        exact ⟨hheld.trans_le h.held, hpending hserver.registerWrite,
          fun _ _ _ hslot => absurd hslot (by simp)⟩
      case h_5 result hreader =>
        split_ifs at hstep
        · obtain rfl := Option.some.inj hstep
          exact h
        · obtain rfl := Option.some.inj hstep
          exact ⟨h.held, h.pending, fun _ _ _ hslot => absurd hslot (by simp [returned])⟩
  | complete id result =>
      rw [Download.step] at hstep
      split_ifs at hstep
      obtain ⟨w, -, rfl⟩ := Option.map_eq_some_iff.mp hstep
      obtain ⟨hheld, hpending⟩ := held_writeCallback d.arg result id
      exact ⟨hheld.trans h.held, hpending.trans h.pending, h.slot⟩

/-! ### Waiting -/

/-- A turn from `d` to `d'` ends in `globus_cond_wait`: for a slot, or for the writes at the
end of a call without data. -/
def Waits (d d' : Download) : Prop :=
  (∃ chunk rest c, d'.reader = .slot chunk rest c) ∨
    ∃ result, d.reader = .drain result ∧ d'.reader = .drain result

/-- A turn for a chunk ends waiting only if all slots are taken. -/
theorem ChunkTurns.slot_le {s n : ℕ} {d d' : Download} {server : WriteServer}
    {chunk rest chunk' rest' : Bytes} {n' : ℕ} (h : ChunkTurns s d server n chunk rest d')
    (hslot : d'.reader = .slot chunk' rest' n') : (n : ℤ) ≤ d'.arg.registeredBuffersCount := by
  cases h with
  | waits hfull => exact hfull
  | noMemory => exact absurd hslot (by simp [returned])
  | goesOn => exact absurd hslot (by simp)
  | returns => exact absurd hslot (by simp [returned])

/-- A turn that ends waiting leaves writes registered, and the mutex unlocked. -/
theorem Slots.waits_count {s c : ℕ} {d d' : Download} {server : WriteServer} (h : Slots c d)
    (hsound : Sound s d) (hc : 1 ≤ c) (hconcurrency : server.optimalConcurrency = c)
    (hstep : d.step (.turn server) = some d') (hwaits : d.Waits d') :
    1 ≤ d'.arg.registeredBuffersCount ∧ d'.reader.unlocked = true := by
  have hturns := hsound.turns_of_step hstep
  rcases hwaits with ⟨chunk', rest', n', hslot⟩ | ⟨result, hdrain, hdrain'⟩
  · refine ⟨?_, by rw [hslot]; rfl⟩
    cases hturns with
    | turn chunk rest d' hreader hturn =>
        have hle := hturn.slot_le hslot
        omega
    | slot chunk rest n d' hreader hturn =>
        have hle := hturn.slot_le hslot
        obtain rfl := h.slot chunk rest n hreader
        omega
    | last => exact absurd hslot (by simp)
    | drains result hreader => exact absurd (hreader.symm.trans hslot) (by simp)
    | drained => exact absurd hslot (by simp [returned])
  · refine ⟨?_, by rw [hdrain']; rfl⟩
    cases hturns with
    | turn chunk rest d' hreader | slot chunk rest n d' hreader =>
        exact absurd (hdrain.symm.trans hreader) (by simp)
    | last result arg sent hreader => exact absurd (hdrain.symm.trans hreader) (by simp)
    | drains result hreader hwrites =>
        have hcount := (h.count hsound).1
        omega
    | drained => exact absurd hdrain' (by simp [returned])

/-- **The reader waits for writes** that are outstanding, and that can complete. -/
theorem Slots.waits {s c : ℕ} {d d' : Download} {server : WriteServer} (h : Slots c d)
    (hsound : Sound s d) (hc : 1 ≤ c) (hconcurrency : server.optimalConcurrency = c)
    (hstep : d.step (.turn server) = some d') (hwaits : d.Waits d') :
    1 ≤ d'.arg.registeredBuffersCount ∧ d'.writes ≠ [] ∧
      ∀ w ∈ d'.writes, ∀ result, (d'.step (.complete w.id result)).isSome := by
  have hsound' := hsound.step hstep
  obtain ⟨hcount, hunlocked⟩ := h.waits_count hsound hc hconcurrency hstep hwaits
  have hfree : d'.locked = false := by
    refine Bool.eq_false_of_not_eq_true fun hlocked => ?_
    have hidle := (hsound'.locked hlocked).1
    rcases hwaits with ⟨_, _, _, hslot⟩ | ⟨_, _, hdrain⟩
    · exact absurd (hidle.symm.trans hslot) (by simp)
    · exact absurd (hidle.symm.trans hdrain) (by simp)
  refine ⟨hcount, fun hnone => ?_, fun w hw result => ?_⟩
  · rw [hsound'.stored.count, hnone] at hcount
    exact absurd hcount (by decide)
  · rw [Download.step, if_pos ⟨hunlocked, hfree⟩, Option.isSome_map, List.find?_isSome]
    exact ⟨w, hw, by simp⟩

end Download

/-- **Flow control.** In every run of a download in which no operation fails and the
concurrency is always `c`, the registered buffers are counted and are at most `c`, also
behind the turn that registers the last buffer. The reader waits only while a write is
registered, and that can complete. -/
theorem download_flowControl {s length c : ℕ} {actions : List DownloadAction} {d : Download}
    (hs : s < word) (hc : 1 ≤ c)
    (hworks : Guarded.Along Download.step (fun _ action => action.WorksWith c)
      (.start (prepareReadGridftpOp s length)) actions)
    (hrun : Guarded.run Download.step (.start (prepareReadGridftpOp s length)) actions = some d) :
    d.arg.registeredBuffersCount = d.arg.registeredBuffers.length ∧
      d.arg.registeredBuffersCount ≤ c ∧
      ∀ server d', server.optimalConcurrency = c → d.step (.turn server) = some d' →
        d.Waits d' →
        1 ≤ d'.arg.registeredBuffersCount ∧ d'.writes ≠ [] ∧
          ∀ w ∈ d'.writes, ∀ result, (d'.step (.complete w.id result)).isSome := by
  have hinit : Download.Slots c (.start (prepareReadGridftpOp s length)) :=
    ⟨Nat.zero_le c, rfl, fun _ _ _ hreader => absurd hreader (by simp [Download.start])⟩
  obtain ⟨hsound, h⟩ := Guarded.invariant (I := fun d => Download.Sound s d ∧ d.Slots c)
    (fun _ _ _ hd hP hstep => ⟨hd.1.step hstep, hd.2.step hd.1 hP hstep⟩)
    ⟨Download.Sound.start hs, hinit⟩ hworks hrun
  obtain ⟨hcount, hle⟩ := h.count hsound
  exact ⟨hcount, hle, fun server d' hconcurrency hstep hwaits =>
    h.waits hsound hc hconcurrency hstep hwaits⟩

/-- The case of the three bytes `ABC` in two chunks, buffers of two bytes and one slot: the
reader waits with the third byte until the write of the first two completes. -/
theorem download_flowControl_twoChunks :
    let server : WriteServer := ⟨2, 1, true, fun _ => .success⟩
    let actions : List DownloadAction :=
      [.call (bytes "A"), .turn server, .call (bytes "BC"), .turn server]
    ∃ d d', Guarded.run Download.step (.start (prepareReadGridftpOp 0 minusOne64)) actions = some d ∧
      d.step (.turn server) = some d' ∧ d'.reader = .slot (bytes "BC") (bytes "C") 1 ∧
      d.arg.registeredBuffersCount ≤ (1 : ℕ) ∧ 1 ≤ d'.arg.registeredBuffersCount := by
  intro server actions
  have hworks : server.Works := ⟨by decide, rfl, fun _ => rfl⟩
  have hal : Guarded.Along Download.step (fun _ action => action.WorksWith 1)
      (.start (prepareReadGridftpOp 0 minusOne64)) actions :=
    ⟨trivial, fun _ _ => ⟨⟨hworks, rfl⟩, fun _ _ => ⟨trivial, fun _ _ => ⟨⟨hworks, rfl⟩,
      fun _ _ => trivial⟩⟩⟩⟩
  have hend : ((Guarded.run Download.step (.start (prepareReadGridftpOp 0 minusOne64)) actions).bind
      fun d => (d.step (.turn server)).map Download.reader) =
      some (.slot (bytes "BC") (bytes "C") 1) := by
    decide +kernel
  obtain ⟨d, hrun, hd⟩ := Option.bind_eq_some_iff.mp hend
  obtain ⟨d', hstep, hslot⟩ := Option.map_eq_some_iff.mp hd
  obtain ⟨-, hle, hwaits⟩ := download_flowControl (by decide) (Nat.le_refl 1) hal hrun
  exact ⟨d, d', hrun, hstep, hslot, hle, (hwaits server d' rfl hstep (.inl ⟨_, _, _, hslot⟩)).1⟩

end DsiRest
