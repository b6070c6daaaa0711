import DsiRest.DownloadStored
import DsiRest.Lib.Guarded

/-!
# A Download Writes the Stream

What the REST server sends is passed on to the GridFTP server in order and without a gap.
`Download.Sound` is the invariant of all runs, whatever fails in them: what was registered,
what is queued and what is left of the chunk at hand make up what was received, as long as
no call failed. `Download.Clean` adds that no call failed, for runs in which no operation
does.

The results of the writes enter neither of them, since the write callback ignores its own.

## Main results

* `download_exact` — without a failure the writes carry the stream, in every interleaving.
* `download_delivered_iff` — a download whose calls succeeded has delivered the stream just
  when no write failed.
* `Download.Sound.stuck` — after a failure of `malloc` nothing happens any more.
-/

namespace DsiRest

namespace Download

/-! ### What a turn does -/

/-- What a turn does with the `rest` of a chunk: some of it is packed into buffers, and some
buffers are sent, which leaves `left` of the chunk. -/
structure Packs (s : ℕ) (d : Download) (server : WriteServer) (rest : Bytes)
    (arg : GridftpOpArg) (sent : List Write) (left : Bytes) (result : Result) : Prop where
  stored : Stored s arg (sent.reverse ++ d.writes) (d.registered ++ sent)
  partly : arg.Partial
  flow : writtenBytes sent ++ (arg.queued ++ left) = d.arg.queued ++ rest
  less : left.length < rest.length
  success : (∀ i, server.registerWrite i = .success) → result = .success

/-- How a turn for a chunk can end: the reader waits for a slot, `malloc` fails, or some of
the chunk is packed and the reader goes on or returns. -/
inductive ChunkTurns (s : ℕ) (d : Download) (server : WriteServer) (optimalConcurrency : ℕ)
    (chunk rest : Bytes) : Download → Prop
  | waits (hfull : (optimalConcurrency : ℤ) ≤ d.arg.registeredBuffersCount) :
    ChunkTurns s d server optimalConcurrency chunk rest
      { d with reader := .slot chunk rest optimalConcurrency }
  | noMemory (hmalloc : server.malloc = false) :
    ChunkTurns s d server optimalConcurrency chunk rest (d.outOfMemory.returned chunk .success)
  | goesOn (arg : GridftpOpArg) (sent : List Write) (left : Bytes)
      (hpacks : d.Packs s server rest arg sent left .success) (hleft : left ≠ []) :
    ChunkTurns s d server optimalConcurrency chunk rest
      { d.send arg sent with reader := .turn chunk left }
  | returns (arg : GridftpOpArg) (sent : List Write) (left : Bytes) (result : Result)
      (hpacks : d.Packs s server rest arg sent left result)
      (hleft : result = .success → left = []) :
    ChunkTurns s d server optimalConcurrency chunk rest ((d.send arg sent).returned chunk result)

/-- **A turn does what `ChunkTurns` says**, and it can be made. -/
theorem exists_chunkTurn {s : ℕ} {d : Download} (server : WriteServer) (optimalConcurrency : ℕ)
    (chunk : Bytes) {rest : Bytes} (h : Stored s d.arg d.writes d.registered)
    (hpartly : d.arg.Partial) (hrest : rest ≠ []) :
    ∃ d', d.chunkTurn server optimalConcurrency chunk rest = some d' ∧
      ChunkTurns s d server optimalConcurrency chunk rest d' := by
  rw [chunkTurn]
  split_ifs with hfull
  · exact ⟨_, rfl, .waits hfull⟩
  rcases hget : bufferGet d.arg rest.length server.optimalBlocksize server.malloc with
    ⟨_ | b, arg₁⟩
  · rcases hcurrent : d.arg.currentBuffer with _ | b
    · rcases bufferGet_spec hcurrent hget with ⟨-, rfl, hmalloc⟩ | ⟨b, _, _, hb, -, -⟩
      · exact ⟨_, rfl, .noMemory hmalloc⟩
      · exact absurd hb (by simp)
    · rw [bufferGet, hcurrent] at hget
      exact absurd (congrArg Prod.fst hget) (by simp)
  · obtain ⟨hstored₁, hqueued₁, hcurrent, hroom⟩ :=
      h.get hpartly (List.length_pos_of_ne_nil hrest) hget
    obtain ⟨arg₂, left, hfill, hless⟩ := hstored₁.exists_fill hcurrent hroom hrest
    obtain ⟨hstored₂, hflow, b', hb', hused⟩ := hstored₁.fill hcurrent hroom hfill
    obtain ⟨⟨result, arg₃, sent⟩, hsend⟩ := hstored₂.exists_sendCurrent server false
    have hpos : ∀ b ∈ arg₂.currentBuffer, 0 < b.bufferUsed := by
      rintro b hb
      obtain rfl := Option.some.inj (hb'.symm.trans hb)
      exact hused
    obtain ⟨hstored₃, hpartly₃, hqueued₃, -, hsuccess⟩ := hstored₂.sendCurrent hpos hsend
    have hpacks : d.Packs s server rest arg₃ sent left result :=
      ⟨hstored₃, hpartly₃, by rw [← List.append_assoc, hqueued₃, hflow, hqueued₁], hless,
        hsuccess⟩
    simp only [hfill, hsend, Option.bind_eq_bind, Option.bind_some]
    split_ifs with hmore
    · obtain ⟨rfl, hleft⟩ := hmore
      exact ⟨_, rfl, .goesOn arg₃ sent left hpacks hleft⟩
    · refine ⟨_, rfl, .returns arg₃ sent left result hpacks fun hresult => ?_⟩
      by_contra hleft
      exact hmore ⟨hresult, hleft⟩

/-- How a turn of the reader can end. -/
inductive Turns (s : ℕ) (d : Download) (server : WriteServer) : Download → Prop
  | turn (chunk rest : Bytes) (d' : Download) (hreader : d.reader = .turn chunk rest)
      (hturn : ChunkTurns s d server server.optimalConcurrency chunk rest d') :
    Turns s d server d'
  | slot (chunk rest : Bytes) (optimalConcurrency : ℕ) (d' : Download)
      (hreader : d.reader = .slot chunk rest optimalConcurrency)
      (hturn : ChunkTurns s d server optimalConcurrency chunk rest d') :
    Turns s d server d'
  | last (result : Result) (arg : GridftpOpArg) (sent : List Write) (hreader : d.reader = .last)
      (hsend : d.arg.sendCurrent server true = some (result, arg, sent)) :
    Turns s d server { d.send arg sent with reader := .drain result }
  | drains (result : Result) (hreader : d.reader = .drain result)
      (hwrites : d.arg.registeredBuffersCount ≠ 0) :
    Turns s d server d
  | drained (result : Result) (hreader : d.reader = .drain result)
      (hwrites : d.arg.registeredBuffersCount = 0) :
    Turns s d server (d.returned [] result)

/-! ### The invariant of all runs -/

/-- What was received so far. -/
def input (d : Download) : Bytes :=
  d.calls.flatMap ReadCall.chunk ++ d.reader.chunk

/-- The last call was made without data, and returned. -/
def Ended (d : Download) : Prop :=
  d.reader = .idle ∧ d.calls.getLast?.map ReadCall.chunk = some []

/-- No call failed. -/
def AllSucceed (d : Download) : Prop :=
  ∀ c ∈ d.calls, c.result = .success

end Download

/-- Between the turns for a chunk some of it is left. -/
def Reader.Inside : Reader → Prop
  | .turn chunk rest | .slot chunk rest _ => chunk ≠ [] ∧ rest ≠ []
  | _ => True

namespace Download

/-- The invariant of a download from `s` on. -/
structure Sound (s : ℕ) (d : Download) : Prop where
  stored : Stored s d.arg d.writes d.registered
  partly : d.arg.Partial
  accounted : (d.completed.map Prod.fst ++ d.writes).Perm d.registered
  inside : d.reader.Inside
  flow : d.AllSucceed → d.locked = false →
    writtenBytes d.registered ++ (d.arg.queued ++ d.reader.rest) = d.input
  drain : d.reader = .drain .success → d.arg.queued = []
  ended : d.AllSucceed → d.Ended → d.arg.queued = [] ∧ d.writes = []
  locked : d.locked = true → d.reader = .idle ∧ ¬d.Ended

/-- A download starts in a state of the invariant. -/
theorem Sound.start {s length : ℕ} (hs : s < word) :
    Sound s (start (prepareReadGridftpOp s length)) where
  stored := Stored.start hs
  partly := by simp [GridftpOpArg.Partial, Download.start, prepareReadGridftpOp,
    GridftpOpArg.prepare]
  accounted := .refl _
  inside := trivial
  flow _ _ := rfl
  drain h := absurd h (by simp [Download.start])
  ended _ h := absurd h.2 (by simp [Download.start])
  locked h := absurd h (by simp [Download.start])

/-- After a call with data a download has not ended. -/
theorem not_ended_returned (d : Download) {chunk : Bytes} (result : Result) (h : chunk ≠ []) :
    ¬(d.returned chunk result).Ended := by
  rintro ⟨-, hlast⟩
  rw [returned, List.getLast?_concat] at hlast
  exact h (Option.some.inj hlast)

/-- The calls before the last one succeeded too. -/
theorem allSucceed_returned {d : Download} {chunk : Bytes} {result : Result} :
    (d.returned chunk result).AllSucceed ↔ d.AllSucceed ∧ result = .success := by
  rw [AllSucceed, returned, List.forall_mem_append, List.forall_mem_singleton]
  rfl

/-- What was received does not change when the call returns. -/
theorem input_returned {d : Download} {chunk : Bytes} (result : Result)
    (h : d.reader.chunk = chunk) : (d.returned chunk result).input = d.input := by
  rw [input, input, returned, h]
  simp [Reader.chunk]

/-- Writes that are sent are outstanding. -/
theorem Sound.accounted_send {s : ℕ} {d : Download} (h : Sound s d) (sent : List Write) :
    (d.completed.map Prod.fst ++ (sent.reverse ++ d.writes)).Perm (d.registered ++ sent) := by
  refine List.perm_iff_count.mpr fun w => ?_
  have hcount := h.accounted.count_eq w
  simp only [List.count_append, List.count_reverse] at hcount ⊢
  omega

/-- What a turn packs was received before. -/
theorem Packs.written {s : ℕ} {d : Download} {server : WriteServer} {rest left : Bytes}
    {arg : GridftpOpArg} {sent : List Write} {result : Result}
    (h : d.Packs s server rest arg sent left result) :
    writtenBytes (d.registered ++ sent) ++ (arg.queued ++ left)
      = writtenBytes d.registered ++ (d.arg.queued ++ rest) := by
  rw [writtenBytes_append, List.append_assoc, h.flow]

/-- A turn for a chunk keeps the invariant. -/
theorem Sound.chunkTurn {s optimalConcurrency : ℕ} {d d' : Download} {server : WriteServer}
    {chunk rest : Bytes} (h : Sound s d) (hchunk : d.reader.chunk = chunk)
    (hrest : d.reader.rest = rest) (hne : chunk ≠ [] ∧ rest ≠ []) (hbusy : d.reader ≠ .idle)
    (hturn : ChunkTurns s d server optimalConcurrency chunk rest d') : Sound s d' := by
  have hlocked : d.locked = true → False := fun hlocked => hbusy (h.locked hlocked).1
  have hflow : d.AllSucceed → d.locked = false →
      writtenBytes d.registered ++ (d.arg.queued ++ rest)
        = d.calls.flatMap ReadCall.chunk ++ chunk :=
    fun hcalls hunlocked => by rw [← hrest, h.flow hcalls hunlocked, input, hchunk]
  cases hturn with
  | waits =>
      exact ⟨h.stored, h.partly, h.accounted, hne, hflow, fun hd => absurd hd (by simp),
        fun _ hended => absurd hended.1 (by simp), fun hl => (hlocked hl).elim⟩
  | noMemory =>
      have hended := not_ended_returned d.outOfMemory .success hne.1
      exact ⟨h.stored.congr_result _, h.partly, h.accounted, trivial,
        fun _ hunlocked => absurd hunlocked (by simp [returned, outOfMemory]),
        fun hd => absurd hd (by simp [returned]), fun _ he => (hended he).elim,
        fun _ => ⟨rfl, hended⟩⟩
  | goesOn arg sent left hpacks hleft =>
      exact ⟨hpacks.stored, hpacks.partly, h.accounted_send sent, ⟨hne.1, hleft⟩,
        fun hcalls hunlocked => hpacks.written.trans (hflow hcalls hunlocked),
        fun hd => absurd hd (by simp), fun _ hended => absurd hended.1 (by simp),
        fun hl => (hlocked hl).elim⟩
  | returns arg sent left result hpacks hleft =>
      have hended := not_ended_returned (d.send arg sent) result hne.1
      refine ⟨hpacks.stored, hpacks.partly, h.accounted_send sent, trivial,
        fun hcalls hunlocked => ?_, fun hd => absurd hd (by simp [returned]),
        fun _ he => (hended he).elim, fun hl => (hlocked hl).elim⟩
      obtain ⟨hbefore, hresult⟩ := allSucceed_returned.mp hcalls
      have hall := hpacks.written.trans (hflow hbefore hunlocked)
      rw [hleft hresult] at hall
      rw [input_returned (d := d.send arg sent) result hchunk, input]
      exact hall.trans (congrArg _ hchunk.symm)

/-- The only turn of a call without data keeps the invariant. -/
theorem Sound.lastTurn {s : ℕ} {d : Download} {server : WriteServer} {arg : GridftpOpArg}
    {sent : List Write} {result : Result} (h : Sound s d) (hreader : d.reader = .last)
    (hsend : d.arg.sendCurrent server true = some (result, arg, sent)) :
    Sound s { d.send arg sent with reader := .drain result } := by
  obtain ⟨hstored, hpartly, hqueued, hnone, -⟩ :=
    h.stored.sendCurrent (fun b hb => (h.partly b hb).1) hsend
  refine ⟨hstored, hpartly, h.accounted_send sent, trivial, fun hcalls hunlocked => ?_,
    fun hd => hnone rfl (Reader.drain.inj hd), fun _ hended => absurd hended.1 (by simp),
    fun hl => absurd (h.locked hl).1 (by simp [hreader])⟩
  have hflow := h.flow hcalls hunlocked
  rw [← hqueued, input, hreader, List.append_assoc, ← List.append_assoc] at hflow
  rw [input]
  simp only [send]
  rw [writtenBytes_append]
  exact hflow

/-- The return from a call without data keeps the invariant. -/
theorem Sound.drained {s : ℕ} {d : Download} {result : Result} (h : Sound s d)
    (hreader : d.reader = .drain result) (hwrites : d.arg.registeredBuffersCount = 0) :
    Sound s (d.returned [] result) := by
  refine ⟨h.stored, h.partly, h.accounted, trivial, fun hcalls hunlocked => ?_,
    fun hd => absurd hd (by simp [returned]), fun hcalls _ => ?_,
    fun hl => absurd (h.locked hl).1 (by simp [hreader])⟩
  · have hflow := h.flow (allSucceed_returned.mp hcalls).1 hunlocked
    rw [hreader] at hflow
    rw [input_returned result (by rw [hreader]; rfl)]
    exact hflow
  · obtain rfl := (allSucceed_returned.mp hcalls).2
    have hcount := h.stored.count
    have hnone : d.writes = [] := List.length_eq_zero_iff.mp (by omega)
    exact ⟨h.drain hreader, hnone⟩

/-- The completion of a write keeps the invariant. -/
theorem Sound.complete {s id : ℕ} {d : Download} {w : Write} (result : Result) (h : Sound s d)
    (hunlocked : d.locked = false) (hfind : d.writes.find? (·.id = id) = some w) :
    Sound s { d with
      arg := gridftpWriteCallback d.arg result id
      writes := d.writes.eraseP (·.id = id)
      completed := d.completed ++ [(w, result)] } := by
  obtain ⟨hqueued, hcurrent⟩ := queued_writeCallback d.arg result id
  refine ⟨h.stored.complete result hfind, ?_, ?_, h.inside, fun hcalls _ => ?_,
    fun hd => hqueued.trans (h.drain hd), fun hcalls hended => ?_,
    fun hl => absurd hl (by simp [hunlocked])⟩
  · rw [GridftpOpArg.Partial, hcurrent]
    exact h.partly
  · refine List.Perm.trans ?_ h.accounted
    rw [List.map_append, List.append_assoc]
    exact (perm_eraseP_of_find? hfind).append_left _
  · rw [hqueued]
    exact h.flow hcalls hunlocked
  · rw [(h.ended hcalls hended).2] at hfind
    exact absurd hfind (by simp)

/-- **A reader that was called can take a turn**, which does what `Turns` says. -/
theorem Sound.exists_turn {s : ℕ} {d : Download} (h : Sound s d) (server : WriteServer)
    (hbusy : d.reader ≠ .idle) :
    ∃ d', d.step (.turn server) = some d' ∧ Turns s d server d' := by
  have hinside := h.inside
  rw [Download.step]
  rcases hreader : d.reader with _ | ⟨chunk, rest⟩ | ⟨chunk, rest, optimalConcurrency⟩ | _ | result
  · exact absurd hreader hbusy
  · rw [hreader] at hinside
    obtain ⟨d', hd', hturn⟩ :=
      exists_chunkTurn server server.optimalConcurrency chunk h.stored h.partly hinside.2
    exact ⟨d', hd', .turn chunk rest d' hreader hturn⟩
  · rw [hreader] at hinside
    obtain ⟨d', hd', hturn⟩ :=
      exists_chunkTurn server optimalConcurrency chunk h.stored h.partly hinside.2
    exact ⟨d', hd', .slot chunk rest optimalConcurrency d' hreader hturn⟩
  · obtain ⟨⟨result, arg, sent⟩, hsend⟩ := h.stored.exists_sendCurrent server true
    exact ⟨_, Option.map_eq_some_iff.mpr ⟨_, hsend, rfl⟩, .last result arg sent hreader hsend⟩
  · by_cases hwrites : d.arg.registeredBuffersCount = 0
    · exact ⟨_, if_neg (not_not.mpr hwrites), .drained result hreader hwrites⟩
    · exact ⟨_, if_pos hwrites, .drains result hreader hwrites⟩

/-- A turn that was taken did what `Turns` says. -/
theorem Sound.turns_of_step {s : ℕ} {d d' : Download} {server : WriteServer} (h : Sound s d)
    (hstep : d.step (.turn server) = some d') : Turns s d server d' := by
  have hbusy : d.reader ≠ .idle := by
    rintro hidle
    rw [Download.step, hidle] at hstep
    exact absurd hstep (by simp)
  obtain ⟨d'', hd'', hturn⟩ := h.exists_turn server hbusy
  obtain rfl := Option.some.inj (hd''.symm.trans hstep)
  exact hturn

/-- A turn keeps the invariant. -/
theorem Sound.turn {s : ℕ} {d d' : Download} {server : WriteServer} (h : Sound s d)
    (hturn : Turns s d server d') : Sound s d' := by
  have hinside := h.inside
  cases hturn with
  | turn chunk rest d' hreader hturn =>
      rw [hreader] at hinside
      exact h.chunkTurn (by rw [hreader]; rfl) (by rw [hreader]; rfl) hinside (by simp [hreader])
        hturn
  | slot chunk rest optimalConcurrency d' hreader hturn =>
      rw [hreader] at hinside
      exact h.chunkTurn (by rw [hreader]; rfl) (by rw [hreader]; rfl) hinside (by simp [hreader])
        hturn
  | last result arg sent hreader hsend => exact h.lastTurn hreader hsend
  | drains => exact h
  | drained result hreader hwrites => exact h.drained hreader hwrites

/-- **One step keeps the invariant**, whatever fails in it. -/
theorem Sound.step {s : ℕ} {d d' : Download} {action : DownloadAction} (h : Sound s d)
    (hstep : d.step action = some d') : Sound s d' := by
  cases action with
  | call chunk =>
      rw [Download.step] at hstep
      split_ifs at hstep with hidle hempty
      · obtain rfl := Option.some.inj hstep
        have hflow := h.flow
        rw [input, hidle.1] at hflow
        refine ⟨h.stored, h.partly, h.accounted, trivial, ?_, fun hd => absurd hd (by simp),
          fun _ hended => absurd hended.1 (by simp), fun hl => absurd hl (by simp [hidle.2])⟩
        exact hflow
      · obtain rfl := Option.some.inj hstep
        refine ⟨h.stored, h.partly, h.accounted, ⟨hempty, hempty⟩, fun hcalls hunlocked => ?_,
          fun hd => absurd hd (by simp), fun _ hended => absurd hended.1 (by simp),
          fun hl => absurd hl (by simp [hidle.2])⟩
        have hflow := h.flow hcalls hunlocked
        rw [input, hidle.1] at hflow
        simp only [Reader.rest, Reader.chunk, List.append_nil] at hflow
        rw [input]
        simp only [Reader.rest, Reader.chunk, ← hflow, List.append_assoc]
  | turn server => exact h.turn (h.turns_of_step hstep)
  | complete id result =>
      rw [Download.step] at hstep
      split_ifs at hstep with hfree
      obtain ⟨w, hfind, rfl⟩ := Option.map_eq_some_iff.mp hstep
      exact h.complete result hfree.2 hfind

/-- **A failure of `malloc` blocks the download for ever**: the mutex stays locked, and no
step is possible. -/
theorem Sound.stuck {s : ℕ} {d : Download} (h : Sound s d) (hlocked : d.locked = true)
    (action : DownloadAction) : d.step action = none := by
  cases action with
  | call chunk => rw [Download.step, if_neg (by simp [hlocked])]
  | turn server => rw [Download.step, (h.locked hlocked).1]
  | complete id result => rw [Download.step, if_neg (by simp [hlocked])]

end Download

/-! ### Runs without a failure -/

/-- No operation of the server or of `malloc` fails, and at least one write may be
outstanding. -/
structure WriteServer.Works (server : WriteServer) : Prop where
  concurrency_pos : 1 ≤ server.optimalConcurrency
  malloc : server.malloc = true
  registerWrite : ∀ i, server.registerWrite i = .success

/-- An action in which no operation fails; the results of the writes may be any. -/
def DownloadAction.Works : DownloadAction → Prop
  | .turn server => server.Works
  | _ => True

namespace Reader

/-- What is left to do, as a number. -/
def todo : Reader → ℕ
  | .idle => 0
  | .drain _ => 1
  | .last => 2
  | .turn _ rest | .slot _ rest _ => rest.length

/-- The reader does not wait for ever, and nothing failed for it. -/
def Clean : Reader → Prop
  | .slot _ _ optimalConcurrency => 1 ≤ optimalConcurrency
  | .drain result => result = .success
  | _ => True

end Reader

namespace Download

/-- No call failed so far. -/
structure Clean (d : Download) : Prop where
  unlocked : d.locked = false
  calls : d.AllSucceed
  reader : d.reader.Clean

/-- A turn for a chunk stays clean, and gets on unless it waits for a write. -/
theorem Clean.chunkTurn {s optimalConcurrency : ℕ} {d d' : Download} {server : WriteServer}
    {chunk rest : Bytes} (h : Clean d) (hworks : server.Works) (hpos : 1 ≤ optimalConcurrency)
    (hcount : d.arg.registeredBuffersCount = d.writes.length) (hrest : rest ≠ [])
    (hturn : ChunkTurns s d server optimalConcurrency chunk rest d') :
    Clean d' ∧ (d.writes = [] → d'.reader.todo < rest.length) := by
  cases hturn with
  | waits hfull =>
      refine ⟨⟨h.unlocked, h.calls, hpos⟩, fun hnone => ?_⟩
      rw [hcount, hnone, List.length_nil] at hfull
      omega
  | noMemory hmalloc => exact absurd (hmalloc.symm.trans hworks.malloc) (by simp)
  | goesOn arg sent left hpacks hleft =>
      exact ⟨⟨h.unlocked, h.calls, trivial⟩, fun _ => hpacks.less⟩
  | returns arg sent left result hpacks hleft =>
      have hcalls : ((d.send arg sent).returned chunk result).AllSucceed :=
        allSucceed_returned.mpr ⟨h.calls, hpacks.success hworks.registerWrite⟩
      exact ⟨⟨h.unlocked, hcalls, trivial⟩, fun _ => List.length_pos_of_ne_nil hrest⟩

/-- A turn stays clean, and gets on unless it waits for a write. -/
theorem Clean.turn {s : ℕ} {d d' : Download} {server : WriteServer} (h : Clean d)
    (hsound : Sound s d) (hworks : server.Works) (hturn : Turns s d server d') :
    Clean d' ∧ (d.writes = [] → d'.reader.todo < d.reader.todo) := by
  have hreaderClean := h.reader
  have hinside := hsound.inside
  have hcount := hsound.stored.count
  cases hturn with
  | turn chunk rest d' hreader hturn =>
      rw [hreader] at hinside ⊢
      exact h.chunkTurn hworks hworks.concurrency_pos hcount hinside.2 hturn
  | slot chunk rest optimalConcurrency d' hreader hturn =>
      rw [hreader] at hinside hreaderClean ⊢
      exact h.chunkTurn hworks hreaderClean hcount hinside.2 hturn
  | last result arg sent hreader hsend =>
      rw [hreader]
      obtain ⟨-, -, -, -, hsuccess⟩ :=
        hsound.stored.sendCurrent (fun b hb => (hsound.partly b hb).1) hsend
      exact ⟨⟨h.unlocked, h.calls, hsuccess hworks.registerWrite⟩, fun _ => Nat.one_lt_two⟩
  | drains result hreader hwrites =>
      refine ⟨h, fun hnone => absurd ?_ hwrites⟩
      rw [hcount, hnone]
      rfl
  | drained result hreader hwrites =>
      rw [hreader] at hreaderClean ⊢
      exact ⟨⟨h.unlocked, allSucceed_returned.mpr ⟨h.calls, hreaderClean⟩, trivial⟩,
        fun _ => Nat.one_pos⟩

/-- One step in which no operation fails stays clean. -/
theorem Clean.step {s : ℕ} {d d' : Download} {action : DownloadAction} (h : Clean d)
    (hsound : Sound s d) (hworks : action.Works) (hstep : d.step action = some d') : Clean d' := by
  cases action with
  | call chunk =>
      rw [Download.step] at hstep
      split_ifs at hstep
      · obtain rfl := Option.some.inj hstep
        exact ⟨h.unlocked, h.calls, trivial⟩
      · obtain rfl := Option.some.inj hstep
        exact ⟨h.unlocked, h.calls, trivial⟩
  | turn server => exact (h.turn hsound hworks (hsound.turns_of_step hstep)).1
  | complete id result =>
      rw [Download.step] at hstep
      split_ifs at hstep
      obtain ⟨w, hfind, rfl⟩ := Option.map_eq_some_iff.mp hstep
      exact ⟨h.unlocked, h.calls, h.reader⟩

end Download

/-! ### What reaches the GridFTP server -/

namespace Download

/-- The buffers of the outstanding writes hold the data that was registered, and no other
buffer has the address of one of them. -/
def Held (d : Download) : Prop :=
  List.Forall₂ (fun b w => b.id = w.id ∧ b.data = w.data) d.arg.registeredBuffers d.writes ∧
    d.arg.addresses.Nodup

/-- The writes that were completed with a success. -/
def succeeded (d : Download) : List Write :=
  (d.completed.filter (·.2 = .success)).map Prod.fst

/-- Every byte received was registered in a write that completed with a success. -/
def Delivered (d : Download) : Prop :=
  writtenBytes d.registered = d.input ∧ d.succeeded.Perm d.registered

/-- At the end of a download whose calls succeeded all of it is registered. -/
theorem Sound.written {s : ℕ} {d : Download} (h : Sound s d) (hcalls : d.AllSucceed)
    (hended : d.Ended) : writtenBytes d.registered = d.input := by
  have hunlocked : d.locked = false :=
    Bool.eq_false_of_not_eq_true fun hlocked => (h.locked hlocked).2 hended
  have hflow := h.flow hcalls hunlocked
  rw [(h.ended hcalls hended).1, hended.1] at hflow
  exact (List.append_nil _).symm.trans hflow

end Download

/-- **Without a failure a download writes the stream.** In every run in which no operation
fails the writes are not empty and follow each other from `s` on, their bytes are the front
of what was received, and all of it when a call without data has returned. A write is
completed or outstanding, and until it is completed its buffer is left alone. No call
fails, no assertion either, and a turn gets on if no write is outstanding. -/
theorem download_exact {s length : ℕ} {actions : List DownloadAction} {d : Download}
    (hs : s < word)
    (hworks : Guarded.Along Download.step (fun _ action => action.Works)
      (.start (prepareReadGridftpOp s length)) actions)
    (hrun : Guarded.run Download.step (.start (prepareReadGridftpOp s length)) actions = some d) :
    Placed s d.registered ∧ writtenBytes d.registered <+: d.input ∧
      (d.Ended → writtenBytes d.registered = d.input) ∧
      (d.completed.map Prod.fst ++ d.writes).Perm d.registered ∧ d.Held ∧ d.AllSucceed ∧
      ∀ server : WriteServer, server.Works → d.reader ≠ .idle →
        ∃ d', d.step (.turn server) = some d' ∧
          (d.writes = [] → d'.reader.todo < d.reader.todo) := by
  have hinit : Download.Clean (.start (prepareReadGridftpOp s length)) :=
    ⟨rfl, fun _ hc => absurd hc List.not_mem_nil, trivial⟩
  obtain ⟨h, hclean⟩ := Guarded.invariant (I := fun d => Download.Sound s d ∧ d.Clean)
    (fun _ _ _ hd hP hstep => ⟨hd.1.step hstep, hd.2.step hd.1 hP hstep⟩)
    ⟨Download.Sound.start hs, hinit⟩ hworks hrun
  refine ⟨h.stored.placed, ⟨_, h.flow hclean.calls hclean.unlocked⟩, h.written hclean.calls,
    h.accounted, ⟨h.stored.matched, h.stored.nodup⟩, hclean.calls, fun server hserver hbusy => ?_⟩
  obtain ⟨d', hstep, hturn⟩ := h.exists_turn server hbusy
  exact ⟨d', hstep, (hclean.turn h hserver hturn).2⟩

/-- The case of the three bytes `ABC` that arrive in two chunks and go into buffers of two
bytes. -/
theorem download_exact_twoChunks :
    let server : WriteServer := ⟨2, 1, true, fun _ => .success⟩
    let actions : List DownloadAction :=
      [.call (bytes "A"), .turn server, .call (bytes "BC"), .turn server, .turn server,
        .complete 0 .success, .turn server, .call [], .turn server, .complete 0 .success,
        .turn server]
    ∃ d, Guarded.run Download.step (.start (prepareReadGridftpOp 0 minusOne64)) actions = some d ∧
      d.registered = [⟨0, 0, bytes "AB"⟩, ⟨0, 2, bytes "C"⟩] ∧ d.Ended ∧
      Placed 0 d.registered ∧ writtenBytes d.registered = bytes "ABC" := by
  intro server actions
  have hworks : server.Works := ⟨by decide, rfl, fun _ => rfl⟩
  have hal : Guarded.Along Download.step (fun _ action => action.Works)
      (.start (prepareReadGridftpOp 0 minusOne64)) actions :=
    ⟨trivial, fun _ _ => ⟨hworks, fun _ _ => ⟨trivial, fun _ _ => ⟨hworks, fun _ _ => ⟨hworks,
      fun _ _ => ⟨trivial, fun _ _ => ⟨hworks, fun _ _ => ⟨trivial, fun _ _ => ⟨hworks,
      fun _ _ => ⟨trivial, fun _ _ => ⟨hworks, fun _ _ => trivial⟩⟩⟩⟩⟩⟩⟩⟩⟩⟩⟩
  have hend : (Guarded.run Download.step (.start (prepareReadGridftpOp 0 minusOne64)) actions).map
      (fun d => (d.registered, d.reader, d.calls)) =
      some ([⟨0, 0, bytes "AB"⟩, ⟨0, 2, bytes "C"⟩], .idle,
        [⟨bytes "A", .success⟩, ⟨bytes "BC", .success⟩, ⟨[], .success⟩]) := by
    decide +kernel
  obtain ⟨d, hrun, hd⟩ := Option.map_eq_some_iff.mp hend
  obtain ⟨hregistered, hd⟩ := Prod.mk.inj hd
  obtain ⟨hreader, hcalls⟩ := Prod.mk.inj hd
  have hended : d.Ended := ⟨hreader, by rw [hcalls]; rfl⟩
  obtain ⟨hplaced, -, hall, -⟩ := download_exact (by decide) hal hrun
  refine ⟨d, hrun, hregistered, hended, hplaced, ?_⟩
  rw [hall hended, Download.input, hcalls, hreader]
  rfl

/-- **What a success of all calls says.** At the end of a download whose calls all succeeded
everything is registered, and it is delivered just when no write completed with a
failure. -/
theorem download_delivered_iff {s length : ℕ} {actions : List DownloadAction} {d : Download}
    (hs : s < word)
    (hrun : Guarded.run Download.step (.start (prepareReadGridftpOp s length)) actions = some d)
    (hended : d.Ended) (hcalls : d.AllSucceed) :
    d.Delivered ↔ ∀ p ∈ d.completed, p.2 = .success := by
  have h : Download.Sound s d := Guarded.invariant (P := fun _ _ => True)
    (fun _ _ _ hd _ hstep => hd.step hstep) (Download.Sound.start hs)
    (.of_forall (fun _ _ => trivial) _ _) hrun
  have haccounted := h.accounted
  rw [(h.ended hcalls hended).2, List.append_nil] at haccounted
  constructor
  · rintro ⟨-, hperm⟩ p hp
    -- as many writes were completed with a success as were completed
    have hlength := (hperm.trans haccounted.symm).length_eq
    rw [Download.succeeded, List.length_map, List.length_map,
      List.length_filter_eq_length_iff] at hlength
    exact of_decide_eq_true (hlength p hp)
  · intro hall
    refine ⟨h.written hcalls hended, ?_⟩
    rw [Download.succeeded, List.filter_eq_self.mpr fun p hp => decide_eq_true (hall p hp)]
    exact haccounted

/-- The case of a byte whose write succeeds. -/
theorem download_delivered_iff_oneByte :
    let server : WriteServer := ⟨2, 1, true, fun _ => .success⟩
    let actions : List DownloadAction :=
      [.call (bytes "A"), .turn server, .call [], .turn server, .complete 0 .success, .turn server]
    ∃ d, Guarded.run Download.step (.start (prepareReadGridftpOp 0 minusOne64)) actions = some d ∧
      d.completed = [(⟨0, 0, bytes "A"⟩, .success)] ∧ d.Delivered := by
  intro server actions
  have hend : (Guarded.run Download.step (.start (prepareReadGridftpOp 0 minusOne64)) actions).map
      (fun d => (d.reader, d.calls, d.completed)) =
      some (.idle, [⟨bytes "A", .success⟩, ⟨[], .success⟩],
        [(⟨0, 0, bytes "A"⟩, .success)]) := by
    decide +kernel
  obtain ⟨d, hrun, hd⟩ := Option.map_eq_some_iff.mp hend
  obtain ⟨hreader, hd⟩ := Prod.mk.inj hd
  obtain ⟨hcalls, hcompleted⟩ := Prod.mk.inj hd
  have hended : d.Ended := ⟨hreader, by rw [hcalls]; rfl⟩
  have hsucceed : d.AllSucceed := by simp [Download.AllSucceed, hcalls]
  exact ⟨d, hrun, hcompleted, (download_delivered_iff (by decide) hrun hended hsucceed).mpr
    (by simp [hcompleted])⟩

/-- The case of a byte whose write fails: every call succeeds all the same. -/
theorem download_failedWrite :
    let server : WriteServer := ⟨2, 1, true, fun _ => .success⟩
    let actions : List DownloadAction :=
      [.call (bytes "A"), .turn server, .call [], .turn server,
        .complete 0 (.error (.client 1)), .turn server]
    ∃ d, Guarded.run Download.step (.start (prepareReadGridftpOp 0 minusOne64)) actions = some d ∧
      d.Ended ∧ d.AllSucceed ∧ ¬d.Delivered := by
  intro server actions
  have hend : (Guarded.run Download.step (.start (prepareReadGridftpOp 0 minusOne64)) actions).map
      (fun d => (d.reader, d.calls, d.succeeded, d.registered)) =
      some (.idle, [⟨bytes "A", .success⟩, ⟨[], .success⟩], [], [⟨0, 0, bytes "A"⟩]) := by
    decide +kernel
  obtain ⟨d, hrun, hd⟩ := Option.map_eq_some_iff.mp hend
  obtain ⟨hreader, hd⟩ := Prod.mk.inj hd
  obtain ⟨hcalls, hd⟩ := Prod.mk.inj hd
  obtain ⟨hsucceeded, hregistered⟩ := Prod.mk.inj hd
  refine ⟨d, hrun, ⟨hreader, by rw [hcalls]; rfl⟩, by simp [Download.AllSucceed, hcalls], ?_⟩
  rintro ⟨-, hperm⟩
  rw [hsucceeded, hregistered] at hperm
  exact absurd hperm.length_eq (by simp)

end DsiRest
