import DsiRest.DownloadStored
import DsiRest.Lib.Guarded

/-!
# How a Call of the Reader Returns

`globus_l_dsi_rest_read_gridftp_op` has three exits. Behind the loop, and where a write is
refused, it unlocks the mutex and returns the result of the last registration. Where no
buffer can be obtained it jumps past the unlocking, and returns the `result` it started
with, which is a success. Nothing is assumed here about the state in which the call is made.

## Main results

* `Download.turnEnds_of_step` — how one turn ends, for a turn in any state.
* `download_exits_iff` — a call releases the mutex and reports what failed just when it gets
  every buffer it needs.
-/

namespace DsiRest

/-! ### What can fail -/

namespace GridftpOpArg

/-- No buffer can be obtained: there is none at hand, and `malloc` fails. -/
def NoBuffer (arg : GridftpOpArg) (malloc : Bool) : Prop :=
  arg.currentBuffer = none ∧ arg.freeBuffers = [] ∧ malloc = false

/-- At the end of a turn one of the pending buffers cannot be registered. -/
def RefusesSend (arg : GridftpOpArg) (server : WriteServer) (eof : Bool) : Prop :=
  ∃ full, arg.enqueueCurrent eof = some full ∧
    ∃ i < full.pendingBuffers.length, server.registerWrite i ≠ .success

/-- A buffer is obtained unless there is none. -/
theorem bufferGet_eq_none_iff {arg : GridftpOpArg} {size optimalBlocksize : ℕ} {malloc : Bool} :
    (bufferGet arg size optimalBlocksize malloc).1 = none ↔ arg.NoBuffer malloc := by
  rw [NoBuffer, bufferGet]
  rcases arg.currentBuffer with _ | b
  · rcases arg.freeBuffers with _ | ⟨b, free⟩
    · cases malloc with
      | false => simp
      | true => simp
    · simp
  · simp

/-- The loop succeeds just when it can register every buffer. -/
theorem sendPending_eq_success_iff (registerWrite : ℕ → Result) (i : ℕ) (pending : List Buffer)
    (arg : GridftpOpArg) : (sendPending registerWrite i pending arg).1 = .success ↔
      ∀ j < pending.length, registerWrite (i + j) = .success := by
  induction pending generalizing i arg with
  | nil => simp [sendPending]
  | cons b later ih =>
      rw [sendPending]
      rcases hfirst : registerWrite i with _ | e
      · refine (ih (i + 1) (arg.sendFirst b later)).trans ⟨fun h j hj => ?_, fun h j hj => ?_⟩
        · cases j with
          | zero => exact hfirst
          | succ j =>
              have hlater := h j (Nat.lt_of_succ_lt_succ hj)
              rwa [Nat.add_right_comm] at hlater
        · have hlater := h (j + 1) (Nat.succ_lt_succ hj)
          rwa [← Nat.add_assoc, Nat.add_right_comm] at hlater
      · refine iff_of_false (by simp) fun h => ?_
        exact absurd (hfirst.symm.trans (h 0 (Nat.succ_pos _))) (by simp)

/-- The end of a turn succeeds just when no write is refused. -/
theorem sendCurrent_eq_success_iff {arg last : GridftpOpArg} {server : WriteServer} {eof : Bool}
    {result : Result} {sent : List Write}
    (hsend : arg.sendCurrent server eof = some (result, last, sent)) :
    result = .success ↔ ¬arg.RefusesSend server eof := by
  obtain ⟨full, henqueue, hloop⟩ := Option.map_eq_some_iff.mp hsend
  have hresult : (sendPending server.registerWrite 0 full.pendingBuffers full).1 = result := by
    rw [hloop]
  rw [← hresult, sendPending_eq_success_iff]
  constructor
  · rintro h ⟨full', hfull', i, hi, hrefused⟩
    obtain rfl := Option.some.inj (henqueue.symm.trans hfull')
    exact hrefused ((congrArg _ (Nat.zero_add i).symm).trans (h i hi))
  · intro h i hi
    rw [Nat.zero_add]
    by_contra hrefused
    exact h ⟨full, henqueue, i, hi, hrefused⟩

end GridftpOpArg

/-- The action is not another call. -/
def DownloadAction.GoesOn : DownloadAction → Prop
  | .call _ => False
  | _ => True

namespace Download

/-- The mutex can be locked. -/
def MutexFree (d : Download) : Prop :=
  d.reader.unlocked = true ∧ d.locked = false

/-- In the next turn the reader has a slot for the `rest` of its chunk, and asks for a
buffer. -/
def Asks (d : Download) (server : WriteServer) (rest : Bytes) : Prop :=
  (∃ chunk, d.reader = .turn chunk rest ∧
      d.arg.registeredBuffersCount < server.optimalConcurrency) ∨
    ∃ (chunk : Bytes) (optimalConcurrency : ℕ), d.reader = .slot chunk rest optimalConcurrency ∧
      d.arg.registeredBuffersCount < optimalConcurrency

/-- A buffer that the reader asks for can be obtained. -/
def GetsBuffer (d : Download) : DownloadAction → Prop
  | .turn server => ∀ rest, d.Asks server rest → ¬d.arg.NoBuffer server.malloc
  | _ => True

/-- No write that the reader tries to register is refused. -/
def SendsAll (d : Download) : DownloadAction → Prop
  | .turn server =>
    (∀ rest buffer arg filled left, d.Asks server rest →
      bufferGet d.arg rest.length server.optimalBlocksize server.malloc = (some buffer, arg) →
      arg.fillCurrent buffer rest = some (filled, left) → ¬filled.RefusesSend server false) ∧
    (d.reader = .last → ¬d.arg.RefusesSend server true)
  | _ => True

/-! ### How a turn ends -/

/-- How a turn of a call ends: the call goes on, it returns, or it returns because there is
no buffer. The call goes on after an error only to wait for the writes at its end. -/
inductive TurnEnds (d : Download) (server : WriteServer) (d' : Download) : Prop
  | goesOn (hbusy : d'.reader ≠ .idle) (hlocked : d'.locked = d.locked)
      (hcalls : d'.calls = d.calls) (hgets : d.GetsBuffer (.turn server))
      (hsends : (∀ e, d'.reader ≠ .drain (.error e)) → d.SendsAll (.turn server))
      (herror : ∀ e, d.reader = .drain (.error e) → d'.reader = .drain (.error e))
  | returns (c : ReadCall) (hidle : d'.reader = .idle) (hlocked : d'.locked = d.locked)
      (hcalls : d'.calls = d.calls ++ [c]) (hgets : d.GetsBuffer (.turn server))
      (hsends : c.result = .success → d.SendsAll (.turn server))
      (herror : ∀ e, d.reader = .drain (.error e) → c.result = .error e)
  | noBuffer (c : ReadCall) (hidle : d'.reader = .idle) (hlocked : d'.locked = true)
      (hcalls : d'.calls = d.calls ++ [c]) (hgets : ¬d.GetsBuffer (.turn server))

/-- What the reader asks for, where it is in the turns for a chunk. -/
theorem asks_iff {d : Download} {server : WriteServer} {optimalConcurrency : ℕ}
    {chunk rest rest' : Bytes}
    (hreader : d.reader = .turn chunk rest ∧ optimalConcurrency = server.optimalConcurrency ∨
      d.reader = .slot chunk rest optimalConcurrency) :
    d.Asks server rest' ↔
      rest' = rest ∧ d.arg.registeredBuffersCount < optimalConcurrency := by
  rw [Asks]
  rcases hreader with ⟨hreader, rfl⟩ | hreader
  · rw [hreader]
    constructor
    · rintro (⟨_, hturn, hslot⟩ | ⟨_, _, hturn, -⟩)
      · obtain ⟨-, rfl⟩ := Reader.turn.inj hturn
        exact ⟨rfl, hslot⟩
      · exact absurd hturn (by simp)
    · rintro ⟨rfl, hslot⟩
      exact .inl ⟨chunk, rfl, hslot⟩
  · rw [hreader]
    constructor
    · rintro (⟨_, hturn, -⟩ | ⟨_, _, hturn, hslot⟩)
      · exact absurd hturn (by simp)
      · obtain ⟨-, rfl, rfl⟩ := Reader.slot.inj hturn
        exact ⟨rfl, hslot⟩
    · rintro ⟨rfl, hslot⟩
      exact .inr ⟨chunk, optimalConcurrency, rfl, hslot⟩

/-- How a turn for a chunk ends. -/
theorem turnEnds_of_chunkTurn {d d' : Download} {server : WriteServer} {optimalConcurrency : ℕ}
    {chunk rest : Bytes}
    (hreader : d.reader = .turn chunk rest ∧ optimalConcurrency = server.optimalConcurrency ∨
      d.reader = .slot chunk rest optimalConcurrency)
    (hturn : d.chunkTurn server optimalConcurrency chunk rest = some d') :
    TurnEnds d server d' := by
  have hnotLast : d.reader ≠ .last := by
    rcases hreader with ⟨hreader, -⟩ | hreader <;> simp [hreader]
  have hnotDrain : ∀ result, d.reader ≠ .drain result := by
    rcases hreader with ⟨hreader, -⟩ | hreader <;> simp [hreader]
  rw [Download.chunkTurn] at hturn
  split_ifs at hturn with hfull
  · -- no slot is free, and nothing is asked for
    obtain rfl := Option.some.inj hturn
    have hnone : ∀ rest', ¬d.Asks server rest' := fun rest' hasks =>
      absurd ((asks_iff hreader).mp hasks).2 (not_lt.mpr hfull)
    exact .goesOn (by simp) rfl rfl (fun rest' hasks => (hnone rest' hasks).elim)
      (fun _ => ⟨fun rest' _ _ _ _ hasks => (hnone rest' hasks).elim,
        fun hlast => (hnotLast hlast).elim⟩)
      fun _ hdrain => absurd hdrain (hnotDrain _)
  have hasks : d.Asks server rest := (asks_iff hreader).mpr ⟨rfl, not_le.mp hfull⟩
  rcases hget : bufferGet d.arg rest.length server.optimalBlocksize server.malloc with
    ⟨_ | buffer, arg⟩
  · rw [hget] at hturn
    obtain rfl := Option.some.inj hturn
    have hno : d.arg.NoBuffer server.malloc :=
      GridftpOpArg.bufferGet_eq_none_iff.mp (congrArg Prod.fst hget)
    exact .noBuffer ⟨chunk, .success⟩ rfl rfl rfl fun hgets => hgets rest hasks hno
  rw [hget] at hturn
  obtain ⟨⟨filled, left⟩, hfill, hturn⟩ := Option.bind_eq_some_iff.mp hturn
  obtain ⟨⟨result, last, sent⟩, hsend, hturn⟩ := Option.bind_eq_some_iff.mp hturn
  have hgets : d.GetsBuffer (.turn server) := fun rest' _ hno => by
    have hnone := (@GridftpOpArg.bufferGet_eq_none_iff _ rest.length server.optimalBlocksize _).mpr
      hno
    rw [hget] at hnone
    exact absurd hnone (by simp)
  have hsends : result = .success → d.SendsAll (.turn server) := fun hresult => by
    refine ⟨fun rest' buffer' arg' filled' left' hasks' hget' hfill' => ?_,
      fun hlast => (hnotLast hlast).elim⟩
    obtain ⟨rfl, -⟩ := (asks_iff hreader).mp hasks'
    obtain ⟨hbuffer, rfl⟩ := Prod.mk.inj (hget.symm.trans hget')
    obtain rfl := Option.some.inj hbuffer
    obtain ⟨rfl, -⟩ := Prod.mk.inj (Option.some.inj (hfill.symm.trans hfill'))
    exact (GridftpOpArg.sendCurrent_eq_success_iff hsend).mp hresult
  simp only at hturn
  split_ifs at hturn with hmore
  · obtain rfl := Option.some.inj hturn
    exact .goesOn (by simp) rfl rfl hgets (fun _ => hsends hmore.1)
      fun _ hdrain => absurd hdrain (hnotDrain _)
  · obtain rfl := Option.some.inj hturn
    exact .returns ⟨chunk, result⟩ rfl rfl rfl hgets hsends
      fun _ hdrain => absurd hdrain (hnotDrain _)

/-- **How a turn ends**, in any state. -/
theorem turnEnds_of_step {d d' : Download} {server : WriteServer}
    (hstep : d.step (.turn server) = some d') : TurnEnds d server d' := by
  rw [Download.step] at hstep
  split at hstep
  case h_1 => cases hstep
  case h_2 chunk rest hreader => exact turnEnds_of_chunkTurn (.inl ⟨hreader, rfl⟩) hstep
  case h_3 chunk rest n hreader => exact turnEnds_of_chunkTurn (.inr hreader) hstep
  case h_4 hreader =>
    obtain ⟨⟨result, arg, sent⟩, hsend, rfl⟩ := Option.map_eq_some_iff.mp hstep
    have hnone : ∀ rest, ¬d.Asks server rest := by simp [Asks, hreader]
    refine .goesOn (by simp) rfl rfl (fun rest hasks => (hnone rest hasks).elim) (fun hok => ?_)
      fun _ hdrain => absurd (hreader.symm.trans hdrain) (by simp)
    refine ⟨fun rest _ _ _ _ hasks => (hnone rest hasks).elim, fun _ => ?_⟩
    refine (GridftpOpArg.sendCurrent_eq_success_iff hsend).mp ?_
    cases result with
    | success => rfl
    | error e => exact absurd rfl (hok e)
  case h_5 result hreader =>
    have hnone : ∀ rest, ¬d.Asks server rest := by simp [Asks, hreader]
    have hgets : d.GetsBuffer (.turn server) := fun rest hasks => (hnone rest hasks).elim
    have hsends : d.SendsAll (.turn server) :=
      ⟨fun rest _ _ _ _ hasks => (hnone rest hasks).elim,
        fun hlast => absurd (hreader.symm.trans hlast) (by simp)⟩
    split_ifs at hstep
    · obtain rfl := Option.some.inj hstep
      exact .goesOn (by simp [hreader]) rfl rfl hgets (fun _ => hsends) fun _ hdrain => hdrain
    · obtain rfl := Option.some.inj hstep
      exact .returns ⟨[], result⟩ rfl rfl rfl hgets (fun _ => hsends)
        fun e hdrain => Reader.drain.inj (hreader.symm.trans hdrain)

/-! ### How a call ends -/

/-- A call is made where none is being made and the mutex can be locked. -/
theorem call_frame {d d' : Download} {chunk : Bytes} (hstep : d.step (.call chunk) = some d') :
    d.locked = false ∧ d'.reader ≠ .idle ∧ d'.locked = d.locked ∧ d'.calls = d.calls := by
  rw [Download.step] at hstep
  split_ifs at hstep with hidle hchunk
  · obtain rfl := Option.some.inj hstep
    exact ⟨hidle.2, by simp, rfl, rfl⟩
  · obtain rfl := Option.some.inj hstep
    exact ⟨hidle.2, by simp, rfl, rfl⟩

/-- A write that completes leaves the reader, the mutex and the calls alone. -/
theorem complete_frame {d d' : Download} {id : ℕ} {result : Result}
    (hstep : d.step (.complete id result) = some d') :
    d'.reader = d.reader ∧ d'.locked = d.locked ∧ d'.calls = d.calls := by
  rw [Download.step] at hstep
  split_ifs at hstep
  obtain ⟨w, -, rfl⟩ := Option.map_eq_some_iff.mp hstep
  exact ⟨rfl, rfl, rfl⟩

/-- Nothing fails in the actions of a run. -/
def NothingFails (d : Download) (action : DownloadAction) : Prop :=
  d.GetsBuffer action ∧ d.SendsAll action

/-- What follows the return of a call. -/
theorem run_returned {d d' : Download} {actions : List DownloadAction} (hidle : d.reader = .idle)
    (hactions : ∀ action ∈ actions, action.GoesOn)
    (hrun : Guarded.run Download.step d actions = some d') :
    d'.locked = d.locked ∧ d'.calls = d.calls ∧
      Guarded.Along Download.step NothingFails d actions := by
  induction actions generalizing d with
  | nil =>
      obtain rfl := Option.some.inj hrun
      exact ⟨rfl, rfl, trivial⟩
  | cons action actions ih =>
      obtain ⟨e, hstep, hrest⟩ := Guarded.run_cons.mp hrun
      have hlater := List.forall_mem_cons.mp hactions
      cases action with
      | call chunk => exact hlater.1.elim
      | turn server =>
          rw [Download.step, hidle] at hstep
          exact absurd hstep (by simp)
      | complete id result =>
          obtain ⟨hreader, hlocked, hcalls⟩ := complete_frame hstep
          obtain ⟨hlocked', hcalls', hal⟩ := ih (hreader.trans hidle) hlater.2 hrest
          exact ⟨hlocked'.trans hlocked, hcalls'.trans hcalls,
            Guarded.along_cons ⟨trivial, trivial⟩ hstep hal⟩

/-- The rest of a call, up to its return: the mutex is released just when every buffer was
obtained, and then a success means that nothing failed. -/
theorem run_call {d d' : Download} {actions : List DownloadAction} (hbusy : d.reader ≠ .idle)
    (hunlocked : d.locked = false) (hactions : ∀ action ∈ actions, action.GoesOn)
    (hrun : Guarded.run Download.step d actions = some d') (hreturned : d'.reader = .idle) :
    (d'.locked = false ↔ Guarded.Along Download.step GetsBuffer d actions) ∧
      ∃ c, d'.calls = d.calls ++ [c] ∧ (d'.locked = false → c.result = .success →
        (∀ e, d.reader ≠ .drain (.error e)) ∧
          Guarded.Along Download.step NothingFails d actions) := by
  induction actions generalizing d with
  | nil =>
      obtain rfl := Option.some.inj hrun
      exact absurd hreturned hbusy
  | cons action actions ih =>
      obtain ⟨e, hstep, hrest⟩ := Guarded.run_cons.mp hrun
      have hlater := List.forall_mem_cons.mp hactions
      have hcons : d.GetsBuffer action → (Guarded.Along Download.step GetsBuffer e actions ↔
          Guarded.Along Download.step GetsBuffer d (action :: actions)) := fun hgets =>
        ⟨Guarded.along_cons hgets hstep, fun hal => hal.2 e hstep⟩
      cases action with
      | call chunk => exact hlater.1.elim
      | complete id result =>
          obtain ⟨hreader, hlocked, hcalls⟩ := complete_frame hstep
          obtain ⟨hiff, c, hc, hall⟩ := ih (hreader ▸ hbusy) (hlocked.trans hunlocked) hlater.2 hrest
          refine ⟨hiff.trans (hcons trivial), c, hcalls ▸ hc, fun hfree hresult => ?_⟩
          obtain ⟨hok, hal⟩ := hall hfree hresult
          exact ⟨hreader ▸ hok, Guarded.along_cons ⟨trivial, trivial⟩ hstep hal⟩
      | turn server =>
          cases turnEnds_of_step hstep with
          | goesOn hbusy' hlocked hcalls hgets hsends herror =>
              obtain ⟨hiff, c, hc, hall⟩ := ih hbusy' (hlocked.trans hunlocked) hlater.2 hrest
              refine ⟨hiff.trans (hcons hgets), c, hcalls ▸ hc, fun hfree hresult => ?_⟩
              obtain ⟨hok, hal⟩ := hall hfree hresult
              exact ⟨fun e hdrain => hok e (herror e hdrain),
                Guarded.along_cons ⟨hgets, hsends hok⟩ hstep hal⟩
          | returns c hidle hlocked hcalls hgets hsends herror =>
              obtain ⟨hlocked', hcalls', hal⟩ := run_returned hidle hlater.2 hrest
              have hfree : d'.locked = false := by rw [hlocked', hlocked, hunlocked]
              have hbuffers : Guarded.Along Download.step GetsBuffer e actions :=
                hal.mono fun _ _ h => h.1
              refine ⟨iff_of_true hfree ((hcons hgets).mp hbuffers), c, hcalls'.trans hcalls,
                fun _ hresult => ⟨fun e hdrain => ?_,
                  Guarded.along_cons ⟨hgets, hsends hresult⟩ hstep hal⟩⟩
              exact absurd (hresult.symm.trans (herror e hdrain)) (by simp)
          | noBuffer c hidle hlocked hcalls hgets =>
              obtain ⟨hlocked', hcalls', -⟩ := run_returned hidle hlater.2 hrest
              have hheld : d'.locked ≠ false := by simp [hlocked', hlocked]
              exact ⟨iff_of_false hheld fun hal => hgets hal.1, c, hcalls'.trans hcalls,
                fun hfree => (hheld hfree).elim⟩

end Download

/-- **How a call returns.** A call of the reader in any state leaves the mutex unlocked, and
succeeds only if it obtained every buffer and registered every write it tried to, just when
it obtained every buffer. -/
theorem download_exits_iff {d d' : Download} {chunk : Bytes} {actions : List DownloadAction}
    (hactions : ∀ action ∈ actions, action.GoesOn)
    (hrun : Guarded.run Download.step d (.call chunk :: actions) = some d')
    (hreturned : d'.reader = .idle) :
    (d'.MutexFree ∧ ∃ c, d'.calls = d.calls ++ [c] ∧ (c.result = .success →
        Guarded.Along Download.step Download.NothingFails d (.call chunk :: actions))) ↔
      Guarded.Along Download.step Download.GetsBuffer d (.call chunk :: actions) := by
  obtain ⟨e, hstep, hrest⟩ := Guarded.run_cons.mp hrun
  obtain ⟨hunlocked, hbusy, hlocked, hcalls⟩ := Download.call_frame hstep
  obtain ⟨hiff, c, hc, hall⟩ :=
    Download.run_call hbusy (hlocked.trans hunlocked) hactions hrest hreturned
  constructor
  · rintro ⟨⟨-, hfree⟩, -⟩
    exact Guarded.along_cons trivial hstep (hiff.mp hfree)
  · intro hal
    have hfree := hiff.mpr (hal.2 e hstep)
    exact ⟨⟨by rw [hreturned]; rfl, hfree⟩, c, hcalls ▸ hc, fun hresult =>
      Guarded.along_cons ⟨trivial, trivial⟩ hstep (hall hfree hresult).2⟩

/-- The case of one byte whose write is refused: the call releases the mutex and fails. -/
theorem download_exits_iff_refused :
    let server : WriteServer := ⟨1, 1, true, fun _ => .error .memory⟩
    ∃ d' c, Guarded.run Download.step (.start (prepareReadGridftpOp 0 minusOne64))
        [.call (bytes "A"), .turn server] = some d' ∧
      d'.MutexFree ∧ d'.calls = [c] ∧ c.result = .error .memory := by
  intro server
  have hend : (Guarded.run Download.step (.start (prepareReadGridftpOp 0 minusOne64))
      [.call (bytes "A"), .turn server]).map (fun d => (d.reader, d.calls.map ReadCall.result)) =
      some (.idle, [.error .memory]) := by
    decide +kernel
  obtain ⟨d', hrun, hd'⟩ := Option.map_eq_some_iff.mp hend
  obtain ⟨hreader, hresults⟩ := Prod.mk.inj hd'
  have hgets : Guarded.Along Download.step Download.GetsBuffer
      (.start (prepareReadGridftpOp 0 minusOne64)) [.call (bytes "A"), .turn server] :=
    ⟨trivial, fun _ _ => ⟨fun _ _ hno => absurd hno.2.2 (by simp [server]), fun _ _ => trivial⟩⟩
  obtain ⟨hfree, c, hc, -⟩ := (download_exits_iff
    (by simp [DownloadAction.GoesOn]) hrun hreader).mpr hgets
  refine ⟨d', c, hrun, hfree, hc, ?_⟩
  rw [hc] at hresults
  exact (List.cons.inj hresults).1

/-- **The call without a buffer.** Where `malloc` fails for the first byte, the call returns
a success, and the mutex stays locked. -/
theorem download_exits_noBuffer :
    ∃ d', Guarded.run Download.step (.start (prepareReadGridftpOp 0 minusOne64))
        [.call (bytes "A"), .turn ⟨1, 1, false, fun _ => .success⟩] = some d' ∧
      d'.reader = .idle ∧ ¬d'.MutexFree ∧ d'.calls = [⟨bytes "A", .success⟩] := by
  have hend : (Guarded.run Download.step (.start (prepareReadGridftpOp 0 minusOne64))
      [.call (bytes "A"), .turn ⟨1, 1, false, fun _ => .success⟩]).map
        (fun d => (d.reader, d.locked, d.calls)) =
      some (.idle, true, [⟨bytes "A", .success⟩]) := by
    decide +kernel
  obtain ⟨d', hrun, hd'⟩ := Option.map_eq_some_iff.mp hend
  obtain ⟨hreader, hd'⟩ := Prod.mk.inj hd'
  obtain ⟨hlocked, hcalls⟩ := Prod.mk.inj hd'
  exact ⟨d', hrun, hreader, fun hfree => absurd (hlocked.symm.trans hfree.2) (by simp), hcalls⟩

end DsiRest
