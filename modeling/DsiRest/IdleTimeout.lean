import DsiRest.Exchange
import DsiRest.Lib.Watchdog

/-!
# The Idle Timeout

A client that has `globus_dsi_rest_progress_idle_timeout` as its progress callback passes a number
of milliseconds as the argument. The request keeps the counters that libcurl reported last and the
time at which one of them changed last, at first the time at which the request was made. A call of
the progress function after which this is too long ago aborts the transfer.

The time is an input of each call, and the difference of two times is a parameter; of
`GlobusTimeAbstimeDiff` it is assumed that it measures the time, to the microsecond, from an earlier
to a later one (`MeasuresTime`).

## Main results

* `progressIdleTimeout_eq` — the callback is a watchdog.
* `idle_timeout` — when a request with an idle timeout is aborted, and what it comes to.
-/

namespace DsiRest

/-! ### The callback -/

/-- A `globus_reltime_t`. -/
structure Reltime where
  tvSec : ℕ
  tvUsec : ℕ

/-- A `globus_i_dsi_rest_idle_arg_t`; `T` is the type of points in time, `globus_abstime_t`. -/
structure IdleArg (T : Type) where
  lastActivity : T
  idleTimeout : ℕ
  lastAmtRead : ℕ
  lastAmtWritten : ℕ

variable {T : Type}

/-- What `globus_dsi_rest_request` sets up; `now` is when it does. -/
def prepareIdleArg (now : T) (progressCallbackArg : ℕ) : IdleArg T :=
  ⟨now, progressCallbackArg, 0, 0⟩

/-- `globus_l_dsi_rest_progress_idle_timeout`, called at `now`; it ignores the total amounts. -/
def progressIdleTimeout (abstimeDiff : T → T → Reltime) (idleArg : IdleArg T) (now : T)
    (_totalRead amtRead _totalWritten amtWritten : ℕ) : Result × IdleArg T :=
  let idleArg :=
    if amtRead ≠ idleArg.lastAmtRead then
      { idleArg with lastAmtRead := amtRead, lastActivity := now }
    else idleArg
  let idleArg :=
    if amtWritten ≠ idleArg.lastAmtWritten then
      { idleArg with lastAmtWritten := amtWritten, lastActivity := now }
    else idleArg
  let idle := abstimeDiff now idleArg.lastActivity
  let idleMsec := idle.tvSec * 1000 + idle.tvUsec / 1000
  (if idleArg.idleTimeout < idleMsec then .error .timeOut else .success, idleArg)

/-- The differences are those of the times, in microseconds, if the first one is the later one. -/
def MeasuresTime (abstimeDiff : T → T → Reltime) (usec : T → ℕ) : Prop :=
  ∀ now last, usec last ≤ usec now →
    (abstimeDiff now last).tvUsec + (abstimeDiff now last).tvSec * 1000 * 1000
      = usec now - usec last

/-- More milliseconds have passed than allowed. -/
def Overdue (usec : T → ℕ) (idleTimeout : ℕ) (last now : T) : Prop :=
  idleTimeout < (usec now - usec last) / 1000

/-- Nothing is overdue at once. -/
theorem overdue_irrefl (usec : T → ℕ) (idleTimeout : ℕ) (now : T) :
    ¬ Overdue usec idleTimeout now now := by
  rw [Overdue, Nat.sub_self]
  exact Nat.not_lt_zero _

/-- What is overdue is so since any earlier time. -/
theorem overdue_mono (usec : T → ℕ) (idleTimeout : ℕ) (earlier last now : T)
    (hearlier : usec earlier ≤ usec last) (h : Overdue usec idleTimeout last now) :
    Overdue usec idleTimeout earlier now :=
  lt_of_lt_of_le h (Nat.div_le_div_right (Nat.sub_le_sub_left hearlier _))

/-- The counters that the callback keeps, and since when. -/
def IdleArg.memory (idleArg : IdleArg T) : Watchdog.Sight T (ℕ × ℕ) :=
  ⟨idleArg.lastActivity, idleArg.lastAmtRead, idleArg.lastAmtWritten⟩

/-- The argument remembers what was seen last, unless nothing changed. -/
theorem progressIdleTimeout_memory (abstimeDiff : T → T → Reltime) (idleArg : IdleArg T) (now : T)
    (totalRead amtRead totalWritten amtWritten : ℕ) :
    let after := (progressIdleTimeout abstimeDiff idleArg now totalRead amtRead totalWritten
      amtWritten).2
    after.memory = Watchdog.look idleArg.memory ⟨now, amtRead, amtWritten⟩ ∧
      after.idleTimeout = idleArg.idleTimeout := by
  intro after
  simp only [after, progressIdleTimeout, Watchdog.look, IdleArg.memory, Prod.mk.injEq]
  by_cases hread : amtRead = idleArg.lastAmtRead <;>
    by_cases hwritten : amtWritten = idleArg.lastAmtWritten <;> simp [hread, hwritten]

/-- The milliseconds are those that have passed. -/
theorem idleMsec_eq {abstimeDiff : T → T → Reltime} {usec : T → ℕ}
    (hdiff : MeasuresTime abstimeDiff usec) {last now : T} (hclock : usec last ≤ usec now) :
    (abstimeDiff now last).tvSec * 1000 + (abstimeDiff now last).tvUsec / 1000
      = (usec now - usec last) / 1000 := by
  rw [← hdiff now last hclock, Nat.add_mul_div_right _ _ (Nat.succ_pos 999), Nat.add_comm]

/-- **The callback is a watchdog** over the pair of counters. -/
theorem progressIdleTimeout_eq {abstimeDiff : T → T → Reltime} {usec : T → ℕ}
    (hdiff : MeasuresTime abstimeDiff usec) {idleArg : IdleArg T} {now : T}
    (hclock : usec idleArg.lastActivity ≤ usec now)
    (totalRead amtRead totalWritten amtWritten : ℕ) :
    let result := (progressIdleTimeout abstimeDiff idleArg now totalRead amtRead totalWritten
      amtWritten).1
    (result = .error .timeOut ∨ result = .success) ∧
      (result = .error .timeOut ↔ Watchdog.Alarms (Overdue usec idleArg.idleTimeout)
        idleArg.memory ⟨now, amtRead, amtWritten⟩) := by
  intro result
  obtain ⟨hmemory, htimeout⟩ := progressIdleTimeout_memory abstimeDiff idleArg now totalRead amtRead
    totalWritten amtWritten
  let after := (progressIdleTimeout abstimeDiff idleArg now totalRead amtRead totalWritten
    amtWritten).2
  have hresult : result = if after.idleTimeout < (abstimeDiff now after.lastActivity).tvSec * 1000
      + (abstimeDiff now after.lastActivity).tvUsec / 1000 then .error .timeOut else .success := rfl
  have hearlier : usec (Watchdog.look idleArg.memory ⟨now, amtRead, amtWritten⟩).time
      ≤ usec now := by
    rw [Watchdog.look]
    split_ifs
    · exact hclock
    · exact Nat.le_refl _
  have hidle := idleMsec_eq hdiff hearlier
  rw [← hmemory] at hidle
  rw [Watchdog.Alarms, ← hmemory, ← htimeout, Overdue, ← hidle]
  rw [hresult]
  split_ifs with hlong
  · exact ⟨.inl rfl, iff_of_true rfl hlong⟩
  · exact ⟨.inr rfl, iff_of_false (by simp) hlong⟩

/-! ### Requests -/

/-- A request with the argument of its progress callback. -/
structure IdleRequest (T : Type) where
  request : Request
  idleArg : IdleArg T

/-- A call that libcurl makes: of the progress function, at `now`, or of another function. -/
inductive IdleCall (T : Type)
  | xferinfo (now : T) (dltotal dlnow ultotal ulnow : ℤ)
  | other (invocation : Invocation)

/-- A call of a progress function. -/
def Invocation.reportsProgress : Invocation → Bool
  | .xferinfo _ | .progress _ => true
  | _ => false

/-- The time and the counters that the callback is called with. -/
def IdleCall.sight : IdleCall T → Option (Watchdog.Sight T (ℕ × ℕ))
  | .xferinfo now _ dlnow _ ulnow => some ⟨now, sizeOfInt dlnow, sizeOfInt ulnow⟩
  | .other _ => none

namespace IdleRequest

/-- The effect of a call, with the argument that it leaves. -/
def call (abstimeDiff : T → T → Reltime) (s : IdleRequest T) :
    IdleCall T → Option (Response × IdleArg T)
  | .xferinfo now dltotal dlnow ultotal ulnow =>
    if s.request.progressCallback then
      let reported := progressIdleTimeout abstimeDiff s.idleArg now
        (sizeOfInt dltotal) (sizeOfInt dlnow) (sizeOfInt ultotal) (sizeOfInt ulnow)
      some (s.request.xferinfo reported.1, reported.2)
    else some (s.request.xferinfo .success, s.idleArg)
  | .other invocation =>
    if invocation.reportsProgress then none
    else (invocation.call s.request).map fun response => (response, s.idleArg)

/-- The next state. -/
def step (abstimeDiff : T → T → Reltime) (s : IdleRequest T) (call : IdleCall T) :
    Option (IdleRequest T) :=
  (s.call abstimeDiff call).map fun reply => ⟨reply.1.request, reply.2⟩

/-- A call of another function succeeds. -/
def OthersSucceed (s : IdleRequest T) : IdleCall T → Prop
  | .xferinfo .. => True
  | .other invocation => ∀ response, invocation.call s.request = some response →
      response.result = .success

/-- What the callback sees of some calls. -/
def seen (calls : List (IdleCall T)) : List (Watchdog.Sight T (ℕ × ℕ)) :=
  calls.filterMap IdleCall.sight

end IdleRequest

/-! ### The progress callback stays -/

namespace Request

/-- Filling in the counters leaves the progress callback alone. -/
theorem updateCounters_progressCallback (request : Request) :
    request.updateCounters.progressCallback = request.progressCallback := by
  rw [updateCounters]
  split <;> rfl

/-- So does looking for the boundary. -/
theorem updateBoundary_progressCallback {request request' : Request}
    (h : request.updateBoundary = some request') :
    request'.progressCallback = request.progressCallback := by
  rw [updateBoundary] at h
  split at h
  · rw [Option.bind_eq_bind, Option.bind_eq_some_iff] at h
    obtain ⟨boundary, -, h⟩ := h
    split at h <;> rw [← Option.some.inj h]
  · rw [← Option.some.inj h]

/-- And so does the end of the headers. -/
theorem endOfHeaders_progressCallback {request : Request} {total : ℕ} {response : Result}
    {r : Response} (h : request.endOfHeaders total response = some r) :
    r.request.progressCallback = request.progressCallback := by
  rw [endOfHeaders] at h
  split_ifs at h with h100
  · rw [← Option.some.inj h]
  · rw [Option.bind_eq_bind, Option.bind_eq_some_iff] at h
    obtain ⟨request', hboundary, h⟩ := h
    rw [← request.updateCounters_progressCallback,
      ← updateBoundary_progressCallback hboundary]
    split at h <;> rw [← Option.some.inj h]

/-- A header line. -/
theorem header_progressCallback {request : Request} {memory : Bytes} {size nitems : ℕ}
    {response : Result} {r : Response} (h : request.header memory size nitems response = some r) :
    r.request.progressCallback = request.progressCallback := by
  rw [header] at h
  by_cases hfirst : request.responseCode = 0 ∧ request.responseReason = []
  · rw [if_pos hfirst] at h
    rw [← Option.some.inj h]
    rfl
  · rw [if_neg hfirst] at h
    split at h
    case h_1 | h_2 | h_3 => rw [← Option.some.inj h]
    case h_4 =>
      rw [Option.bind_eq_bind, Option.bind_eq_some_iff] at h
      obtain ⟨⟨result, headers⟩, -, h⟩ := h
      rcases result with _ | e
      · by_cases hend : memory.take 2 = crlf
        · have hlast := endOfHeaders_progressCallback ((if_pos hend).symm.trans h)
          exact hlast
        · rw [← Option.some.inj ((if_neg hend).symm.trans h)]
      · rw [← Option.some.inj h]
        rfl

/-- A call of the progress function. -/
theorem reportProgress_progressCallback (request : Request) (reported : Result) :
    (request.reportProgress reported).request.progressCallback = request.progressCallback := by
  rw [reportProgress]
  split_ifs <;> rfl

end Request

/-- No call changes the progress callback. -/
theorem Invocation.call_progressCallback {request : Request} {invocation : Invocation}
    {r : Response} (h : invocation.call request = some r) :
    r.request.progressCallback = request.progressCallback := by
  cases invocation with
  | header memory size nitems response => exact Request.header_progressCallback h
  | writeData ptr size nmemb read =>
      rw [← Option.some.inj h]
      rfl
  | readData buffer size nitems written processed =>
      rw [← Option.some.inj h, Request.readData]
      split <;> rfl
  | xferinfo reported | progress reported =>
      rw [← Option.some.inj h]
      exact request.reportProgress_progressCallback reported

/-! ### Runs -/

namespace IdleRequest

variable {abstimeDiff : T → T → Reltime} {usec : T → ℕ} {s t : IdleRequest T}

/-- What one call leaves in the argument. -/
theorem step_memory (hprogress : s.request.progressCallback = true) {call : IdleCall T}
    (h : s.step abstimeDiff call = some t) :
    t.request.progressCallback = true ∧ t.idleArg.idleTimeout = s.idleArg.idleTimeout ∧
      t.idleArg.memory = Watchdog.watch s.idleArg.memory call.sight.toList := by
  obtain ⟨⟨response, idleArg⟩, hcall, rfl⟩ := Option.map_eq_some_iff.mp h
  cases call with
  | xferinfo now dltotal dlnow ultotal ulnow =>
      rw [IdleRequest.call, if_pos hprogress] at hcall
      obtain ⟨rfl, rfl⟩ := Prod.mk.inj (Option.some.inj hcall)
      obtain ⟨hmemory, htimeout⟩ := progressIdleTimeout_memory abstimeDiff s.idleArg now
        (sizeOfInt dltotal) (sizeOfInt dlnow) (sizeOfInt ultotal) (sizeOfInt ulnow)
      refine ⟨?_, htimeout, hmemory⟩
      rw [← hprogress]
      exact Request.reportProgress_progressCallback _ _
  | other invocation =>
      rw [IdleRequest.call] at hcall
      split_ifs at hcall
      obtain ⟨response', hresponse, heq⟩ := Option.map_eq_some_iff.mp hcall
      obtain ⟨rfl, rfl⟩ := Prod.mk.inj heq
      exact ⟨(Invocation.call_progressCallback hresponse).trans hprogress, rfl, rfl⟩

/-- What a run leaves in the argument. -/
theorem run_memory {calls : List (IdleCall T)} :
    ∀ {s : IdleRequest T}, s.request.progressCallback = true →
    Guarded.run (step abstimeDiff) s calls = some t →
    t.request.progressCallback = true ∧ t.idleArg.idleTimeout = s.idleArg.idleTimeout ∧
      t.idleArg.memory = Watchdog.watch s.idleArg.memory (seen calls) := by
  induction calls with
  | nil =>
      intro s hprogress hrun
      obtain rfl := Option.some.inj hrun
      exact ⟨hprogress, rfl, rfl⟩
  | cons call calls ih =>
      intro s hprogress hrun
      obtain ⟨r, hfirst, hrest⟩ := Guarded.run_cons.mp hrun
      obtain ⟨hprogress', htimeout, hmemory⟩ := step_memory hprogress hfirst
      obtain ⟨hlast, htimeout', hmemory'⟩ := ih hprogress' hrest
      refine ⟨hlast, htimeout'.trans htimeout, ?_⟩
      rw [hmemory', hmemory, Watchdog.watch, Watchdog.watch, ← List.foldl_append]
      congr 1
      rw [seen, seen, List.filterMap_cons]
      cases call.sight <;> rfl

/-- A failure stays recorded. -/
theorem step_result {call : IdleCall T} (h : s.step abstimeDiff call = some t)
    (hlast : t.request.result = .success) : s.request.result = .success := by
  obtain ⟨⟨response, idleArg⟩, hcall, rfl⟩ := Option.map_eq_some_iff.mp h
  cases call with
  | xferinfo now dltotal dlnow ultotal ulnow =>
      rw [IdleRequest.call] at hcall
      split_ifs at hcall <;> obtain ⟨rfl, rfl⟩ := Prod.mk.inj (Option.some.inj hcall)
      all_goals
        exact Invocation.call_result (show (Invocation.xferinfo _).call _ = _ from rfl) hlast
  | other invocation =>
      rw [IdleRequest.call] at hcall
      split_ifs at hcall
      obtain ⟨response', hresponse, heq⟩ := Option.map_eq_some_iff.mp hcall
      obtain ⟨rfl, rfl⟩ := Prod.mk.inj heq
      exact Invocation.call_result hresponse hlast

/-- A failure stays recorded to the end. -/
theorem run_result {calls : List (IdleCall T)} {s t : IdleRequest T}
    (hrun : Guarded.run (step abstimeDiff) s calls = some t)
    (hlast : t.request.result = .success) : s.request.result = .success := by
  induction calls generalizing s with
  | nil =>
      obtain rfl := Option.some.inj hrun
      exact hlast
  | cons call calls ih =>
      obtain ⟨r, hfirst, hrest⟩ := Guarded.run_cons.mp hrun
      exact step_result hfirst (ih hrest)

end IdleRequest

/-! ### Idle transfers -/

/-- At a call of the progress function, after other calls, both counters have been the same for too
long: since an earlier call, or since the request was made. -/
def StallsAt (usec : T → ℕ) (start : T) (idleTimeout : ℕ) (before : List (IdleCall T))
    (call : IdleCall T) : Prop :=
  ∃ sight ∈ call.sight, Watchdog.Stalls (Overdue usec idleTimeout)
    (⟨start, 0, 0⟩ :: IdleRequest.seen before) sight

/-- This happens at some call. -/
def Stalled (usec : T → ℕ) (start : T) (idleTimeout : ℕ) (calls : List (IdleCall T)) : Prop :=
  ∃ before call after, calls = before ++ call :: after ∧
    StallsAt usec start idleTimeout before call

/-- The times of the calls do not run backwards. -/
def ClockRuns (usec : T → ℕ) (start : T) (calls : List (IdleCall T)) : Prop :=
  (⟨start, 0, 0⟩ :: IdleRequest.seen calls).Pairwise fun s s' => usec s.time ≤ usec s'.time

section Idle

variable {abstimeDiff : T → T → Reltime} {usec : T → ℕ} {request : Request} {start : T}
  {idleTimeout : ℕ} {first calls : List (IdleCall T)} {t last : IdleRequest T}

/-- A clock that runs has run before. -/
theorem ClockRuns.left {later : List (IdleCall T)} (h : ClockRuns usec start (first ++ later)) :
    ClockRuns usec start first := by
  rw [ClockRuns, IdleRequest.seen, List.filterMap_append, ← List.cons_append] at h
  exact (List.pairwise_append.mp h).1

/-- What is remembered was seen before. -/
theorem ClockRuns.memory_le {sight : Watchdog.Sight T (ℕ × ℕ)} {call : IdleCall T}
    (h : ClockRuns usec start (first ++ [call])) (hsight : call.sight = some sight) :
    usec (Watchdog.watch ⟨start, 0, 0⟩ (IdleRequest.seen first)).time ≤ usec sight.time := by
  rw [ClockRuns, IdleRequest.seen, List.filterMap_append, ← List.cons_append] at h
  obtain ⟨-, -, hbefore⟩ := List.pairwise_append.mp h
  refine hbefore _ (Watchdog.watch_mem _ _) sight ?_
  rw [List.filterMap_cons_some hsight]
  exact List.mem_cons_self

/-- **One call of the progress function**, after other calls. -/
theorem xferinfo_of_run (hdiff : MeasuresTime abstimeDiff usec)
    (hprogress : request.progressCallback = true) {now : T} {dltotal dlnow ultotal ulnow : ℤ}
    (hclock : ClockRuns usec start (first ++ [.xferinfo now dltotal dlnow ultotal ulnow]))
    (hrun : Guarded.run (IdleRequest.step abstimeDiff) ⟨request, prepareIdleArg start idleTimeout⟩
      first = some t) :
    ∃ response idleArg,
      t.call abstimeDiff (.xferinfo now dltotal dlnow ultotal ulnow) = some (response, idleArg) ∧
      response.request.result = t.request.result.latch response.result ∧
      (StallsAt usec start idleTimeout first (.xferinfo now dltotal dlnow ultotal ulnow) →
        response.value = Request.abortedByCallback ∧ response.result = .error .timeOut) ∧
      (¬ StallsAt usec start idleTimeout first (.xferinfo now dltotal dlnow ultotal ulnow) →
        response.value = 0 ∧ response.result = .success) := by
  obtain ⟨hcallback, htimeout, hmemory⟩ := IdleRequest.run_memory hprogress hrun
  have hstart : (prepareIdleArg start idleTimeout).memory = ⟨start, 0, 0⟩ := rfl
  rw [hstart] at hmemory
  have hlast := hclock.memory_le rfl
  rw [← hmemory] at hlast
  obtain ⟨hresult, htimedOut⟩ := progressIdleTimeout_eq hdiff hlast (sizeOfInt dltotal)
    (sizeOfInt dlnow) (sizeOfInt ultotal) (sizeOfInt ulnow)
  have hstalls : StallsAt usec start idleTimeout first (.xferinfo now dltotal dlnow ultotal ulnow)
      ↔ Watchdog.Alarms (Overdue usec t.idleArg.idleTimeout) t.idleArg.memory
        ⟨now, sizeOfInt dlnow, sizeOfInt ulnow⟩ := by
    rw [hmemory, htimeout, Watchdog.alarms_iff (overdue_irrefl usec _) (overdue_mono usec _)
      hclock.left]
    exact ⟨fun ⟨sight, hsight, h⟩ => Option.some.inj hsight ▸ h, fun h => ⟨_, rfl, h⟩⟩
  rw [IdleRequest.call, if_pos hcallback, hstalls, ← htimedOut]
  refine ⟨_, _, rfl, ?_⟩
  rw [Request.xferinfo, Request.reportProgress, if_pos hcallback]
  refine ⟨rfl, fun h => ⟨?_, h⟩, fun h => ⟨?_, hresult.resolve_left h⟩⟩
  · simp only [h, reduceCtorEq, if_false]
  · simp only [hresult.resolve_left h, if_true]

/-- Calls that come one later. -/
theorem stalled_append_singleton {call : IdleCall T} :
    Stalled usec start idleTimeout (calls ++ [call]) ↔
      Stalled usec start idleTimeout calls ∨ StallsAt usec start idleTimeout calls call := by
  constructor
  · rintro ⟨before, at', after, heq, hstalls⟩
    rcases List.eq_nil_or_concat' after with rfl | ⟨after, last, rfl⟩
    · obtain ⟨rfl, hlast⟩ := List.append_inj' heq rfl
      obtain rfl := List.singleton_inj.mp hlast
      exact .inr hstalls
    · rw [← List.cons_append, ← List.append_assoc] at heq
      exact .inl ⟨before, at', after, (List.append_inj' heq rfl).1, hstalls⟩
  · rintro (⟨before, at', after, rfl, hstalls⟩ | hstalls)
    · exact ⟨before, at', after ++ [call], by rw [List.append_assoc, List.cons_append], hstalls⟩
    · exact ⟨calls, call, [], rfl, hstalls⟩

/-- What is recorded where nothing but the timeout fails. -/
theorem result_of_run (hdiff : MeasuresTime abstimeDiff usec)
    (hprogress : request.progressCallback = true) (hfresh : request.result = .success)
    (hclock : ClockRuns usec start calls)
    (hothers : Guarded.Along (IdleRequest.step abstimeDiff) IdleRequest.OthersSucceed
      ⟨request, prepareIdleArg start idleTimeout⟩ calls)
    (hrun : Guarded.run (IdleRequest.step abstimeDiff) ⟨request, prepareIdleArg start idleTimeout⟩
      calls = some last) :
    (Stalled usec start idleTimeout calls → last.request.result = .error .timeOut) ∧
      (¬ Stalled usec start idleTimeout calls → last.request.result = .success) := by
  induction calls using List.reverseRecOn generalizing last with
  | nil =>
      obtain rfl := Option.some.inj hrun
      refine ⟨fun ⟨before, call, after, heq, _⟩ => ?_, fun _ => hfresh⟩
      exact absurd heq (by simp)
  | append_singleton calls call ih =>
      obtain ⟨t, hfirst, hlast⟩ := Guarded.run_append_iff.mp hrun
      obtain ⟨_, hstep, hnil⟩ := Guarded.run_cons.mp hlast
      obtain rfl := Option.some.inj hnil
      obtain ⟨⟨response, idleArg⟩, hcall, rfl⟩ := Option.map_eq_some_iff.mp hstep
      obtain ⟨hstalled, hnever⟩ := ih hclock.left hothers.left hfirst
      have hother := hothers.last hfirst
      rw [stalled_append_singleton]
      cases call with
      | other invocation =>
          rw [IdleRequest.call] at hcall
          split_ifs at hcall
          obtain ⟨response', hresponse, heq⟩ := Option.map_eq_some_iff.mp hcall
          obtain ⟨rfl, rfl⟩ := Prod.mk.inj heq
          have hnot : ¬ StallsAt usec start idleTimeout calls (.other invocation) :=
            fun ⟨_, hsight, _⟩ => by cases hsight
          have hsame : response'.request.result = t.request.result := by
            have hsuccess := hother response' hresponse
            rcases Invocation.call_spec hresponse with ⟨-, -, hfailed⟩ | ⟨-, hresult⟩
            · exact absurd hsuccess hfailed
            · rw [hresult, hsuccess, Result.latch_success_right]
          rw [or_iff_left hnot, hsame]
          exact ⟨hstalled, hnever⟩
      | xferinfo now dltotal dlnow ultotal ulnow =>
          obtain ⟨response', idleArg', hcall', hlatch, habort, hgo⟩ :=
            xferinfo_of_run hdiff hprogress hclock hfirst
          obtain ⟨rfl, rfl⟩ := Prod.mk.inj (Option.some.inj (hcall.symm.trans hcall'))
          simp only [hlatch]
          by_cases hbefore : Stalled usec start idleTimeout calls
          · rw [hstalled hbefore]
            exact ⟨fun _ => rfl, fun h => absurd (.inl hbefore) h⟩
          · rw [hnever hbefore, or_iff_right hbefore, Result.latch_success_left]
            exact ⟨fun h => (habort h).2, fun h => (hgo h).2⟩

/-- **A request with an idle timeout.** On a clock that does not run backwards, whatever else
libcurl does: a call of the progress function aborts the transfer exactly if both counters have been
the same, for more milliseconds than allowed, since an earlier call or since the request was made.
Where this happens the request fails, whatever libcurl returns, and comes to a timeout unless
something else fails; where it does not happen, no failure comes from the timeout. -/
theorem idle_timeout (hdiff : MeasuresTime abstimeDiff usec)
    (hprogress : request.progressCallback = true) (hclock : ClockRuns usec start calls)
    (hrun : Guarded.run (IdleRequest.step abstimeDiff) ⟨request, prepareIdleArg start idleTimeout⟩
      calls = some last) :
    (∀ first now dltotal dlnow ultotal ulnow later t,
      calls = first ++ .xferinfo now dltotal dlnow ultotal ulnow :: later →
      Guarded.run (IdleRequest.step abstimeDiff) ⟨request, prepareIdleArg start idleTimeout⟩ first
        = some t →
      ∃ response idleArg,
        t.call abstimeDiff (.xferinfo now dltotal dlnow ultotal ulnow)
          = some (response, idleArg) ∧
        (response.value = Request.abortedByCallback ↔
          StallsAt usec start idleTimeout first (.xferinfo now dltotal dlnow ultotal ulnow))) ∧
    (Stalled usec start idleTimeout calls →
      ∀ rc finalRead, last.request.performThread rc finalRead ≠ .success) ∧
    (request.result = .success →
      Guarded.Along (IdleRequest.step abstimeDiff) IdleRequest.OthersSucceed
        ⟨request, prepareIdleArg start idleTimeout⟩ calls →
      (Stalled usec start idleTimeout calls →
        ∀ rc finalRead, last.request.performThread rc finalRead = .error .timeOut) ∧
      (¬ Stalled usec start idleTimeout calls → last.request.result = .success)) := by
  have hcalled : ∀ first now dltotal dlnow ultotal ulnow later,
      calls = first ++ .xferinfo now dltotal dlnow ultotal ulnow :: later →
      ClockRuns usec start (first ++ [.xferinfo now dltotal dlnow ultotal ulnow]) := by
    rintro first now dltotal dlnow ultotal ulnow later rfl
    rw [List.append_cons] at hclock
    exact hclock.left
  refine ⟨?_, ?_, ?_⟩
  · intro first now dltotal dlnow ultotal ulnow later t hcalls hfirst
    obtain ⟨response, idleArg, hcall, -, habort, hgo⟩ := xferinfo_of_run hdiff hprogress
      (hcalled _ _ _ _ _ _ _ hcalls) hfirst
    refine ⟨response, idleArg, hcall, fun hvalue => ?_, fun h => (habort h).1⟩
    by_contra hnot
    rw [(hgo hnot).1] at hvalue
    exact absurd hvalue (by simp [Request.abortedByCallback])
  · rintro ⟨first, call, later, rfl, hstalls⟩ rc finalRead hsuccess
    obtain ⟨t, hfirst, hrest⟩ := Guarded.run_append_iff.mp hrun
    obtain ⟨next, hstep, hlater⟩ := Guarded.run_cons.mp hrest
    cases call with
    | other invocation =>
        obtain ⟨_, hsight, -⟩ := hstalls
        cases hsight
    | xferinfo now dltotal dlnow ultotal ulnow =>
        obtain ⟨response, idleArg, hcall, hlatch, habort, -⟩ := xferinfo_of_run hdiff hprogress
          (hcalled _ _ _ _ _ _ _ rfl) hfirst
        have hnext : some (IdleRequest.mk response.request idleArg) = some next := by
          rw [← hstep, IdleRequest.step, hcall, Option.map_some]
        have hfailed : next.request.result ≠ .success := by
          rw [← Option.some.inj hnext]
          simp only [hlatch, (habort hstalls).2]
          exact fun h => absurd (Result.latch_eq_success.mp h).2 (by simp)
        have hlast : last.request.result = .success := by
          cases hresult : last.request.result with
          | success => rfl
          | error e =>
              rw [Request.performThread_eq,
                Request.perform_of_error rc finalRead hresult] at hsuccess
              cases hsuccess
        exact hfailed (IdleRequest.run_result hlater hlast)
  · intro hfresh hothers
    obtain ⟨hstalled, hnever⟩ := result_of_run hdiff hprogress hfresh hclock hothers hrun
    refine ⟨fun h rc finalRead => ?_, hnever⟩
    rw [Request.performThread_eq, Request.perform_of_error rc finalRead (hstalled h)]

end Idle

/-- A clock that counts microseconds. -/
def microseconds (now last : ℕ) : Reltime :=
  ⟨(now - last) / 1000 / 1000, (now - last) % (1000 * 1000)⟩

/-- It measures the time. -/
theorem measuresTime_microseconds : MeasuresTime microseconds id := fun now last _ => by
  rw [microseconds, Nat.div_div_eq_div_mul, Nat.mul_assoc, Nat.mul_comm _ (1000 * 1000)]
  exact Nat.mod_add_div _ _

/-- The case of a request that may be idle for three milliseconds, and is for four. -/
theorem idle_timeout_fourMilliseconds :
    let request : Request :=
      ⟨.success, 200, bytes "OK", 0, 0, false, .client, HeaderList.empty, .none, true⟩
    let calls : List (IdleCall ℕ) :=
      [.xferinfo 1000 0 5 0 0, .other (.writeData (bytes "ab") 1 2 .success),
        .xferinfo 5000 0 5 0 0]
    ∃ last, Guarded.run (IdleRequest.step microseconds) ⟨request, prepareIdleArg 0 3⟩ calls
        = some last ∧
      Stalled id 0 3 calls ∧ last.request.performThread 42 .success = .error .timeOut := by
  intro request calls
  have hclock : ClockRuns id 0 calls := by
    simp [ClockRuns, calls, IdleRequest.seen, IdleCall.sight, List.filterMap_cons]
  have hothers : Guarded.Along (IdleRequest.step microseconds) IdleRequest.OthersSucceed
      ⟨request, prepareIdleArg 0 3⟩ calls := by
    refine ⟨trivial, fun t ht => ⟨fun response hcall => ?_,
      fun _ _ => ⟨trivial, fun _ _ => trivial⟩⟩⟩
    obtain rfl := Option.some.inj ht
    rw [← Option.some.inj hcall]
    rfl
  have hstalled : Stalled id 0 3 calls := by
    refine ⟨[.xferinfo 1000 0 5 0 0, .other (.writeData (bytes "ab") 1 2 .success)], _, [], rfl,
      _, rfl, [⟨0, 0, 0⟩], ⟨1000, 5, 0⟩, [], rfl, ?_, ?_⟩
    · intro s hs
      rw [List.mem_singleton.mp hs]
      rfl
    · rw [Overdue]
      simp
  have hrun : Guarded.run (IdleRequest.step microseconds) ⟨request, prepareIdleArg 0 3⟩ calls
      = some _ := rfl
  exact ⟨_, hrun, hstalled, ((idle_timeout measuresTime_microseconds rfl hclock hrun).2.2 rfl
    hothers).1 hstalled 42 .success⟩

end DsiRest
