import DsiRest.Request

/-!
# The First Error of a Request

A request can fail in any of the functions libcurl calls, in libcurl itself, and in the
read callback that is told the end of the data. The result of the request is to be the
first of these failures. It is, in every run in which no failure escapes `record` while
nothing else is recorded; `header` lets a bad status line and a failing response callback
escape, so that libcurl's error for the aborted transfer takes their place.

## Main results

* `Request.run_result` — a run records the first failure of its calls.
* `Request.perform_firstFailure` — both ways of completing a request report that failure,
  and libcurl's error only where there is none.
* `Request.perform_badStatusLine` — a status line without a reason phrase is reported as a
  failure of libcurl.
-/

namespace DsiRest

/-! ### The first failure -/

/-- The first failure among results in the order in which they came up. -/
def firstFailure (results : List Result) : Option Result :=
  results.find? (· ≠ .success)

@[simp] theorem firstFailure_nil : firstFailure [] = none := rfl

@[simp] theorem firstFailure_success (results : List Result) :
    firstFailure (.success :: results) = firstFailure results := rfl

@[simp] theorem firstFailure_error (e : GlobusError) (results : List Result) :
    firstFailure (.error e :: results) = some (.error e) := rfl

/-- The first failure of a sequence comes from its first part, if there is one. -/
theorem firstFailure_append (results more : List Result) :
    firstFailure (results ++ more) = (firstFailure results).or (firstFailure more) :=
  List.find?_append

/-- Latching results one after the other keeps the first failure. -/
theorem firstFailure_getD_latch (result : Result) (results : List Result) :
    (firstFailure (result :: results)).getD .success
      = result.latch ((firstFailure results).getD .success) := by
  cases result <;> simp

/-- The first failure is one. -/
theorem firstFailure_eq_some {results : List Result} {failure : Result}
    (h : firstFailure results = some failure) : failure ≠ .success := by
  simpa using List.find?_some h

/-! ### Runs -/

/-- No failure escapes in a run: as long as nothing is recorded, no call fails without
recording it. -/
def Request.NoneEscapes : Request → List Invocation → Prop
  | _, [] => True
  | request, invocation :: later =>
    (request.result = .success → ¬invocation.Unrecorded request) ∧
      ∀ response, invocation.call request = some response → response.request.NoneEscapes later

namespace Request

/-- A call in which no failure escapes latches its result. -/
theorem result_of_call {request : Request} {invocation : Invocation} {response : Response}
    (hcall : invocation.call request = some response)
    (hnone : request.result = .success → ¬invocation.Unrecorded request) :
    response.request.result = request.result.latch response.result := by
  rcases Invocation.call_spec hcall with ⟨hu, hresult, -⟩ | ⟨-, hresult⟩
  · rw [hresult]
    rcases hr : request.result with _ | e
    · exact absurd hu (hnone hr)
    · rfl
  · exact hresult

/-- **A run records its first failure.** -/
theorem run_result {request last : Request} {invocations : List Invocation}
    {results : List Result} (hrun : request.run invocations = some (last, results))
    (hnone : request.NoneEscapes invocations) :
    last.result = request.result.latch ((firstFailure results).getD .success) := by
  induction invocations generalizing request results with
  | nil =>
      obtain ⟨rfl, rfl⟩ := Prod.mk.inj (Option.some.inj hrun)
      exact (Result.latch_success_right _).symm
  | cons invocation later ih =>
      rw [run, Option.bind_eq_bind, Option.bind_eq_some_iff] at hrun
      obtain ⟨response, hcall, hrun⟩ := hrun
      rw [Option.bind_eq_bind, Option.bind_eq_some_iff] at hrun
      obtain ⟨⟨final, laterResults⟩, hlater, hrun⟩ := hrun
      obtain ⟨rfl, rfl⟩ := Prod.mk.inj (Option.some.inj hrun)
      rw [ih hlater (hnone.2 response hcall), result_of_call hcall hnone.1,
        firstFailure_getD_latch]
      cases request.result <;> simp

/-! ### Completion -/

/-- The result of telling the read callback the end of the data, which happens after a
transfer that libcurl completed. -/
def finalReads (request : Request) (rc : ℕ) (finalRead : Result) : List Result :=
  if rc ≠ 0 then []
  else match request.dataReadCallback with
    | .none => []
    | _ => [finalRead]

/-- What a request without a failing call comes to. -/
theorem perform_of_success {request : Request} (rc : ℕ) (finalRead : Result)
    (h : request.result = .success) :
    (request.perform rc finalRead).1
      = ((firstFailure (request.finalReads rc finalRead)).getD
          (if rc = 0 then .success else .error (.curl rc))) := by
  rw [perform, finalReads, record_result, h, Result.latch_success_left]
  by_cases hrc : rc = 0
  · simp only [hrc, ne_eq, not_true_eq_false, if_false, if_true]
    cases request.dataReadCallback <;> cases finalRead <;> rfl
  · simp [hrc]

/-- A recorded failure is what a request comes to, whatever happens at its end. -/
theorem perform_of_error {request : Request} (rc : ℕ) (finalRead : Result) {e : GlobusError}
    (h : request.result = .error e) : (request.perform rc finalRead).1 = .error e := by
  rw [perform, record_result, h, Result.latch_error]

/-- The thread that completes a request passes on what `perform` returns. -/
theorem performThread_eq (request : Request) (rc : ℕ) (finalRead : Result) :
    request.performThread rc finalRead = (request.perform rc finalRead).1 := by
  simp [performThread, perform]

/-- **The first error wins.** In a run in which no failure escapes, the result of the
request and the one passed to `complete_callback` are the first failure of a callback or
check, and libcurl's error only if none of them failed. -/
theorem perform_firstFailure {request last : Request} {invocations : List Invocation}
    {results : List Result} (rc : ℕ) (finalRead : Result) (hfresh : request.result = .success)
    (hrun : request.run invocations = some (last, results))
    (hnone : request.NoneEscapes invocations) :
    let outcome := (firstFailure (results ++ last.finalReads rc finalRead)).getD
      (if rc = 0 then .success else .error (.curl rc))
    (last.perform rc finalRead).1 = outcome ∧ last.performThread rc finalRead = outcome := by
  have hlast := run_result hrun hnone
  rw [hfresh, Result.latch_success_left] at hlast
  intro outcome
  suffices h : (last.perform rc finalRead).1 = outcome from
    ⟨h, (last.performThread_eq rc finalRead).trans h⟩
  rcases hfirst : firstFailure results with _ | failure
  · rw [hfirst] at hlast
    rw [last.perform_of_success rc finalRead hlast]
    simp only [outcome, firstFailure_append, hfirst, Option.none_or]
  · rw [hfirst, Option.getD_some] at hlast
    obtain ⟨e, rfl⟩ : ∃ e, failure = .error e := by
      cases failure with
      | success => exact absurd rfl (firstFailure_eq_some hfirst)
      | error e => exact ⟨e, rfl⟩
    rw [last.perform_of_error rc finalRead hlast]
    simp only [outcome, firstFailure_append, hfirst, Option.some_or, Option.getD_some]

/-- The case of a failing read callback after which the progress callback fails too. -/
theorem perform_firstFailure_read :
    let request : Request :=
      ⟨.success, 200, bytes "OK", 0, 0, false, .client, HeaderList.empty, .none, true⟩
    let invocations : List Invocation :=
      [.xferinfo .success, .writeData (bytes "ab") 1 2 (.error (.client 5)),
        .xferinfo (.error (.client 6))]
    ∃ last results, request.run invocations = some (last, results) ∧
      (last.perform 23 .success).1 = .error (.client 5) ∧
      last.performThread 23 .success = .error (.client 5) := by
  intro request invocations
  have hnone : request.NoneEscapes invocations := by
    refine ⟨fun _ => id, fun response hcall => ?_⟩
    obtain rfl := Option.some.inj hcall
    refine ⟨fun _ => id, fun response hcall => ?_⟩
    obtain rfl := Option.some.inj hcall
    exact ⟨fun _ => id, fun _ _ => trivial⟩
  have hrun : request.run invocations = some (_, _) := rfl
  exact ⟨_, _, hrun, perform_firstFailure 23 .success rfl hrun hnone⟩

/-- **A status line without a reason phrase**, as HTTP/2 has it, makes `header` fail, and
the request comes to libcurl's `CURLE_WRITE_ERROR` instead of this failure. -/
theorem perform_badStatusLine :
    let request : Request :=
      ⟨.success, 0, [], 0, 0, false, .none, HeaderList.empty, .client, false⟩
    let line := bytes "HTTP/2 200 \r\n"
    ∃ last, request.run [.header (line ++ [0]) 1 13 .success]
        = some (last, [.error (.parse line)]) ∧
      firstFailure [.error (.parse line)] = some (.error (.parse line)) ∧
      (last.perform 23 .success).1 = .error (.curl 23) ∧
      last.performThread 23 .success = .error (.curl 23) :=
  ⟨_, rfl, rfl, rfl, rfl⟩

end Request

end DsiRest
