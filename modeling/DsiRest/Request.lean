import DsiRest.ReadMultipart

/-!
# Requests and the libcurl Callbacks

A `Request` carries the state of one REST request while libcurl performs it. libcurl calls
back for every header line, for received data, for data to send and for progress; these
functions call what the client supplied and record what came of it in `Request.result`.

What a client's callback returns is part of the `Invocation` in which it is called. An
invocation yields the value returned to libcurl, the local result of the function and the
request it leaves behind. Only `header` may be undefined, where it parses a line past its
end or looks for a boundary outside the header's value.

## Main results

* `Invocation.call_spec` — apart from a bad status line and a failing response callback,
  a function records its result unless a failure was recorded before.
-/

namespace DsiRest

/-! ### The status line -/

/-- `%d` of `scanf`: an optional sign and at least one digit, saturated to `long` and cut
down to `int`. -/
def scanInt (s : Bytes) : Option (ℤ × Bytes) :=
  let negative := s.head? == some 45
  let digits := if negative || s.head? == some 43 then s.drop 1 else s
  let number := digits.takeWhile fun b => decide (48 ≤ b ∧ b ≤ 57)
  if number = [] then none
  else
    let magnitude : ℤ := number.foldl (fun n b => 10 * n + ((b.toNat : ℤ) - 48)) 0
    let long := max (-2 ^ 63) (min (2 ^ 63 - 1) (if negative then -magnitude else magnitude))
    some (long.bmod (2 ^ 32), digits.drop number.length)

/-- `sscanf(s, "HTTP/%*s %d %64[^\r]", ..)`: the two items it assigns, as far as it gets. -/
def scanStatusLine (s : Bytes) : Option ℤ × Option Bytes :=
  if (bytes "HTTP/").isPrefixOf s then
    let protocol := (s.drop 5).dropWhile isSpace
    let version := protocol.takeWhile (!isSpace ·)
    if version = [] then (none, none)
    else
      match scanInt ((protocol.drop version.length).dropWhile isSpace) with
      | none => (none, none)
      | some (code, rest) =>
        let reason := ((rest.dropWhile isSpace).takeWhile (· != cr)).take 64
        (some code, if reason = [] then none else some reason)
  else (none, none)

/-! ### The boundary of a multipart response -/

/-- The loop over a quoted boundary from index `b` on: where `boundary_end` points,
relative to the boundary. A backslash at the end makes it leave the string. -/
def quotedEnd : Bytes → ℕ → Option ℤ → Option (Option ℤ)
  | [], _, boundaryEnd => some boundaryEnd
  | 92 :: [], _, _ => none
  | 92 :: _ :: rest, b, boundaryEnd => quotedEnd rest (b + 2) boundaryEnd
  | c :: rest, b, boundaryEnd =>
    quotedEnd rest (b + 1) (if c = 34 then some ((b : ℤ) - 1) else boundaryEnd)

/-- The boundary in one multipart `Content-Type` value, with its end if one was found. -/
def valueBoundary (value : Bytes) : Option (Bytes × Option ℤ) := do
  let found ← strcasestr value (bytes "boundary=")
  match found.drop 9 with
  | 34 :: quoted => (quotedEnd quoted 0 none).map (quoted, ·)
  | token => some (token, (token.findIdx? isSpace).map fun b => (b : ℤ) - 1)

/-- The loop over the response's headers, with the boundary and its end found so far. An
end left over from an earlier header is subtracted from a pointer into another string. -/
def searchBoundary : KeyArray → Option Bytes → Option ℤ → Option (Option Bytes × Option ℤ)
  | [], boundary, boundaryEnd => some (boundary, boundaryEnd)
  | ⟨some key, some value⟩ :: headers, boundary, boundaryEnd =>
    if strcaseeq key (bytes "Content-Type")
        && strcaseeq (value.take 10) (bytes "multipart/") then
      match valueBoundary value with
      | none => none
      | some (found, none) =>
        if boundaryEnd.isSome then none else searchBoundary headers (some found) none
      | some (found, some foundEnd) => searchBoundary headers (some found) (some foundEnd)
    else searchBoundary headers boundary boundaryEnd
  | _ :: _, _, _ => none

/-- The boundary of a multipart response, `none` inside if it has none. The length that
is printed of it goes through an `int`. -/
def responseBoundary (headers : KeyArray) : Option (Option Bytes) :=
  (searchBoundary headers none none).map fun (boundary, boundaryEnd) =>
    boundary.map fun found =>
      match boundaryEnd with
      | none => found
      | some boundaryEnd => precise (boundaryEnd.bmod (2 ^ 32)) found

/-! ### Requests -/

/-- The `data_read_callback` of a request, as far as the library looks at it. -/
inductive ReadCallback
  | none
  | gridftpOp
  | multipart (arg : ReadMultipartArg)
  | client

/-- The `response_callback` of a request; `globus_dsi_rest_response` has counters in its
argument that the library fills in. -/
inductive ResponseCallback
  | none
  | response (requestBytesUploaded responseBytesDownloaded : ℕ)
  | client

/-- A `globus_i_dsi_rest_request_t`. -/
structure Request where
  result : Result
  responseCode : ℤ
  responseReason : Bytes
  requestBytesUploaded : ℕ
  responseBytesDownloaded : ℕ
  dataWriteCallback : Bool
  dataReadCallback : ReadCallback
  headers : HeaderList
  responseCallback : ResponseCallback
  progressCallback : Bool

/-- What a call made by libcurl yields: the value returned to libcurl, the result of the
function and the request it leaves behind. -/
structure Response where
  value : ℕ
  result : Result
  request : Request

namespace Request

/-- `if (request->result == GLOBUS_SUCCESS) request->result = result`. -/
def record (request : Request) (result : Result) : Request :=
  { request with result := request.result.latch result }

/-- The `!total` that a failing callback returns to libcurl. -/
def notSize (total : ℕ) : ℕ :=
  if total = 0 then 1 else 0

/-- The value a callback returns for data of a given size. -/
def sizeReply (total : ℕ) (result : Result) : ℕ :=
  if result = .success then total else notSize total

/-- The response argument of `globus_dsi_rest_response` gets the transfer counters. -/
def updateCounters (request : Request) : Request :=
  match request.responseCallback with
  | .response _ _ => { request with
      responseCallback :=
        .response request.requestBytesUploaded request.responseBytesDownloaded }
  | _ => request

/-- A multipart read callback gets the boundary of the response. -/
def updateBoundary (request : Request) : Option Request :=
  match request.dataReadCallback with
  | .multipart arg => do
    match ← responseBoundary request.headers.entries with
    | none => some request
    | some boundary => some { request with
        dataReadCallback := .multipart { arg with boundary := boundary, boundaryBuffer := [] } }
  | _ => some request

/-- The first line of a response. -/
def statusLine (request : Request) (line : Bytes) (total : ℕ) : Response :=
  let (code, reason) := scanStatusLine line
  let result := if code.isSome && reason.isSome then .success else .error (.parse line)
  ⟨sizeReply total result, result, { request with
    responseCode := code.getD request.responseCode
    responseReason := reason.getD request.responseReason }⟩

/-- The empty line behind the headers; `response` is what the response callback returns. -/
def endOfHeaders (request : Request) (total : ℕ) (response : Result) : Option Response :=
  if request.responseCode = 100 then
    some ⟨total, .success, { request with
      responseCode := 0, responseReason := [], headers := HeaderList.empty }⟩
  else do
    let request ← request.updateCounters.updateBoundary
    match request.responseCallback with
    | .none => some ⟨total, .success, request⟩
    | _ => some ⟨sizeReply total response, response, request⟩

/-- `globus_i_dsi_rest_header`; `memory` is what can be read from `buffer` on. -/
def header (request : Request) (memory : Bytes) (size nitems : ℕ) (response : Result) :
    Option Response :=
  let total := mul64 size nitems
  if request.responseCode = 0 ∧ request.responseReason = [] then
    some (request.statusLine (cstr (memory.take total)) total)
  else
    match request.responseCallback, request.dataReadCallback with
    | .none, .none | .none, .gridftpOp | .none, .client => some ⟨total, .success, request⟩
    | _, _ => do
      let (result, headers) ← headerParse request.headers memory total
      let parsed := { request with headers := headers }
      match result with
      | .error e => some ⟨notSize total, .error e, parsed.record (.error e)⟩
      | .success =>
        if memory.take 2 = crlf then parsed.endOfHeaders total response
        else some ⟨total, .success, parsed⟩

/-- `globus_i_dsi_rest_write_data`; `read` is what the read callback returns. -/
def writeData (request : Request) (ptr : Bytes) (size nmemb : ℕ) (read : Result) : Response :=
  let dataProcessed := mul64 size nmemb
  let counted := { request with
    responseBytesDownloaded := add64 request.responseBytesDownloaded dataProcessed }
  let unexpected := .error (.unexpectedData (precise (intOfSize dataProcessed) (cstr ptr)))
  let result :=
    match request.dataReadCallback with
    | .gridftpOp => if 300 ≤ request.responseCode then unexpected else read
    | .none => unexpected
    | _ => read
  ⟨sizeReply dataProcessed result, result, counted.record result⟩

/-- `globus_i_dsi_rest_read_data`; `written` is what the write callback returns, and
`processed` what it stores in `amount_copied`. -/
def readData (request : Request) (buffer : Bytes) (size nitems : ℕ) (written : Result)
    (processed : ℕ) : Response :=
  if request.dataWriteCallback then
    let counted := { request with
      requestBytesUploaded := add64 request.requestBytesUploaded processed }
    ⟨processed, written, counted.record written⟩
  else
    let result := .error (.unexpectedData
      (precise (intOfSize (mul64 size nitems)) (cstr buffer)))
    ⟨0, result, request.record result⟩

/-- `CURLE_ABORTED_BY_CALLBACK`. -/
def abortedByCallback : ℕ := 42

/-- The progress functions; `reported` is what the progress callback returns. -/
def reportProgress (request : Request) (reported : Result) : Response :=
  if request.progressCallback then
    ⟨if reported = .success then 0 else abortedByCallback, reported, request.record reported⟩
  else ⟨0, .success, request⟩

/-- `globus_i_dsi_rest_xferinfo`. -/
def xferinfo (request : Request) (reported : Result) : Response :=
  request.reportProgress reported

/-- `globus_i_dsi_rest_progress`, the same with other argument types. -/
def progress (request : Request) (reported : Result) : Response :=
  request.reportProgress reported

end Request

/-- A call that libcurl makes while it performs a request. -/
inductive Invocation
  | header (memory : Bytes) (size nitems : ℕ) (response : Result)
  | writeData (ptr : Bytes) (size nmemb : ℕ) (read : Result)
  | readData (buffer : Bytes) (size nitems : ℕ) (written : Result) (processed : ℕ)
  | xferinfo (reported : Result)
  | progress (reported : Result)

/-- The effect of a call. -/
def Invocation.call (request : Request) : Invocation → Option Response
  | .header memory size nitems response => request.header memory size nitems response
  | .writeData ptr size nmemb read => some (request.writeData ptr size nmemb read)
  | .readData buffer size nitems written processed =>
    some (request.readData buffer size nitems written processed)
  | .xferinfo reported => some (request.xferinfo reported)
  | .progress reported => some (request.progress reported)

/-- The calls of one transfer, with the result each of them came to. -/
def Request.run : Request → List Invocation → Option (Request × List Result)
  | request, [] => some (request, [])
  | request, invocation :: later => do
    let response ← invocation.call request
    let (last, results) ← run response.request later
    some (last, response.result :: results)

/-! ### The end of a request -/

/-- `globus_l_dsi_rest_perform` after `curl_easy_perform` returned `rc`; `finalRead` is
what the read callback returns when it is told the end of the data. -/
def Request.perform (request : Request) (rc : ℕ) (finalRead : Result) : Result × Request :=
  let result :=
    if rc ≠ 0 then .error (.curl rc)
    else match request.dataReadCallback with
      | .none => .success
      | _ => finalRead
  ((request.record result).result, request.record result)

/-- `globus_l_dsi_rest_perform_thread`: what `complete_callback` is passed. -/
def Request.performThread (request : Request) (rc : ℕ) (finalRead : Result) : Result :=
  let (result, last) := request.perform rc finalRead
  if last.result ≠ .success then last.result else result

/-! ### What is recorded -/

/-- A failure that `header` returns without recording it: a status line without two items,
or the failure of the response callback at the end of the headers. -/
def Invocation.Unrecorded (request : Request) : Invocation → Prop
  | .header memory size nitems response =>
    if request.responseCode = 0 ∧ request.responseReason = [] then
      (scanStatusLine (cstr (memory.take (mul64 size nitems)))).1 = none ∨
        (scanStatusLine (cstr (memory.take (mul64 size nitems)))).2 = none
    else
      (headerParse request.headers memory (mul64 size nitems)).map Prod.fst = some .success ∧
        memory.take 2 = crlf ∧ request.responseCode ≠ 100 ∧
        request.responseCallback ≠ .none ∧ response ≠ .success
  | _ => False

namespace Request

@[simp] theorem record_result (request : Request) (result : Result) :
    (request.record result).result = request.result.latch result := rfl

/-- A failed status line is returned and not recorded. -/
theorem statusLine_spec (request : Request) (line : Bytes) (total : ℕ) :
    (request.statusLine line total).request.result = request.result ∧
      ((request.statusLine line total).result = .success ↔
        ¬((scanStatusLine line).1 = none ∨ (scanStatusLine line).2 = none)) := by
  rcases hscan : scanStatusLine line with ⟨code, reason⟩
  rw [statusLine, hscan]
  cases code <;> cases reason <;> simp

@[simp] theorem updateCounters_result (request : Request) :
    request.updateCounters.result = request.result := by
  rw [updateCounters]
  split <;> rfl

/-- Filling in the counters does not change which response callback there is. -/
theorem updateCounters_responseCallback (request : Request) :
    request.updateCounters.responseCallback = .none ↔ request.responseCallback = .none := by
  rw [updateCounters]
  split <;> simp_all

/-- Looking for the boundary records nothing and leaves the response callback alone. -/
theorem updateBoundary_spec {request request' : Request}
    (h : request.updateBoundary = some request') :
    request'.result = request.result ∧ request'.responseCallback = request.responseCallback := by
  rw [updateBoundary] at h
  split at h
  · rw [Option.bind_eq_bind, Option.bind_eq_some_iff] at h
    obtain ⟨boundary, -, h⟩ := h
    split at h
    · rw [← Option.some.inj h]
      exact ⟨rfl, rfl⟩
    · rw [← Option.some.inj h]
      exact ⟨rfl, rfl⟩
  · rw [← Option.some.inj h]
    exact ⟨rfl, rfl⟩

/-- The end of the headers: the result is the response callback's if it is called, and it
is not recorded. -/
theorem endOfHeaders_spec {request : Request} {total : ℕ} {response : Result} {r : Response}
    (h : request.endOfHeaders total response = some r) :
    r.request.result = request.result ∧
      (r.result ≠ .success ↔ request.responseCode ≠ 100 ∧ request.responseCallback ≠ .none ∧
        response ≠ .success) := by
  rw [endOfHeaders] at h
  by_cases h100 : request.responseCode = 100
  · rw [if_pos h100] at h
    obtain rfl := Option.some.inj h
    simp [h100]
  · rw [if_neg h100, Option.bind_eq_bind, Option.bind_eq_some_iff] at h
    obtain ⟨request', hboundary, h⟩ := h
    obtain ⟨hresult, hcallback⟩ := updateBoundary_spec hboundary
    rw [updateCounters_result] at hresult
    have hnone := updateCounters_responseCallback request
    rw [← hcallback] at hnone
    split at h
    case h_1 hc =>
      obtain rfl := Option.some.inj h
      simp [hresult, hnone.mp hc]
    case h_2 hc =>
      obtain rfl := Option.some.inj h
      have hc' : request.responseCallback ≠ .none := fun h0 => hc (hnone.mpr h0)
      simp [hresult, h100, hc']

/-- The two ways `header` can end: with a failure that is not recorded, or with a result
that is. -/
theorem header_spec {request : Request} {memory : Bytes} {size nitems : ℕ} {response : Result}
    {r : Response} (h : request.header memory size nitems response = some r) :
    let invocation := Invocation.header memory size nitems response
    (invocation.Unrecorded request ∧ r.request.result = request.result ∧ r.result ≠ .success) ∨
      (¬invocation.Unrecorded request ∧ r.request.result = request.result.latch r.result) := by
  rw [header] at h
  simp only [Invocation.Unrecorded]
  by_cases hfirst : request.responseCode = 0 ∧ request.responseReason = []
  · rw [if_pos hfirst] at h
    obtain rfl := Option.some.inj h
    rw [if_pos hfirst]
    obtain ⟨hresult, hsuccess⟩ :=
      request.statusLine_spec (cstr (memory.take (mul64 size nitems))) (mul64 size nitems)
    by_cases hu : (scanStatusLine (cstr (memory.take (mul64 size nitems)))).1 = none ∨
        (scanStatusLine (cstr (memory.take (mul64 size nitems)))).2 = none
    · exact .inl ⟨hu, hresult, fun h0 => hsuccess.mp h0 hu⟩
    · exact .inr ⟨hu, by rw [hresult, hsuccess.mpr hu, Result.latch_success_right]⟩
  · rw [if_neg hfirst] at h
    rw [if_neg hfirst]
    split at h
    -- the header is not parsed at all
    case h_1 hc _ | h_2 hc _ | h_3 hc _ =>
      obtain rfl := Option.some.inj h
      exact .inr ⟨fun hu => hu.2.2.2.1 hc, by rw [Result.latch_success_right]⟩
    case h_4 =>
      rw [Option.bind_eq_bind, Option.bind_eq_some_iff] at h
      obtain ⟨⟨result, headers⟩, hparse, h⟩ := h
      rw [hparse]
      rcases result with _ | e
      · by_cases hend : memory.take 2 = crlf
        · obtain ⟨hresult, hfailed⟩ := endOfHeaders_spec ((if_pos hend).symm.trans h)
          by_cases hr : r.result = .success
          · refine .inr ⟨fun hu => hfailed.mpr hu.2.2 hr, ?_⟩
            rw [hr, hresult, Result.latch_success_right]
          · exact .inl ⟨⟨rfl, hend, hfailed.mp hr⟩, hresult, hr⟩
        · obtain rfl := Option.some.inj ((if_neg hend).symm.trans h)
          exact .inr ⟨fun hu => hend hu.2.1, by rw [Result.latch_success_right]⟩
      · obtain rfl := Option.some.inj h
        exact .inr ⟨fun hu => by simpa using hu.1, rfl⟩

end Request

/-- The two ways a call can end: with a failure that is not recorded, or with a result
that is recorded unless there was a failure before. -/
theorem Invocation.call_spec {request : Request} {invocation : Invocation} {r : Response}
    (h : invocation.call request = some r) :
    (invocation.Unrecorded request ∧ r.request.result = request.result ∧ r.result ≠ .success) ∨
      (¬invocation.Unrecorded request ∧ r.request.result = request.result.latch r.result) := by
  cases invocation with
  | header memory size nitems response => exact Request.header_spec h
  | writeData ptr size nmemb read =>
      obtain rfl := Option.some.inj h
      exact .inr ⟨id, rfl⟩
  | readData buffer size nitems written processed =>
      obtain rfl := Option.some.inj h
      refine .inr ⟨id, ?_⟩
      rw [Request.readData]
      split <;> rfl
  | xferinfo reported | progress reported =>
      obtain rfl := Option.some.inj h
      refine .inr ⟨id, ?_⟩
      simp only [Request.xferinfo, Request.progress, Request.reportProgress]
      split
      · rfl
      · exact (Result.latch_success_right _).symm

end DsiRest
