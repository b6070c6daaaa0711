import DsiRest.ResponseHead

/-!
# The Bodies of Error Responses

The body of a response with a status code of 300 or more is not meant for the GridFTP
server: `writeData` compares the code the request has with 300 before it calls
`globus_dsi_rest_read_gridftp_op`. What code the request has is decided by the header
callback. Without a response callback it looks at the first line of all only, and with one
it starts over behind a 100 Continue but behind no other interim response, so that the code
may be that of an interim response.

`verdict` reads off a list of heads how their calls end; `Downloads.receive_heads` says that
they do.

## Main results

* `Request.Downloads.receive_heads` — the calls for the heads of a response.
* `Request.download_shielded_iff` — when an error body is kept from the GridFTP server.
-/

namespace DsiRest

/-! ### Bodies -/

/-- A chunk of a body, and what the data read callback returns if it is called with it. -/
structure Chunk where
  bytes : Bytes
  read : Result
  nonempty : bytes ≠ []
  fits : bytes.length < word

/-- What receiving a body leads to: the request, whether all calls were accepted, the
chunks of the body that libcurl delivered and those passed to the data read callback. -/
structure Transfer where
  request : Request
  accepted : Bool
  delivered : List Bytes
  passed : List Bytes

/-- What a whole request leads to: the result it completes with, the chunks of the body
that libcurl delivered and those passed to the data read callback. -/
structure Outcome where
  result : Result
  delivered : List Bytes
  passed : List Bytes

namespace Request

/-- `writeData` calls the data read callback. -/
def passesOn (request : Request) : Bool :=
  match request.dataReadCallback with
  | .none => false
  | .gridftpOp => decide (request.responseCode < 300)
  | _ => true

/-- A call made for a chunk. -/
def dataCall (request : Request) (chunk : Chunk) : Response :=
  request.writeData chunk.bytes 1 chunk.bytes.length chunk.read

/-- libcurl delivers chunks until a call is refused. -/
def receiveBody : Request → List Chunk → Transfer
  | request, [] => ⟨request, true, [], []⟩
  | request, chunk :: chunks =>
    let response := request.dataCall chunk
    let passed := if request.passesOn then [chunk.bytes] else []
    if response.value = chunk.bytes.length then
      let rest := receiveBody response.request chunks
      ⟨rest.request, rest.accepted, chunk.bytes :: rest.delivered, passed ++ rest.passed⟩
    else ⟨response.request, false, [chunk.bytes], passed⟩

/-- A request whose response has the given lines and body; `finalRead` is what the data
read callback returns at the end of the body. -/
def download (request : Request) (calls : List HeaderCall) (chunks : List Chunk)
    (finalRead : Result) : Option Outcome := do
  let reception ← request.receive calls
  let transfer :=
    if reception.accepted then reception.request.receiveBody chunks
    else ⟨reception.request, false, [], []⟩
  let rc := if transfer.accepted then 0 else writeError
  some ⟨transfer.request.performThread rc finalRead, transfer.delivered, transfer.passed⟩

/-- The result of `writeData` is that of the data read callback if it is called, and a
failure otherwise. -/
theorem dataCall_result (request : Request) (chunk : Chunk) :
    (request.passesOn = true → (request.dataCall chunk).result = chunk.read) ∧
      (request.passesOn = false → (request.dataCall chunk).result ≠ .success) := by
  simp only [passesOn, dataCall, writeData]
  cases request.dataReadCallback with
  | none => simp
  | gridftpOp =>
      by_cases h : 300 ≤ request.responseCode
      · simp [h]
      · simp [h, lt_of_not_ge h]
  | multipart arg => simp
  | client => simp

/-- libcurl goes on after a chunk exactly if the result was a success. -/
theorem dataCall_value (request : Request) (chunk : Chunk) :
    (request.dataCall chunk).value = chunk.bytes.length ↔
      (request.dataCall chunk).result = .success := by
  rw [dataCall, writeData, mul64_one chunk.fits]
  exact sizeReply_eq

/-- A request that received everything completes with what the data read callback returns
at the end, unless a failure was recorded before. -/
theorem performThread_zero {request : Request} (hread : request.dataReadCallback ≠ .none)
    (finalRead : Result) : request.performThread 0 finalRead = request.result.latch finalRead := by
  have hperform : request.perform 0 finalRead
      = ((request.record finalRead).result, request.record finalRead) := by
    rw [perform]
    cases hkind : request.dataReadCallback with
    | none => exact absurd hkind hread
    | gridftpOp => rfl
    | multipart arg => rfl
    | client => rfl
  rw [performThread, hperform]
  exact ite_self _

/-! ### The body of a response -/

variable {request : Request}

/-- The GridFTP server gets every chunk that libcurl delivers. -/
theorem receiveBody_passed (h : request.passesOn = true) (chunks : List Chunk) :
    (request.receiveBody chunks).passed = (request.receiveBody chunks).delivered := by
  induction chunks generalizing request with
  | nil => rfl
  | cons chunk chunks ih =>
      have hrest := @ih (request.dataCall chunk).request h
      rw [receiveBody, if_pos h]
      split
      · exact congrArg (chunk.bytes :: ·) hrest
      · rfl

/-- The GridFTP server gets nothing, and a body that is not empty makes the request fail. -/
theorem receiveBody_refused (h : request.passesOn = false) (chunks : List Chunk) :
    (request.receiveBody chunks).passed = [] ∧
      ((request.receiveBody chunks).accepted = true ↔ chunks = []) := by
  cases chunks with
  | nil => exact ⟨rfl, by simp [receiveBody]⟩
  | cons chunk chunks =>
      have hvalue : (request.dataCall chunk).value ≠ chunk.bytes.length := fun hvalue =>
        (request.dataCall_result chunk).2 h ((request.dataCall_value chunk).mp hvalue)
      rw [receiveBody, if_neg hvalue]
      simp [h]

end Request

/-! ### Heads -/

/-- How the calls for heads end: without defined behaviour, with a call that is refused, or
with a code for the response. -/
inductive Verdict
  | undefined
  | refused
  | accepted (code : ℕ)
  deriving DecidableEq

/-- The parser does not leave a line of the head, its status line included. -/
def Head.LegibleLate (h : Head) : Prop :=
  (headerParse HeaderList.empty (h.statusLine ++ h.statusAfter) h.statusLine.length).isSome ∧
    h.Legible

instance (h : Head) : Decidable h.LegibleLate := inferInstanceAs (Decidable (_ ∧ _))

/-- Heads behind one that gave the response its code: their lines are taken for headers. -/
def lateVerdict (code : ℕ) : List Head → Verdict
  | [] => .accepted code
  | head :: heads =>
    if ¬ head.LegibleLate then .undefined
    else if head.response ≠ .success then .refused
    else lateVerdict code heads

/-- Heads of a response with a response callback. -/
def verdict : List Head → Verdict
  | [] => .accepted 0
  | head :: heads =>
    if head.scannedReason = [] then .refused
    else if ¬ head.Legible then .undefined
    else if head.code = 100 then verdict heads
    else if head.response ≠ .success then .refused
    else lateVerdict head.code heads

/-- Heads of a response without a response callback. -/
def deafVerdict : List Head → Verdict
  | [] => .accepted 0
  | head :: _ => if head.scannedReason = [] then .refused else .accepted head.code

/-- The calls come to what the verdict says, and leave the GridFTP server to receive the
body of a response with the code it says. -/
def Verdict.Holds (request : Request) (calls : List HeaderCall) : Verdict → Prop
  | .undefined => request.receive calls = none
  | .refused => ∃ r, request.receive calls = some r ∧ r.accepted = false
  | .accepted code => ∃ r, request.receive calls = some r ∧ r.accepted = true ∧
      r.request.responseCode = code ∧ r.request.dataReadCallback = .gridftpOp ∧
      r.request.result = request.result

/-- A verdict on the calls that are left after some that were accepted. -/
theorem Verdict.Holds.prepend {request request' : Request} {calls calls' : List HeaderCall}
    {heard : List (Option Heard)} {v : Verdict} (h : v.Holds request' calls')
    (hreceive : request.receive calls = (request'.receive calls').map (Reception.prepend heard))
    (hresult : request'.result = request.result) : v.Holds request calls := by
  cases v with
  | undefined =>
      have hnone : request'.receive calls' = none := h
      show request.receive calls = none
      rw [hreceive, hnone]
      rfl
  | refused =>
      obtain ⟨r, hr, haccepted⟩ := h
      exact ⟨r.prepend heard, by rw [hreceive, hr]; rfl, haccepted⟩
  | accepted code =>
      obtain ⟨r, hr, haccepted, hcode, hread, hr'⟩ := h
      exact ⟨r.prepend heard, by rw [hreceive, hr]; rfl, haccepted, hcode, hread,
        hr'.trans hresult⟩

namespace Request

/-- A response callback is registered and the GridFTP server receives the body. -/
structure Downloads (request : Request) : Prop where
  responseCallback : request.responseCallback ≠ .none
  dataReadCallback : request.dataReadCallback = .gridftpOp

/-- The end of a head that is no 100 Continue. -/
theorem Downloads.receive_response {request : Request} (h : request.Downloads)
    (hstatus : ¬ request.Expecting) (h100 : request.responseCode ≠ 100) (head : Head) :
    ∃ (last : Request) (heard : List (Option Heard)), last.Downloads ∧
      last.responseCode = request.responseCode ∧ last.result = request.result ∧
      ∀ calls, request.receive (head.blankCall :: calls)
        = if head.response = .success then (last.receive calls).map (Reception.prepend heard)
          else some ⟨last, false, heard⟩ := by
  set last := ({ request with headers := request.headers.grow } : Request).updateCounters with hlast
  have hkept : last.responseCode = request.responseCode ∧ last.result = request.result ∧
      last.dataReadCallback = .gridftpOp := by
    rw [hlast, updateCounters]
    split <;> exact ⟨rfl, rfl, h.dataReadCallback⟩
  have hboundary : last.updateBoundary = some last := by
    rw [updateBoundary, hkept.2.2]
  have hcallback : last.responseCallback ≠ .none := by
    rw [hlast, Ne, updateCounters_responseCallback]
    exact h.responseCallback
  refine ⟨last, [some ⟨request.responseCode, request.responseReason, request.headers.entries⟩],
    ⟨hcallback, hkept.2.2⟩, hkept.1, hkept.2.1, fun calls => ?_⟩
  rw [Request.receive_response hstatus (Or.inl h.responseCallback) h100 h.responseCallback,
    hboundary, Option.bind_some]

/-- The header fields of a head. -/
theorem Downloads.holds_fields {request : Request} (h : request.Downloads)
    (hstatus : ¬ request.Expecting) (head : Head) {calls : List HeaderCall} {v : Verdict}
    (hv : v.Holds { request with headers := request.headers.pushFields head.fields } calls) :
    (if head.Legible then v else .undefined).Holds request
      (head.fields.map Field.call ++ calls) := by
  have hfields := receive_fields hstatus (Or.inl h.responseCallback) head.fields calls
  by_cases hlegible : head.Legible
  · rw [if_pos hlegible]
    exact hv.prepend (hfields.trans (if_pos hlegible)) rfl
  · rw [if_neg hlegible]
    exact hfields.trans (if_neg hlegible)

/-- The empty line of a head that is no 100 Continue. -/
theorem Downloads.holds_blank {request : Request} (h : request.Downloads)
    (hstatus : ¬ request.Expecting) (h100 : request.responseCode ≠ 100) (head : Head)
    {calls : List HeaderCall} {v : Verdict}
    (hv : ∀ last : Request, last.Downloads → last.responseCode = request.responseCode →
      v.Holds last calls) :
    (if head.response ≠ .success then .refused else v).Holds request
      (head.blankCall :: calls) := by
  obtain ⟨last, heard, hlast, hcode, hresult, hreceive⟩ := h.receive_response hstatus h100 head
  by_cases hok : head.response = .success
  · rw [if_neg (not_not.mpr hok)]
    exact (hv last hlast hcode).prepend (by rw [hreceive, if_pos hok]) hresult
  · rw [if_pos hok]
    exact ⟨_, by rw [hreceive, if_neg hok], rfl⟩

/-- Heads behind one that gave the response its code. -/
theorem Downloads.receive_late {code : ℕ} (h0 : code ≠ 0) (h100 : code ≠ 100) :
    ∀ (heads : List Head) {request : Request}, request.Downloads → request.responseCode = code →
    (lateVerdict code heads).Holds request (heads.flatMap Head.calls)
  | [], request, h, hcode =>
      ⟨⟨request, true, []⟩, rfl, rfl, hcode, h.dataReadCallback, rfl⟩
  | head :: heads, request, h, hcode => by
      have hstatus : ¬ request.Expecting := fun hexp => h0 (by exact_mod_cast hcode ▸ hexp.1)
      have hcall := headerCall_listening hstatus (Or.inl h.responseCallback) head.statusCall
      rw [List.flatMap_cons, Head.calls, List.cons_append, List.append_assoc, List.singleton_append,
        lateVerdict]
      have hline : head.statusCall.line = head.statusLine := rfl
      have hafter : head.statusCall.after = head.statusAfter := rfl
      rw [parseHeader, hline, hafter] at hcall
      cases hparse : headerParse request.headers (head.statusLine ++ head.statusAfter)
          head.statusLine.length with
      | none =>
          have hlate : ¬ head.LegibleLate := fun hlate => by
            have hsome := hlate.1
            rw [isSome_headerParse _ request.headers, hparse] at hsome
            exact absurd hsome (by simp)
          rw [if_pos hlate]
          exact receive_undefined (by rw [hcall, hparse]; rfl) _
      | some parsed =>
          obtain ⟨result, headers⟩ := parsed
          obtain rfl := head.headerParse_status hparse
          rw [hparse] at hcall
          simp only [Option.bind_eq_bind, Option.bind_some, if_neg head.take_two] at hcall
          refine Verdict.Holds.prepend ?_ (receive_accepted hcall _) rfl
          have hlate : head.LegibleLate ↔ head.Legible := by
            rw [Head.LegibleLate, isSome_headerParse _ request.headers, hparse]
            simp
          have hparsed : Downloads { request with headers := headers } :=
            ⟨h.responseCallback, h.dataReadCallback⟩
          have hwhole : Downloads { request with headers := headers.pushFields head.fields } :=
            ⟨h.responseCallback, h.dataReadCallback⟩
          have h100' : request.responseCode ≠ 100 := by
            rw [hcode]
            exact_mod_cast h100
          simp only [hlate]
          rw [ite_not]
          refine hparsed.holds_fields hstatus head (hwhole.holds_blank hstatus h100' head ?_)
          exact fun last hlast hsame => receive_late h0 h100 heads hlast (hsame.trans hcode)

/-- **The heads of a response** with a response callback. -/
theorem Downloads.receive_heads : ∀ (heads : List Head) {request : Request}, request.Downloads →
    request.Expecting → (verdict heads).Holds request (heads.flatMap Head.calls)
  | [], request, h, hstatus =>
      ⟨⟨request, true, []⟩, rfl, rfl, by exact_mod_cast hstatus.1, h.dataReadCallback, rfl⟩
  | head :: heads, request, h, hstatus => by
      have hcall := receive_status hstatus head
        (head.fields.map Field.call ++ head.blankCall :: heads.flatMap Head.calls)
      rw [List.flatMap_cons, Head.calls, List.cons_append, List.append_assoc, List.singleton_append,
        verdict]
      by_cases hblank : head.scannedReason = []
      · rw [if_pos hblank] at hcall ⊢
        exact ⟨_, hcall, rfl⟩
      rw [if_neg hblank] at hcall ⊢
      refine Verdict.Holds.prepend ?_ hcall rfl
      have hcode := head.codeDigits
      have hstatus' : ¬ Expecting { request with
          responseCode := head.code, responseReason := head.scannedReason } :=
        fun hexp => hblank hexp.2
      have hscanned : Downloads { request with
          responseCode := head.code, responseReason := head.scannedReason } :=
        ⟨h.responseCallback, h.dataReadCallback⟩
      rw [ite_not]
      refine hscanned.holds_fields hstatus' head ?_
      set whole : Request := { request with
        responseCode := head.code, responseReason := head.scannedReason
        headers := request.headers.pushFields head.fields } with hwhole
      have hdownloads : whole.Downloads := ⟨h.responseCallback, h.dataReadCallback⟩
      have hstatus'' : ¬ whole.Expecting := hstatus'
      have hcode' : whole.responseCode = head.code := rfl
      by_cases h100 : head.code = 100
      · rw [if_pos h100]
        have hreset : Downloads { request with
            responseCode := 0, responseReason := [], headers := HeaderList.empty } :=
          ⟨h.responseCallback, h.dataReadCallback⟩
        exact (hreset.receive_heads heads ⟨rfl, rfl⟩).prepend
          (receive_continue hstatus'' (Or.inl h.responseCallback)
            (by rw [hcode', h100]; rfl) head _) rfl
      · rw [if_neg h100]
        refine hdownloads.holds_blank hstatus'' (by rw [hcode']; exact_mod_cast h100) head
          fun last hlast hsame => ?_
        exact Downloads.receive_late (by omega) h100 heads hlast hsame

/-- The heads of a response without a response callback. -/
theorem receive_deafHeads (heads : List Head) {request : Request}
    (hcallback : request.responseCallback = .none) (hread : request.dataReadCallback = .gridftpOp)
    (hstatus : request.Expecting) :
    (deafVerdict heads).Holds request (heads.flatMap Head.calls) := by
  cases heads with
  | nil =>
      exact ⟨⟨request, true, []⟩, rfl, rfl, by exact_mod_cast hstatus.1, hread, rfl⟩
  | cons head heads =>
      have hcall := receive_status hstatus head
        (head.fields.map Field.call ++ head.blankCall :: heads.flatMap Head.calls)
      rw [List.flatMap_cons, Head.calls, List.cons_append, List.append_assoc, List.singleton_append,
        deafVerdict]
      by_cases hblank : head.scannedReason = []
      · rw [if_pos hblank] at hcall ⊢
        exact ⟨_, hcall, rfl⟩
      · rw [if_neg hblank] at hcall ⊢
        have hdeaf : ¬ Listening { request with
            responseCode := head.code, responseReason := head.scannedReason } := by
          rintro (hlisten | ⟨arg, hmultipart⟩)
          · exact hlisten hcallback
          · exact absurd (hread.symm.trans hmultipart) (by simp)
        rw [receive_deaf (fun hexp => hblank hexp.2) hdeaf] at hcall
        exact ⟨_, hcall, rfl, rfl, hread, rfl⟩

end Request

/-! ### Interim responses -/

/-- A late verdict keeps the code. -/
theorem lateVerdict_accepted {code c : ℕ} : ∀ {heads : List Head},
    lateVerdict code heads = .accepted c → c = code
  | [], h => (Verdict.accepted.inj h).symm
  | head :: heads, h => by
      rw [lateVerdict] at h
      split at h
      · exact absurd h (by simp)
      · split at h
        · exact absurd h (by simp)
        · exact lateVerdict_accepted h

/-- With a response callback, the code is that of the first head that is no 100 Continue. -/
theorem verdict_accepted {final : Head} (hfinal : final.code ≠ 100) {c : ℕ} :
    ∀ {interims : List Head}, verdict (interims ++ [final]) = .accepted c →
    ((∀ head ∈ interims, head.code = 100) ∧ c = final.code) ∨
      ∃ head ∈ interims, head.code ≠ 100 ∧ c = head.code
  | [], h => by
      rw [List.nil_append, verdict] at h
      split at h
      · exact absurd h (by simp)
      split at h
      · exact absurd h (by simp)
      split at h
      · exact absurd h (by simp)
      exact Or.inl ⟨fun head hhead => absurd hhead List.not_mem_nil, lateVerdict_accepted h⟩
  | head :: interims, h => by
      rw [List.cons_append, verdict] at h
      split at h
      · exact absurd h (by simp)
      split at h
      · exact absurd h (by simp)
      split at h
      · rename_i h100
        rcases verdict_accepted hfinal h with ⟨hall, hc⟩ | ⟨other, hother, hne, hc⟩
        · exact Or.inl ⟨List.forall_mem_cons.mpr ⟨h100, hall⟩, hc⟩
        · exact Or.inr ⟨other, List.mem_cons_of_mem _ hother, hne, hc⟩
      · rename_i h100
        split at h
        · exact absurd h (by simp)
        exact Or.inr ⟨head, List.mem_cons_self, h100, lateVerdict_accepted h⟩

namespace Request

/-- How the calls for the heads of a response to the request end. -/
def headsVerdict (request : Request) (heads : List Head) : Verdict :=
  match request.responseCallback with
  | .none => deafVerdict heads
  | _ => verdict heads

/-- The header callback finds the code of the final response. -/
abbrev Tracks (request : Request) (interims : List Head) : Prop :=
  interims = [] ∨ request.responseCallback ≠ .none ∧ ∀ head ∈ interims, head.code = 100

/-- The code that the request has behind the heads is that of the final response or that
of an interim response. -/
theorem headsVerdict_accepted {request : Request} {interims : List Head} {final : Head}
    (hinterims : ∀ head ∈ interims, head.code < 200) (hfinal : 200 ≤ final.code) {c : ℕ}
    (h : request.headsVerdict (interims ++ [final]) = .accepted c) :
    (request.Tracks interims ∧ c = final.code) ∨ (¬ request.Tracks interims ∧ c < 200) := by
  rw [headsVerdict] at h
  split at h
  · -- without a response callback it is the code of the first head
    rename_i hcallback
    cases interims with
    | nil =>
        rw [List.nil_append, deafVerdict] at h
        split at h
        · exact absurd h (by simp)
        · exact Or.inl ⟨Or.inl rfl, (Verdict.accepted.inj h).symm⟩
    | cons head interims =>
        rw [List.cons_append, deafVerdict] at h
        split at h
        · exact absurd h (by simp)
        · refine Or.inr ⟨by simp [Tracks, hcallback], ?_⟩
          rw [← Verdict.accepted.inj h]
          exact hinterims head List.mem_cons_self
  · rename_i hcallback
    rcases verdict_accepted (by omega) h with ⟨hall, hc⟩ | ⟨head, hhead, hne, hc⟩
    · exact Or.inl ⟨Or.inr ⟨hcallback, hall⟩, hc⟩
    · refine Or.inr ⟨?_, hc ▸ hinterims head hhead⟩
      rintro (rfl | ⟨-, hall⟩)
      · exact absurd hhead List.not_mem_nil
      · exact hne (hall head hhead)

/-- The calls for the heads come to what the verdict says. -/
theorem holds_headsVerdict {request : Request} (hread : request.dataReadCallback = .gridftpOp)
    (hstatus : request.Expecting) (heads : List Head) :
    (request.headsVerdict heads).Holds request (heads.flatMap Head.calls) := by
  rw [headsVerdict]
  split
  · exact receive_deafHeads heads ‹_› hread hstatus
  · exact Downloads.receive_heads heads ⟨‹_›, hread⟩ hstatus

/-- The body of an error response is not passed on, and makes the request fail; any other
body is passed on. -/
def Shields (request : Request) (calls : List HeaderCall) (code : ℕ) (chunks : List Chunk)
    (finalRead : Result) : Prop :=
  ∃ outcome, request.download calls chunks finalRead = some outcome ∧
    (300 ≤ code → outcome.passed = [] ∧ outcome.result ≠ .success) ∧
    (code < 300 → outcome.passed = outcome.delivered)

/-- A body is delivered behind header lines that were all accepted. -/
theorem download_accepted {request : Request} {calls : List HeaderCall} {r : Reception}
    (hreceive : request.receive calls = some r) (haccepted : r.accepted = true)
    (chunks : List Chunk) (finalRead : Result) :
    request.download calls chunks finalRead
      = some ⟨(r.request.receiveBody chunks).request.performThread
          (if (r.request.receiveBody chunks).accepted then 0 else writeError) finalRead,
          (r.request.receiveBody chunks).delivered, (r.request.receiveBody chunks).passed⟩ := by
  rw [download, hreceive]
  simp [haccepted]

/-- Nothing is delivered behind a header line that is refused. -/
theorem download_refused {request : Request} {calls : List HeaderCall} {r : Reception}
    (hreceive : request.receive calls = some r) (hrefused : r.accepted = false)
    (chunks : List Chunk) (finalRead : Result) :
    request.download calls chunks finalRead
      = some ⟨r.request.performThread writeError finalRead, [], []⟩ := by
  rw [download, hreceive]
  simp [hrefused]

/-- A body that is not empty is delivered in part at least. -/
theorem delivered_ne_nil (request : Request) {chunks : List Chunk} (h : chunks ≠ []) :
    (request.receiveBody chunks).delivered ≠ [] := by
  cases chunks with
  | nil => exact absurd rfl h
  | cons chunk chunks =>
      rw [receiveBody]
      split <;> exact List.cons_ne_nil _ _

/-- What becomes of a body behind header lines that were all accepted, where the request has
the code of the final response or that of an interim response. -/
theorem shields_accepted {request : Request} {calls : List HeaderCall} {r : Reception}
    (hreceive : request.receive calls = some r) (haccepted : r.accepted = true)
    (hread : r.request.dataReadCallback = .gridftpOp) (hresult : r.request.result = .success)
    {c code : ℕ} (hcode : r.request.responseCode = c) {tracks : Prop}
    (htracks : (tracks ∧ c = code) ∨ (¬ tracks ∧ c < 200)) (hfinal : 200 ≤ code)
    (chunks : List Chunk) (finalRead : Result) :
    request.Shields calls code chunks finalRead ↔
      code < 300 ∨ (chunks = [] ∧ finalRead ≠ .success) ∨ (chunks ≠ [] ∧ tracks) := by
  have hpasses : r.request.passesOn = decide (c < 300) := by
    rw [passesOn, hread, hcode]
    exact decide_eq_decide.mpr (by omega)
  simp only [Shields, download_accepted hreceive haccepted, Option.some.injEq, exists_eq_left']
  by_cases hlow : code < 300
  · have hc : c < 300 := by
      rcases htracks with ⟨-, hc⟩ | ⟨-, hc⟩ <;> omega
    have hpassed := receiveBody_passed (hpasses.trans (decide_eq_true hc)) chunks
    simp [hlow, hpassed, not_le.mpr hlow]
  rcases Classical.em (chunks = []) with hchunks | hchunks
  · have hlast : r.request.performThread 0 finalRead = finalRead := by
      rw [performThread_zero (by rw [hread]; simp), hresult]
      rfl
    simp [hlow, hchunks, receiveBody, hlast, le_of_not_gt hlow]
  rcases htracks with ⟨htracks, hc⟩ | ⟨htracks, hc⟩
  · -- no chunk is passed on
    have hkept : r.request.passesOn = false := hpasses.trans (decide_eq_false (by omega))
    obtain ⟨hpassed, hdone⟩ := receiveBody_refused hkept chunks
    have haborted : (r.request.receiveBody chunks).accepted = false :=
      Bool.eq_false_iff.mpr fun h => hchunks (hdone.mp h)
    simp [hlow, hchunks, hpassed, haborted, htracks, performThread_writeError]
  · -- every chunk is passed on
    have hpassed := receiveBody_passed (hpasses.trans (decide_eq_true (by omega))) chunks
    have hdelivered := delivered_ne_nil r.request hchunks
    simp [hlow, hchunks, hpassed, hdelivered, htracks, le_of_not_gt hlow]

/-- **When an error body is kept from the GridFTP server.** Let a request whose body the
GridFTP server receives get any number of complete interim responses, a final response and
a body. The body is handled as the code of the final response demands if and only if no
header line makes the parser leave it, and the code is below 300, or a call for a header
line is refused, or, if there is no body, the data read callback fails at its end, or, if
there is one, there is no interim response, or a response callback is registered and every
interim response is a 100 Continue. -/
theorem download_shielded_iff {request : Request} (hstatus : request.Expecting)
    (hresult : request.result = .success) (hread : request.dataReadCallback = .gridftpOp)
    {interims : List Head} (hinterims : ∀ head ∈ interims, head.code < 200) {final : Head}
    (hfinal : 200 ≤ final.code) (chunks : List Chunk) (finalRead : Result) :
    request.Shields ((interims ++ [final]).flatMap Head.calls) final.code chunks finalRead ↔
      request.headsVerdict (interims ++ [final]) ≠ .undefined ∧
      (final.code < 300 ∨ request.headsVerdict (interims ++ [final]) = .refused ∨
        (chunks = [] ∧ finalRead ≠ .success) ∨
        (chunks ≠ [] ∧ (interims = [] ∨
          request.responseCallback ≠ .none ∧ ∀ head ∈ interims, head.code = 100))) := by
  have hholds := holds_headsVerdict hread hstatus (interims ++ [final])
  set calls := (interims ++ [final]).flatMap Head.calls
  cases hv : request.headsVerdict (interims ++ [final]) with
  | undefined =>
      rw [hv] at hholds
      have hnone : request.receive calls = none := hholds
      simp [Shields, download, hnone]
  | refused =>
      rw [hv] at hholds
      obtain ⟨r, hr, hrefused⟩ := hholds
      simp [Shields, download_refused hr hrefused, performThread_writeError]
  | accepted c =>
      rw [hv] at hholds
      obtain ⟨r, hr, haccepted, hcode, hread', hresult'⟩ := hholds
      have htracks := headsVerdict_accepted hinterims hfinal hv
      rw [shields_accepted hr haccepted hread' (hresult'.trans hresult) hcode htracks hfinal]
      simp

/-- An interim response. -/
def earlyHints : Head :=
  ⟨bytes "1.1", 103, bytes "Early Hints", [], [], [], .success, version_ne_nil, version_isSpace,
    nul_notMem_version, by decide, by decide, by decide, by decide⟩

/-- An error response. -/
def notFound : Head :=
  ⟨bytes "1.1", 404, bytes "Not Found", [], [], [], .success, version_ne_nil, version_isSpace,
    nul_notMem_version, by decide, by decide, by decide, by decide⟩

/-- A request of a GridFTP server before its response. -/
def retrieval (responseCallback : ResponseCallback) : Request :=
  ⟨.success, 0, [], 0, 0, false, .gridftpOp, HeaderList.empty, responseCallback, false⟩

/-- A chunk of an error page. -/
def page : Chunk :=
  ⟨bytes "<html>", .success, by decide, by decide⟩

/-- The case of an error page behind a 100 Continue, for a request with a response callback, and
the one of an error page behind a 103 Early Hints. -/
theorem download_shielded_iff_notFound :
    (retrieval .client).Shields (([Head.goOn] ++ [notFound]).flatMap Head.calls) 404 [page]
        .success ∧
      ¬ (retrieval .client).Shields (([earlyHints] ++ [notFound]).flatMap Head.calls) 404 [page]
        .success := by
  have hiff := fun interims hinterims => @download_shielded_iff (retrieval .client) ⟨rfl, rfl⟩ rfl
    rfl interims hinterims notFound (by decide) [page] .success
  constructor
  · exact (hiff [Head.goOn] (by decide)).mpr ⟨by decide +kernel, .inr (.inr (.inr
      ⟨List.cons_ne_nil _ _, .inr ⟨by simp [retrieval], by decide⟩⟩))⟩
  · intro hshields
    rcases ((hiff [earlyHints] (by decide)).mp hshields).2 with hcode | hrefused | ⟨hnone, -⟩ |
      ⟨-, hnone | ⟨-, hcodes⟩⟩
    · exact absurd hcode (by decide)
    · exact absurd hrefused (by decide +kernel)
    · exact absurd hnone (List.cons_ne_nil _ _)
    · exact absurd hnone (List.cons_ne_nil _ _)
    · exact absurd (hcodes earlyHints (List.mem_singleton_self _)) (by decide)

/-- The error page behind a 103 Early Hints is passed on, and the request succeeds. -/
theorem download_earlyHints :
    ¬ ∀ (request : Request), request.Expecting → request.result = .success →
      request.dataReadCallback = .gridftpOp →
      ∀ interims : List Head, (∀ head ∈ interims, head.code < 200) →
      ∀ final : Head, 200 ≤ final.code → ∀ (chunks : List Chunk) (finalRead : Result),
        request.Shields ((interims ++ [final]).flatMap Head.calls) final.code chunks finalRead := by
  intro h
  obtain ⟨outcome, hdownload, hshielded, -⟩ := h (retrieval .client) ⟨rfl, rfl⟩ rfl rfl [earlyHints]
    (by decide) notFound (by decide) [page] .success
  have hrun : ((retrieval .client).download (([earlyHints] ++ [notFound]).flatMap Head.calls)
      [page] .success).map Outcome.passed = some [bytes "<html>"] := by
    decide +kernel
  rw [hdownload] at hrun
  have hpassed : outcome.passed = [bytes "<html>"] := Option.some.inj hrun
  exact absurd ((hshielded (by decide)).1.symm.trans hpassed) (by decide)

end Request

end DsiRest
