import DsiRest.ErrorBody
import DsiRest.FirstError
import DsiRest.Lib.Simulation
import DsiRest.Lifecycle
import DsiRest.WriteMultipart

/-!
# The Bodies of a Request

While libcurl performs a request it asks for the body of the request, piece by piece, and
delivers the body of the response. The functions it calls hand both on to the data callbacks of the
request, each of which keeps a state of its own: a buffer that grows, a list of blocks, or buffers
that the GridFTP server fills and empties meanwhile. A `DataReader` and a `DataWriter` are such
callbacks, with whatever else happens to their state; an `Exchange` is a request together with the
state of both.

The callbacks see nothing of the request but that they are called, and the request nothing of them
but their results. Since every failure is recorded, a request that completes without one has had
its read callback called with all of the response, from the first byte to the end of the data, and
every call of either callback succeeded.

## Main results

* `Client.Follows.step` — what the callbacks see of a step, and what the request counts.
* `exchange_complete` — what they have seen when a request completes without a failure.
-/

namespace DsiRest

/-! ### Data callbacks -/

/-- A data read callback with the state behind its argument: a call with a piece of the response,
and what happens to the state between calls. What else decides the outcome is the choice. -/
structure DataReader (ρ α : Type) where
  read : ρ → α → Bytes → Option (Result × ρ)
  tick : ρ → α → Option ρ

/-- A data write callback: a call with a buffer of a given length, and what happens between. -/
structure DataWriter (ω β : Type) where
  write : ω → β → ℕ → Option (WriteOutcome × ω)
  tick : ω → β → Option ω

/-- What a read callback is told: a piece of the response, or the end of it as an empty one; or
something of its own happens. -/
inductive ReaderEvent (α : Type)
  | data (choice : α) (chunk : Bytes)
  | tick (choice : α)

/-- What a write callback is asked for, with what it yields; or something of its own happens. -/
inductive WriterEvent (β : Type)
  | data (choice : β) (n : ℕ) (out : Bytes)
  | tick (choice : β)

/-- The data that is received. -/
def ReaderEvent.chunk {α : Type} : ReaderEvent α → Bytes
  | .data _ chunk => chunk
  | .tick _ => []

/-- The data that is sent. -/
def WriterEvent.out {β : Type} : WriterEvent β → Bytes
  | .data _ _ out => out
  | .tick _ => []

/-- A read callback accepts calls that succeed. -/
def DataReader.accept {ρ α : Type} (reader : DataReader ρ α) (state : ρ) : ReaderEvent α → Option ρ
  | .data choice chunk =>
    match reader.read state choice chunk with
    | some (.success, state) => some state
    | _ => none
  | .tick choice => reader.tick state choice

/-- A write callback accepts calls that succeed, with the data that they yield. -/
def DataWriter.accept {ω β : Type} (writer : DataWriter ω β) (state : ω) : WriterEvent β → Option ω
  | .data choice n out =>
    match writer.write state choice n with
    | some (⟨.success, data⟩, state) => if data = out then some state else none
    | _ => none
  | .tick choice => writer.tick state choice

/-! ### Exchanges -/

/-- The data callbacks of a request. -/
structure Client (ρ ω α β : Type) where
  reader : DataReader ρ α
  writer : DataWriter ω β

/-- A request and the states of its data callbacks. -/
structure Exchange (ρ ω : Type) where
  request : Request
  reader : ρ
  writer : ω

/-- What happens next: libcurl delivers data or asks for it, it makes another call, or something
happens to a data callback. -/
inductive ExchangeAction (α β : Type)
  | writeData (choice : α) (ptr : Bytes) (size nmemb : ℕ)
  | readData (choice : β) (buffer : Bytes) (size nitems : ℕ)
  | invoke (invocation : Invocation)
  | tickReader (choice : α)
  | tickWriter (choice : β)

/-- What the read callback sees of a step, if all that libcurl delivers reaches it. -/
def ExchangeAction.heard {α β : Type} : ExchangeAction α β → List (ReaderEvent α)
  | .writeData choice ptr size nmemb => [.data choice (ptr.take (mul64 size nmemb))]
  | .tickReader choice => [.tick choice]
  | _ => []

/-- A call made for data. -/
def Invocation.carriesData : Invocation → Bool
  | .writeData .. | .readData .. => true
  | _ => false

namespace Client

variable {ρ ω α β : Type}

/-- The next state. The multipart reader keeps its state in the request and is not meant here; and
a write callback does not write past its buffer. -/
def step (client : Client ρ ω α β) (x : Exchange ρ ω) : ExchangeAction α β → Option (Exchange ρ ω)
  | .writeData choice ptr size nmemb =>
    if ptr.length < mul64 size nmemb then none
    else if x.request.passesOn then do
      let (result, reader) ← client.reader.read x.reader choice (ptr.take (mul64 size nmemb))
      some { x with
        request := (x.request.writeData ptr size nmemb result).request, reader := reader }
    else some { x with request := (x.request.writeData ptr size nmemb .success).request }
  | .readData choice buffer size nitems =>
    if x.request.dataWriteCallback then do
      let (outcome, writer) ← client.writer.write x.writer choice (mul64 size nitems)
      if mul64 size nitems < outcome.data.length then none
      else some { x with
        request :=
          (x.request.readData buffer size nitems outcome.result outcome.data.length).request
        writer := writer }
    else some { x with request := (x.request.readData buffer size nitems .success 0).request }
  | .invoke invocation =>
    if invocation.carriesData then none
    else (invocation.call x.request).map fun response => { x with request := response.request }
  | .tickReader choice =>
    (client.reader.tick x.reader choice).map fun reader => { x with reader := reader }
  | .tickWriter choice =>
    (client.writer.tick x.writer choice).map fun writer => { x with writer := writer }

/-- What the write callback sees of a step. -/
def asks (client : Client ρ ω α β) (x : Exchange ρ ω) : ExchangeAction α β → List (WriterEvent β)
  | .readData choice _ size nitems =>
    let outcome := client.writer.write x.writer choice (mul64 size nitems)
    [.data choice (mul64 size nitems) (outcome.elim [] fun reply => reply.1.data)]
  | .tickWriter choice => [.tick choice]
  | _ => []

/-- What the write callback sees of a transfer. -/
def asked (client : Client ρ ω α β) (x : Exchange ρ ω) (actions : List (ExchangeAction α β)) :
    List (WriterEvent β) :=
  Guarded.translate client.step client.asks x actions

/-- `globus_l_dsi_rest_perform_thread` after the transfer, up to the call of `complete_callback`:
the read callback is told the end of the data if `curl_easy_perform` returned zero. -/
def finish (client : Client ρ ω α β) (x : Exchange ρ ω) (rc : ℕ) (choice : α) :
    Option (Result × Exchange ρ ω) :=
  if rc = 0 ∧ Execution.readsEnd x.request = true then do
    let (finalRead, reader) ← client.reader.read x.reader choice []
    some (x.request.performThread rc finalRead,
      { x with request := (x.request.perform rc finalRead).2, reader := reader })
  else
    some (x.request.performThread rc .success,
      { x with request := (x.request.perform rc .success).2 })

/-- A whole transfer: the result that `complete_callback` is called with, and what is left. -/
def perform (client : Client ρ ω α β) (x : Exchange ρ ω) (actions : List (ExchangeAction α β))
    (rc : ℕ) (choice : α) : Option (Result × Exchange ρ ω) :=
  (Guarded.run client.step x actions).bind fun last => client.finish last rc choice

end Client

/-! ### What a call leaves alone -/

/-- The read callback is not that of a multipart response. -/
def Request.SinglePart (request : Request) : Prop :=
  ∀ arg, request.dataReadCallback ≠ .multipart arg

/-- Two requests with the same counters and the same data callbacks. -/
structure Request.SameData (request request' : Request) : Prop where
  uploaded : request'.requestBytesUploaded = request.requestBytesUploaded
  downloaded : request'.responseBytesDownloaded = request.responseBytesDownloaded
  dataWriteCallback : request'.dataWriteCallback = request.dataWriteCallback
  dataReadCallback : request'.dataReadCallback = request.dataReadCallback

namespace Request

/-- The counters that are copied are not changed. -/
theorem updateCounters_sameData (request : Request) : request.SameData request.updateCounters := by
  rw [updateCounters]
  split <;> exact ⟨rfl, rfl, rfl, rfl⟩

/-- The end of the headers. -/
theorem endOfHeaders_sameData {request : Request} {total : ℕ} {response : Result} {r : Response}
    (hkind : request.SinglePart) (h : request.endOfHeaders total response = some r) :
    request.SameData r.request := by
  rw [endOfHeaders] at h
  by_cases h100 : request.responseCode = 100
  · rw [if_pos h100] at h
    rw [← Option.some.inj h]
    exact ⟨rfl, rfl, rfl, rfl⟩
  · obtain ⟨hup, hdown, hwrite, hread⟩ := request.updateCounters_sameData
    have hboundary : request.updateCounters.updateBoundary = some request.updateCounters := by
      rw [updateBoundary]
      split
      · rename_i arg harg
        exact absurd (hread.symm.trans harg) (hkind arg)
      · rfl
    rw [if_neg h100, hboundary] at h
    simp only [Option.bind_eq_bind, Option.bind_some] at h
    split at h <;> rw [← Option.some.inj h] <;> exact ⟨hup, hdown, hwrite, hread⟩

/-- A header line. -/
theorem header_sameData {request : Request} {memory : Bytes} {size nitems : ℕ}
    {response : Result} {r : Response} (hkind : request.SinglePart)
    (h : request.header memory size nitems response = some r) : request.SameData r.request := by
  rw [header] at h
  by_cases hfirst : request.Expecting
  · rw [if_pos hfirst] at h
    rw [← Option.some.inj h]
    exact ⟨rfl, rfl, rfl, rfl⟩
  · rw [if_neg hfirst] at h
    split at h
    case h_1 | h_2 | h_3 =>
      rw [← Option.some.inj h]
      exact ⟨rfl, rfl, rfl, rfl⟩
    case h_4 =>
      rw [Option.bind_eq_bind, Option.bind_eq_some_iff] at h
      obtain ⟨⟨result, headers⟩, -, h⟩ := h
      rcases result with _ | e
      · by_cases hend : memory.take 2 = crlf
        · have hparsed : SinglePart { request with headers := headers } := hkind
          obtain ⟨hup, hdown, hwrite, hread⟩ :=
            endOfHeaders_sameData hparsed ((if_pos hend).symm.trans h)
          exact ⟨hup, hdown, hwrite, hread⟩
        · rw [← Option.some.inj ((if_neg hend).symm.trans h)]
          exact ⟨rfl, rfl, rfl, rfl⟩
      · rw [← Option.some.inj h]
        exact ⟨rfl, rfl, rfl, rfl⟩

end Request

/-- A call for something other than data. -/
theorem Invocation.call_sameData {request : Request} {invocation : Invocation} {r : Response}
    (hkind : request.SinglePart) (hdata : invocation.carriesData = false)
    (h : invocation.call request = some r) : request.SameData r.request := by
  cases invocation with
  | header memory size nitems response => exact Request.header_sameData hkind h
  | writeData ptr size nmemb read => exact absurd hdata (by simp [carriesData])
  | readData buffer size nitems written processed => exact absurd hdata (by simp [carriesData])
  | xferinfo reported | progress reported =>
      obtain rfl := Option.some.inj h
      simp only [Request.xferinfo, Request.progress, Request.reportProgress]
      split <;> exact ⟨rfl, rfl, rfl, rfl⟩

/-- A failure stays recorded. -/
theorem Invocation.call_result {request : Request} {invocation : Invocation} {r : Response}
    (h : invocation.call request = some r) (hlast : r.request.result = .success) :
    request.result = .success := by
  rcases Invocation.call_spec h with ⟨-, hresult, -⟩ | ⟨-, hresult⟩
  · rw [← hresult]
    exact hlast
  · rw [hresult] at hlast
    exact (Result.latch_eq_success.mp hlast).1

/-! ### What the callbacks see -/

namespace Client

variable {ρ ω α β : Type} {client : Client ρ ω α β}

/-- What the callbacks see leads from one state to the other: they accept it, and the request counts
the data. -/
structure Follows (client : Client ρ ω α β) (x x' : Exchange ρ ω) (heard : List (ReaderEvent α))
    (asked : List (WriterEvent β)) : Prop where
  reader : Guarded.run client.reader.accept x.reader heard = some x'.reader
  writer : Guarded.run client.writer.accept x.writer asked = some x'.writer
  downloaded : x'.request.responseBytesDownloaded
    ≡ x.request.responseBytesDownloaded + (heard.flatMap ReaderEvent.chunk).length [MOD word]
  uploaded : x'.request.requestBytesUploaded
    ≡ x.request.requestBytesUploaded + (asked.flatMap WriterEvent.out).length [MOD word]
  dataWriteCallback : x'.request.dataWriteCallback = x.request.dataWriteCallback
  dataReadCallback : x'.request.dataReadCallback = x.request.dataReadCallback

namespace Follows

variable {x y z : Exchange ρ ω} {heard later : List (ReaderEvent α)}
  {asked more : List (WriterEvent β)}

/-- Nothing happens. -/
theorem refl (x : Exchange ρ ω) : client.Follows x x [] [] :=
  ⟨rfl, rfl, rfl, rfl, rfl, rfl⟩

/-- One thing after the other. -/
theorem trans (h : client.Follows x y heard asked) (h' : client.Follows y z later more) :
    client.Follows x z (heard ++ later) (asked ++ more) where
  reader := (Guarded.run_append h.reader).trans h'.reader
  writer := (Guarded.run_append h.writer).trans h'.writer
  downloaded := by
    rw [List.flatMap_append, List.length_append, ← Nat.add_assoc]
    exact h'.downloaded.trans (h.downloaded.add_right _)
  uploaded := by
    rw [List.flatMap_append, List.length_append, ← Nat.add_assoc]
    exact h'.uploaded.trans (h.uploaded.add_right _)
  dataWriteCallback := h'.dataWriteCallback.trans h.dataWriteCallback
  dataReadCallback := h'.dataReadCallback.trans h.dataReadCallback

/-- A call that leaves the data alone goes unnoticed. -/
theorem of_sameData {request : Request} (h : x.request.SameData request) :
    client.Follows x { x with request := request } [] [] where
  reader := rfl
  writer := rfl
  downloaded := by rw [h.downloaded]; rfl
  uploaded := by rw [h.uploaded]; rfl
  dataWriteCallback := h.dataWriteCallback
  dataReadCallback := h.dataReadCallback

end Follows

/-- Data that does not reach the read callback makes the request fail. -/
theorem writeData_refused {request : Request} (h : request.passesOn = false) (ptr : Bytes)
    (size nmemb : ℕ) (read : Result) :
    (request.writeData ptr size nmemb read).request.result ≠ .success := by
  intro hresult
  rw [Request.writeData, Request.record_result, Result.latch_eq_success] at hresult
  have hlocal := hresult.2
  rw [Request.passesOn] at h
  split at h
  · rename_i hkind
    rw [hkind] at hlocal
    exact absurd hlocal (by simp)
  · rename_i hkind
    rw [hkind] at hlocal
    simp only at hlocal
    rw [if_pos (not_lt.mp (of_decide_eq_false h))] at hlocal
    exact absurd hlocal (by simp)
  · cases h

/-- Data that reaches the read callback has its result. -/
theorem writeData_passed {request : Request} (h : request.passesOn = true) (ptr : Bytes)
    (size nmemb : ℕ) (read : Result) :
    (request.writeData ptr size nmemb read).request.result = request.result.latch read := by
  rw [Request.writeData, Request.record_result]
  rw [Request.passesOn] at h
  split at h
  · cases h
  · rename_i hkind
    simp only [hkind]
    rw [if_neg (not_le.mpr (of_decide_eq_true h))]
  · rename_i hnone hgridftp
    split
    · rename_i hkind
      exact absurd hkind hgridftp
    · rename_i hkind
      exact absurd hkind hnone
    · rfl

/-- A failure stays recorded in a step. -/
theorem step_result {x x' : Exchange ρ ω} {action : ExchangeAction α β}
    (h : client.step x action = some x') (hlast : x'.request.result = .success) :
    x.request.result = .success := by
  cases action with
  | writeData choice ptr size nmemb =>
      rw [step] at h
      split_ifs at h with hlong hpass
      · rw [Option.bind_eq_bind, Option.bind_eq_some_iff] at h
        obtain ⟨⟨result, state⟩, -, h⟩ := h
        obtain rfl := Option.some.inj h
        exact (Result.latch_eq_success.mp hlast).1
      · obtain rfl := Option.some.inj h
        exact (Result.latch_eq_success.mp hlast).1
  | readData choice buffer size nitems =>
      rw [step] at h
      split_ifs at h with hwrite
      · rw [Option.bind_eq_bind, Option.bind_eq_some_iff] at h
        obtain ⟨⟨outcome, state⟩, -, h⟩ := h
        simp only at h
        split_ifs at h
        obtain rfl := Option.some.inj h
        simp only [Request.readData, if_pos hwrite, Request.record_result] at hlast
        exact (Result.latch_eq_success.mp hlast).1
      · obtain rfl := Option.some.inj h
        simp only [Request.readData, if_neg hwrite, Request.record_result] at hlast
        exact (Result.latch_eq_success.mp hlast).1
  | invoke invocation =>
      rw [step] at h
      split_ifs at h
      obtain ⟨response, hcall, rfl⟩ := Option.map_eq_some_iff.mp h
      exact Invocation.call_result hcall hlast
  | tickReader choice | tickWriter choice =>
      rw [step] at h
      obtain ⟨state, -, rfl⟩ := Option.map_eq_some_iff.mp h
      exact hlast

/-- **One step** after which no failure is recorded. -/
theorem Follows.step {x x' : Exchange ρ ω} {action : ExchangeAction α β}
    (hkind : x.request.SinglePart) (h : client.step x action = some x')
    (hlast : x'.request.result = .success) :
    client.Follows x x' action.heard (client.asks x action) := by
  cases action with
  | writeData choice ptr size nmemb =>
      rw [Client.step] at h
      split_ifs at h with hlong hpass
      · rw [Option.bind_eq_bind, Option.bind_eq_some_iff] at h
        obtain ⟨⟨result, state⟩, hread, h⟩ := h
        obtain rfl := Option.some.inj h
        rw [writeData_passed hpass, Result.latch_eq_success] at hlast
        obtain rfl : result = .success := hlast.2
        have hlength : (ptr.take (mul64 size nmemb)).length = mul64 size nmemb := by
          rw [List.length_take, Nat.min_eq_left (not_lt.mp hlong)]
        refine ⟨Guarded.run_singleton (by rw [DataReader.accept, hread]), rfl, ?_, rfl, rfl, rfl⟩
        rw [ExchangeAction.heard, List.flatMap_singleton, ReaderEvent.chunk, hlength]
        exact Nat.mod_modEq _ _
      · obtain rfl := Option.some.inj h
        exact absurd hlast (writeData_refused (Bool.eq_false_of_not_eq_true hpass) _ _ _ _)
  | readData choice buffer size nitems =>
      rw [Client.step] at h
      split_ifs at h with hwrite
      · rw [Option.bind_eq_bind, Option.bind_eq_some_iff] at h
        obtain ⟨⟨⟨result, data⟩, state⟩, hcall, h⟩ := h
        simp only at h
        split_ifs at h
        obtain rfl := Option.some.inj h
        simp only [Request.readData, if_pos hwrite, Request.record_result] at hlast
        obtain rfl : result = .success := (Result.latch_eq_success.mp hlast).2
        simp only [asks, hcall, Option.elim_some, Request.readData, if_pos hwrite]
        refine ⟨rfl, Guarded.run_singleton ?_, rfl, ?_, rfl, rfl⟩
        · simp only [DataWriter.accept, hcall, if_true]
        · rw [List.flatMap_singleton]
          exact Nat.mod_modEq _ _
      · obtain rfl := Option.some.inj h
        simp only [Request.readData, if_neg hwrite, Request.record_result] at hlast
        exact absurd (Result.latch_eq_success.mp hlast).2 (by simp)
  | invoke invocation =>
      rw [Client.step] at h
      split_ifs at h with hdata
      obtain ⟨response, hcall, rfl⟩ := Option.map_eq_some_iff.mp h
      exact .of_sameData (Invocation.call_sameData hkind (Bool.eq_false_of_not_eq_true hdata) hcall)
  | tickReader choice =>
      rw [Client.step] at h
      obtain ⟨reader, htick, rfl⟩ := Option.map_eq_some_iff.mp h
      exact ⟨Guarded.run_singleton htick, rfl, rfl, rfl, rfl, rfl⟩
  | tickWriter choice =>
      rw [Client.step] at h
      obtain ⟨writer, htick, rfl⟩ := Option.map_eq_some_iff.mp h
      exact ⟨rfl, Guarded.run_singleton htick, rfl, rfl, rfl, rfl⟩

/-- A failure stays recorded in a run. -/
theorem run_result {actions : List (ExchangeAction α β)} : ∀ {x last : Exchange ρ ω},
    Guarded.run client.step x actions = some last → last.request.result = .success →
    x.request.result = .success := by
  induction actions with
  | nil =>
      intro x last h hlast
      obtain rfl := Option.some.inj h
      exact hlast
  | cons action actions ih =>
      intro x last h hlast
      obtain ⟨y, hstep, hrun⟩ := Guarded.run_cons.mp h
      exact step_result hstep (ih hrun hlast)

/-- **A run** after which no failure is recorded. -/
theorem Follows.run {actions : List (ExchangeAction α β)} : ∀ {x last : Exchange ρ ω},
    x.request.SinglePart → Guarded.run client.step x actions = some last →
    last.request.result = .success →
    client.Follows x last (actions.flatMap ExchangeAction.heard) (client.asked x actions) := by
  induction actions with
  | nil =>
      intro x last _ h _
      obtain rfl := Option.some.inj h
      exact .refl x
  | cons action actions ih =>
      intro x last hkind h hlast
      obtain ⟨y, hstep, hrun⟩ := Guarded.run_cons.mp h
      have hfirst := Follows.step hkind hstep (run_result hrun hlast)
      have hkind' : y.request.SinglePart := by
        intro arg
        rw [hfirst.dataReadCallback]
        exact hkind arg
      rw [asked, Guarded.translate_cons hstep, List.flatMap_cons]
      exact hfirst.trans (ih hkind' hrun hlast)

/-- The end of a transfer that comes to a success. -/
theorem finish_success {x last : Exchange ρ ω} {rc : ℕ} {choice : α}
    (h : client.finish x rc choice = some (.success, last)) :
    rc = 0 ∧ x.request.result = .success ∧ last.request = x.request ∧ last.writer = x.writer ∧
      Guarded.run client.reader.accept x.reader
        (if Execution.readsEnd x.request then [.data choice []] else []) = some last.reader := by
  have hperform : ∀ finalRead, x.request.performThread rc finalRead = .success →
      rc = 0 ∧ x.request.result = .success ∧ (x.request.perform rc finalRead).2 = x.request ∧
        (Execution.readsEnd x.request = true → finalRead = .success) := by
    intro finalRead hresult
    rw [Request.performThread_eq, Request.perform] at hresult
    simp only [Request.record_result] at hresult
    obtain ⟨hrequest, hlocal⟩ := Result.latch_eq_success.mp hresult
    by_cases hrc : rc = 0
    · subst hrc
      simp only [ne_eq, not_true_eq_false, if_false] at hlocal
      refine ⟨rfl, hrequest, ?_, fun hreads => ?_⟩
      · simp only [Request.perform, ne_eq, not_true_eq_false, if_false]
        rw [hlocal, Request.record, Result.latch_success_right]
      · rw [Execution.readsEnd] at hreads
        split at hreads
        · cases hreads
        · rename_i hkind
          split at hlocal
          · rename_i hnone
            exact absurd hnone hkind
          · exact hlocal
    · rw [if_pos hrc] at hlocal
      cases hlocal
  rw [finish] at h
  by_cases hreads : rc = 0 ∧ Execution.readsEnd x.request = true
  · rw [if_pos hreads, Option.bind_eq_bind, Option.bind_eq_some_iff] at h
    obtain ⟨⟨finalRead, reader⟩, hread, h⟩ := h
    obtain ⟨hresult, rfl⟩ := Prod.mk.inj (Option.some.inj h)
    obtain ⟨hrc, hrequest, hlast, hfinal⟩ := hperform finalRead hresult
    obtain rfl := hfinal hreads.2
    refine ⟨hrc, hrequest, hlast, rfl, ?_⟩
    rw [if_pos hreads.2]
    exact Guarded.run_singleton (by rw [DataReader.accept, hread])
  · rw [if_neg hreads] at h
    obtain ⟨hresult, rfl⟩ := Prod.mk.inj (Option.some.inj h)
    obtain ⟨hrc, hrequest, hlast, -⟩ := hperform .success hresult
    refine ⟨hrc, hrequest, hlast, rfl, ?_⟩
    rw [if_neg fun h => hreads ⟨hrc, h⟩]
    rfl

/-- What the read callback hears of a whole transfer. -/
def hears (x : Exchange ρ ω) (actions : List (ExchangeAction α β)) (choice : α) :
    List (ReaderEvent α) :=
  actions.flatMap ExchangeAction.heard ++
    if Execution.readsEnd x.request then [.data choice []] else []

/-- **A whole transfer** that comes to a success. -/
theorem perform_success {x last : Exchange ρ ω} {actions : List (ExchangeAction α β)} {rc : ℕ}
    {choice : α} (hkind : x.request.SinglePart)
    (h : client.perform x actions rc choice = some (.success, last)) :
    rc = 0 ∧ last.request.result = .success ∧
      client.Follows x last (hears x actions choice) (client.asked x actions) := by
  obtain ⟨y, hrun, hfinish⟩ := Option.bind_eq_some_iff.mp h
  obtain ⟨hrc, hresult, hrequest, hwriter, hend⟩ := finish_success hfinish
  have hall := Follows.run hkind hrun hresult
  have hreads : Execution.readsEnd y.request = Execution.readsEnd x.request := by
    rw [Execution.readsEnd, Execution.readsEnd, hall.dataReadCallback]
  rw [hreads] at hend
  have hchunk : (if Execution.readsEnd x.request then [ReaderEvent.data choice []] else []).flatMap
      ReaderEvent.chunk = [] := by
    split <;> rfl
  refine ⟨hrc, by rw [hrequest]; exact hresult, (Guarded.run_append hall.reader).trans hend,
    by rw [hwriter]; exact hall.writer, ?_, by rw [hrequest]; exact hall.uploaded,
    by rw [hrequest]; exact hall.dataWriteCallback, by rw [hrequest]; exact hall.dataReadCallback⟩
  rw [hrequest, hears, List.flatMap_append, hchunk, List.append_nil]
  exact hall.downloaded

end Client

/-- **A request that completes without a failure** has done all of its work. libcurl had no error.
All that libcurl delivered was accepted by the read callback, piece by piece in its order, and then
the end of the data, unless there is no read callback; every call of the write callback succeeded;
and the request has counted the bytes in both directions. -/
theorem exchange_complete {ρ ω α β : Type} {client : Client ρ ω α β} {x last : Exchange ρ ω}
    {actions : List (ExchangeAction α β)} {rc : ℕ} {choice : α} (hkind : x.request.SinglePart)
    (h : client.perform x actions rc choice = some (.success, last)) :
    let heard := actions.flatMap ExchangeAction.heard
    let asked := client.asked x actions
    rc = 0 ∧ last.request.result = .success ∧
      Guarded.run client.reader.accept x.reader
        (heard ++ if Execution.readsEnd x.request then [.data choice []] else [])
          = some last.reader ∧
      Guarded.run client.writer.accept x.writer asked = some last.writer ∧
      last.request.responseBytesDownloaded ≡ x.request.responseBytesDownloaded
        + (heard.flatMap ReaderEvent.chunk).length [MOD word] ∧
      last.request.requestBytesUploaded ≡ x.request.requestBytesUploaded
        + (asked.flatMap WriterEvent.out).length [MOD word] := by
  obtain ⟨hrc, hresult, hall⟩ := Client.perform_success hkind h
  refine ⟨hrc, hresult, hall.reader, hall.writer, ?_, hall.uploaded⟩
  have hdownloaded := hall.downloaded
  rw [Client.hears, List.flatMap_append] at hdownloaded
  split at hdownloaded
  · exact (List.append_nil (List.flatMap _ _)) ▸ hdownloaded
  · exact (List.append_nil (List.flatMap _ _)) ▸ hdownloaded

/-- A read callback that keeps what it receives. -/
def collector : DataReader Bytes Unit where
  read state _ chunk := some (.success, state ++ chunk)
  tick state _ := some state

/-- A write callback that yields what it holds. -/
def supplier : DataWriter Bytes Unit where
  write state _ n := some (⟨.success, state.take n⟩, state.drop n)
  tick state _ := some state

/-- The case of two bytes that are sent and three that come back in two pieces. -/
theorem exchange_complete_twoWay :
    let client : Client Bytes Bytes Unit Unit := ⟨collector, supplier⟩
    let x : Exchange Bytes Bytes :=
      ⟨⟨.success, 200, bytes "OK", 0, 0, true, .client, HeaderList.empty, .none, false⟩, [],
        bytes "ab"⟩
    let actions : List (ExchangeAction Unit Unit) :=
      [.readData () [] 1 16, .readData () [] 1 16, .writeData () (bytes "xy") 1 2,
        .invoke (.xferinfo .success), .writeData () (bytes "z!") 1 1]
    ∃ last, client.perform x actions 0 () = some (.success, last) ∧ last.reader = bytes "xyz" ∧
      Guarded.run supplier.accept (bytes "ab") (client.asked x actions) = some last.writer := by
  intro client x actions
  have hkind : x.request.SinglePart := by
    intro arg harg
    cases harg
  have hperform : client.perform x actions 0 () = some (.success, _) := rfl
  exact ⟨_, hperform, rfl, (exchange_complete hkind hperform).2.2.2.1⟩

end DsiRest
