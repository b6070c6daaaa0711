import DsiRest.ResponseHead

/-!
# Responses without a Boundary

The multipart reader of a request has no boundary at first. At the end of the headers of a
response, unless its code is 100, the header callback looks for one in the Content-Type
fields whose value starts with `multipart/`. In such a value it takes `boundary=` for
granted; and where no such field came it leaves the reader without a boundary and reports a
success. The first byte of a body then makes the reader print a boundary that it does not
have, into an array of nine bytes.

`Fate` is what the header lines come to as far as they can be told without the request:
`Awaited` is all that the request remembers of them that matters. The fate of the lines is
open from the search for a boundary in a value on: where the text `boundary=` is not in it, the
search leaves the value, and otherwise it takes what follows that text, whether it is the name
of a parameter or not.

## Main results

* `MultipartRequest.Remembers.receive_fate` — the calls for the lines come to their fate.
* `MultipartRequest.download_failed_iff` — when a response without a boundary fails the request.
-/

namespace DsiRest

/-! ### The reader -/

/-- A request that reads a multipart message; `bounded` says that `boundary` in the argument
of its read callback is not `NULL`. -/
structure MultipartRequest where
  request : Request
  bounded : Bool

/-- `globus_dsi_rest_read_multipart`. A reader that has no boundary waits for the first
delimiter, so that any byte makes it print `NULL`. -/
def ReadMultipartArg.read (heap : Bytes → ℕ → Byte) (arg : ReadMultipartArg) (bounded : Bool)
    (buffer : Bytes) : Option (Result × ReadMultipartArg) :=
  if bounded = true ∨ buffer = [] then arg.readMultipart heap buffer else none

/-- A line at which the header callback finds a boundary. -/
def Request.findsBoundary (request : Request) (call : HeaderCall) : Bool :=
  if request.Expecting then false
  else match headerParse request.headers (call.line ++ call.after) call.line.length with
    | some (.success, headers) =>
      decide ((call.line ++ call.after).take 2 = crlf ∧ request.responseCode ≠ 100) &&
        (responseBoundary headers.entries).any Option.isSome
    | _ => false

namespace MultipartRequest

/-- A call made for a line: the value returned to libcurl and the reader it leaves behind. -/
def headerCall (reader : MultipartRequest) (call : HeaderCall) : Option (ℕ × MultipartRequest) := do
  let response ← reader.request.headerCall call
  some (response.value, ⟨response.request, reader.bounded || reader.request.findsBoundary call⟩)

/-- libcurl hands over lines until a call is refused; whether all were accepted. -/
def receive : MultipartRequest → List HeaderCall → Option (MultipartRequest × Bool)
  | reader, [] => some (reader, true)
  | reader, call :: calls => do
    let (value, reader) ← reader.headerCall call
    if value = call.line.length then receive reader calls else some (reader, false)

/-- A call of the read callback. -/
def read (heap : Bytes → ℕ → Byte) (reader : MultipartRequest) (buffer : Bytes) :
    Option (Result × ReadMultipartArg) :=
  match reader.request.dataReadCallback with
  | .multipart arg => arg.read heap reader.bounded buffer
  | _ => none

/-- A call of `globus_i_dsi_rest_write_data` made for a chunk of the body. -/
def dataCall (heap : Bytes → ℕ → Byte) (reader : MultipartRequest) (chunk : Bytes) :
    Option (ℕ × MultipartRequest) := do
  let (result, arg) ← reader.read heap chunk
  let response := reader.request.writeData chunk 1 chunk.length result
  some (response.value,
    { reader with request := { response.request with dataReadCallback := .multipart arg } })

/-- libcurl delivers chunks until a call is refused; whether all were accepted. -/
def receiveBody (heap : Bytes → ℕ → Byte) :
    MultipartRequest → List Bytes → Option (MultipartRequest × Bool)
  | reader, [] => some (reader, true)
  | reader, chunk :: chunks => do
    let (value, reader) ← reader.dataCall heap chunk
    if value = chunk.length then receiveBody heap reader chunks else some (reader, false)

/-- A request whose response has the given lines and body: the result it completes with and
the calls that were made for its parts. -/
def download (heap : Bytes → ℕ → Byte) (reader : MultipartRequest) (calls : List HeaderCall)
    (chunks : List Bytes) : Option (Result × List PartCall) := do
  let (reader, heard) ← reader.receive calls
  let (reader, accepted) ←
    if heard then reader.receiveBody heap chunks else some (reader, false)
  let (finalRead, arg) ← reader.read heap []
  some (reader.request.performThread (if accepted then 0 else writeError) finalRead, arg.calls)

end MultipartRequest

/-! ### Lines -/

/-- A Content-Type whose value starts with `multipart/`. -/
def KeyValue.isMultipart : KeyValue → Bool
  | ⟨some key, some value⟩ =>
    strcaseeq key (bytes "Content-Type") && strcaseeq (value.take 10) (bytes "multipart/")
  | _ => false

/-- Such a Content-Type that has a boundary. -/
def KeyValue.namesBoundary (entry : KeyValue) : Bool :=
  entry.isMultipart &&
    (entry.value.bind fun value => strcasestr value (bytes "boundary=")).isSome

/-- What the parser makes of a line: its result, and the field if there is one. -/
def HeaderCall.parsed (call : HeaderCall) : Option (Result × KeyArray) :=
  (headerParse HeaderList.empty (call.line ++ call.after) call.line.length).map
    fun parsed => (parsed.1, parsed.2.entries)

/-- The line is not a multipart Content-Type whose value has the text `boundary=`. -/
def HeaderCall.Unbounded (call : HeaderCall) : Prop :=
  ∀ parsed ∈ call.parsed, ∀ entry ∈ parsed.2, entry.namesBoundary = false

/-- The line looks like the end of the headers. -/
def HeaderCall.ends (call : HeaderCall) : Bool :=
  decide ((call.line ++ call.after).take 2 = crlf)

/-- What matters of the lines that came: whether a status line is awaited, and otherwise
whether the response is a 100 Continue and has a multipart Content-Type. -/
inductive Awaited
  | status
  | field (continues multipart : Bool)

/-- What lines come to: the search for a boundary in a value, or a line that the parser leaves;
a call that is refused; or neither. -/
inductive Fate
  | searched
  | refused
  | accepted
  deriving DecidableEq

/-- What is remembered behind a line, unless the call comes to an end; `listens` says whether
a response callback is registered. A line is refused that is no status line where one is
awaited, that has an empty name, or at which the response callback fails; and the parser may
leave a line, or a boundary is searched for in a value. -/
def Awaited.line (listens : Bool) : Awaited → HeaderCall → Except Fate Awaited
  | .status, call =>
    match scanStatusLine (cstr call.line) with
    | (some code, some _) => .ok (.field (decide (code = 100)) false)
    | _ => .error .refused
  | .field continues multipart, call =>
    match call.parsed with
    | none => .error .searched
    | some (.error _, _) => .error .refused
    | some (.success, fields) =>
      let multipart := multipart || fields.any KeyValue.isMultipart
      if call.ends = false then .ok (.field continues multipart)
      else if continues then .ok .status
      else if multipart then .error .searched
      else if listens = true ∧ call.response ≠ .success then .error .refused
      else .ok (.field continues multipart)

/-- What lines come to. -/
def Awaited.fate (listens : Bool) : Awaited → List HeaderCall → Fate
  | _, [] => .accepted
  | awaited, call :: calls =>
    match awaited.line listens call with
    | .error fate => fate
    | .ok awaited => awaited.fate listens calls

/-- Parsing a line adds the same field to all headers. -/
theorem headerParse_eq_parsed (call : HeaderCall) (headers : HeaderList) :
    (headerParse headers (call.line ++ call.after) call.line.length).map
        (fun parsed => (parsed.1, parsed.2.entries))
      = call.parsed.map fun parsed => (parsed.1, headers.entries ++ parsed.2) := by
  rw [HeaderCall.parsed, headerParse, headerParse]
  split
  · simp [HeaderList.empty]
  · simp [HeaderList.empty]
  · simp only
    split
    · rfl
    · simp [HeaderList.empty]

/-- The fields of a line have a name and a value. -/
theorem HeaderCall.parsed_pair {call : HeaderCall} {result : Result} {fields : KeyArray}
    (h : call.parsed = some (result, fields)) : ∀ entry ∈ fields, ∃ key value,
      entry = .pair key value := by
  obtain ⟨⟨result', headers'⟩, hparse, hfields⟩ := Option.map_eq_some_iff.mp h
  obtain ⟨-, rfl⟩ := Prod.mk.inj hfields
  rw [headerParse] at hparse
  split at hparse
  · obtain ⟨-, rfl⟩ := Prod.mk.inj (Option.some.inj hparse)
    simp [HeaderList.empty]
  · obtain ⟨-, rfl⟩ := Prod.mk.inj (Option.some.inj hparse)
    simp [HeaderList.empty]
  · simp only at hparse
    split at hparse
    · exact absurd hparse (by simp)
    · obtain ⟨-, rfl⟩ := Prod.mk.inj (Option.some.inj hparse)
      simp [HeaderList.empty]

/-- **The search for a boundary** where no field names one: it finds none, unless a
multipart Content-Type makes it leave the value. -/
theorem responseBoundary_unbounded {entries : KeyArray}
    (hpairs : ∀ entry ∈ entries, ∃ key value, entry = .pair key value)
    (hnames : ∀ entry ∈ entries, entry.namesBoundary = false) :
    responseBoundary entries
      = if entries.any KeyValue.isMultipart then none else some none := by
  suffices h : searchBoundary entries none none
      = if entries.any KeyValue.isMultipart then none else some (none, none) by
    rw [responseBoundary, h]
    split <;> rfl
  induction entries with
  | nil => rfl
  | cons entry entries ih =>
      obtain ⟨⟨key, value, rfl⟩, hpairs'⟩ := List.forall_mem_cons.mp hpairs
      obtain ⟨hname, hnames'⟩ := List.forall_mem_cons.mp hnames
      rw [List.any_cons, searchBoundary]
      by_cases hmultipart : KeyValue.isMultipart (.pair key value) = true
      · have hnone : strcasestr value (bytes "boundary=") = none := by
          rw [KeyValue.namesBoundary, hmultipart, Bool.true_and,
            Option.isSome_eq_false_iff] at hname
          exact Option.isNone_iff_eq_none.mp hname
        have hvalue : valueBoundary value = none := by
          rw [valueBoundary, hnone]
          rfl
        rw [hmultipart, Bool.true_or, if_pos rfl, hvalue]
        exact if_pos hmultipart
      · have hother := Bool.eq_false_iff.mpr hmultipart
        rw [hother, Bool.false_or, ← ih hpairs' hnames']
        exact if_neg hmultipart

/-- Without a multipart Content-Type there is no field that names a boundary. -/
theorem namesBoundary_of_any {entries : KeyArray}
    (hany : entries.any KeyValue.isMultipart = false) :
    ∀ entry ∈ entries, entry.namesBoundary = false := by
  intro entry hentry
  have hother := Bool.eq_false_of_not_eq_true (List.any_eq_false.mp hany entry hentry)
  rw [KeyValue.namesBoundary, hother, Bool.false_and]

/-- A status line that is scanned has a reason. -/
theorem scanStatusLine_reason {line : Bytes} {code : Option ℤ} {reason : Bytes}
    (h : scanStatusLine line = (code, some reason)) : reason ≠ [] := by
  rw [scanStatusLine] at h
  split at h
  · simp only at h
    split at h
    · simp at h
    · split at h
      · simp at h
      · split at h
        · simp at h
        · rename_i hne
          obtain ⟨-, hreason⟩ := Prod.mk.inj h
          exact Option.some.inj hreason ▸ hne
  · simp at h

/-! ### The fate of the lines -/

/-- A reader of the request that remembers what is said of the lines that came, none of
which was a multipart Content-Type with the text `boundary=` if they are `plain`. -/
structure MultipartRequest.Remembers (plain : Prop) (reader : MultipartRequest) (listens : Bool)
    (arg : ReadMultipartArg) (awaited : Awaited) : Prop where
  dataReadCallback : reader.request.dataReadCallback = .multipart arg
  responseCallback : listens = false ↔ reader.request.responseCallback = .none
  bounded : reader.bounded = false
  pairs : ∀ entry ∈ reader.request.headers.entries, ∃ key value, entry = .pair key value
  unbounded : plain → ∀ entry ∈ reader.request.headers.entries, entry.namesBoundary = false
  awaited : match awaited with
    | .status => reader.request.Expecting ∧ reader.request.headers.entries = []
    | .field continues multipart => ¬ reader.request.Expecting ∧
      continues = decide (reader.request.responseCode = 100) ∧
      multipart = reader.request.headers.entries.any KeyValue.isMultipart

/-- A call comes to what is said of its line. Of a search for a boundary this is known for
`plain` lines: it leaves the value. -/
def MultipartRequest.Heeds (plain : Prop) (reader : MultipartRequest) (listens : Bool)
    (arg : ReadMultipartArg) (call : HeaderCall) : Except Fate Awaited → Prop
  | .error .searched => plain → reader.headerCall call = none
  | .error .refused => ∃ value next, reader.headerCall call = some (value, next) ∧
      value ≠ call.line.length ∧ next.request.dataReadCallback = .multipart arg
  | .error .accepted => False
  | .ok awaited => ∃ next, reader.headerCall call = some (call.line.length, next) ∧
      next.Remembers plain listens arg awaited

/-- Filling in the counters changes nothing but them. -/
theorem Request.updateCounters_eq (request : Request) : ∃ callback,
    request.updateCounters = { request with responseCallback := callback } ∧
      (callback = .none ↔ request.responseCallback = .none) := by
  have hnone := request.updateCounters_responseCallback
  rw [updateCounters] at hnone ⊢
  split at hnone <;> exact ⟨_, rfl, hnone⟩

/-- The end of the headers of a response without a boundary. -/
theorem endOfHeaders_unbounded {request : Request} {arg : ReadMultipartArg} {listens : Bool}
    (hlistens : listens = false ↔ request.responseCallback = .none)
    (h100 : request.responseCode ≠ 100) (hread : request.dataReadCallback = .multipart arg)
    (hpairs : ∀ entry ∈ request.headers.entries, ∃ key value, entry = .pair key value)
    (hunbounded : ∀ entry ∈ request.headers.entries, entry.namesBoundary = false)
    (total : ℕ) (response : Result) :
    request.endOfHeaders total response
      = if request.headers.entries.any KeyValue.isMultipart then none
        else
          let result := if listens then response else .success
          some ⟨Request.sizeReply total result, result, request.updateCounters⟩ := by
  obtain ⟨callback, hcounters, hsame⟩ := request.updateCounters_eq
  have hboundary : request.updateCounters.updateBoundary
      = if request.headers.entries.any KeyValue.isMultipart then none
        else some request.updateCounters := by
    rw [hcounters, Request.updateBoundary]
    simp only [hread, responseBoundary_unbounded hpairs hunbounded]
    split <;> rfl
  rw [Request.endOfHeaders, if_neg h100, hboundary]
  split
  · rfl
  · rw [Option.bind_eq_bind, Option.bind_some, hcounters]
    cases listens with
    | false =>
        obtain rfl := hsame.mpr (hlistens.mp rfl)
        simp [Request.sizeReply]
    | true =>
        have hregistered : callback ≠ .none := fun hnone => by
          simpa using hlistens.mpr (hsame.mp hnone)
        cases callback <;> simp_all

namespace MultipartRequest.Remembers

variable {plain : Prop} {reader : MultipartRequest} {listens : Bool} {arg : ReadMultipartArg}

/-- A status line is awaited. -/
theorem heeds_status (h : reader.Remembers plain listens arg .status) (call : HeaderCall) :
    reader.Heeds plain listens arg call (Awaited.status.line listens call) := by
  obtain ⟨hstatus, hentries⟩ := h.awaited
  have hfinds : reader.request.findsBoundary call = false := if_pos hstatus
  have hcall : reader.headerCall call = some ((reader.request.statusLine (cstr call.line)
      call.line.length).value, ⟨(reader.request.statusLine (cstr call.line)
        call.line.length).request, false⟩) := by
    rw [headerCall, Request.headerCall, Request.header, if_pos hstatus,
      Request.mul64_one call.fits, List.take_left, hfinds, h.bounded]
    rfl
  rw [Request.statusLine] at hcall
  rw [Awaited.line]
  rcases hscan : scanStatusLine (cstr call.line) with ⟨_ | code, _ | reason⟩ <;>
    rw [hscan] at hcall
  case some.some =>
    exact ⟨_, hcall, h.dataReadCallback, h.responseCallback, rfl, h.pairs, h.unbounded,
      fun hexp => scanStatusLine_reason hscan hexp.2, rfl, by rw [hentries]; rfl⟩
  all_goals exact ⟨_, _, hcall, Request.notSize_ne _, h.dataReadCallback⟩

variable {continues multipart : Bool}

/-- A line behind a status line. -/
theorem headerCall_eq (h : reader.Remembers plain listens arg (.field continues multipart))
    (call : HeaderCall) :
    reader.headerCall call = (reader.request.parseHeader (call.line ++ call.after)
      call.line.length call.response).map fun response => (response.value,
        ⟨response.request, reader.request.findsBoundary call⟩) := by
  rw [headerCall, Request.headerCall_listening h.awaited.1
    (Or.inr ⟨arg, h.dataReadCallback⟩), h.bounded]
  cases reader.request.parseHeader (call.line ++ call.after) call.line.length call.response <;> rfl

/-- What parsing a line does to the headers. -/
theorem parse_eq (h : reader.Remembers plain listens arg (.field continues multipart))
    {call : HeaderCall} (hbound : plain → call.Unbounded) {result : Result} {fields : KeyArray}
    (hparsed : call.parsed = some (result, fields)) :
    ∃ headers, headerParse reader.request.headers (call.line ++ call.after) call.line.length
        = some (result, headers) ∧
      headers.entries.any KeyValue.isMultipart
        = (multipart || fields.any KeyValue.isMultipart) ∧
      (∀ entry ∈ headers.entries, ∃ key value, entry = .pair key value) ∧
      (plain → ∀ entry ∈ headers.entries, entry.namesBoundary = false) := by
  have hheaders := headerParse_eq_parsed call reader.request.headers
  rw [hparsed, Option.map_some] at hheaders
  obtain ⟨⟨result', headers⟩, hparse, hpair⟩ := Option.map_eq_some_iff.mp hheaders
  obtain ⟨rfl, hentries⟩ : result' = result ∧
    headers.entries = reader.request.headers.entries ++ fields := Prod.mk.inj hpair
  obtain ⟨-, -, hmultipart⟩ := h.awaited
  refine ⟨headers, hparse, by rw [hentries, List.any_append, hmultipart], ?_, ?_⟩
  · rw [hentries]
    exact List.forall_mem_append.mpr ⟨h.pairs, HeaderCall.parsed_pair hparsed⟩
  · intro hplain
    rw [hentries]
    exact List.forall_mem_append.mpr ⟨h.unbounded hplain, hbound hplain _ hparsed⟩

/-- Where no boundary is searched for in a value, or none has the text, none is found. -/
theorem findsBoundary_eq (h : reader.Remembers plain listens arg (.field continues multipart))
    {call : HeaderCall} (hquiet : ∀ headers, headerParse reader.request.headers
        (call.line ++ call.after) call.line.length = some (.success, headers) →
      call.ends = false ∨ reader.request.responseCode = 100 ∨
        (∀ entry ∈ headers.entries, ∃ key value, entry = .pair key value) ∧
          ∀ entry ∈ headers.entries, entry.namesBoundary = false) :
    reader.request.findsBoundary call = false := by
  rw [Request.findsBoundary, if_neg h.awaited.1]
  split
  · rename_i headers hparse
    rcases hquiet headers hparse with hends | h100 | ⟨hpairs, hunbounded⟩
    · have hnot := of_decide_eq_false hends
      simp [hnot]
    · simp [h100]
    · rw [responseBoundary_unbounded hpairs hunbounded]
      split <;> simp
  · rfl

/-- The empty line behind the headers. -/
theorem heeds_end (h : reader.Remembers plain listens arg (.field continues multipart))
    {call : HeaderCall} {headers : HeaderList}
    (hpairs : ∀ entry ∈ headers.entries, ∃ key value, entry = .pair key value)
    (hunbounded : plain → ∀ entry ∈ headers.entries, entry.namesBoundary = false)
    (hquiet : reader.request.responseCode ≠ 100 →
      ∀ entry ∈ headers.entries, entry.namesBoundary = false)
    (hcall : reader.headerCall call = (Request.endOfHeaders { reader.request with headers := headers }
      call.line.length call.response).map fun response => (response.value,
        ⟨response.request, false⟩)) :
    reader.Heeds plain listens arg call
      (if continues then .ok .status
      else if headers.entries.any KeyValue.isMultipart then .error .searched
      else if listens = true ∧ call.response ≠ .success then .error .refused
      else .ok (.field continues (headers.entries.any KeyValue.isMultipart))) := by
  obtain ⟨hstatus, hcontinues, -⟩ := h.awaited
  set parsed : Request := { reader.request with headers := headers }
  by_cases h100 : reader.request.responseCode = 100
  · rw [if_pos (by rw [hcontinues]; exact decide_eq_true h100)]
    rw [Request.endOfHeaders, if_pos (by exact h100)] at hcall
    exact ⟨_, hcall, h.dataReadCallback, h.responseCallback, rfl,
      fun entry hentry => absurd hentry List.not_mem_nil,
      fun _ entry hentry => absurd hentry List.not_mem_nil, ⟨rfl, rfl⟩, rfl⟩
  rw [if_neg (by rw [hcontinues]; simpa using h100)]
  rw [@endOfHeaders_unbounded parsed _ _ h.responseCallback h100 h.dataReadCallback hpairs
    (hquiet h100)] at hcall
  split
  · -- a multipart message without a boundary
    rw [if_pos ‹_›] at hcall
    exact fun _ => hcall
  rw [if_neg ‹_›] at hcall
  obtain ⟨callback, hcounters, hsame⟩ := parsed.updateCounters_eq
  rw [hcounters] at hcall
  split
  · rename_i hfails
    rw [if_pos hfails.1] at hcall
    refine ⟨_, _, hcall, ?_, h.dataReadCallback⟩
    intro hsize
    exact hfails.2 (Request.sizeReply_eq.mp hsize)
  · rename_i hpasses
    have hsuccess : (if listens then call.response else .success) = Result.success := by
      split
      · exact not_not.mp fun hne => hpasses ⟨‹_›, hne⟩
      · rfl
    rw [hsuccess] at hcall
    exact ⟨_, hcall, h.dataReadCallback, h.responseCallback.trans hsame.symm, rfl, hpairs,
      hunbounded, hstatus, hcontinues, rfl⟩

/-- A line behind a status line. -/
theorem heeds_field (h : reader.Remembers plain listens arg (.field continues multipart))
    {call : HeaderCall} (hbound : plain → call.Unbounded) :
    reader.Heeds plain listens arg call
      ((Awaited.field continues multipart).line listens call) := by
  obtain ⟨hstatus, hcontinues, -⟩ := h.awaited
  have hcall := h.headerCall_eq call
  rw [Request.parseHeader] at hcall
  rw [Awaited.line]
  cases hparsed : call.parsed with
  | none =>
      have hnone := headerParse_eq_parsed call reader.request.headers
      rw [hparsed] at hnone
      rw [Option.map_eq_none_iff.mp hnone] at hcall
      exact fun _ => hcall
  | some parsed =>
      obtain ⟨result, fields⟩ := parsed
      obtain ⟨headers, hparse, hany, hpairs, hunbounded⟩ := h.parse_eq hbound hparsed
      cases result with
      | error e =>
          rw [h.findsBoundary_eq fun headers' hparse' => by rw [hparse] at hparse'; simp at hparse',
            hparse, Option.bind_eq_bind, Option.bind_some] at hcall
          exact ⟨_, _, hcall, Request.notSize_ne _, h.dataReadCallback⟩
      | success =>
          have hfinds : call.ends = false ∨ reader.request.responseCode = 100 ∨
              (∀ entry ∈ headers.entries, entry.namesBoundary = false) →
              reader.request.findsBoundary call = false := by
            intro hquiet
            refine h.findsBoundary_eq fun headers' hparse' => ?_
            obtain rfl := (Prod.mk.inj (Option.some.inj (hparse.symm.trans hparse'))).2
            exact hquiet.imp_right fun hlater => hlater.imp_right fun hnames => ⟨hpairs, hnames⟩
          simp only [hparse, Option.bind_eq_bind, Option.bind_some] at hcall
          simp only
          by_cases hend : (call.line ++ call.after).take 2 = crlf
          · have hends : ¬ call.ends = false := by simp [HeaderCall.ends, hend]
            rw [if_neg hends, ← hany]
            simp only [if_pos hend] at hcall
            by_cases hquiet : reader.request.responseCode = 100 ∨
                ∀ entry ∈ headers.entries, entry.namesBoundary = false
            · rw [hfinds (.inr hquiet)] at hcall
              exact h.heeds_end hpairs hunbounded hquiet.resolve_left hcall
            · -- the search takes what follows the text
              obtain ⟨h100, hnames⟩ := not_or.mp hquiet
              have hmultipart : headers.entries.any KeyValue.isMultipart = true := by
                by_contra hnot
                exact hnames (namesBoundary_of_any (Bool.eq_false_of_not_eq_true hnot))
              rw [if_neg (by rw [hcontinues]; simpa using h100), if_pos hmultipart]
              exact fun hplain => absurd (hunbounded hplain) hnames
          · have hends : call.ends = false := decide_eq_false hend
            rw [if_pos hends]
            rw [hfinds (.inl hends)] at hcall
            simp only [if_neg hend] at hcall
            exact ⟨_, hcall, h.dataReadCallback, h.responseCallback, rfl, hpairs, hunbounded,
              hstatus, hcontinues, hany.symm⟩

end MultipartRequest.Remembers

/-! ### All lines and the body -/

/-- The calls come to what is said, and leave the multipart reader alone. -/
def Fate.Holds (plain : Prop) (reader : MultipartRequest) (arg : ReadMultipartArg)
    (calls : List HeaderCall) : Fate → Prop
  | .searched => plain → reader.receive calls = none
  | .refused => ∃ last, reader.receive calls = some (last, false) ∧
      last.request.dataReadCallback = .multipart arg
  | .accepted => ∃ last, reader.receive calls = some (last, true) ∧
      last.request.dataReadCallback = .multipart arg ∧ last.bounded = false

/-- A response callback is registered. -/
def ResponseCallback.registered : ResponseCallback → Bool
  | .none => false
  | _ => true

namespace MultipartRequest

variable {plain : Prop} {reader : MultipartRequest} {listens : Bool} {arg : ReadMultipartArg}

/-- **A line** comes to what is said of it. -/
theorem Remembers.heeds {awaited : Awaited} (h : reader.Remembers plain listens arg awaited)
    {call : HeaderCall} (hbound : plain → call.Unbounded) :
    reader.Heeds plain listens arg call (awaited.line listens call) := by
  cases awaited with
  | status => exact h.heeds_status call
  | field continues multipart => exact h.heeds_field hbound

/-- **The lines** come to their fate. -/
theorem Remembers.receive_fate : ∀ (calls : List HeaderCall) {reader : MultipartRequest}
    {awaited : Awaited}, reader.Remembers plain listens arg awaited →
    (plain → ∀ call ∈ calls, call.Unbounded) →
      (awaited.fate listens calls).Holds plain reader arg calls
  | [], reader, awaited, h, _ => by
      rw [Awaited.fate]
      exact ⟨reader, rfl, h.dataReadCallback, h.bounded⟩
  | call :: calls, reader, awaited, h, hbound => by
      have hcall := fun hplain => (List.forall_mem_cons.mp (hbound hplain)).1
      have hcalls := fun hplain => (List.forall_mem_cons.mp (hbound hplain)).2
      have hline := h.heeds hcall
      rw [Awaited.fate]
      cases hfate : awaited.line listens call with
      | error fate =>
          rw [hfate] at hline
          cases fate with
          | searched =>
              intro hplain
              rw [receive, hline hplain]
              rfl
          | refused =>
              obtain ⟨value, next, hnext, hvalue, hread⟩ := hline
              refine ⟨next, ?_, hread⟩
              rw [receive, hnext]
              simp only [Option.bind_eq_bind, Option.bind_some, if_neg hvalue]
          | accepted => exact hline.elim
      | ok awaited' =>
          rw [hfate] at hline
          obtain ⟨next, hnext, hremembers⟩ := hline
          have hrest := hremembers.receive_fate calls hcalls
          have hreceive : reader.receive (call :: calls) = next.receive calls := by
            rw [receive, hnext]
            simp only [Option.bind_eq_bind, Option.bind_some, if_true]
          simp only
          cases hlast : awaited'.fate listens calls <;> rw [hlast] at hrest
          case searched => exact fun hplain => hreceive.trans (hrest hplain)
          all_goals
            obtain ⟨last, hr, hkept⟩ := hrest
            exact ⟨last, hreceive.trans hr, hkept⟩

/-- A body that reaches a reader without a boundary. -/
theorem receiveBody_unbounded (heap : Bytes → ℕ → Byte) {chunks : List Bytes} :
    ∀ {reader : MultipartRequest}, reader.request.dataReadCallback = .multipart arg →
    reader.bounded = false → chunks.flatten ≠ [] → reader.receiveBody heap chunks = none := by
  induction chunks with
  | nil => exact fun _ _ hbody => absurd rfl hbody
  | cons chunk chunks ih =>
      intro reader hread hbounded hbody
      rw [receiveBody, dataCall, read, hread]
      cases chunk with
      | nil =>
          have hempty : arg.read heap reader.bounded [] = some (.success, arg) :=
            if_pos (Or.inr rfl)
          have hvalue : (reader.request.writeData [] 1 ([] : Bytes).length .success).value
              = ([] : Bytes).length := by
            rw [Request.writeData, hread]
            rfl
          simp only [hempty, Option.bind_eq_bind, Option.bind_some, hvalue, if_true]
          exact ih rfl hbounded (by simpa using hbody)
      | cons b chunk =>
          have hnone : arg.read heap reader.bounded (b :: chunk) = none :=
            if_neg (by simp [hbounded])
          simp only [hnone]
          rfl

/-- The request ends with a failure, and no data read callback of a part is called. -/
def FailsCleanly (heap : Bytes → ℕ → Byte) (reader : MultipartRequest) (calls : List HeaderCall)
    (chunks : List Bytes) : Prop :=
  ∃ result partCalls, reader.download heap calls chunks = some (result, partCalls) ∧
    result ≠ .success ∧ ∀ k buffer, PartCall.data k buffer ∉ partCalls

/-- **When a response without a boundary fails the request.** Let a request that reads a
multipart message get any header lines, and a body that is not empty. It ends with a failure,
without a call for a part and without undefined behaviour, if one of the lines is refused
before the parser leaves a line or a boundary is searched for in a value; and only then, if no
line is a multipart Content-Type whose value has the text `boundary=`. -/
theorem download_failed_iff {request : Request} (hstatus : request.Expecting)
    (hheaders : request.headers = HeaderList.empty) {responseCallbacks : List Bool}
    (hread : request.dataReadCallback = .multipart (prepareReadMultipart [] responseCallbacks))
    {calls : List HeaderCall} {chunks : List Bytes} (hbody : chunks.flatten ≠ [])
    (heap : Bytes → ℕ → Byte) :
    (Awaited.status.fate request.responseCallback.registered calls = .refused →
        FailsCleanly heap ⟨request, false⟩ calls chunks) ∧
      ((∀ call ∈ calls, call.Unbounded) → FailsCleanly heap ⟨request, false⟩ calls chunks →
        Awaited.status.fate request.responseCallback.registered calls = .refused) := by
  have hentries : request.headers.entries = [] := by
    rw [hheaders]
    rfl
  have hregistered : request.responseCallback.registered = false ↔
      request.responseCallback = .none := by
    cases request.responseCallback <;> simp [ResponseCallback.registered]
  have hremembers : Remembers (∀ call ∈ calls, call.Unbounded) ⟨request, false⟩
      request.responseCallback.registered (prepareReadMultipart [] responseCallbacks) .status :=
    ⟨hread, hregistered, rfl, by simp [hentries], by simp [hentries], hstatus, hentries⟩
  have hfate := hremembers.receive_fate calls id
  rw [FailsCleanly]
  cases hlines : Awaited.status.fate request.responseCallback.registered calls <;>
    rw [hlines] at hfate
  case searched =>
    refine ⟨fun hrefused => (by cases hrefused), fun hplain hfails => ?_⟩
    have hnone : receive ⟨request, false⟩ calls = none := hfate hplain
    simp [download, hnone] at hfails
  case refused =>
    obtain ⟨last, hlast, hkept⟩ := hfate
    have hfinal : last.read heap []
        = some (.success, prepareReadMultipart [] responseCallbacks) := by
      rw [read, hkept]
      exact if_pos (Or.inr rfl)
    refine ⟨fun _ => ⟨last.request.performThread writeError .success, [], ?_,
      last.request.performThread_writeError .success, fun _ _ => List.not_mem_nil⟩, fun _ _ => rfl⟩
    rw [download, hlast]
    simp only [Option.bind_eq_bind, Option.bind_some, Bool.false_eq_true, if_false, hfinal]
    rfl
  case accepted =>
    obtain ⟨last, hlast, hkept, hbounded⟩ := hfate
    refine ⟨fun hrefused => (by cases hrefused), fun _ hfails => ?_⟩
    simp [download, hlast, receiveBody_unbounded heap hkept hbounded hbody] at hfails

/-- The lines of a response that is no multipart message. -/
def plainLines : List HeaderCall :=
  [⟨bytes "HTTP/1.1 200 OK\r\n", [], .success, by decide⟩, ⟨crlf, [], .success, crlf_fits⟩]

/-- A request that reads a multipart message of one part. -/
def multipartRequest : Request :=
  ⟨.success, 0, [], 0, 0, false, .multipart (prepareReadMultipart [] [false]), HeaderList.empty,
    .none, false⟩

/-- The lines of a plain response are no multipart Content-Type. -/
theorem unbounded_plainLines : ∀ call ∈ plainLines, call.Unbounded := by
  have hparsed : ∀ call ∈ plainLines, call.parsed = some (.success, []) := by
    decide +kernel
  intro call hcall parsed hp entry hentry
  obtain rfl : (.success, []) = parsed := Option.some.inj ((hparsed call hcall).symm.trans hp)
  exact absurd hentry List.not_mem_nil

/-- The lines of a response whose Content-Type has the text `boundary=` and no boundary
parameter, and which goes on with a line that begins with a colon. -/
def refusedLines : List HeaderCall :=
  [⟨bytes "HTTP/1.1 200 OK\r\n", [], .success, by decide⟩,
    ⟨bytes "Content-Type: multipart/mixed; xboundary=b\r\n", [], .success, by decide⟩,
    ⟨bytes ": x\r\n", [], .success, by decide⟩]

/-- The case of a line that is refused. -/
theorem download_failed_iff_refused :
    FailsCleanly (fun _ _ => 0) ⟨multipartRequest, false⟩ refusedLines [bytes "x"] ∧
      (FailsCleanly (fun _ _ => 0) ⟨multipartRequest, false⟩ plainLines [bytes "x"] →
        Awaited.status.fate multipartRequest.responseCallback.registered plainLines = .refused) := by
  have hstatus : multipartRequest.Expecting := ⟨rfl, rfl⟩
  exact ⟨(download_failed_iff hstatus rfl rfl (by decide) _).1 (by decide +kernel),
    (download_failed_iff hstatus rfl rfl (by decide) _).2 unbounded_plainLines⟩

/-- A plain response is accepted, and the first byte of its body is looked at without a
boundary. -/
theorem download_plain :
    ¬ ∀ (request : Request) (responseCallbacks : List Bool), request.Expecting →
      request.headers = HeaderList.empty →
      request.dataReadCallback = .multipart (prepareReadMultipart [] responseCallbacks) →
      ∀ calls : List HeaderCall, (∀ call ∈ calls, call.Unbounded) →
      ∀ chunks : List Bytes, chunks.flatten ≠ [] → ∀ heap,
        FailsCleanly heap ⟨request, false⟩ calls chunks := by
  intro h
  obtain ⟨result, partCalls, hdownload, -⟩ := h multipartRequest [false] ⟨rfl, rfl⟩ rfl rfl
    plainLines unbounded_plainLines [bytes "x"] (by decide) (fun _ _ => 0)
  have hnone : (download (fun _ _ => 0) ⟨multipartRequest, false⟩ plainLines
      [bytes "x"]).isNone = true := by
    decide +kernel
  rw [hdownload] at hnone
  exact absurd hnone (by simp)

end MultipartRequest

end DsiRest
