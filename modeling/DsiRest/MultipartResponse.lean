import DsiRest.BoundaryValue
import DsiRest.FinalResponse
import DsiRest.MissingBoundary
import DsiRest.MultipartValues

/-!
# A Multipart Message between Two Requests

One request sends a multipart body whose delimiter the library makes up from a UUID; the delimiter
travels in the `Content-Type` header that the preparation adds. Another request receives a response
with that content type. Its header callback finds the delimiter at the end of the headers and gives
it to the multipart reader, which takes the body apart.

The recipient has whatever response callback it likes, the response may come behind any number of
100 Continue responses, and its other headers are any fields with other names.

## Main results

* `responseBoundary_related` — the delimiter is found in the content type.
* `MultipartRequest.receive_related` — what the headers of the response leave behind.
* `multipart_travels` — a message with a generated delimiter, from one client to another.
-/

namespace DsiRest

/-! ### The content type of a generated delimiter -/

/-- The content type of a message with a generated delimiter. -/
def relatedText (boundary : Bytes) : Bytes :=
  bytes "multipart/related; boundary=" ++ boundary

/-- The preparation of a message whose client names no content type. -/
theorem prepareMultipart_generated {uuid : ℕ → Bytes} {headers : KeyArray}
    {parts : List (ClientPart ClientWriter)} {drawn k : ℕ} {part : WritePart Writer}
    {arg : WriteMultipartArg Writer} (hnone : headersSearch headers = .ok none)
    (hprep : prepareWriteCallbacks uuid headers (.multipart parts) drawn = .ok (part, k))
    (hwriter : part.writer = .multipart arg) :
    arg.boundary = some (uuidBoundary (uuid drawn)) ∧
      part.headers = headers ++
        [.pair (bytes "Content-Type") (relatedText (uuidBoundary (uuid drawn)))] := by
  simp only [prepareWriteCallbacks, multipartHeaders, hnone, bind, Except.bind, pure,
    Except.pure] at hprep
  split at hprep
  · cases hprep
  split at hprep
  · cases hprep
  rename_i first hfirst
  cases hprep
  obtain rfl := Writer.multipart.inj hwriter
  exact ⟨(firstBoundary_start hfirst).2.2, rfl⟩

/-- The first place where text can start that begins with a letter. -/
theorem strcasestr_found {first : Byte} {needle rest : Bytes} : ∀ {front : Bytes},
    (∀ b ∈ front, toLower b ≠ toLower first) →
    strcasestr (front ++ (first :: needle ++ rest)) (first :: needle)
      = some (first :: needle ++ rest)
  | [], _ => by
      have hhere : ((first :: needle).map toLower).isPrefixOf
          ((first :: needle ++ rest).map toLower) = true := by
        rw [List.isPrefixOf_iff_prefix, List.map_append]
        exact List.prefix_append _ _
      rw [List.nil_append, strcasestr.eq_def, if_pos hhere]
  | b :: front, h => by
      obtain ⟨hb, hfront⟩ := List.forall_mem_cons.mp h
      have hnot : ¬ ((first :: needle).map toLower).isPrefixOf
          ((b :: (front ++ (first :: needle ++ rest))).map toLower) = true := by
        rw [List.map_cons, List.map_cons, List.isPrefixOf_iff_prefix, List.cons_prefix_cons]
        exact fun hpre => hb hpre.1.symm
      rw [List.cons_append, strcasestr, if_neg hnot]
      exact strcasestr_found hfront

/-- Where the boundary is in the content type. -/
theorem strcasestr_related (boundary : Bytes) :
    strcasestr (relatedText boundary) (bytes "boundary=")
      = some (bytes "boundary=" ++ boundary) := by
  have hneedle : bytes "boundary=" = 98 :: bytes "oundary=" := by decide +kernel
  have hsplit : bytes "multipart/related; boundary="
      = bytes "multipart/related; " ++ (98 :: bytes "oundary=") := by decide +kernel
  have hfront : ∀ b ∈ bytes "multipart/related; ", toLower b ≠ toLower 98 := by decide +kernel
  rw [relatedText, hsplit, hneedle, List.append_assoc]
  exact strcasestr_found hfront

/-- The boundary of the content type: all that is behind the name of the parameter. -/
theorem valueBoundary_related {boundary : Bytes} (h : ∀ b ∈ boundary, isTokenByte b = true) :
    valueBoundary (relatedText boundary) = some (boundary, none) := by
  have hdrop : (bytes "boundary=" ++ boundary).drop 9 = boundary := List.drop_left' rfl
  have hplain : boundary.findIdx? isSpace = none :=
    List.findIdx?_eq_none_iff.mpr fun b hb => (not_isSpace_of_isTokenByte (h b hb)).1
  rw [valueBoundary, strcasestr_related, Option.bind_eq_bind, Option.bind_some, hdrop]
  split
  · rename_i quoted
    exact absurd rfl (not_isSpace_of_isTokenByte (h 34 List.mem_cons_self)).2
  · rw [hplain]
    rfl

/-- **The delimiter is found** in the headers of a response with the content type. -/
theorem responseBoundary_related {headers : KeyArray} {boundary : Bytes}
    (h : ∀ b ∈ boundary, isTokenByte b = true)
    (htype : OneContentType headers (relatedText boundary)) :
    responseBoundary headers = some (some boundary) := by
  obtain ⟨before, key, after, rfl, hkey, hothers⟩ := htype.split
  have hafter : searchBoundary after (some boundary) none = some (some boundary, none) := by
    have hall : searchBoundary (after ++ []) (some boundary) none = some (some boundary, none) :=
      searchBoundary_others after fun kv hkv => hothers kv (List.mem_append_right _ hkv)
    rwa [List.append_nil] at hall
  have hmultipart : strcaseeq ((relatedText boundary).take 10) (bytes "multipart/") = true := by
    have hsplit : relatedText boundary
        = bytes "multipart/" ++ (bytes "related; boundary=" ++ boundary) := by
      rw [← List.append_assoc]
      rfl
    rw [hsplit, List.take_left' (show (bytes "multipart/").length = 10 from rfl)]
    decide +kernel
  rw [responseBoundary, searchBoundary_others before fun kv hkv =>
    hothers kv (List.mem_append_left _ hkv), searchBoundary, hkey, hmultipart, Bool.and_self,
    if_pos rfl, valueBoundary_related h]
  simp [hafter]

/-! ### The headers of the response -/

namespace MultipartRequest

variable {request : Request} {reader next : MultipartRequest}

/-- More lines behind lines that were accepted. -/
theorem receive_append {front later : List HeaderCall} :
    ∀ {reader : MultipartRequest}, reader.receive front = some (next, true) →
      reader.receive (front ++ later) = next.receive later := by
  induction front with
  | nil =>
      intro reader h
      obtain rfl : reader = next := (Prod.mk.inj (Option.some.inj h)).1
      rfl
  | cons call front ih =>
      intro reader h
      rw [receive, Option.bind_eq_bind, Option.bind_eq_some_iff] at h
      obtain ⟨⟨value, reader'⟩, hcall, h⟩ := h
      rw [List.cons_append, receive, hcall, Option.bind_eq_bind, Option.bind_some]
      simp only at h ⊢
      split_ifs at h ⊢ with hvalue
      · exact ih h
      · cases h

/-- What the request makes of the lines. -/
theorem receive_of_receive {calls : List HeaderCall} : ∀ {request : Request} {r : Reception}
    (bounded : Bool), request.receive calls = some r →
    ∃ found, receive ⟨request, bounded⟩ calls = some (⟨r.request, found⟩, r.accepted) := by
  induction calls with
  | nil =>
      intro request r bounded h
      obtain rfl := Option.some.inj h
      exact ⟨bounded, rfl⟩
  | cons call calls ih =>
      intro request r bounded h
      rw [Request.receive, Option.bind_eq_bind, Option.bind_eq_some_iff] at h
      obtain ⟨response, hcall, h⟩ := h
      rw [receive, headerCall, hcall]
      simp only [Option.bind_eq_bind, Option.bind_some]
      by_cases hvalue : response.value = call.line.length
      · rw [if_pos hvalue, Option.bind_eq_bind, Option.bind_eq_some_iff] at h
        obtain ⟨rest, hrest, h⟩ := h
        obtain rfl := Option.some.inj h
        obtain ⟨found, hfound⟩ := ih (bounded || request.findsBoundary call) hrest
        exact ⟨found, (if_pos hvalue).trans hfound⟩
      · rw [if_neg hvalue] at h ⊢
        obtain rfl := Option.some.inj h
        exact ⟨_, rfl⟩

/-- The lines of a head up to the empty one. -/
theorem receive_lines (hstatus : request.Expecting) (hheaders : request.headers = HeaderList.empty)
    (hlisten : request.Listening) {head : Head} (hreason : head.scannedReason ≠ [])
    (hlegible : head.Legible) (bounded : Bool) :
    ∃ found, receive ⟨request, bounded⟩ (head.statusCall :: head.fields.map Field.call)
      = some (⟨{ request with
          responseCode := head.code, responseReason := head.scannedReason
          headers := HeaderList.empty.pushFields head.fields }, found⟩, true) := by
  have hscanned : ¬ Request.Expecting { request with
      responseCode := head.code, responseReason := head.scannedReason } :=
    fun hexp => hreason hexp.2
  have hlistens : Request.Listening { request with
      responseCode := head.code, responseReason := head.scannedReason } := hlisten
  have hfields := Request.receive_fields hscanned hlistens head.fields []
  rw [if_pos (show ∀ f ∈ head.fields, f.Legible from hlegible), List.append_nil] at hfields
  have hlines := Request.receive_status hstatus head (head.fields.map Field.call)
  rw [if_neg hreason, hfields] at hlines
  simp only [hheaders] at hlines
  exact receive_of_receive bounded hlines

/-- **100 Continue responses** leave the request as it was. -/
theorem receive_interims (hstatus : request.Expecting)
    (hheaders : request.headers = HeaderList.empty) (hlisten : request.Listening)
    {interims : List Head}
    (hinterims : ∀ head ∈ interims, head.code = 100 ∧ head.scannedReason ≠ [] ∧ head.Legible) :
    ∀ bounded, ∃ found, receive ⟨request, bounded⟩ (interims.flatMap Head.calls)
      = some (⟨request, found⟩, true) := by
  induction interims with
  | nil => exact fun bounded => ⟨bounded, rfl⟩
  | cons head interims ih =>
      intro bounded
      obtain ⟨⟨h100, hreason, hlegible⟩, hlater⟩ := List.forall_mem_cons.mp hinterims
      obtain ⟨found, hlines⟩ := receive_lines hstatus hheaders hlisten hreason hlegible bounded
      have hscanned : ¬ Request.Expecting { request with
          responseCode := head.code, responseReason := head.scannedReason
          headers := HeaderList.empty.pushFields head.fields } :=
        fun hexp => hreason hexp.2
      have hsame : { request with
          responseCode := 0, responseReason := [], headers := HeaderList.empty } = request := by
        rw [← hstatus.1, ← hstatus.2, ← hheaders]
      have hblank := Request.receive_continue hscanned hlisten
        (show ((head.code : ℕ) : ℤ) = 100 by rw [h100]; rfl) head []
      rw [hsame] at hblank
      obtain ⟨again, hend⟩ := receive_of_receive found hblank
      obtain ⟨last, hrest⟩ := ih hlater again
      refine ⟨last, ?_⟩
      rw [List.flatMap_cons, Head.calls, ← List.cons_append, List.append_assoc,
        receive_append hlines]
      exact (receive_append hend).trans hrest

/-- The end of the headers of a response with a boundary. -/
theorem headerCall_blank {arg : ReadMultipartArg} {boundary : Bytes} (bounded : Bool)
    (hstatus : ¬ request.Expecting) (hcode : request.responseCode ≠ 100)
    (hread : request.dataReadCallback = .multipart arg)
    (hfound : responseBoundary request.headers.entries = some (some boundary)) {head : Head}
    (hresponse : head.response = .success) :
    ∃ next, headerCall ⟨request, bounded⟩ head.blankCall
        = some (head.blankCall.line.length, ⟨next, true⟩) ∧
      next.result = request.result ∧
      next.dataReadCallback
        = .multipart { arg with boundary := boundary, boundaryBuffer := [] } := by
  have hcall := Request.headerCall_listening hstatus (.inr ⟨arg, hread⟩) head.blankCall
  rw [Request.parseHeader, head.headerParse_blank, Option.bind_eq_bind, Option.bind_some] at hcall
  simp only at hcall
  rw [if_pos (by rfl), Request.endOfHeaders, if_neg (by exact hcode)] at hcall
  obtain ⟨callback, hcounters, -⟩ :=
    ({ request with headers := request.headers.grow } : Request).updateCounters_eq
  have hboundary : ({ request with headers := request.headers.grow } :
      Request).updateCounters.updateBoundary = some { request with
        headers := request.headers.grow, responseCallback := callback
        dataReadCallback :=
          .multipart { arg with boundary := boundary, boundaryBuffer := [] } } := by
    rw [hcounters, Request.updateBoundary]
    simp only [hread, HeaderList.grow_entries, hfound, Option.bind_eq_bind, Option.bind_some]
  rw [hboundary, Option.bind_eq_bind, Option.bind_some] at hcall
  have hfinds : request.findsBoundary head.blankCall = true := by
    rw [Request.findsBoundary, if_neg hstatus, head.headerParse_blank]
    simp only [HeaderList.grow_entries, hfound]
    rw [decide_eq_true ⟨by rfl, hcode⟩]
    rfl
  have hsize : Request.sizeReply head.blankCall.line.length head.blankCall.response
      = head.blankCall.line.length := Request.sizeReply_eq.mpr hresponse
  refine ⟨{ request with
    headers := request.headers.grow, responseCallback := callback
    dataReadCallback := .multipart { arg with boundary := boundary, boundaryBuffer := [] } },
    ?_, rfl, rfl⟩
  rw [headerCall, hcall, hfinds, Bool.or_true]
  simp only [hsize]
  cases callback <;> rfl

/-- **The headers of a response** with a generated delimiter give it to the multipart reader. -/
theorem receive_related (hstatus : request.Expecting)
    (hheaders : request.headers = HeaderList.empty) {callbacks : List Bool}
    (hread : request.dataReadCallback = .multipart (prepareReadMultipart [] callbacks))
    {interims : List Head}
    (hinterims : ∀ head ∈ interims, head.code = 100 ∧ head.scannedReason ≠ [] ∧ head.Legible)
    {final : Head} (hcode : final.code ≠ 100) (hreason : final.scannedReason ≠ [])
    (hlegible : final.Legible) (hresponse : final.response = .success) {boundary : Bytes}
    (htoken : ∀ b ∈ boundary, isTokenByte b = true)
    (htype : OneContentType (final.fields.map Field.pair) (relatedText boundary)) (bounded : Bool) :
    ∃ next, receive ⟨request, bounded⟩ ((interims ++ [final]).flatMap Head.calls)
        = some (⟨next, true⟩, true) ∧
      next.result = request.result ∧
      next.dataReadCallback = .multipart (prepareReadMultipart boundary callbacks) := by
  have hlisten : request.Listening := .inr ⟨_, hread⟩
  obtain ⟨found, hfirst⟩ := receive_interims hstatus hheaders hlisten hinterims bounded
  obtain ⟨again, hlines⟩ := receive_lines hstatus hheaders hlisten hreason hlegible found
  have hentries : (HeaderList.empty.pushFields final.fields).entries
      = final.fields.map Field.pair := by
    rw [HeaderList.pushFields_entries]
    rfl
  have hscanned : ¬ Request.Expecting { request with
      responseCode := final.code, responseReason := final.scannedReason
      headers := HeaderList.empty.pushFields final.fields } :=
    fun hexp => hreason hexp.2
  have hother : ((final.code : ℕ) : ℤ) ≠ 100 := by exact_mod_cast hcode
  obtain ⟨next, hblank, hresult, hnext⟩ := headerCall_blank again hscanned hother hread
    (by rw [hentries]; exact responseBoundary_related htoken htype) hresponse
  refine ⟨next, ?_, hresult, hnext⟩
  rw [List.flatMap_append, List.flatMap_singleton, receive_append hfirst, Head.calls,
    ← List.cons_append, receive_append hlines, receive, hblank]
  simp only [Option.bind_eq_bind, Option.bind_some, if_true]
  rfl

/-! ### The body of the response -/

variable {heap : Bytes → ℕ → Byte} {arg arg' : ReadMultipartArg}

/-- The reader that has a boundary. -/
theorem read_bounded (hread : reader.request.dataReadCallback = .multipart arg)
    (hbounded : reader.bounded = true) (chunk : Bytes) :
    reader.read heap chunk = arg.readMultipart heap chunk := by
  rw [read, hread]
  exact if_pos (.inl hbounded)

/-- What is behind the last byte is nothing. -/
theorem readMultipart_nil (heap : Bytes → ℕ → Byte) (arg : ReadMultipartArg) :
    arg.readMultipart heap [] = some (.success, arg) :=
  ReadMultipartArg.loop_nil heap (Nat.succ_pos _) arg .success

/-- **A body that is accepted** is fed to the multipart reader. -/
theorem receiveBody_feed {chunks : List Bytes} : ∀ {reader : MultipartRequest}
    {arg : ReadMultipartArg}, reader.request.dataReadCallback = .multipart arg →
    reader.bounded = true → reader.receiveBody heap chunks = some (next, true) →
    ∃ arg', arg.feedChunks heap chunks = some arg' ∧
      next.request.dataReadCallback = .multipart arg' ∧ next.bounded = true := by
  induction chunks with
  | nil =>
      intro reader arg hread hbounded h
      obtain rfl : reader = next := (Prod.mk.inj (Option.some.inj h)).1
      exact ⟨arg, rfl, hread, hbounded⟩
  | cons chunk chunks ih =>
      intro reader arg hread hbounded h
      rw [receiveBody, Option.bind_eq_bind, Option.bind_eq_some_iff] at h
      obtain ⟨⟨value, reader'⟩, hcall, h⟩ := h
      rw [dataCall, Option.bind_eq_bind, Option.bind_eq_some_iff, read_bounded hread hbounded]
        at hcall
      obtain ⟨⟨result, arg'⟩, hfirst, hcall⟩ := hcall
      obtain ⟨-, hreader⟩ := Prod.mk.inj (Option.some.inj hcall)
      have hread' : reader'.request.dataReadCallback = .multipart arg' := by rw [← hreader]
      have hbounded' : reader'.bounded = true := by
        rw [← hreader]
        exact hbounded
      simp only at h
      split_ifs at h with hvalue
      · obtain ⟨last, hrest, hlast⟩ := ih hread' hbounded' h
        refine ⟨last, ?_, hlast⟩
        rw [ReadMultipartArg.feedChunks, hfirst]
        exact hrest
      · cases h

/-- **A request that completes without a failure** has fed the body to its multipart reader. -/
theorem download_fed {calls : List HeaderCall} {chunks : List Bytes} {partCalls : List PartCall}
    (hreceive : reader.receive calls = some (next, true))
    (hread : next.request.dataReadCallback = .multipart arg) (hbounded : next.bounded = true)
    (h : reader.download heap calls chunks = some (.success, partCalls)) :
    ∃ arg', arg.feedChunks heap chunks = some arg' ∧ arg'.calls = partCalls := by
  rw [download, hreceive, Option.bind_eq_bind, Option.bind_some] at h
  simp only [if_true] at h
  rw [Option.bind_eq_bind, Option.bind_eq_some_iff] at h
  obtain ⟨⟨last, accepted⟩, hbody, h⟩ := h
  obtain ⟨⟨finalRead, arg'⟩, hfinal, h⟩ := Option.bind_eq_some_iff.mp h
  obtain ⟨hresult, rfl⟩ := Prod.mk.inj (Option.some.inj h)
  cases accepted with
  | false => exact absurd hresult (last.request.performThread_writeError finalRead)
  | true =>
      obtain ⟨fed, hfed, hlast, hlastBounded⟩ := receiveBody_feed hread hbounded hbody
      rw [read_bounded hlast hlastBounded, readMultipart_nil] at hfinal
      obtain ⟨-, rfl⟩ := Prod.mk.inj (Option.some.inj hfinal)
      exact ⟨fed, hfed, rfl⟩

/-- A body in one piece that the multipart reader accepts makes the request succeed. -/
theorem download_whole {calls : List HeaderCall} {chunk : Bytes}
    (hreceive : reader.receive calls = some (next, true))
    (hread : next.request.dataReadCallback = .multipart arg) (hbounded : next.bounded = true)
    (hresult : next.request.result = .success) (hfits : chunk.length < word)
    (h : arg.readMultipart heap chunk = some (.success, arg')) :
    reader.download heap calls [chunk] = some (.success, arg'.calls) := by
  have hvalue : (next.request.writeData chunk 1 chunk.length .success).value = chunk.length := by
    rw [Request.writeData, hread, Request.mul64_one hfits]
    rfl
  have hlatched : (next.request.writeData chunk 1 chunk.length .success).request.result
      = .success := by
    rw [Request.writeData, hread]
    exact Result.latch_eq_success.mpr ⟨hresult, rfl⟩
  obtain ⟨last, hbody, hlast, hlastBounded, hlastResult⟩ : ∃ last,
      next.receiveBody heap [chunk] = some (last, true) ∧
      last.request.dataReadCallback = .multipart arg' ∧ last.bounded = true ∧
      last.request.result = .success := by
    refine ⟨{ next with request :=
      { (next.request.writeData chunk 1 chunk.length .success).request with
        dataReadCallback := .multipart arg' } }, ?_, rfl, hbounded, hlatched⟩
    rw [receiveBody, dataCall, read_bounded hread hbounded, h]
    simp only [Option.bind_eq_bind, Option.bind_some, hvalue, if_true]
    rfl
  have hthread : last.request.performThread 0 .success = .success := by
    rw [Request.performThread_zero (by rw [hlast]; exact ReadCallback.noConfusion)]
    exact Result.latch_eq_success.mpr ⟨hlastResult, rfl⟩
  rw [download, hreceive, Option.bind_eq_bind, Option.bind_some]
  simp only [if_true, hbody, Option.bind_eq_bind, Option.bind_some]
  rw [read_bounded hlast hlastBounded, readMultipart_nil, Option.bind_some, hthread]

end MultipartRequest

/-! ### Messages that travel -/

variable {J : Type}

/-- A generated delimiter is a token. -/
theorem isTokenByte_uuidBoundary {text : Bytes} (h : ∀ b ∈ text, isTokenByte b = true) :
    ∀ b ∈ uuidBoundary text, isTokenByte b = true := by
  rw [uuidBoundary]
  exact List.forall_mem_append.mpr ⟨by decide +kernel, h⟩

/-- The content type of the message `twoValues` is a header line. -/
theorem relatedField_spec :
    bytes "Content-Type" ≠ [] ∧ colon ∉ bytes "Content-Type" ∧ cr ∉ bytes "Content-Type" ∧
      0 ∉ bytes "Content-Type" ∧ (∀ b ∈ [space], b = space ∨ b = tab) ∧
      (∀ b ∈ (relatedText (bytes "globus_")).head?, isHeaderSpace b = false) ∧
      cr ∉ relatedText (bytes "globus_") ∧ 0 ∉ relatedText (bytes "globus_") ∧
      (bytes "Content-Type" ++ [colon] ++ [space] ++ relatedText (bytes "globus_") ++ crlf).length
        < word := by
  decide +kernel

/-- A header field with that content type. -/
def relatedField : Field :=
  have h := relatedField_spec
  ⟨bytes "Content-Type", [space], relatedText (bytes "globus_"), [], h.1, h.2.1, h.2.2.1,
    h.2.2.2.1, h.2.2.2.2.1, h.2.2.2.2.2.1, h.2.2.2.2.2.2.1, h.2.2.2.2.2.2.2.1,
    h.2.2.2.2.2.2.2.2⟩

/-- The head of a response with that field. -/
def relatedHead : Head :=
  { Request.done with fields := [relatedField] }

/-- A request that reads a message of two parts. -/
def twoPartRequest : Request :=
  ⟨.success, 0, [], 0, 0, false, .multipart (prepareReadMultipart [] [true, true]),
    HeaderList.empty, .none, false⟩

end DsiRest
