import DsiRest.Request

/-!
# Response Heads

libcurl hands the lines of a response to `Request.header` one by one: for every response
its status line, its header fields and an empty line, first those of interim responses and
then those of the final one. It stops when a call does not return the length of the line.

A `Field` is a well-formed header line and a `Head` a well-formed response head; the bytes
that follow a line in memory are part of them, since the parser may look at these.
`Request.receive` makes the calls and records what the response callback is called with.

## Main results

* `Field.headerParse_line` — what the parser makes of a header field.
* `Head.scanStatusLine_eq` — what the scanner makes of a status line.
* `Request.receive_deaf` — without callbacks for headers only the first line matters.
* `Request.receive_status`, `Request.receive_fields`, `Request.receive_continue`,
  `Request.receive_response` — the lines of a head.
-/

namespace DsiRest

/-! ### Calls -/

/-- A call of `globus_i_dsi_rest_header`: the line, what follows it in memory, and what
the response callback returns if it is called. -/
structure HeaderCall where
  line : Bytes
  after : Bytes
  response : Result
  fits : line.length < word

/-- `CURLE_WRITE_ERROR`. -/
def writeError : ℕ := 23

/-- What a response callback is called with. -/
structure Heard where
  responseCode : ℤ
  responseReason : Bytes
  headers : KeyArray
  deriving DecidableEq

/-- A call made for a line. -/
def Request.headerCall (request : Request) (call : HeaderCall) : Option Response :=
  request.header (call.line ++ call.after) 1 call.line.length call.response

/-- What the response callback is called with while a line is processed, if it is. -/
def Request.heard (request : Request) (call : HeaderCall) : Option Heard :=
  if request.responseCode = 0 ∧ request.responseReason = [] then none
  else match request.responseCallback with
    | .none => none
    | _ =>
      match headerParse request.headers (call.line ++ call.after) call.line.length with
      | some (.success, headers) =>
        if (call.line ++ call.after).take 2 = crlf ∧ request.responseCode ≠ 100 then
          some ⟨request.responseCode, request.responseReason, headers.entries⟩
        else none
      | _ => none

/-- What the calls for lines lead to: the request, whether all calls were accepted, and
what the response callback was called with during each. -/
structure Reception where
  request : Request
  accepted : Bool
  heard : List (Option Heard)

/-- libcurl hands over lines until a call is refused. -/
def Request.receive : Request → List HeaderCall → Option Reception
  | request, [] => some ⟨request, true, []⟩
  | request, call :: calls => do
    let response ← request.headerCall call
    if response.value = call.line.length then
      let rest ← receive response.request calls
      some { rest with heard := request.heard call :: rest.heard }
    else some ⟨response.request, false, [request.heard call]⟩

/-- Receptions after some calls were made already. -/
def Reception.prepend (heard : List (Option Heard)) (r : Reception) : Reception :=
  { r with heard := heard ++ r.heard }

@[simp] theorem Reception.prepend_prepend (xs ys : List (Option Heard)) (r : Reception) :
    (r.prepend ys).prepend xs = r.prepend (xs ++ ys) := by
  simp [prepend]

namespace Request

variable {request request' : Request} {call : HeaderCall} {result : Result}

/-- After a call that is accepted the next one is made. -/
theorem receive_accepted
    (h : request.headerCall call = some ⟨call.line.length, result, request'⟩)
    (calls : List HeaderCall) :
    request.receive (call :: calls)
      = (request'.receive calls).map (Reception.prepend [request.heard call]) := by
  rw [receive, h]
  simp only [Option.bind_eq_bind, Option.bind_some, if_true]
  cases request'.receive calls <;> rfl

/-- After a call that is refused there are no more. -/
theorem receive_refused {value : ℕ} (h : request.headerCall call = some ⟨value, result, request'⟩)
    (hvalue : value ≠ call.line.length) (calls : List HeaderCall) :
    request.receive (call :: calls) = some ⟨request', false, [request.heard call]⟩ := by
  rw [receive, h]
  simp only [Option.bind_eq_bind, Option.bind_some, if_neg hvalue]

/-- A call without defined behaviour. -/
theorem receive_undefined (h : request.headerCall call = none) (calls : List HeaderCall) :
    request.receive (call :: calls) = none := by
  rw [receive, h]
  rfl

/-- A callback returns the size of the data exactly for a success. -/
theorem sizeReply_eq {total : ℕ} : sizeReply total result = total ↔ result = .success := by
  rw [sizeReply, notSize]
  by_cases h : result = .success
  · simp [h]
  · simp only [h, if_false, iff_false]
    split <;> omega

/-- What a callback returns for a failure is not the size of the data. -/
theorem notSize_ne (total : ℕ) : notSize total ≠ total := by
  rw [notSize]
  split <;> omega

/-- A request that failed to receive something completes with a failure. -/
theorem performThread_writeError (request : Request) (finalRead : Result) :
    request.performThread writeError finalRead ≠ .success := by
  have hresult : (request.perform writeError finalRead).1
      = request.result.latch (.error (.curl writeError)) := rfl
  have hlast : (request.perform writeError finalRead).2.result
      = request.result.latch (.error (.curl writeError)) := rfl
  have hne : request.result.latch (.error (.curl writeError)) ≠ .success := by
    rw [Ne, Result.latch_eq_success]
    simp
  simp only [performThread, hresult, hlast, if_pos hne]
  exact hne

end Request

/-! ### Header fields -/

/-- A header line with a name, and what follows it in memory. -/
structure Field where
  key : Bytes
  padding : Bytes
  value : Bytes
  after : Bytes
  keyNonempty : key ≠ []
  keyColon : colon ∉ key
  keyCr : cr ∉ key
  keyNul : 0 ∉ key
  paddingSpace : ∀ b ∈ padding, b = space ∨ b = tab
  valueStart : ∀ b ∈ value.head?, isHeaderSpace b = false
  valueCr : cr ∉ value
  valueNul : 0 ∉ value
  fits : (key ++ [colon] ++ padding ++ value ++ crlf).length < word

namespace Field

/-- The line. -/
def line (f : Field) : Bytes :=
  f.key ++ [colon] ++ f.padding ++ f.value ++ crlf

/-- The call for the line. -/
def call (f : Field) : HeaderCall :=
  ⟨f.line, f.after, .success, f.fits⟩

/-- The header the line stands for. -/
def pair (f : Field) : KeyValue :=
  .pair f.key f.value

/-- The parser does not leave the line: the value is not empty, or no white space follows
the line in memory. -/
def Legible (f : Field) : Prop :=
  f.value ≠ [] ∨ ∀ b ∈ f.after.head?, isHeaderSpace b = false

instance (f : Field) : Decidable f.Legible := inferInstanceAs (Decidable (_ ∨ _))

/-- The line does not look like the end of the headers. -/
theorem take_two (f : Field) : (f.line ++ f.after).take 2 ≠ crlf := by
  obtain ⟨b, key, hkey⟩ := List.exists_cons_of_ne_nil f.keyNonempty
  intro h
  have hcr := f.keyCr
  rw [line, hkey] at h
  rw [hkey] at hcr
  have hfirst : b = cr := (List.cons.inj h).1
  exact hcr (hfirst ▸ List.mem_cons_self)

/-- The name ends at the colon. -/
theorem line_eq (f : Field) : f.line = f.key ++ colon :: (f.padding ++ (f.value ++ crlf)) := by
  simp [line]

theorem isHeaderSpace_padding (f : Field) : ∀ b ∈ f.padding, isHeaderSpace b = true := by
  intro b hb
  rcases f.paddingSpace b hb with rfl | rfl <;> rfl

/-- The value is cut at the end of the line. -/
theorem takeWhile_value (f : Field) :
    (cstr (f.value ++ crlf)).takeWhile (· != cr) = f.value := by
  have hnul : 0 ∉ f.value ++ crlf := by
    rw [List.mem_append, not_or]
    exact ⟨f.valueNul, by decide⟩
  have htext : ∀ b ∈ f.value, (b != cr) = true := by
    intro b hb
    simpa using fun hc : b = cr => f.valueCr (hc ▸ hb)
  rw [cstr_eq_self hnul, List.takeWhile_append_of_pos htext,
    List.takeWhile_cons_of_neg (by decide), List.append_nil]

/-- A line without a value is legible if the white space ends with it. -/
theorem legible_iff {f : Field} (h : f.value = []) :
    f.Legible ↔ f.after.takeWhile isHeaderSpace = [] := by
  rw [Legible]
  cases f.after with
  | nil => simp
  | cons b after =>
      by_cases hb : isHeaderSpace b = true
      · simp [h, hb]
      · simp [hb]

/-- What the parser makes of the line. -/
theorem headerParse_line (f : Field) (headers : HeaderList) :
    headerParse headers (f.line ++ f.after) f.line.length
      = if f.Legible then
          some (.success, headers.grow.push f.pair headers.length_lt_capacity_grow)
        else none := by
  rw [f.line_eq, pair]
  by_cases hnil : f.value = []
  · -- the white space in front of a value takes in the end of the line
    have hspace : ∀ b ∈ f.padding ++ crlf, isHeaderSpace b = true := by
      rw [List.forall_mem_append]
      exact ⟨f.isHeaderSpace_padding, by simp [crlf, isHeaderSpace]⟩
    rw [hnil, List.nil_append]
    generalize f.padding ++ crlf = blank at hspace ⊢
    rw [headerParse_split f.keyNonempty f.keyColon, List.takeWhile_append_of_pos hspace,
      List.length_append, cstr_eq_self f.keyNul]
    by_cases hend : f.after.takeWhile isHeaderSpace = []
    · rw [hend, if_neg (by simp), if_pos ((legible_iff hnil).mpr hend), List.length_nil,
        Nat.add_zero, Nat.sub_self, List.take_zero]
      rfl
    · have hpos := List.length_pos_iff.mpr hend
      rw [if_pos (by omega), if_neg fun h => hend ((legible_iff hnil).mp h)]
  · have hstart : ∀ b ∈ (f.value ++ crlf).head?, isHeaderSpace b = false := by
      rw [List.head?_append_of_ne_nil _ hnil]
      exact f.valueStart
    have hlegible : f.Legible := Or.inl hnil
    rw [headerParse_solid f.keyNonempty f.keyColon f.isHeaderSpace_padding hstart
      (List.append_ne_nil_of_left_ne_nil hnil _), f.takeWhile_value, cstr_eq_self f.keyNul,
      if_pos hlegible]

end Field

/-! ### Status lines -/

/-- A decimal digit. -/
def digit (n : ℕ) : Byte :=
  UInt8.ofNat (48 + n)

/-- The digits of a status code. -/
def statusDigits (code : ℕ) : Bytes :=
  [digit (code / 100), digit (code / 10 % 10), digit (code % 10)]

/-- The first line of a response. -/
def statusText (version : Bytes) (code : ℕ) (reason : Bytes) : Bytes :=
  bytes "HTTP/" ++ version ++ [space] ++ statusDigits code ++ [space] ++ reason ++ crlf

/-- The head of a response: what its status line consists of, its header fields, what
follows its first and last lines in memory, and what the response callback returns if it is
called at its end. -/
structure Head where
  version : Bytes
  code : ℕ
  reason : Bytes
  fields : List Field
  statusAfter : Bytes
  blankAfter : Bytes
  response : Result
  versionNonempty : version ≠ []
  versionSpace : ∀ b ∈ version, isSpace b = false
  versionNul : 0 ∉ version
  codeDigits : 100 ≤ code ∧ code < 1000
  reasonCr : cr ∉ reason
  reasonNul : 0 ∉ reason
  fits : (statusText version code reason).length < word

theorem version_ne_nil : bytes "1.1" ≠ [] := by decide

/-- The version `1.1` has no white space. -/
theorem version_isSpace : ∀ b ∈ bytes "1.1", isSpace b = false := by decide +kernel

theorem nul_notMem_version : 0 ∉ bytes "1.1" := by decide

/-- A 100 Continue response without fields. -/
def Head.goOn : Head :=
  ⟨bytes "1.1", 100, bytes "Continue", [], [], [], .success, version_ne_nil, version_isSpace,
    nul_notMem_version, by decide, by decide, by decide, by decide⟩

/-- The empty line is no longer than a `size_t` counts. -/
theorem crlf_fits : crlf.length < word := by decide

/-- A decimal digit is no sign, no white space and no NUL. -/
theorem digit_spec : ∀ n < 10, (48 ≤ digit n ∧ digit n ≤ 57) ∧ digit n ≠ 45 ∧ digit n ≠ 43 ∧
    isSpace (digit n) = false ∧ digit n ≠ 0 ∧ (digit n).toNat = 48 + n := by
  decide

/-- A three-digit number is scanned. -/
theorem scanInt_statusDigits {code : ℕ} (h : 100 ≤ code ∧ code < 1000) (rest : Bytes) :
    scanInt (statusDigits code ++ space :: rest) = some ((code : ℤ), space :: rest) := by
  obtain ⟨hdigit₁, hminus, hplus, -, -, hval₁⟩ := digit_spec (code / 100) (by omega)
  obtain ⟨hdigit₂, -, -, -, -, hval₂⟩ := digit_spec (code / 10 % 10) (by omega)
  obtain ⟨hdigit₃, -, -, -, -, hval₃⟩ := digit_spec (code % 10) (by omega)
  have hnumber : (statusDigits code ++ space :: rest).takeWhile
      (fun b => decide (48 ≤ b ∧ b ≤ 57)) = statusDigits code := by
    rw [List.takeWhile_append_of_pos, List.takeWhile_cons_of_neg (by decide), List.append_nil]
    simp [statusDigits, hdigit₁, hdigit₂, hdigit₃]
  have hfirst : (statusDigits code ++ space :: rest).head?
      = some (digit (code / 100)) := rfl
  have hsign : ((statusDigits code ++ space :: rest).head? == some 45) = false := by
    simpa [hfirst] using hminus
  have hsign' : ((statusDigits code ++ space :: rest).head? == some 43) = false := by
    simpa [hfirst] using hplus
  have hvalue : (statusDigits code).foldl (fun (n : ℤ) b => 10 * n + ((b.toNat : ℤ) - 48)) 0
      = (code : ℤ) := by
    simp only [statusDigits, List.foldl_cons, List.foldl_nil, hval₁, hval₂, hval₃]
    omega
  have hsaturated : (max (-2 ^ 63) (min (2 ^ 63 - 1) (code : ℤ))).bmod (2 ^ 32) = (code : ℤ) := by
    rw [show max (-2 ^ 63) (min (2 ^ 63 - 1) (code : ℤ)) = (code : ℤ) by omega]
    exact Int.bmod_eq_of_le (by omega) (by omega)
  rw [scanInt]
  simp only [hsign, hsign', Bool.or_self, Bool.false_eq_true, if_false, hnumber, hvalue, hsaturated]
  rw [if_neg (by exact List.cons_ne_nil _ _), List.drop_left]

/-- What the scanner makes of a status line with any text behind its code. -/
theorem scanStatusLine_text {version : Bytes} {code : ℕ} (hversion : version ≠ [])
    (hspace : ∀ b ∈ version, isSpace b = false) (hcode : 100 ≤ code ∧ code < 1000) (text : Bytes) :
    scanStatusLine (bytes "HTTP/" ++ version ++ [space] ++ statusDigits code ++ [space] ++ text)
      = (some (code : ℤ), if ((text.dropWhile isSpace).takeWhile (· != cr)).take 64 = [] then none
          else some (((text.dropWhile isSpace).takeWhile (· != cr)).take 64)) := by
  obtain ⟨v, vs, hv⟩ := List.exists_cons_of_ne_nil hversion
  obtain ⟨-, -, -, hdigit, -, -⟩ := digit_spec (code / 100) (by omega)
  have hprefix : (bytes "HTTP/").isPrefixOf
      (bytes "HTTP/" ++ version ++ [space] ++ statusDigits code ++ [space] ++ text) = true := by
    rw [List.isPrefixOf_iff_prefix]
    simp only [List.append_assoc]
    exact List.prefix_append _ _
  have hprotocol : ((bytes "HTTP/" ++ version ++ [space] ++ statusDigits code ++ [space]
      ++ text).drop 5).dropWhile isSpace
        = version ++ space :: (statusDigits code ++ space :: text) := by
    have hdrop : (bytes "HTTP/" ++ version ++ [space] ++ statusDigits code ++ [space] ++ text).drop 5
        = version ++ space :: (statusDigits code ++ space :: text) := by
      simp [bytes]
    have hfirst := hspace v (by rw [hv]; exact List.mem_cons_self)
    rw [hdrop, hv, List.cons_append, List.dropWhile_cons_of_neg (by simp [hfirst])]
  have htake : (version ++ space :: (statusDigits code ++ space :: text)).takeWhile
      (fun b => !isSpace b) = version := by
    rw [List.takeWhile_append_of_pos fun b hb => by simp [hspace b hb],
      List.takeWhile_cons_of_neg (by decide), List.append_nil]
  have hdigits : (space :: (statusDigits code ++ space :: text)).dropWhile isSpace
      = statusDigits code ++ space :: text := by
    rw [List.dropWhile_cons_of_pos (by decide)]
    exact List.dropWhile_cons_of_neg (by simp [hdigit])
  have htext : (space :: text).dropWhile isSpace = text.dropWhile isSpace :=
    List.dropWhile_cons_of_pos (by decide)
  rw [scanStatusLine, if_pos hprefix]
  simp only [hprotocol, htake, List.drop_left, hdigits, scanInt_statusDigits hcode, htext,
    if_neg hversion]

/-- White space with a CR in front does not get into a reason. -/
theorem scan_reason {reason tail : Bytes} (hreason : cr ∉ reason)
    (htail : ∀ b ∈ tail, isSpace b = true) (hfirst : ∀ b ∈ tail.head?, b = cr) :
    ((reason ++ tail).dropWhile isSpace).takeWhile (· != cr) = reason.dropWhile isSpace := by
  have hcr : ∀ b ∈ reason.dropWhile isSpace, (b != cr) = true := by
    intro b hb
    simpa using fun hc : b = cr => hreason (hc ▸ (List.dropWhile_sublist _).subset hb)
  rw [List.dropWhile_append]
  split
  · rename_i hblank
    rw [List.isEmpty_iff.mp hblank, List.dropWhile_eq_nil_iff.mpr htail, List.takeWhile_nil]
  · rw [List.takeWhile_append_of_pos hcr]
    cases tail with
    | nil => exact List.append_nil _
    | cons b tail =>
        obtain rfl := hfirst b rfl
        rw [List.takeWhile_cons_of_neg (by decide), List.append_nil]

namespace Head

/-- The status line. -/
def statusLine (h : Head) : Bytes :=
  statusText h.version h.code h.reason

/-- The reason phrase as far as it is stored: behind its white space, at most 64 bytes. -/
def scannedReason (h : Head) : Bytes :=
  (h.reason.dropWhile isSpace).take 64

/-- **A status line is scanned** into its code and reason, unless the reason is blank. -/
theorem scanStatusLine_eq (h : Head) :
    scanStatusLine h.statusLine
      = (some (h.code : ℤ), if h.scannedReason = [] then none else some h.scannedReason) := by
  rw [statusLine, statusText, List.append_assoc _ h.reason,
    scanStatusLine_text h.versionNonempty h.versionSpace h.codeDigits,
    scan_reason h.reasonCr (by decide +kernel) (by decide +kernel)]
  rfl

/-- No NUL cuts the status line short. -/
theorem nul_notMem_statusLine (h : Head) : 0 ∉ h.statusLine := by
  have hcode := h.codeDigits
  obtain ⟨-, -, -, -, h₁, -⟩ := digit_spec (h.code / 100) (by omega)
  obtain ⟨-, -, -, -, h₂, -⟩ := digit_spec (h.code / 10 % 10) (by omega)
  obtain ⟨-, -, -, -, h₃, -⟩ := digit_spec (h.code % 10) (by omega)
  simp only [statusLine, statusText, statusDigits, List.mem_append, List.mem_cons, not_or]
  exact ⟨⟨⟨⟨⟨⟨by decide, h.versionNul⟩, by decide, List.not_mem_nil⟩,
    h₁.symm, h₂.symm, h₃.symm, List.not_mem_nil⟩, by decide, List.not_mem_nil⟩, h.reasonNul⟩,
    by decide, by decide, List.not_mem_nil⟩

/-- The call for the status line. -/
def statusCall (h : Head) : HeaderCall :=
  ⟨h.statusLine, h.statusAfter, .success, h.fits⟩

/-- The call for the empty line. -/
def blankCall (h : Head) : HeaderCall :=
  ⟨crlf, h.blankAfter, h.response, crlf_fits⟩

/-- The status line does not look like the end of the headers. -/
theorem take_two (h : Head) : (h.statusLine ++ h.statusAfter).take 2 ≠ crlf := by
  intro htake
  have hfirst : (72 : Byte) = cr := (List.cons.inj htake).1
  exact absurd hfirst (by decide)

/-- A status line that is taken for a header has a name in front of its colon, if any. -/
theorem headerParse_status {h : Head} {headers headers' : HeaderList} {result : Result}
    (hparse : headerParse headers (h.statusLine ++ h.statusAfter) h.statusLine.length
      = some (result, headers')) : result = .success := by
  have hne : ((h.statusLine ++ h.statusAfter).take h.statusLine.length).findIdx? (· == colon)
      ≠ some 0 := by
    rw [List.take_left]
    intro hzero
    obtain ⟨hlt, hcolon, -⟩ := List.findIdx?_eq_some_iff_getElem.mp hzero
    have hfirst : h.statusLine[0] = 72 := rfl
    rw [hfirst] at hcolon
    exact absurd hcolon (by decide)
  rw [headerParse] at hparse
  split at hparse
  · exact (Prod.mk.inj (Option.some.inj hparse)).1.symm
  · exact absurd ‹_› hne
  · simp only at hparse
    split at hparse
    · exact absurd hparse (by simp)
    · exact (Prod.mk.inj (Option.some.inj hparse)).1.symm

/-- The empty line is parsed without adding a header. -/
theorem headerParse_blank (h : Head) (headers : HeaderList) :
    headerParse headers (h.blankCall.line ++ h.blankCall.after) h.blankCall.line.length
      = some (.success, headers.grow) :=
  headerParse_of_no_colon (by
    rw [List.take_left]
    show colon ∉ crlf
    decide)

/-- The parser does not leave a header line of the head. -/
def Legible (h : Head) : Prop :=
  ∀ f ∈ h.fields, f.Legible

instance (h : Head) : Decidable h.Legible := inferInstanceAs (Decidable (∀ f ∈ h.fields, _))

/-- The calls for the lines of the head. -/
def calls (h : Head) : List HeaderCall :=
  h.statusCall :: (h.fields.map Field.call ++ [h.blankCall])

end Head

/-! ### The lines of a head -/

/-- The headers after those of some fields were added. -/
def HeaderList.pushFields (headers : HeaderList) (fields : List Field) : HeaderList :=
  fields.foldl (fun headers f => headers.grow.push f.pair headers.length_lt_capacity_grow) headers

@[simp] theorem HeaderList.pushFields_entries (headers : HeaderList) (fields : List Field) :
    (headers.pushFields fields).entries = headers.entries ++ fields.map Field.pair := by
  induction fields generalizing headers with
  | nil => simp [pushFields]
  | cons f fields ih =>
      have hstep : headers.pushFields (f :: fields)
          = (headers.grow.push f.pair headers.length_lt_capacity_grow).pushFields fields := rfl
      rw [hstep, ih]
      simp

namespace Request

/-- The next line is taken for a status line. -/
abbrev Expecting (request : Request) : Prop :=
  request.responseCode = 0 ∧ request.responseReason = []

/-- Header lines are parsed: the client wants them, or the multipart reader does. -/
def Listening (request : Request) : Prop :=
  request.responseCallback ≠ .none ∨ ∃ arg, request.dataReadCallback = .multipart arg

/-- The size of a line does not wrap. -/
theorem mul64_one {n : ℕ} (h : n < word) : mul64 1 n = n := by
  rw [mul64, Nat.one_mul, Nat.mod_eq_of_lt h]

/-- What `header` does with a line that it parses. -/
def parseHeader (request : Request) (memory : Bytes) (total : ℕ) (response : Result) :
    Option Response := do
  let (result, headers) ← headerParse request.headers memory total
  let parsed := { request with headers := headers }
  match result with
  | .error e => some ⟨notSize total, .error e, parsed.record (.error e)⟩
  | .success =>
    if memory.take 2 = crlf then parsed.endOfHeaders total response
    else some ⟨total, .success, parsed⟩

/-- A line behind the status line of a request that listens. -/
theorem headerCall_listening {request : Request} (hstatus : ¬ request.Expecting)
    (hlisten : request.Listening) (call : HeaderCall) :
    request.headerCall call
      = request.parseHeader (call.line ++ call.after) call.line.length call.response := by
  rw [headerCall, header, if_neg hstatus, mul64_one call.fits]
  rcases hlisten with hcallback | ⟨arg, hread⟩
  · split
    · exact absurd ‹_› hcallback
    · exact absurd ‹_› hcallback
    · exact absurd ‹_› hcallback
    · rfl
  · split
    case h_1 hkind | h_2 hkind | h_3 hkind => exact absurd (hread.symm.trans hkind) (by simp)
    case h_4 => rfl

/-- A line behind the status line of a request that does not listen. -/
theorem headerCall_deaf {request : Request} (hstatus : ¬ request.Expecting)
    (hdeaf : ¬ request.Listening) (call : HeaderCall) :
    request.headerCall call = some ⟨call.line.length, .success, request⟩ := by
  obtain ⟨hcallback, hread⟩ := not_or.mp hdeaf
  rw [headerCall, header, if_neg hstatus, mul64_one call.fits, not_not.mp hcallback]
  cases hkind : request.dataReadCallback with
  | none => rfl
  | gridftpOp => rfl
  | client => rfl
  | multipart arg => exact absurd ⟨arg, hkind⟩ hread

/-- **Without callbacks for headers** only the status line is looked at. -/
theorem receive_deaf {request : Request} (hstatus : ¬ request.Expecting)
    (hdeaf : ¬ request.Listening) (calls : List HeaderCall) :
    request.receive calls = some ⟨request, true, List.replicate calls.length none⟩ := by
  induction calls with
  | nil => rfl
  | cons call calls ih =>
      have hheard : request.heard call = none := by
        rw [heard, if_neg hstatus, not_not.mp (not_or.mp hdeaf).1]
      rw [receive, headerCall_deaf hstatus hdeaf]
      simp only [Option.bind_eq_bind, Option.bind_some, if_true, ih, hheard]
      rfl

/-- The status line. -/
theorem receive_status {request : Request} (hstatus : request.Expecting) (h : Head)
    (calls : List HeaderCall) :
    request.receive (h.statusCall :: calls)
      = if h.scannedReason = [] then
          some ⟨{ request with responseCode := h.code }, false, [none]⟩
        else (Request.receive { request with
          responseCode := h.code, responseReason := h.scannedReason } calls).map
            (Reception.prepend [none]) := by
  have hheard : request.heard h.statusCall = none := if_pos hstatus
  have hcall : request.headerCall h.statusCall
      = some (request.statusLine h.statusLine h.statusCall.line.length) := by
    rw [headerCall, header, if_pos hstatus, mul64_one h.statusCall.fits, List.take_left,
      show h.statusCall.line = h.statusLine from rfl, cstr_eq_self h.nul_notMem_statusLine]
  rw [statusLine, h.scanStatusLine_eq] at hcall
  by_cases hblank : h.scannedReason = []
  · rw [if_pos hblank] at hcall ⊢
    have hrefused : request.headerCall h.statusCall = some ⟨notSize h.statusCall.line.length,
        .error (.parse h.statusLine), { request with responseCode := h.code }⟩ := hcall
    rw [receive_refused hrefused (notSize_ne _), hheard]
  · rw [if_neg hblank] at hcall ⊢
    have haccepted : request.headerCall h.statusCall = some ⟨h.statusCall.line.length, .success,
        { request with responseCode := h.code, responseReason := h.scannedReason }⟩ := hcall
    rw [receive_accepted haccepted, hheard]

/-- During a line that does not look like the end of the headers nothing is called. -/
theorem heard_of_ne_crlf {request : Request} {call : HeaderCall}
    (h : (call.line ++ call.after).take 2 ≠ crlf) : request.heard call = none := by
  rw [heard]
  split
  · rfl
  · split
    · rfl
    · split
      · exact if_neg fun hend => h hend.1
      · rfl

/-- Behind a 100 Continue nothing is called. -/
theorem heard_of_continue {request : Request} {call : HeaderCall}
    (h : request.responseCode = 100) : request.heard call = none := by
  rw [heard]
  split
  · rfl
  · split
    · rfl
    · split
      · exact if_neg fun hend => hend.2 h
      · rfl

/-- Behind any other head the response callback is called. -/
theorem heard_blank {request : Request} (hstatus : ¬ request.Expecting)
    (h100 : request.responseCode ≠ 100) (hcallback : request.responseCallback ≠ .none) (h : Head) :
    request.heard h.blankCall
      = some ⟨request.responseCode, request.responseReason, request.headers.entries⟩ := by
  rw [heard, if_neg hstatus, h.headerParse_blank]
  split
  · exact absurd ‹_› hcallback
  · simp only [HeaderList.grow_entries]
    exact if_pos ⟨rfl, h100⟩

section Listening

variable {request : Request} (hstatus : ¬ request.Expecting) (hlisten : request.Listening)

include hstatus hlisten

/-- The header fields. -/
theorem receive_fields (fields : List Field) (calls : List HeaderCall) :
    request.receive (fields.map Field.call ++ calls)
      = if ∀ f ∈ fields, f.Legible then
          (Request.receive { request with headers := request.headers.pushFields fields } calls).map
            (Reception.prepend (List.replicate fields.length none))
        else none := by
  induction fields generalizing request with
  | nil =>
      rw [if_pos fun f hf => absurd hf List.not_mem_nil]
      show request.receive calls = (request.receive calls).map _
      cases request.receive calls <;> rfl
  | cons f fields ih =>
      have hcall := headerCall_listening hstatus hlisten f.call
      rw [parseHeader, show f.call.line = f.line from rfl, show f.call.after = f.after from rfl,
        f.headerParse_line] at hcall
      by_cases hf : f.Legible
      · rw [if_pos hf] at hcall
        simp only [Option.bind_eq_bind, Option.bind_some, if_neg f.take_two] at hcall
        rw [List.map_cons, List.cons_append, receive_accepted hcall, heard_of_ne_crlf f.take_two,
          ih (by exact hstatus) (by exact hlisten)]
        by_cases hall : ∀ f ∈ fields, f.Legible
        · rw [if_pos hall, if_pos (List.forall_mem_cons.mpr ⟨hf, hall⟩), Option.map_map]
          rfl
        · rw [if_neg hall, if_neg fun h => hall (List.forall_mem_cons.mp h).2]
          rfl
      · rw [if_neg hf] at hcall
        rw [List.map_cons, List.cons_append, receive_undefined hcall,
          if_neg fun hall => hf (hall f List.mem_cons_self)]

/-- The empty line behind a 100 Continue. -/
theorem receive_continue (h100 : request.responseCode = 100) (h : Head)
    (calls : List HeaderCall) :
    request.receive (h.blankCall :: calls)
      = (Request.receive { request with
          responseCode := 0, responseReason := [], headers := HeaderList.empty } calls).map
            (Reception.prepend [none]) := by
  have hcall := headerCall_listening hstatus hlisten h.blankCall
  rw [parseHeader, h.headerParse_blank] at hcall
  simp only [Option.bind_eq_bind, Option.bind_some] at hcall
  rw [if_pos (by rfl), endOfHeaders, if_pos (by exact h100)] at hcall
  rw [receive_accepted hcall, heard_of_continue h100]

/-- The empty line behind any other head, if there is a response callback. -/
theorem receive_response (h100 : request.responseCode ≠ 100)
    (hcallback : request.responseCallback ≠ .none) (h : Head) (calls : List HeaderCall) :
    request.receive (h.blankCall :: calls)
      = ({ request with headers := request.headers.grow } : Request).updateCounters.updateBoundary.bind
          fun last => if h.response = .success then (last.receive calls).map (Reception.prepend
              [some ⟨request.responseCode, request.responseReason, request.headers.entries⟩])
            else some ⟨last, false,
              [some ⟨request.responseCode, request.responseReason, request.headers.entries⟩]⟩ := by
  have hcall := headerCall_listening hstatus hlisten h.blankCall
  rw [parseHeader, h.headerParse_blank] at hcall
  simp only [Option.bind_eq_bind, Option.bind_some] at hcall
  rw [if_pos (by rfl), endOfHeaders, if_neg (by exact h100)] at hcall
  have hheard := heard_blank hstatus h100 hcallback h
  cases hboundary : ({ request with headers := request.headers.grow } :
      Request).updateCounters.updateBoundary with
  | none =>
      rw [hboundary] at hcall
      exact receive_undefined hcall calls
  | some last =>
      have hkept : last.responseCallback ≠ .none := by
        rw [(updateBoundary_spec hboundary).2, Ne, updateCounters_responseCallback]
        exact hcallback
      have hanswer : request.headerCall h.blankCall
          = some ⟨sizeReply h.blankCall.line.length h.response, h.response, last⟩ := by
        rw [hcall, hboundary]
        rw [Option.bind_eq_bind, Option.bind_some]
        split
        · exact absurd ‹_› hkept
        · rfl
      rw [Option.bind_some]
      by_cases hok : h.response = .success
      · rw [if_pos hok]
        rw [hok, sizeReply, if_pos rfl] at hanswer
        rw [receive_accepted hanswer, hheard]
      · rw [if_neg hok]
        rw [receive_refused hanswer (fun hsize => hok (sizeReply_eq.mp hsize)), hheard]

end Listening

end Request

end DsiRest
