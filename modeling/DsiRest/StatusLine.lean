import DsiRest.ResponseHead

/-!
# Status Lines

`globus_i_dsi_rest_header` takes the first line of a response apart with `sscanf`. The format
is `HTTP/%*s %d %64[^\r]`, and the array of the reason phrase has 64 bytes. The white space in
the format skips white space at the front of the reason; the scan set needs at least one byte;
and its width does not count the NUL that is stored behind it.

A `StatusLine` is any line that HTTP permits, and more: its reason phrase may hold any byte
but a CR.

## Main results

* `StatusLine.scan_line` — what the scanner makes of the line.
* `Request.header_statusLine_iff` — when the line is taken as it is meant.
-/

namespace DsiRest

/-- The size of the array `response_reason`. -/
def sizeofReason : ℕ := 64

/-- The first line of a response. -/
structure StatusLine where
  version : Bytes
  code : ℕ
  reason : Bytes
  versionNonempty : version ≠ []
  versionSpace : ∀ b ∈ version, isSpace b = false
  versionNul : 0 ∉ version
  codeDigits : 100 ≤ code ∧ code < 1000
  reasonCr : cr ∉ reason

namespace StatusLine

/-- The line. -/
def line (h : StatusLine) : Bytes :=
  statusText h.version h.code h.reason

/-- The reason as far as it is stored: what precedes its first NUL, behind its white space, and
at most 64 bytes of that. -/
def scanned (h : StatusLine) : Bytes :=
  ((cstr h.reason).dropWhile isSpace).take 64

/-- The first NUL of the line, if any, is in its reason. -/
theorem cstr_line (h : StatusLine) : cstr h.line
    = bytes "HTTP/" ++ h.version ++ [space] ++ statusDigits h.code ++ [space]
      ++ cstr (h.reason ++ crlf) := by
  have hcode := h.codeDigits
  obtain ⟨-, -, -, -, h₁, -⟩ := digit_spec (h.code / 100) (by omega)
  obtain ⟨-, -, -, -, h₂, -⟩ := digit_spec (h.code / 10 % 10) (by omega)
  obtain ⟨-, -, -, -, h₃, -⟩ := digit_spec (h.code % 10) (by omega)
  have hnul : 0 ∉ bytes "HTTP/" ++ h.version ++ [space] ++ statusDigits h.code ++ [space] := by
    simp only [statusDigits, List.mem_append, List.mem_cons, not_or]
    exact ⟨⟨⟨⟨by decide, h.versionNul⟩, by decide, List.not_mem_nil⟩,
      h₁.symm, h₂.symm, h₃.symm, List.not_mem_nil⟩, by decide, List.not_mem_nil⟩
  rw [line, statusText, List.append_assoc _ h.reason, cstr]
  refine List.takeWhile_append_of_pos fun b hb => ?_
  simpa using fun h0 : b = 0 => hnul (h0 ▸ hb)

/-- What is scanned of the reason. -/
theorem scan_cstr (h : StatusLine) :
    (((cstr (h.reason ++ crlf)).dropWhile isSpace).takeWhile (· != cr)).take 64 = h.scanned := by
  have hcr : cr ∉ cstr h.reason := fun hmem =>
    h.reasonCr ((List.takeWhile_sublist _).subset hmem)
  by_cases hnul : 0 ∈ h.reason
  · have hcut : cstr (h.reason ++ crlf) = cstr h.reason ++ [] := by
      rw [List.append_nil, cstr_append_of_mem hnul]
    rw [hcut, scan_reason hcr (by simp) (by simp), scanned]
  · have hwhole : cstr (h.reason ++ crlf) = cstr h.reason ++ crlf := by
      rw [cstr_eq_self hnul, cstr_eq_self]
      rw [List.mem_append, not_or]
      exact ⟨hnul, by decide⟩
    rw [hwhole, scan_reason hcr (by decide +kernel) (by decide +kernel), scanned]

/-- **What the scanner makes of the line**: the code, and the reason unless nothing of it is
left. -/
theorem scan_line (h : StatusLine) : scanStatusLine (cstr h.line)
    = (some (h.code : ℤ), if h.scanned = [] then none else some h.scanned) := by
  rw [h.cstr_line, scanStatusLine_text h.versionNonempty h.versionSpace h.codeDigits, h.scan_cstr]

/-- The line is taken as it is meant: the whole line is accepted, the code and as much of the
reason as fits are stored, the rest of the request stays as it is, and no byte is stored behind
the array. -/
def Taken (h : StatusLine) (request : Request) (r : Response) : Prop :=
  r.value = h.line.length ∧ r.result = .success ∧
    r.request = { request with
      responseCode := h.code, responseReason := h.reason.take (sizeofReason - 1) } ∧
    r.request.responseReason.length + 1 ≤ sizeofReason

/-- The reason begins with a byte that is not white space, and what precedes its first NUL are
its first 63 bytes. -/
def Fits (h : StatusLine) : Prop :=
  (∃ b ∈ h.reason.head?, isSpace b = false) ∧ cstr h.reason = h.reason.take (sizeofReason - 1)

/-- Without a NUL this is a matter of the length. -/
theorem fits_iff {h : StatusLine} (hnul : 0 ∉ h.reason) :
    h.Fits ↔ (∃ b ∈ h.reason.head?, isSpace b = false) ∧ h.reason.length < sizeofReason := by
  rw [Fits, cstr_eq_self hnul, eq_comm, List.take_eq_self_iff]
  exact and_congr_right fun _ => Nat.le_sub_one_iff_lt (by decide)

/-- The reason is stored as it is meant just when it fits. -/
theorem fits_iff_scanned (h : StatusLine) :
    h.Fits ↔ h.scanned ≠ [] ∧ h.scanned = h.reason.take (sizeofReason - 1) := by
  rw [Fits, scanned]
  constructor
  · rintro ⟨⟨b, hb, hspace⟩, hcstr⟩
    obtain ⟨rest, hreason⟩ := List.head?_eq_some_iff.mp hb
    have hkept : (h.reason.take (sizeofReason - 1)).dropWhile isSpace
        = h.reason.take (sizeofReason - 1) := by
      rw [hreason, sizeofReason, List.take_succ_cons, List.dropWhile_cons_of_neg (by simp [hspace])]
    have hshort : (h.reason.take (sizeofReason - 1)).length ≤ 64 :=
      (List.length_take_le _ _).trans (by decide)
    rw [hcstr, hkept, List.take_of_length_le hshort]
    exact ⟨by rw [hreason]; exact List.cons_ne_nil _ _, rfl⟩
  · rintro ⟨hne, heq⟩
    have hlength : (((cstr h.reason).dropWhile isSpace).take 64).length ≤ 63 := by
      rw [heq]
      exact List.length_take_le _ _
    rw [List.length_take] at hlength
    have hall : (cstr h.reason).dropWhile isSpace = h.reason.take (sizeofReason - 1) := by
      rw [← heq, List.take_of_length_le (by omega)]
    -- the first byte is stored, so that it is neither white space nor NUL
    obtain ⟨b, rest, hreason⟩ : ∃ b rest, h.reason = b :: rest := by
      refine List.exists_cons_of_ne_nil fun hnil => hne ?_
      rw [hnil]
      rfl
    have hfirst : ((cstr h.reason).dropWhile isSpace).head? = some b := by
      rw [hall, hreason]
      rfl
    have hspace : isSpace b = false := by
      have hhead := List.head?_dropWhile_not isSpace (cstr h.reason)
      rw [hfirst] at hhead
      exact hhead
    have hnul : b ≠ 0 := by
      rintro rfl
      rw [hreason, cstr, List.takeWhile_cons_of_neg (by simp)] at hfirst
      exact absurd hfirst (by simp)
    have hstart : cstr h.reason = b :: cstr rest := by
      rw [hreason, cstr, List.takeWhile_cons_of_pos (by simpa using hnul), cstr]
    rw [hstart, List.dropWhile_cons_of_neg (by simp [hspace])] at hall
    exact ⟨⟨b, by rw [hreason]; rfl, hspace⟩, hstart.trans hall⟩

end StatusLine

/-- **When a status line is taken as it is meant.** Where a status line is expected, the call
for one always returns, and it accepts the line, stores the code and the longest prefix of the
reason that fits, and stores nothing behind the array, just when the reason fits and does not
begin with white space. -/
theorem Request.header_statusLine_iff {request : Request} (hstatus : request.Expecting)
    (h : StatusLine) {size nitems : ℕ} (htotal : mul64 size nitems = h.line.length)
    (after : Bytes) (response : Result) :
    ∃ r, request.header (h.line ++ after) size nitems response = some r ∧
      (h.Taken request r ↔ h.Fits) := by
  refine ⟨_, by rw [header, if_pos hstatus], ?_⟩
  rw [htotal, List.take_left, Request.statusLine, h.scan_line, h.fits_iff_scanned]
  by_cases hnone : h.scanned = []
  · simp only [hnone, if_true]
    refine iff_of_false (fun htaken => ?_) fun hfits => hfits.1 rfl
    exact absurd htaken.2.1 (by simp)
  · simp only [if_neg hnone]
    constructor
    · rintro ⟨-, -, hrequest, -⟩
      exact ⟨hnone, congrArg Request.responseReason hrequest⟩
    · rintro ⟨-, hscanned⟩
      refine ⟨rfl, rfl, by rw [← hscanned]; rfl, ?_⟩
      have hlength : h.scanned.length ≤ sizeofReason - 1 := by
        rw [hscanned]
        exact List.length_take_le _ _
      exact Nat.add_le_of_le_sub (by decide) hlength

/-- The case of the line `HTTP/1.1 404 Not Found`, from a call with items of one byte. -/
theorem Request.header_statusLine_notFound :
    let request : Request := ⟨.success, 0, [], 0, 0, false, .client, HeaderList.empty, .none, false⟩
    ∃ r, request.header (bytes "HTTP/1.1 404 Not Found\r\n") 1 24 .success = some r ∧
      r.value = 24 ∧ r.request.responseCode = 404 ∧
      r.request.responseReason = bytes "Not Found" := by
  intro request
  let h : StatusLine := ⟨bytes "1.1", 404, bytes "Not Found", by decide +kernel, by decide +kernel,
    by decide +kernel, by decide, by decide +kernel⟩
  have hline : h.line = bytes "HTTP/1.1 404 Not Found\r\n" := by decide +kernel
  have htotal : mul64 1 24 = h.line.length := by decide +kernel
  obtain ⟨r, hr, htaken⟩ :=
    @Request.header_statusLine_iff request ⟨rfl, rfl⟩ h 1 24 htotal [] .success
  have hfits : h.Fits := by
    refine (StatusLine.fits_iff (by decide +kernel)).mpr ⟨⟨78, by decide +kernel, by decide⟩, ?_⟩
    decide +kernel
  obtain ⟨hvalue, -, hrequest, -⟩ := htaken.mpr hfits
  rw [List.append_nil, hline] at hr
  refine ⟨r, hr, hvalue.trans htotal.symm, ?_, ?_⟩
  · rw [hrequest]
    rfl
  · rw [hrequest]
    decide +kernel

/-- **Two status lines** that are not taken as they are meant: one without a reason is an error,
and one with a reason of 64 bytes is stored with a NUL behind the array. -/
theorem Request.header_statusLine_misses :
    let request : Request := ⟨.success, 0, [], 0, 0, false, .client, HeaderList.empty, .none, false⟩
    let code : 100 ≤ 200 ∧ 200 < 1000 := by decide
    let blank : StatusLine := ⟨bytes "1.1", 200, [], by decide +kernel, by decide +kernel,
      by decide +kernel, code, by decide +kernel⟩
    let long : StatusLine := ⟨bytes "1.1", 200, List.replicate 64 65, by decide +kernel,
      by decide +kernel, by decide +kernel, code, by decide +kernel⟩
    (∃ r, request.header blank.line 1 blank.line.length .success = some r ∧
      r.result = .error (.parse (bytes "HTTP/1.1 200 \r\n")) ∧ ¬blank.Taken request r) ∧
    ∃ r, request.header long.line 1 long.line.length .success = some r ∧
      r.request.responseReason.length + 1 = 65 ∧ ¬long.Taken request r := by
  intro request code blank long
  constructor
  · have hcall : (request.header blank.line 1 blank.line.length .success).map Response.result
        = some (.error (.parse (bytes "HTTP/1.1 200 \r\n"))) := by decide +kernel
    obtain ⟨r, hr, hresult⟩ := Option.map_eq_some_iff.mp hcall
    exact ⟨r, hr, hresult, fun htaken => absurd (hresult.symm.trans htaken.2.1) (by simp)⟩
  · have hcall : (request.header long.line 1 long.line.length .success).map
        (fun r => r.request.responseReason.length + 1) = some 65 := by decide +kernel
    obtain ⟨r, hr, hstored⟩ := Option.map_eq_some_iff.mp hcall
    refine ⟨r, hr, hstored, fun htaken => ?_⟩
    have hroom := htaken.2.2.2
    rw [hstored] at hroom
    exact absurd hroom (by decide)

end DsiRest
