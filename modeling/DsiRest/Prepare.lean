import DsiRest.UriEscape
import DsiRest.WriteMultipart

/-!
# Preparing the Request Body

The part of request.c that turns a client's write callback and its argument into the
internal argument structures: `globus_l_dsi_rest_prepare_write_callbacks` with its
multipart, JSON and form cases. Preparation copies the headers, adds a `Content-Type`
header where the specialization calls for one, finds or invents the delimiter of a
multipart body, and recurses into the parts.

What the library obtains from outside is a parameter: the text of the `i`-th UUID drawn
during the preparation, and the serialization of a JSON value.

## Main results

* `prepareWriteCallbacks_fresh` — preparation yields a writer at the start of its body,
  the first delimiter of every multipart node already in place.
-/

namespace DsiRest

/-- A part of the client's multipart argument: its headers, callback and argument. -/
structure ClientPart (W : Type) where
  partHeader : KeyArray
  dataWrite : W

/-- The client's `data_write_callback` with its `data_write_callback_arg`. A JSON value
is given by what `json_dumps` makes of it, `none` when it fails. -/
inductive ClientWriter
  | block (blockData : Bytes)
  | blocks (blocks : List Bytes)
  | json (dumps : Option Bytes)
  | form (fields : KeyArray)
  | fixed (callback : FixedWriter)
  | client (callback : List ℕ → ℕ → WriteOutcome)
  | multipart (parts : List (ClientPart ClientWriter))

/-- Why a preparation does not succeed: an error result, or a pointer that is `NULL` or
out of range is used. -/
inductive PrepareFailure
  | result (e : GlobusError)
  | badPointer
  deriving DecidableEq

/-- `globus_l_dsi_rest_headers_search`: the value of the first `Content-Type` header,
which may be `NULL` like an absent one. A `NULL` key met on the way is dereferenced. -/
def headersSearch : KeyArray → Except PrepareFailure (Option Bytes)
  | [] => .ok none
  | ⟨none, _⟩ :: _ => .error .badPointer
  | ⟨some key, value⟩ :: headers =>
    if strcaseeq key (bytes "Content-Type") then .ok value else headersSearch headers

/-- The delimiter in the `Content-Type` value of a multipart body: a quoted string up to
its closing quote, or everything up to white space. -/
def contentTypeBoundary (contentType : Bytes) : Option Bytes :=
  if (bytes "multipart/").isPrefixOf contentType then
    (strstr contentType (bytes "boundary=")).map fun found =>
      match found.drop 9 with
      | 34 :: quoted => quoted.takeWhile (· != 34)
      | token => token.takeWhile (!isSpace ·)
  else none

/-- The generated delimiter, `globus_%s` with the text of a fresh UUID. -/
def uuidBoundary (uuid : Bytes) : Bytes :=
  bytes "globus_" ++ uuid

/-- The delimiter of a multipart node and its headers, to which a generated delimiter
adds a `Content-Type`; `drawn` counts the UUIDs used so far. -/
def multipartHeaders (uuid : ℕ → Bytes) (headers : KeyArray) (drawn : ℕ) :
    Except PrepareFailure (Option Bytes × KeyArray × ℕ) := do
  match ← headersSearch headers with
  | some contentType => pure (contentTypeBoundary contentType, headers, drawn)
  | none =>
    let boundary := uuidBoundary (uuid drawn)
    pure (some boundary,
      headers ++ [.pair (bytes "Content-Type") (bytes "multipart/related; boundary=" ++ boundary)],
      drawn + 1)

/-- The first delimiter of a multipart node, put in place by its preparation. Without
parts, the headers of part zero are read out of range. -/
def firstBoundary (boundary : Option Bytes) (parts : List (WritePart Writer)) :
    Except PrepareFailure (WriteMultipartArg Writer) :=
  match boundary with
  | none => .ok ⟨none, 0, none, 0, 0, parts⟩
  | some delimiter =>
    match parts with
    | [] => .error .badPointer
    | part :: _ =>
      match multipartBoundaryPrepare delimiter false (some part.headers) with
      | none => .error .badPointer
      | some (text, length) => .ok ⟨boundary, 0, some text, 0, length, parts⟩

/-- A block argument at its start. -/
def WriteBlockArg.start (blockData : Bytes) : WriteBlockArg :=
  ⟨blockData, 0, Nat.zero_le _⟩

mutual

/-- `globus_l_dsi_rest_prepare_write_callbacks`, with the functions it dispatches to. -/
def prepareWriteCallbacks (uuid : ℕ → Bytes) (headers : KeyArray) :
    ClientWriter → ℕ → Except PrepareFailure (WritePart Writer × ℕ)
  | .block blockData, drawn => .ok (⟨headers, .block (.start blockData)⟩, drawn)
  | .blocks blocks, drawn => .ok (⟨headers, .blocks ⟨0, blocks.map .start⟩⟩, drawn)
  | .json none, _ => .error (.result .memory)
  | .json (some jstring), drawn =>
    .ok (⟨headers ++ [.pair (bytes "Content-Type") (bytes "application/json; charset=UTF-8")],
      .block (.start jstring)⟩, drawn)
  | .form fields, drawn =>
    match encodeFormData fields with
    | none => .error .badPointer
    | some formData =>
      .ok (⟨headers ++
          [.pair (bytes "Content-Type") (bytes "application/x-www-form-urlencoded")],
        .block (.start formData)⟩, drawn)
  | .fixed callback, drawn => .ok (⟨headers, .fixed callback []⟩, drawn)
  | .client callback, drawn => .ok (⟨headers, .client callback []⟩, drawn)
  | .multipart parts, drawn => do
    let (boundary, headers, drawn) ← multipartHeaders uuid headers drawn
    let (parts, drawn) ← prepareParts uuid parts drawn
    let arg ← firstBoundary boundary parts
    pure (⟨headers, .multipart arg⟩, drawn)

/-- The loop of `globus_l_dsi_rest_prepare_write_multipart_callback` over the parts. -/
def prepareParts (uuid : ℕ → Bytes) :
    List (ClientPart ClientWriter) → ℕ → Except PrepareFailure (List (WritePart Writer) × ℕ)
  | [], drawn => .ok ([], drawn)
  | part :: parts, drawn => do
    let (prepared, drawn) ← prepareWriteCallbacks uuid part.partHeader part.dataWrite drawn
    let (more, drawn) ← prepareParts uuid parts drawn
    pure (prepared :: more, drawn)

end

/-! ### The start of a body -/

/-- A multipart argument before its first call: nothing finished, and the delimiter of
the first part waiting to be sent if there is a delimiter string. -/
def WriteMultipartArg.Start (arg : WriteMultipartArg Writer) : Prop :=
  arg.partIndex = 0 ∧ arg.currentBoundaryOffset = 0 ∧
    match arg.boundary with
    | none => arg.currentBoundary = none ∧ arg.currentBoundaryLength = 0
    | some delimiter => ∃ part later, arg.parts = part :: later ∧
        arg.currentBoundary = some (boundaryText delimiter false (some part.headers)) ∧
        arg.currentBoundaryLength = (boundaryText delimiter false (some part.headers)).length

mutual

/-- A writer before its first call, at every node. -/
def Writer.Fresh : Writer → Prop
  | .block arg => arg.offset = 0
  | .blocks arg => arg.currentBlock = 0 ∧ ∀ block ∈ arg.blocks, block.offset = 0
  | .fixed _ calls => calls = []
  | .client _ calls => calls = []
  | .multipart arg => arg.Start ∧ FreshParts arg.parts

/-- Every part of the list is before its first call. -/
def FreshParts : List (WritePart Writer) → Prop
  | [] => True
  | part :: parts => part.writer.Fresh ∧ FreshParts parts

end

/-- The first delimiter is in place after `firstBoundary`. -/
theorem firstBoundary_start {boundary : Option Bytes} {parts : List (WritePart Writer)}
    {arg : WriteMultipartArg Writer} (h : firstBoundary boundary parts = .ok arg) :
    arg.Start ∧ arg.parts = parts ∧ arg.boundary = boundary := by
  cases boundary with
  | none =>
      cases h
      exact ⟨⟨rfl, rfl, rfl, rfl⟩, rfl, rfl⟩
  | some delimiter =>
      cases parts with
      | nil => cases h
      | cons part later =>
          simp only [firstBoundary, multipartBoundaryPrepare_eq] at h
          cases h
          exact ⟨⟨rfl, rfl, part, later, rfl, rfl, rfl⟩, rfl, rfl⟩

mutual

/-- **Preparation yields a writer at the start of its body.** -/
theorem prepareWriteCallbacks_fresh (uuid : ℕ → Bytes) :
    ∀ (cw : ClientWriter) (headers : KeyArray) (drawn : ℕ) (part : WritePart Writer) (k : ℕ),
      prepareWriteCallbacks uuid headers cw drawn = .ok (part, k) → part.writer.Fresh
  | .block _, _, _, _, _, h => by
      cases h
      rfl
  | .blocks blocks, _, _, _, _, h => by
      cases h
      simp [Writer.Fresh, WriteBlockArg.start]
  | .json none, _, _, _, _, h => by cases h
  | .json (some _), _, _, _, _, h => by
      cases h
      rfl
  | .form fields, _, _, _, _, h => by
      simp only [prepareWriteCallbacks] at h
      split at h
      · cases h
      · cases h
        rfl
  | .fixed _, _, _, _, _, h => by
      cases h
      rfl
  | .client _, _, _, _, _, h => by
      cases h
      rfl
  | .multipart parts, headers, drawn, part, k, h => by
      simp only [prepareWriteCallbacks, bind, Except.bind, pure, Except.pure] at h
      split at h
      · cases h
      split at h
      · cases h
      rename_i prepared hparts
      split at h
      · cases h
      rename_i arg harg
      cases h
      obtain ⟨hstart, hp, -⟩ := firstBoundary_start harg
      refine ⟨hstart, ?_⟩
      rw [hp]
      exact prepareParts_fresh uuid parts _ _ _ hparts

/-- The same for every part of a multipart body. -/
theorem prepareParts_fresh (uuid : ℕ → Bytes) :
    ∀ (parts : List (ClientPart ClientWriter)) (drawn : ℕ) (prepared : List (WritePart Writer))
      (k : ℕ), prepareParts uuid parts drawn = .ok (prepared, k) → FreshParts prepared
  | [], _, _, _, h => by
      cases h
      trivial
  | part :: parts, drawn, prepared, k, h => by
      simp only [prepareParts, bind, Except.bind, pure, Except.pure] at h
      split at h
      · cases h
      rename_i one hone
      split at h
      · cases h
      rename_i more hmore
      cases h
      exact ⟨prepareWriteCallbacks_fresh uuid _ _ _ _ _ hone,
        prepareParts_fresh uuid parts _ _ _ hmore⟩

end

end DsiRest
