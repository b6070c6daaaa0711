import DsiRest.HeaderParse
import DsiRest.Lib.Matcher

/-!
# The Multipart Reader

`readMultipart` models `globus_dsi_rest_read_multipart`: the bytes of a multipart message
arrive in chunks, and the reader looks for one delimiter after another with a single match
counter. Bytes of a part's body go to the part's data read callback, whose calls are
recorded in `ReadMultipartArg.calls`; a call with no bytes ends the part.

A call is `none` where the code reads or writes outside an object: a part index past the
last part, a candidate delimiter longer than what was scanned in this call, a boundary
buffer overrun, or a header line whose parse leaves the line.

## Main results

* `ReadMultipartArg.scan_eq` — the scan loop is the library matcher, and it replays a
  broken match.
* `ReadMultipartArg.Ready.step_header`, `step_complete`, `step_interrupted`,
  `step_overrun`, `step_epilogue` — what one iteration of the chunk loop does, in terms of
  the matcher.
-/

namespace DsiRest

/-- A `globus_i_dsi_rest_read_part_t`. The data read callback is always present;
`responseCallback` says whether the response callback is. -/
structure ReadPart where
  headers : HeaderList
  responseCallback : Bool

/-- A callback invocation: data for a part, or the headers of a part. -/
inductive PartCall
  | data (part : ℕ) (buffer : Bytes)
  | response (part : ℕ) (headers : KeyArray)
  deriving DecidableEq, Repr

/-- A `globus_i_dsi_rest_read_multipart_arg_t`, with the invocations of callbacks so far.
`partIndex` is `none` for `(size_t) -1`; `num_parts` is the length of `parts`; of the
boundary buffer, the bytes below `boundary_buffer_offset` are kept. -/
structure ReadMultipartArg where
  partIndex : Option ℕ
  parts : List ReadPart
  boundary : Bytes
  boundaryBuffer : Bytes
  matchCounter : ℕ
  needHeader : Bool
  headerBuffer : Bytes
  headerBufferOffset : ℕ
  calls : List PartCall

/-- The argument made by `globus_l_dsi_rest_prepare_read_multipart`, after the response's
Content-Type header supplied the boundary. -/
def prepareReadMultipart (boundary : Bytes) (responseCallbacks : List Bool) :
    ReadMultipartArg where
  partIndex := none
  parts := responseCallbacks.map fun callback => ⟨HeaderList.empty, callback⟩
  boundary := boundary
  boundaryBuffer := []
  matchCounter := 0
  needHeader := false
  headerBuffer := []
  headerBufferOffset := 0
  calls := []

/-! ### Header blocks -/

/-- `realloc` of a block: the front of the old block is kept, and a byte past its end
holds whatever the heap has there. -/
def reallocBlock (heap : Bytes → ℕ → Byte) (block : Bytes) (size : ℕ) : Bytes :=
  block.take size ++ (List.range' block.length (size - block.length)).map (heap block)

/-- Appending to the header buffer: the block grows to hold `piece` and a NUL after the
`offset` bytes it has, but the piece is copied to the start of the block. -/
def saveHeader (heap : Bytes → ℕ → Byte) (block : Bytes) (offset : ℕ) (piece : Bytes) :
    Bytes :=
  (piece ++ (reallocBlock heap block (offset + piece.length + 1)).drop piece.length).set
    (offset + piece.length) 0

/-- The memory of the header buffer before a piece is appended matters only if the block
has earlier pieces. -/
theorem saveHeader_zero (heap : Bytes → ℕ → Byte) (block piece : Bytes) :
    saveHeader heap block 0 piece = piece ++ [0] := by
  have hlen : (reallocBlock heap block (0 + piece.length + 1)).length = piece.length + 1 := by
    simp only [reallocBlock, List.length_append, List.length_take, List.length_map,
      List.length_range']
    omega
  obtain ⟨last, hlast⟩ : ∃ b, (reallocBlock heap block (0 + piece.length + 1)).drop piece.length
      = [b] := List.length_eq_one_iff.mp (by rw [List.length_drop, hlen]; omega)
  rw [saveHeader, hlast, Nat.zero_add, List.set_append_right _ _ (Nat.le_refl _)]
  simp

/-- The line loop over a header block: `line` is what lies between `start` and `next`. A
line that is followed by a space or a tab is continued. -/
def parseHeaderLines : Bytes → Bytes → Result → HeaderList → Option (Result × HeaderList)
  | _, [], result, headers => some (result, headers)
  | line, 13 :: 10 :: next, result, headers =>
    if next.head? = some space ∨ next.head? = some tab then
      parseHeaderLines (line ++ crlf) next result headers
    else
      match headerParse headers (line ++ crlf ++ next) line.length with
      | none => none
      | some (result, headers) => parseHeaderLines [] next result headers
  | line, b :: next, result, headers => parseHeaderLines (line ++ [b]) next result headers

/-- The result of parsing header lines does not depend on the headers before them. -/
theorem fst_parseHeaderLines : ∀ (line next : Bytes) (r : Result) (h h' : HeaderList),
    (parseHeaderLines line next r h).map Prod.fst
      = (parseHeaderLines line next r h').map Prod.fst := by
  intro line next r h h'
  fun_induction parseHeaderLines line next r h generalizing h' with
  | case1 => simp [parseHeaderLines]
  | case2 line next r h hcont ih => simp only [parseHeaderLines, hcont, if_true, ih h']
  | case3 line next r h hend hnone =>
      have hfst := fst_headerParse h h' (line ++ crlf ++ next) line.length
      rw [hnone] at hfst
      have hnone' : headerParse h' (line ++ crlf ++ next) line.length = none := by
        simpa using hfst.symm
      simp only [parseHeaderLines, hend, if_false, hnone']
  | case4 line next r h hend r₁ h₁ hparse ih =>
      have hfst := fst_headerParse h h' (line ++ crlf ++ next) line.length
      rw [hparse] at hfst
      obtain ⟨⟨r₂, h₂⟩, hparse', hr⟩ := Option.map_eq_some_iff.mp hfst.symm
      obtain rfl : r₂ = r₁ := hr
      simp only [parseHeaderLines, hend, if_false, hparse', ih h₂]
  | case5 line b next r h hne ih =>
      rw [ih h', parseHeaderLines]
      exact hne

/-- The headers do not depend on the result so far. -/
theorem snd_parseHeaderLines (line next : Bytes) (r r' : Result) (h : HeaderList) :
    (parseHeaderLines line next r h).map Prod.snd
      = (parseHeaderLines line next r' h).map Prod.snd := by
  fun_induction parseHeaderLines line next r h generalizing r' with
  | case1 => simp [parseHeaderLines]
  | case2 line next r h hcont ih => simp only [parseHeaderLines, hcont, if_true, ih r']
  | case3 line next r h hend hnone => simp only [parseHeaderLines, hend, if_false, hnone]
  | case4 line next r h hend r₁ h₁ hline ih =>
      simp only [parseHeaderLines, hend, if_false, hline]
  | case5 line b next r h hne ih =>
      rw [ih r', parseHeaderLines]
      exact hne

/-- Whether header lines can be parsed depends on neither. -/
theorem isSome_parseHeaderLines (line next : Bytes) (r r' : Result) (h h' : HeaderList) :
    (parseHeaderLines line next r h).isSome = (parseHeaderLines line next r' h').isSome := by
  have hheaders := congrArg Option.isSome (fst_parseHeaderLines line next r h h')
  have hresult := congrArg Option.isSome (snd_parseHeaderLines line next r r' h')
  rw [Option.isSome_map, Option.isSome_map] at hheaders hresult
  exact hheaders.trans hresult

/-- Invocations of a part's data read callback; there are none before the first part. -/
def dataCalls (index : Option ℕ) (buffers : List Bytes) : List PartCall :=
  match index with
  | none => []
  | some k => buffers.map (.data k)

@[simp] theorem dataCalls_none (buffers : List Bytes) : dataCalls none buffers = [] := rfl

@[simp] theorem dataCalls_some (k : ℕ) (buffers : List Bytes) :
    dataCalls (some k) buffers = buffers.map (.data k) := rfl

@[simp] theorem dataCalls_nil (index : Option ℕ) : dataCalls index [] = [] := by
  cases index <;> rfl

theorem dataCalls_append (index : Option ℕ) (first second : List Bytes) :
    dataCalls index (first ++ second) = dataCalls index first ++ dataCalls index second := by
  cases index with
  | none => rfl
  | some k => exact List.map_append

/-- The buffer of a call that is made for a non-empty buffer only. -/
def nonempty (buffer : Bytes) : List Bytes :=
  if 0 < buffer.length then [buffer] else []

@[simp] theorem nonempty_nil : nonempty [] = [] := rfl

/-- The delimiter that ends the preface, the headers of a part or its body. -/
def delimiterText (boundary : Bytes) (numParts : ℕ) (partIndex : Option ℕ) (needHeader : Bool) :
    Bytes :=
  if needHeader then bytes "\r\n\r\n"
  else match partIndex with
    | none => bytes "--" ++ boundary ++ bytes "\r\n"
    | some k =>
      if k + 1 = numParts then bytes "\r\n--" ++ boundary ++ bytes "--\r\n"
      else bytes "\r\n--" ++ boundary ++ bytes "\r\n"

/-- The length of a delimiter: never zero, and within the assertion of the source. -/
theorem length_delimiterText (boundary : Bytes) (numParts : ℕ) (partIndex : Option ℕ)
    (needHeader : Bool) :
    0 < (delimiterText boundary numParts partIndex needHeader).length ∧
      (delimiterText boundary numParts partIndex needHeader).length < boundary.length + 9 := by
  unfold delimiterText
  split
  · exact ⟨by decide, Nat.lt_of_lt_of_le (by decide) (Nat.le_add_left 9 _)⟩
  · split
    · simp only [List.length_append, show (bytes "--").length = 2 from rfl,
        show (bytes "\r\n").length = 2 from rfl]
      omega
    · split <;> simp only [List.length_append, show (bytes "\r\n--").length = 4 from rfl,
        show (bytes "--\r\n").length = 4 from rfl, show (bytes "\r\n").length = 2 from rfl] <;>
        omega

/-- `part_index++`. -/
def nextPart : Option ℕ → ℕ
  | none => 0
  | some k => k + 1

namespace ReadMultipartArg

/-! ### The functions of the source -/

/-- The delimiter the reader looks for. -/
def delimiter (arg : ReadMultipartArg) : Bytes :=
  delimiterText arg.boundary arg.parts.length arg.partIndex arg.needHeader

/-- Call the data read callback of part `k`. -/
def callRead (arg : ReadMultipartArg) (k : ℕ) (buffer : Bytes) : Option ReadMultipartArg :=
  if k < arg.parts.length then some { arg with calls := arg.calls ++ [.data k buffer] }
  else none

/-- Call the data read callback of the current part, if there is one. -/
def passOn (arg : ReadMultipartArg) (buffer : Bytes) : Option ReadMultipartArg :=
  match arg.partIndex with
  | none => some arg
  | some k => arg.callRead k buffer

/-- A byte that does not continue the match: start over, and pass on what was saved. -/
def mismatch (arg : ReadMultipartArg) : Option ReadMultipartArg :=
  if 0 < arg.boundaryBuffer.length then
    (arg.passOn arg.boundaryBuffer).map fun arg =>
      { arg with matchCounter := 0, boundaryBuffer := [] }
  else some { arg with matchCounter := 0 }

/-- One byte of the scan. -/
def scanByte (d : Bytes) (arg : ReadMultipartArg) (b : Byte) : Option ReadMultipartArg := do
  let arg ← if d[arg.matchCounter]? ≠ some b then arg.mismatch else some arg
  if d[arg.matchCounter]? = some b then
    some { arg with matchCounter := arg.matchCounter + 1 }
  else some arg

/-- The scan loop, with the number of bytes scanned. -/
def scan (d : Bytes) : ReadMultipartArg → Bytes → Option (ℕ × ReadMultipartArg)
  | arg, [] => some (0, arg)
  | arg, b :: bs =>
    if arg.matchCounter < d.length then do
      let arg ← arg.scanByte d b
      let (scanned, arg) ← scan d arg bs
      some (scanned + 1, arg)
    else some (0, arg)

/-- The branch of the chunk loop inside a header block. -/
def readHeader (heap : Bytes → ℕ → Byte) (arg : ReadMultipartArg) (result : Result)
    (d piece : Bytes) : Option (Result × ReadMultipartArg) :=
  let block := saveHeader heap arg.headerBuffer arg.headerBufferOffset piece
  let offset := arg.headerBufferOffset + piece.length
  let arg := { arg with headerBuffer := block, headerBufferOffset := offset }
  if arg.matchCounter = d.length then do
    let k ← arg.partIndex
    let part ← arg.parts[k]?
    let finished := { arg with needHeader := false, headerBufferOffset := 0, matchCounter := 0 }
    if part.responseCallback then
      let (result, headers) ← parseHeaderLines [] (cstr block) result part.headers
      some (result, { finished with
        parts := arg.parts.set k { part with headers := headers }
        calls := arg.calls ++ [.response k headers.entries] })
    else some (result, finished)
  else some (result, arg)

/-- The data calls at a complete delimiter: what precedes it in the buffer, if anything,
and the end of the part. -/
def endPart (arg : ReadMultipartArg) (k : ℕ) (d piece : Bytes) : Option ReadMultipartArg := do
  let arg ←
    if d.length < piece.length then arg.callRead k (piece.take (piece.length - d.length))
    else some arg
  arg.callRead k []

/-- The branch at a complete delimiter. -/
def completeBoundary (arg : ReadMultipartArg) (d piece : Bytes) : Option ReadMultipartArg :=
  (match arg.partIndex with
    | none => some arg
    | some k => arg.endPart k d piece).map fun (ended : ReadMultipartArg) =>
    { ended with
      partIndex := some (nextPart arg.partIndex)
      needHeader := decide (nextPart arg.partIndex < arg.parts.length)
      matchCounter := 0, boundaryBuffer := [] }

/-- The branch at a partial delimiter: pass on what lies before it and save it. -/
def partialBoundary (arg : ReadMultipartArg) (piece : Bytes) : Option ReadMultipartArg := do
  if piece.length < arg.matchCounter then none
  else
    let before := piece.length - arg.matchCounter
    let arg ← arg.passOn (piece.take before)
    if arg.boundary.length + 9 < arg.boundaryBuffer.length + arg.matchCounter then none
    else some { arg with boundaryBuffer := arg.boundaryBuffer ++ piece.drop before }

/-- The branch without a match. -/
def noBoundary (arg : ReadMultipartArg) (buffer : Bytes) : Option ReadMultipartArg :=
  (arg.passOn buffer).map fun arg => { arg with boundaryBuffer := [] }

/-- The branches of the chunk loop, after `scanned` bytes of the buffer were scanned. -/
def dispatch (heap : Bytes → ℕ → Byte) (arg : ReadMultipartArg) (result : Result)
    (d buffer : Bytes) (scanned : ℕ) : Option (Result × ReadMultipartArg) :=
  let piece := buffer.take scanned
  if arg.needHeader then arg.readHeader heap result d piece
  else if arg.matchCounter = d.length then (arg.completeBoundary d piece).map (result, ·)
  else if 0 < arg.matchCounter then (arg.partialBoundary piece).map (result, ·)
  else (arg.noBoundary buffer).map (result, ·)

/-- One iteration of the chunk loop on the bytes not yet consumed, with the number of
bytes it consumes. -/
def step (heap : Bytes → ℕ → Byte) (arg : ReadMultipartArg) (result : Result)
    (buffer : Bytes) : Option (ℕ × Result × ReadMultipartArg) :=
  let d := arg.delimiter
  if d.length < arg.boundary.length + 9 then do
    let (scanned, arg) ← arg.scan d buffer
    let (result, arg) ← arg.dispatch heap result d buffer scanned
    some (scanned, result, arg)
  else none

/-- The chunk loop. -/
def loop (heap : Bytes → ℕ → Byte) :
    ℕ → ReadMultipartArg → Result → Bytes → Option (Result × ReadMultipartArg)
  | 0, _, _, _ => none
  | fuel + 1, arg, result, buffer =>
    if buffer = [] then some (result, arg)
    else do
      let (scanned, result, arg) ← arg.step heap result buffer
      loop heap fuel arg result (buffer.drop scanned)

/-- The loop ends with the buffer. -/
theorem loop_nil (heap : Bytes → ℕ → Byte) {fuel : ℕ} (h : 0 < fuel) (arg : ReadMultipartArg)
    (result : Result) : loop heap fuel arg result [] = some (result, arg) := by
  cases fuel with
  | zero => exact absurd h (Nat.lt_irrefl 0)
  | succ fuel => rfl

/-- The loop goes on after an iteration. -/
theorem loop_of_step {heap : Bytes → ℕ → Byte} {arg arg' : ReadMultipartArg}
    {result result' : Result} {buffer : Bytes} {scanned : ℕ} (hne : buffer ≠ [])
    (h : arg.step heap result buffer = some (scanned, result', arg')) (fuel : ℕ) :
    loop heap (fuel + 1) arg result buffer = loop heap fuel arg' result' (buffer.drop scanned) := by
  rw [loop, if_neg hne, h]
  rfl

/-- The loop fails with an iteration. -/
theorem loop_of_step_none {heap : Bytes → ℕ → Byte} {arg : ReadMultipartArg}
    {result : Result} {buffer : Bytes} (hne : buffer ≠ [])
    (h : arg.step heap result buffer = none) (fuel : ℕ) :
    loop heap fuel arg result buffer = none := by
  cases fuel with
  | zero => rfl
  | succ fuel =>
      rw [loop, if_neg hne, h]
      rfl

/-- `globus_l_dsi_rest_read_multipart`. Every iteration consumes at least one byte. -/
def readMultipart (heap : Bytes → ℕ → Byte) (arg : ReadMultipartArg) (buffer : Bytes) :
    Option (Result × ReadMultipartArg) :=
  loop heap (buffer.length + 1) arg .success buffer

/-- Feeding chunks one by one. -/
def feedChunks (heap : Bytes → ℕ → Byte) :
    ReadMultipartArg → List Bytes → Option ReadMultipartArg
  | arg, [] => some arg
  | arg, chunk :: chunks => do
    let (_, arg) ← arg.readMultipart heap chunk
    feedChunks heap arg chunks

/-! ### The scan -/

/-- Passing on is one invocation of the current part's callback. -/
theorem passOn_eq {arg : ReadMultipartArg} {buffer : Bytes}
    (hk : ∀ k, arg.partIndex = some k → k < arg.parts.length) :
    arg.passOn buffer
      = some { arg with calls := arg.calls ++ dataCalls arg.partIndex [buffer] } := by
  rw [passOn]
  cases hi : arg.partIndex with
  | none =>
      cases arg
      subst hi
      simp
  | some k => simp [callRead, hk k hi, hi]

/-- A mismatch replays the saved bytes. -/
theorem mismatch_eq {arg : ReadMultipartArg}
    (hk : ∀ k, arg.partIndex = some k → k < arg.parts.length ∨ arg.boundaryBuffer = []) :
    arg.mismatch = some { arg with
      matchCounter := 0, boundaryBuffer := []
      calls := arg.calls ++ dataCalls arg.partIndex (nonempty arg.boundaryBuffer) } := by
  by_cases hpos : 0 < arg.boundaryBuffer.length
  · have hlt : ∀ k, arg.partIndex = some k → k < arg.parts.length := by
      intro k hi
      rcases hk k hi with h | h
      · exact h
      · simp [h] at hpos
    rw [mismatch, if_pos hpos, passOn_eq hlt, nonempty, if_pos hpos, Option.map_some]
  · have hnil : arg.boundaryBuffer = [] := List.length_eq_zero_iff.mp (by omega)
    rw [mismatch, if_neg hpos, nonempty, if_neg hpos]
    cases arg
    subst hnil
    simp

/-- A byte that continues the match. -/
theorem scanByte_of_eq {d : Bytes} {arg : ReadMultipartArg} {b : Byte}
    (h : d[arg.matchCounter]? = some b) :
    arg.scanByte d b
      = some { arg with matchCounter := Matcher.advance d arg.matchCounter b } := by
  rw [scanByte, Matcher.advance_of_eq h]
  simp [h]

/-- A byte that breaks the match. -/
theorem scanByte_of_ne {d : Bytes} {arg : ReadMultipartArg} {b : Byte}
    (hk : ∀ k, arg.partIndex = some k → k < arg.parts.length ∨ arg.boundaryBuffer = [])
    (h : d[arg.matchCounter]? ≠ some b) :
    arg.scanByte d b = some { arg with
      matchCounter := Matcher.advance d arg.matchCounter b
      boundaryBuffer := [], calls := arg.calls ++ dataCalls arg.partIndex (nonempty arg.boundaryBuffer) } := by
  rw [scanByte, if_pos h, mismatch_eq hk]
  by_cases h0 : d[0]? = some b
  · rw [Matcher.advance_of_head h h0]
    simp [h0]
  · rw [Matcher.advance_of_ne h h0]
    simp [h0]

/-- **The scan loop is the matcher.** It counts as the matcher does, and the first byte
that breaks the match replays the saved bytes. -/
theorem scan_eq {d : Bytes} : ∀ (bs : Bytes) (arg : ReadMultipartArg),
    (∀ k, arg.partIndex = some k → k < arg.parts.length ∨ arg.boundaryBuffer = []) →
    arg.matchCounter ≤ d.length →
    arg.scan d bs = some ((Matcher.feed d arg.matchCounter bs).2,
      if (Matcher.feed d arg.matchCounter bs).1
          = arg.matchCounter + (Matcher.feed d arg.matchCounter bs).2 then
        { arg with matchCounter := (Matcher.feed d arg.matchCounter bs).1 }
      else
        { arg with
          matchCounter := (Matcher.feed d arg.matchCounter bs).1
          boundaryBuffer := [], calls := arg.calls ++ dataCalls arg.partIndex (nonempty arg.boundaryBuffer) })
  | [], arg, _, _ => by simp [scan]
  | b :: bs, arg, hk, hm => by
      by_cases hlt : arg.matchCounter < d.length
      · by_cases heq : d[arg.matchCounter]? = some b
        · have hrec := scan_eq bs
            { arg with matchCounter := Matcher.advance d arg.matchCounter b } hk
            (Matcher.advance_le hlt b)
          rw [scan, if_pos hlt, scanByte_of_eq heq, Option.bind_eq_bind, Option.bind_some, hrec,
            Matcher.feed_cons hlt]
          simp only [Matcher.advance_of_eq heq, Option.bind_eq_bind, Option.bind_some,
            Nat.add_assoc, Nat.add_comm 1]
        · -- the match is broken here, and nothing is saved any more
          have hrec := scan_eq bs
            { arg with
              matchCounter := Matcher.advance d arg.matchCounter b
              boundaryBuffer := []
              calls := arg.calls ++ dataCalls arg.partIndex (nonempty arg.boundaryBuffer) }
            (fun k _ => Or.inr rfl) (Matcher.advance_le hlt b)
          have hbroken := Matcher.feed_ne_of_mismatch hlt heq bs
          rw [scan, if_pos hlt, scanByte_of_ne hk heq, Option.bind_eq_bind, Option.bind_some, hrec,
            if_neg hbroken, Matcher.feed_cons hlt]
          simp only [nonempty_nil, dataCalls_nil, List.append_nil, ite_self, Option.bind_eq_bind,
            Option.bind_some]
      · rw [scan, if_neg hlt, Matcher.feed_of_length_le (by omega)]
        simp

/-! ### One iteration -/

/-- What holds of the argument before every iteration of the chunk loop. -/
structure Ready (arg : ReadMultipartArg) : Prop where
  counter : arg.matchCounter < arg.delimiter.length
  buffered : arg.boundaryBuffer
    = if arg.needHeader then [] else arg.delimiter.take arg.matchCounter
  header : arg.needHeader = true → ∃ k, arg.partIndex = some k ∧ k < arg.parts.length
  epilogue : ∀ k, arg.partIndex = some k → k < arg.parts.length ∨ arg.matchCounter = 0

/-- What a broken match replays. -/
def replayed (arg : ReadMultipartArg) (buffer : Bytes) : List Bytes :=
  if (Matcher.feed arg.delimiter arg.matchCounter buffer).1
      = arg.matchCounter + (Matcher.feed arg.delimiter arg.matchCounter buffer).2 then []
  else nonempty arg.boundaryBuffer

/-- The argument after the scan of a buffer. -/
def scanned (arg : ReadMultipartArg) (buffer : Bytes) : ReadMultipartArg :=
  { arg with
    matchCounter := (Matcher.feed arg.delimiter arg.matchCounter buffer).1
    boundaryBuffer :=
      if (Matcher.feed arg.delimiter arg.matchCounter buffer).1
          = arg.matchCounter + (Matcher.feed arg.delimiter arg.matchCounter buffer).2 then
        arg.boundaryBuffer
      else []
    calls := arg.calls ++ dataCalls arg.partIndex (arg.replayed buffer) }

/-- The buffers of the data calls of an iteration that completes a delimiter. -/
def completed (arg : ReadMultipartArg) (buffer : Bytes) : List Bytes :=
  arg.replayed buffer ++
    nonempty (buffer.take ((Matcher.feed arg.delimiter arg.matchCounter buffer).2
      - arg.delimiter.length)) ++ [[]]

/-- The buffers of the data calls of an iteration that ends in the middle of a section. -/
def interrupted (arg : ReadMultipartArg) (buffer : Bytes) : List Bytes :=
  arg.replayed buffer ++
    [buffer.take (buffer.length - (Matcher.feed arg.delimiter arg.matchCounter buffer).1)]

/-- What the branch at a complete delimiter does to an existing part. -/
theorem completeBoundary_eq {arg : ReadMultipartArg} {d piece : Bytes}
    (hin : ∀ k, arg.partIndex = some k → k < arg.parts.length) :
    arg.completeBoundary d piece = some { arg with
      partIndex := some (nextPart arg.partIndex)
      needHeader := decide (nextPart arg.partIndex < arg.parts.length)
      matchCounter := 0, boundaryBuffer := []
      calls := arg.calls ++ dataCalls arg.partIndex
        (nonempty (piece.take (piece.length - d.length)) ++ [[]]) } := by
  rw [completeBoundary]
  cases hi : arg.partIndex with
  | none => simp
  | some k =>
      have hk := hin k hi
      have hlen : (piece.take (piece.length - d.length)).length = piece.length - d.length :=
        List.length_take_of_le (Nat.sub_le _ _)
      have hended : arg.endPart k d piece = some { arg with
          calls := arg.calls ++ dataCalls (some k)
            (nonempty (piece.take (piece.length - d.length)) ++ [[]]) } := by
        simp only [endPart, nonempty, hlen, Nat.sub_pos_iff_lt]
        split <;> simp [callRead, hk]
      simp only [hended, Option.map_some]

/-- The branches fail once the parts are used up. -/
theorem dispatch_epilogue {heap : Bytes → ℕ → Byte} {arg : ReadMultipartArg} {result : Result}
    {d buffer : Bytes} {scanned k : ℕ} (hh : arg.needHeader = false)
    (hk : arg.partIndex = some k) (hlen : arg.parts.length ≤ k) :
    arg.dispatch heap result d buffer scanned = none := by
  have hcall : ∀ b, arg.callRead k b = none := fun b => by rw [callRead, if_neg (by omega)]
  have hpass : ∀ b, arg.passOn b = none := fun b => by simp only [passOn, hk, hcall]
  rw [dispatch, if_neg (by simp [hh])]
  split
  · simp only [completeBoundary, hk, endPart, hcall]
    split
    · rfl
    · simp [hcall]
  · split
    · simp only [partialBoundary, hpass]
      split <;> rfl
    · simp only [noBoundary, hpass]
      rfl

namespace Ready

variable {arg : ReadMultipartArg} {heap : Bytes → ℕ → Byte} {result : Result} {buffer : Bytes}

/-- After the last part nothing is saved. -/
theorem replayable (h : arg.Ready) :
    ∀ k, arg.partIndex = some k → k < arg.parts.length ∨ arg.boundaryBuffer = [] := by
  intro k hk
  refine (h.epilogue k hk).imp_right fun h0 => ?_
  rw [h.buffered, h0]
  simp

/-- The scan for the delimiter of the section. -/
theorem scan_delimiter (h : arg.Ready) :
    arg.scan arg.delimiter buffer
      = some ((Matcher.feed arg.delimiter arg.matchCounter buffer).2, arg.scanned buffer) := by
  rw [scan_eq _ _ h.replayable h.counter.le, scanned, replayed]
  split <;> simp

/-- An iteration is the matcher's scan and one of the branches. -/
theorem step_eq (h : arg.Ready) :
    arg.step heap result buffer
      = (dispatch heap (arg.scanned buffer) result arg.delimiter buffer
          (Matcher.feed arg.delimiter arg.matchCounter buffer).2).map
        ((Matcher.feed arg.delimiter arg.matchCounter buffer).2, ·) := by
  have hbound : arg.delimiter.length < arg.boundary.length + 9 :=
    (length_delimiterText _ _ _ _).2
  rw [step, if_pos hbound, h.scan_delimiter]
  simp only [Option.bind_eq_bind, Option.bind_some]
  rw [Option.map_eq_bind]
  rfl

/-- An iteration inside a header block. -/
theorem step_header (h : arg.Ready) (hh : arg.needHeader = true) :
    arg.step heap result buffer
      = (readHeader heap
          { arg with matchCounter := (Matcher.feed arg.delimiter arg.matchCounter buffer).1 }
          result arg.delimiter
          (buffer.take (Matcher.feed arg.delimiter arg.matchCounter buffer).2)).map
        ((Matcher.feed arg.delimiter arg.matchCounter buffer).2, ·) := by
  have hnil : arg.boundaryBuffer = [] := by rw [h.buffered, if_pos hh]
  have hscanned : arg.scanned buffer = { arg with
      matchCounter := (Matcher.feed arg.delimiter arg.matchCounter buffer).1 } := by
    simp only [scanned, replayed, hnil, nonempty_nil, ite_self, dataCalls_nil, List.append_nil]
  rw [h.step_eq, hscanned, dispatch, if_pos hh]

/-- A byte after the closing delimiter is passed to a part that does not exist. -/
theorem step_epilogue (h : arg.Ready) {k : ℕ} (hk : arg.partIndex = some k)
    (hlen : arg.parts.length ≤ k) : arg.step heap result buffer = none := by
  have hh : arg.needHeader = false := by
    by_contra hne
    obtain ⟨k', hk', hlt⟩ := h.header (by simpa using hne)
    rw [hk] at hk'
    obtain rfl := Option.some.inj hk'
    omega
  rw [h.step_eq, Option.map_eq_none_iff]
  exact dispatch_epilogue hh hk hlen

/-- An iteration that completes a delimiter outside a header block. -/
theorem step_complete (h : arg.Ready) (hh : arg.needHeader = false)
    (hin : ∀ k, arg.partIndex = some k → k < arg.parts.length)
    (hm : (Matcher.feed arg.delimiter arg.matchCounter buffer).1 = arg.delimiter.length) :
    arg.step heap result buffer = some
      ((Matcher.feed arg.delimiter arg.matchCounter buffer).2, result,
        { arg with
          partIndex := some (nextPart arg.partIndex)
          needHeader := decide (nextPart arg.partIndex < arg.parts.length)
          matchCounter := 0, boundaryBuffer := []
          calls := arg.calls ++ dataCalls arg.partIndex (arg.completed buffer) }) := by
  have hn := (Matcher.feed_spec arg.delimiter buffer arg.matchCounter h.counter.le).2.1
  set n := (Matcher.feed arg.delimiter arg.matchCounter buffer).2 with hndef
  have hpiece : (buffer.take n).length = n := List.length_take_of_le hn
  have hwhole : completeBoundary (arg.scanned buffer) arg.delimiter (buffer.take n)
      = some { arg with
          partIndex := some (nextPart arg.partIndex)
          needHeader := decide (nextPart arg.partIndex < arg.parts.length)
          matchCounter := 0, boundaryBuffer := []
          calls := arg.calls ++ dataCalls arg.partIndex (arg.completed buffer) } := by
    rw [completeBoundary_eq (by exact hin), hpiece, List.take_take,
      Nat.min_eq_left (Nat.sub_le _ _)]
    simp only [scanned, completed, ← hndef, List.append_assoc, dataCalls_append]
  rw [h.step_eq, dispatch, if_neg (by simp [scanned, hh]), if_pos (by exact hm), ← hndef, hwhole]
  rfl

/-- An iteration that ends in the middle of a section outside a header block. -/
theorem step_interrupted (h : arg.Ready) (hh : arg.needHeader = false)
    (hin : ∀ k, arg.partIndex = some k → k < arg.parts.length)
    (hm : (Matcher.feed arg.delimiter arg.matchCounter buffer).1 < arg.delimiter.length)
    (hfit : (Matcher.feed arg.delimiter arg.matchCounter buffer).1 ≤ buffer.length) :
    arg.step heap result buffer = some
      (buffer.length, result,
        { arg with
          matchCounter := (Matcher.feed arg.delimiter arg.matchCounter buffer).1
          boundaryBuffer :=
            arg.delimiter.take (Matcher.feed arg.delimiter arg.matchCounter buffer).1
          calls := arg.calls ++ dataCalls arg.partIndex (arg.interrupted buffer) }) := by
  have hlen := (Matcher.feed_spec arg.delimiter buffer arg.matchCounter h.counter.le).2.2.1 hm
  have hheld := Matcher.drop_eq_take h.counter.le hm hfit
  set m := (Matcher.feed arg.delimiter arg.matchCounter buffer).1 with hmdef
  have hempty : (arg.scanned buffer).boundaryBuffer = [] := by
    by_cases h0 : arg.matchCounter = 0
    · have hnil : arg.boundaryBuffer = [] := by
        rw [h.buffered, h0]
        simp
      simp [scanned, hnil]
    · exact if_neg (by omega)
  have hpass : ∀ piece, passOn (arg.scanned buffer) piece = some { arg.scanned buffer with
      calls := (arg.scanned buffer).calls ++ dataCalls arg.partIndex [piece] } :=
    fun piece => passOn_eq (by exact hin)
  have hbound : arg.delimiter.length < arg.boundary.length + 9 :=
    (length_delimiterText _ _ _ _).2
  rw [h.step_eq, hlen, dispatch, if_neg (by simp [scanned, hh]),
    if_neg (by exact Nat.ne_of_lt hm), List.take_length]
  by_cases hpos : 0 < m
  · rw [if_pos (by exact hpos), partialBoundary, if_neg (by exact Nat.not_lt.mpr hfit)]
    simp only [hpass, Option.bind_eq_bind, Option.bind_some, hempty]
    rw [if_neg (by simp [scanned]; omega)]
    simp only [scanned, interrupted, ← hmdef, hheld, dataCalls_append, List.append_assoc,
      List.nil_append, Option.map_some]
  · have hm0 : m = 0 := by omega
    rw [if_neg (by exact hpos), noBoundary, hpass]
    simp only [scanned, interrupted, ← hmdef, hm0, dataCalls_append, List.append_assoc,
      Option.map_some, Nat.sub_zero, List.take_length, List.take_zero]

/-- An iteration that scans less than the candidate it ends in. -/
theorem step_overrun (h : arg.Ready) (hh : arg.needHeader = false)
    (hm : (Matcher.feed arg.delimiter arg.matchCounter buffer).1 < arg.delimiter.length)
    (hfit : buffer.length < (Matcher.feed arg.delimiter arg.matchCounter buffer).1) :
    arg.step heap result buffer = none := by
  have hn := (Matcher.feed_spec arg.delimiter buffer arg.matchCounter h.counter.le).2.2.1 hm
  rw [h.step_eq, dispatch, if_neg (by simp [scanned, hh]), if_neg (by simp [scanned]; omega),
    if_pos (by simp [scanned]; omega), partialBoundary, if_pos (by simp [scanned, hn, hfit])]
  rfl

end Ready

end ReadMultipartArg

end DsiRest
