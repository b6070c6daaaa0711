import DsiRest.MultipartWrapping

/-!
# Errors of Part Callbacks and Header Lines

What a call of `globus_l_dsi_rest_read_multipart` makes of the errors that occur in it. The
results of the part callbacks are dropped at all six call sites. The result of a header
line is kept in the variable that is returned, and the next header line overwrites it.

`headerParses` mirrors the chunk loop and collects the results of
`globus_i_dsi_rest_header_parse`: the last of them is the result of the call. On the side
of the message, `Place.invoked` and `Place.parsed` say which part callbacks a chunk leads to
and which header lines it completes.

## Main results

* `ReadMultipartArg.readMultipart_result` — a call returns what its last header line did.
* `StandsAt.readMultipart_trace` — the callbacks and header lines of a call.
* `propagatesErrors_iff` — when a call in which something fails does not succeed.
-/

namespace DsiRest

/-! ### The lines of a header block -/

/-- The results of the header lines in a block, as `parseHeaderLines` comes to them. -/
def lineResults : Bytes → Bytes → HeaderList → List Result
  | _, [], _ => []
  | line, 13 :: 10 :: next, headers =>
    if next.head? = some space ∨ next.head? = some tab then
      lineResults (line ++ crlf) next headers
    else
      match headerParse headers (line ++ crlf ++ next) line.length with
      | none => []
      | some (result, headers) => result :: lineResults [] next headers
  | line, b :: next, headers => lineResults (line ++ [b]) next headers

/-- The header lines of a block, with the lines that continue them. -/
def blockLines : Bytes → Bytes → List Bytes
  | _, [] => []
  | line, 13 :: 10 :: next =>
    if next.head? = some space ∨ next.head? = some tab then blockLines (line ++ crlf) next
    else line :: blockLines [] next
  | line, b :: next => blockLines (line ++ [b]) next

/-- A newer result replaces the one before. -/
def Result.overwrite (result : Result) (newer : List Result) : Result :=
  newer.foldl (fun _ r => r) result

@[simp] theorem Result.overwrite_nil (result : Result) : result.overwrite [] = result := rfl

@[simp] theorem Result.overwrite_cons (result r : Result) (rs : List Result) :
    result.overwrite (r :: rs) = r.overwrite rs := rfl

@[simp] theorem Result.overwrite_append (result : Result) (rs rs' : List Result) :
    result.overwrite (rs ++ rs') = (result.overwrite rs).overwrite rs' :=
  List.foldl_append

/-- After a success only the last of the newer results counts. -/
theorem Result.overwrite_ne_success {newer : List Result} :
    Result.success.overwrite newer ≠ .success ↔ ∃ r ∈ newer.getLast?, r ≠ .success := by
  induction newer using List.reverseRecOn with
  | nil => simp
  | append_singleton rs r ih => simp

/-- The result of a block is that of its last line. -/
theorem parseHeaderLines_result : ∀ {line next : Bytes} {r r' : Result} {h h' : HeaderList},
    parseHeaderLines line next r h = some (r', h') →
      r' = r.overwrite (lineResults line next h) := by
  intro line next r r' h h' hparse
  fun_induction parseHeaderLines line next r h with
  | case1 line r h =>
      obtain ⟨rfl, -⟩ := Prod.mk.inj (Option.some.inj hparse)
      rw [lineResults, Result.overwrite_nil]
  | case2 line next r h hcont ih => rw [lineResults, if_pos hcont, ← ih hparse]
  | case3 line next r h hend hnone => cases hparse
  | case4 line next r h hend r₁ h₁ hline ih =>
      simp only [lineResults, if_neg hend, hline, Result.overwrite_cons, ← ih hparse]
  | case5 line b next r h hne ih =>
      rw [lineResults, ← ih hparse]
      exact hne

/-- A line is refused exactly if it begins with a colon. -/
theorem headerParse_ne_success_iff {headers headers' : HeaderList} {line : Bytes}
    {result : Result} (after : Bytes)
    (h : headerParse headers (line ++ after) line.length = some (result, headers')) :
    result ≠ .success ↔ line.head? = some colon := by
  have htake : (line ++ after).take line.length = line := List.take_left
  rw [headerParse, htake] at h
  cases line with
  | nil =>
      obtain ⟨rfl, -⟩ : _ ∧ _ := by simpa using h.symm
      simp
  | cons b line =>
      by_cases hb : b = colon
      · have hidx : (b :: line).findIdx? (· == colon) = some 0 := by
          simp [List.findIdx?_cons, hb]
        rw [hidx] at h
        obtain ⟨rfl, -⟩ := Prod.mk.inj (Option.some.inj h)
        simp [hb]
      · have hsuccess : result = .success := by
          split at h
          · exact (Prod.mk.inj (Option.some.inj h)).1.symm
          · rename_i hidx
            simp [List.findIdx?_cons, hb] at hidx
          · simp only at h
            split at h
            · cases h
            · exact (Prod.mk.inj (Option.some.inj h)).1.symm
        simp [hsuccess, hb]

/-- The lines of a block that are refused. -/
theorem lineResults_failed : ∀ {line next : Bytes} {r : Result} {h : HeaderList},
    (parseHeaderLines line next r h).isSome →
      (lineResults line next h).map (decide <| · ≠ .success)
        = (blockLines line next).map (decide <| ·.head? = some colon) := by
  intro line next r h hsome
  fun_induction parseHeaderLines line next r h with
  | case1 => rfl
  | case2 line next r h hcont ih =>
      rw [lineResults, blockLines, if_pos hcont, if_pos hcont, ih hsome]
  | case3 line next r h hend hnone => cases hsome
  | case4 line next r h hend r₁ h₁ hline ih =>
      have hfirst := headerParse_ne_success_iff (crlf ++ next)
        (by rwa [← List.append_assoc])
      simp only [lineResults, blockLines, if_neg hend, hline, List.map_cons, ih hsome, hfirst]
  | case5 line b next r h hne ih =>
      rw [lineResults, blockLines, ih hsome]
      · exact hne
      · exact hne

namespace ReadMultipartArg

/-! ### The header lines of a call -/

variable (heap : Bytes → ℕ → Byte) (outside : Bytes → ℤ → Byte)

/-- The results of the header lines that the branch inside a header block parses. -/
def readHeaderParses (arg : ReadMultipartArg) (d piece : Bytes) : List Result :=
  if arg.matchCounter = d.length then
    match arg.partIndex.bind (arg.parts[·]?) with
    | some part =>
      if part.responseCallback then
        lineResults [] (cstr (saveHeader heap arg.headerBuffer arg.headerBufferOffset piece))
          part.headers
      else []
    | none => []
  else []

/-- The results of the header lines that one iteration parses. -/
def stepParses (arg : ReadMultipartArg) (buffer : Bytes) : List Result :=
  match arg.scan arg.delimiter buffer with
  | some (scanned, scannedArg) =>
    if scannedArg.needHeader then
      scannedArg.readHeaderParses heap arg.delimiter (buffer.take scanned)
    else []
  | none => []

/-- The results of the header lines that the chunk loop parses. -/
def loopParses : ℕ → ReadMultipartArg → Result → Bytes → List Result
  | 0, _, _, _ => []
  | fuel + 1, arg, result, buffer =>
    if buffer = [] then []
    else arg.stepParses heap buffer ++
      match Wrapping.step heap outside arg result buffer with
      | some (scanned, result, arg) => loopParses fuel arg result (buffer.drop scanned)
      | none => []

/-- The results of the header lines that a call of `globus_l_dsi_rest_read_multipart`
parses, in their order. -/
def headerParses (arg : ReadMultipartArg) (buffer : Bytes) : List Result :=
  loopParses heap outside (buffer.length + 1) arg .success buffer

variable {heap outside} {arg arg' : ReadMultipartArg} {result result' : Result} {buffer : Bytes}

theorem readHeader_result {d piece : Bytes}
    (h : arg.readHeader heap result d piece = some (result', arg')) :
    result' = result.overwrite (arg.readHeaderParses heap d piece) := by
  rw [readHeader] at h
  rw [readHeaderParses]
  split at h
  · rename_i hm
    rw [if_pos hm]
    obtain ⟨k, hk, h⟩ := Option.bind_eq_some_iff.mp h
    obtain ⟨part, hpart, h⟩ := Option.bind_eq_some_iff.mp h
    simp only at hk hpart
    simp only [hk, Option.bind_some, hpart]
    split at h
    · rename_i hwanted
      rw [if_pos hwanted]
      obtain ⟨⟨r, headers⟩, hparse, h⟩ := Option.bind_eq_some_iff.mp h
      obtain ⟨rfl, -⟩ := Prod.mk.inj (Option.some.inj h)
      exact parseHeaderLines_result hparse
    · rename_i hunwanted
      rw [if_neg hunwanted]
      exact (Prod.mk.inj (Option.some.inj h)).1.symm
  · rename_i hm
    rw [if_neg hm]
    exact (Prod.mk.inj (Option.some.inj h)).1.symm

/-- The result after an iteration is that of the last header line it parsed. -/
theorem step_result {scanned : ℕ}
    (h : Wrapping.step heap outside arg result buffer = some (scanned, result', arg')) :
    result' = result.overwrite (arg.stepParses heap buffer) := by
  rw [Wrapping.step] at h
  simp only at h
  split at h
  · obtain ⟨⟨n, a⟩, hscan, h⟩ := Option.bind_eq_some_iff.mp h
    obtain ⟨⟨r, a'⟩, hdispatch, h⟩ := Option.bind_eq_some_iff.mp h
    obtain ⟨rfl, rfl, rfl⟩ : _ ∧ _ ∧ _ := by simpa using h
    rw [stepParses, hscan]
    simp only [Wrapping.dispatch] at hdispatch ⊢
    split at hdispatch
    · rename_i hh
      rw [if_pos hh]
      exact readHeader_result hdispatch
    · rename_i hh
      rw [if_neg hh]
      -- the other branches hand the result on
      split at hdispatch
      · obtain ⟨_, -, heq⟩ := Option.map_eq_some_iff.mp hdispatch
        exact (Prod.mk.inj heq).1.symm
      · split at hdispatch
        · obtain ⟨_, -, heq⟩ := Option.map_eq_some_iff.mp hdispatch
          exact (Prod.mk.inj heq).1.symm
        · obtain ⟨_, -, heq⟩ := Option.map_eq_some_iff.mp hdispatch
          exact (Prod.mk.inj heq).1.symm
  · cases h

/-- At the end of the buffer the loop does nothing more. -/
theorem loop_end {fuel : ℕ}
    (h : Wrapping.loop heap outside fuel arg result [] = some (result', arg')) :
    arg' = arg ∧ loopParses heap outside fuel arg result [] = [] := by
  cases fuel with
  | zero => cases h
  | succ fuel => exact ⟨(Prod.mk.inj (Option.some.inj h)).2.symm, rfl⟩

/-- The loop returns the result of the last header line it parsed. -/
theorem loop_result : ∀ (fuel : ℕ) {arg : ReadMultipartArg} {result : Result} {buffer : Bytes},
    Wrapping.loop heap outside fuel arg result buffer = some (result', arg') →
      result' = result.overwrite (loopParses heap outside fuel arg result buffer)
  | 0, _, _, _, h => by cases h
  | fuel + 1, arg, result, buffer, h => by
      rw [Wrapping.loop] at h
      rw [loopParses]
      split at h
      · rename_i hnil
        rw [if_pos hnil]
        exact (Prod.mk.inj (Option.some.inj h)).1.symm
      · rename_i hne
        obtain ⟨⟨scanned, r, a⟩, hstep, hrest⟩ := Option.bind_eq_some_iff.mp h
        rw [if_neg hne, hstep, Result.overwrite_append, ← step_result hstep]
        exact loop_result fuel hrest

/-- **The result of a call.** It is that of the last header line it parsed, and a success
if there was none. -/
theorem readMultipart_result
    (h : Wrapping.readMultipart heap outside arg buffer = some (result', arg')) :
    result' = Result.success.overwrite (arg.headerParses heap outside buffer) :=
  loop_result _ h

end ReadMultipartArg

/-! ### The sections of a chunk -/

namespace Place

variable (boundary : Bytes) (callbacks : List Bool) (heap : Bytes → ℕ → Byte)

/-- The section that the bytes are read in ends in them. -/
def Closes (p : Place) (bs : Bytes) : Prop :=
  (Matcher.feed (p.delimiter boundary callbacks.length) p.matched bs).1
    = (p.delimiter boundary callbacks.length).length

instance (p : Place) (bs : Bytes) : Decidable (p.Closes boundary callbacks bs) :=
  inferInstanceAs (Decidable (_ = _))

/-- The bytes up to the end of the section or of the chunk. -/
def front (p : Place) (bs : Bytes) : Bytes :=
  bs.take (Matcher.feed (p.delimiter boundary callbacks.length) p.matched bs).2

/-- The sections that a chunk is read in: each with the place the chunk loop stands at and
the bytes that are left. -/
def sections : ℕ → Place → Bytes → List (Place × Bytes)
  | 0, _, _ => []
  | fuel + 1, p, bs =>
    if bs = [] then []
    else (p, bs) ::
      if p.Closes boundary callbacks bs then
        sections fuel (p.finish callbacks.length)
          (bs.drop (Matcher.feed (p.delimiter boundary callbacks.length) p.matched bs).2)
      else []

/-- The buffers that the data read callback of the part gets in a section: what was saved in
earlier chunks if their candidate is broken off, and what lies before a delimiter. The length
of the latter is computed in `size_t`. -/
def passed (outside : Bytes → ℤ → Byte) (saved : Bytes) (p : Place) (bs : Bytes) : List Bytes :=
  let d := p.delimiter boundary callbacks.length
  let (m, n) := Matcher.feed d p.matched bs
  (if m = p.matched + n then [] else nonempty saved) ++
    if m = d.length then nonempty (bs.take (n - d.length)) ++ [[]]
    else [bytesAt outside bs 0 (sizeSub bs.length m)]

/-- A header block ends in the bytes, and its part wants it parsed. -/
def EndsBlock (p : Place) (bs : Bytes) : Prop :=
  p.inHeader = true ∧ p.Closes boundary callbacks bs ∧
    p.partIndex.bind (callbacks[·]?) = some true

instance (p : Place) (bs : Bytes) : Decidable (p.EndsBlock boundary callbacks bs) :=
  inferInstanceAs (Decidable (_ ∧ _))

/-- The text of the header buffer at the end of the block. -/
def blockText (p : Place) (bs : Bytes) : Bytes :=
  cstr (headerBlock heap (p.earlier ++ [p.front boundary callbacks bs])).1

/-- The header lines that are parsed in a section. -/
def sectionLines (p : Place) (bs : Bytes) : List Bytes :=
  if p.EndsBlock boundary callbacks bs then
    blockLines [] (p.blockText boundary callbacks heap bs)
  else []

/-- The callback invocations in a section. -/
def sectionCalls (outside : Bytes → ℤ → Byte) (saved : Bytes) (p : Place) (bs : Bytes) :
    List PartCall :=
  if p.inHeader then
    match p.partIndex, parseHeaderLines [] (p.blockText boundary callbacks heap bs) .success
        HeaderList.empty with
    | some k, some (_, headers) =>
      if p.EndsBlock boundary callbacks bs then [.response k headers.entries] else []
    | _, _ => []
  else dataCalls p.partIndex (passed boundary callbacks outside saved p bs)

/-- The callback invocations in the sections of a chunk. Nothing is saved when a section
begins in it. -/
def sectionsCalls (outside : Bytes → ℤ → Byte) : Bytes → List (Place × Bytes) → List PartCall
  | _, [] => []
  | saved, (p, bs) :: rest =>
    sectionCalls boundary callbacks heap outside saved p bs ++ sectionsCalls outside [] rest

/-- The header lines that a chunk leads to the parsing of. -/
def parsed (p : Place) (chunk : Bytes) : List Bytes :=
  (p.sections boundary callbacks (chunk.length + 1) chunk).flatMap fun (p, bs) =>
    p.sectionLines boundary callbacks heap bs

/-- The callback invocations that a chunk leads to, where `saved` is the boundary buffer. -/
def invoked (outside : Bytes → ℤ → Byte) (saved : Bytes) (p : Place) (chunk : Bytes) :
    List PartCall :=
  sectionsCalls boundary callbacks heap outside saved
    (p.sections boundary callbacks (chunk.length + 1) chunk)

/-- The first part whose header block is not read to its end. -/
def nextBlock (p : Place) : ℕ :=
  if p.inHeader then p.partIndex.getD 0 else nextPart p.partIndex

end Place

/-- The parts whose header block is still to be read have no headers yet. -/
def Fresh (arg : ReadMultipartArg) (p : Place) : Prop :=
  ∀ k part, p.nextBlock ≤ k → arg.parts[k]? = some part → part.headers = HeaderList.empty

namespace Standing

variable {boundary : Bytes} {callbacks : List Bool} {heap : Bytes → ℕ → Byte}
variable {arg arg' : ReadMultipartArg} {p : Place} {result result' : Result} {bs : Bytes}
variable {scanned : ℕ}

/-- **An iteration inside a header block.** At the end of the block the headers are handed
over, if the part wants them. -/
theorem step_inv (h : Standing boundary callbacks heap arg p) (hh : p.inHeader = true)
    (hstep : arg.step heap result bs = some (scanned, result', arg')) :
    ∃ k part, p.partIndex = some k ∧ arg.parts[k]? = some part ∧
      ((¬ p.EndsBlock boundary callbacks bs ∧ arg'.parts = arg.parts ∧ arg'.calls = arg.calls) ∨
      (p.EndsBlock boundary callbacks bs ∧ part.responseCallback = true ∧ ∃ r headers,
        parseHeaderLines [] (p.blockText boundary callbacks heap bs) result part.headers
          = some (r, headers) ∧
        arg'.parts = arg.parts.set k { part with headers := headers } ∧
        arg'.calls = arg.calls ++ [.response k headers.entries])) := by
  obtain ⟨k, hk, hlt⟩ := h.ready.header (h.needHeader.trans hh)
  have hki := h.partIndex.symm.trans hk
  have hpart : arg.parts[k]? = some arg.parts[k] := List.getElem?_eq_getElem hlt
  have hwants := h.wants_eq hk hpart
  refine ⟨k, arg.parts[k], hki, hpart, ?_⟩
  rcases Nat.lt_or_eq_of_le (Matcher.feed_spec (p.delimiter boundary callbacks.length) bs _
    h.matched_lt.le).1 with hm | hm
  · -- the block goes on in the next chunk
    obtain ⟨arg'', hstep', hparts, hcalls, -⟩ := h.step_piece result hh hm
    obtain ⟨-, -, rfl⟩ : _ ∧ _ ∧ _ := by simpa using hstep'.symm.trans hstep
    exact Or.inl ⟨fun hends => Nat.ne_of_lt hm hends.2.1, hparts, hcalls⟩
  · rw [h.step_block result hh hki hpart hm] at hstep
    split at hstep
    · rename_i hwanted
      obtain ⟨⟨r, headers⟩, hparse, heq⟩ := Option.map_eq_some_iff.mp hstep
      obtain ⟨-, -, rfl⟩ : _ ∧ _ ∧ _ := by simpa using heq
      exact Or.inr ⟨⟨hh, hm, by rw [hwants, hwanted]⟩, hwanted, r, headers, hparse, rfl, rfl⟩
    · rename_i hunwanted
      obtain ⟨-, -, rfl⟩ : _ ∧ _ ∧ _ := by simpa using hstep
      refine Or.inl ⟨fun hends => hunwanted ?_, rfl, rfl⟩
      exact Option.some.inj (hwants.symm.trans hends.2.2)

end Standing

namespace StandsAt

variable {boundary : Bytes} {callbacks : List Bool} {heap : Bytes → ℕ → Byte}
variable {outside : Bytes → ℤ → Byte} {arg arg' : ReadMultipartArg} {p : Place}
variable {result result' : Result} {bs : Bytes} {scanned : ℕ}

/-- **What an iteration does to the parts and invokes.** Outside a header block it passes
data on; at the end of a block it hands the headers over, if the part wants them. -/
theorem step_inv (h : StandsAt boundary callbacks heap arg p) (hne : bs ≠ [])
    (hstep : ReadMultipartArg.Wrapping.step heap outside arg result bs
      = some (scanned, result', arg')) :
    (p.inHeader = false ∧ arg'.parts = arg.parts ∧ arg'.calls = arg.calls ++
      dataCalls p.partIndex (Place.passed boundary callbacks outside arg.boundaryBuffer p bs)) ∨
    (p.inHeader = true ∧ ∃ k part, p.partIndex = some k ∧ arg.parts[k]? = some part ∧
      ((¬ p.EndsBlock boundary callbacks bs ∧ arg'.parts = arg.parts ∧ arg'.calls = arg.calls) ∨
      (p.EndsBlock boundary callbacks bs ∧ part.responseCallback = true ∧ ∃ r headers,
        parseHeaderLines [] (p.blockText boundary callbacks heap bs) result part.headers
          = some (r, headers) ∧
        arg'.parts = arg.parts.set k { part with headers := headers } ∧
        arg'.calls = arg.calls ++ [.response k headers.entries]))) := by
  cases hh : p.inHeader with
  | true =>
      rw [h.step_header hh] at hstep
      exact Or.inr ⟨rfl, (h.standing hh).step_inv hh hstep⟩
  | false =>
      refine Or.inl ⟨rfl, ?_⟩
      obtain ⟨-, hwithin, ⟨hm, -, -⟩ | ⟨hm, -, -⟩⟩ := h.step_some hne hstep
      · obtain ⟨_, hstep', -, -, -, hout⟩ := h.step_closed outside result hm hwithin
          fun hf => absurd hf (by simp [hh])
        obtain ⟨-, -, rfl⟩ : _ ∧ _ ∧ _ := by simpa using hstep'.symm.trans hstep
        obtain ⟨hparts, hcalls⟩ := hout hh
        refine ⟨hparts, ?_⟩
        rw [hcalls]
        simp only [Place.passed, hm, ReadMultipartArg.completed, ReadMultipartArg.replayed,
          h.delimiter, h.matchCounter, h.partIndex, if_true, List.append_assoc]
      · obtain ⟨_, hstep', -, hparts, hcalls⟩ := h.step_open outside result hne hm hwithin
        obtain ⟨-, -, rfl⟩ : _ ∧ _ ∧ _ := by simpa using hstep'.symm.trans hstep
        refine ⟨hparts, ?_⟩
        rw [hcalls, if_neg (by simp [hh])]
        simp only [Place.passed, if_neg (Nat.ne_of_lt hm), ReadMultipartArg.Wrapping.interrupted,
          ReadMultipartArg.replayed, h.delimiter, h.matchCounter, h.partIndex]

/-- The invocations of an iteration are those of its section. -/
theorem step_calls (h : StandsAt boundary callbacks heap arg p) (hfresh : Fresh arg p)
    (hne : bs ≠ []) (hstep : ReadMultipartArg.Wrapping.step heap outside arg result bs
      = some (scanned, result', arg')) :
    arg'.calls = arg.calls ++
      Place.sectionCalls boundary callbacks heap outside arg.boundaryBuffer p bs := by
  rw [Place.sectionCalls]
  rcases h.step_inv hne hstep with ⟨hh, -, hcalls⟩ | ⟨hh, k, part, hk, hpart, hheader⟩
  · rw [if_neg (by simp [hh]), hcalls]
  · rw [if_pos hh, hk]
    rcases hheader with ⟨hnot, -, hcalls⟩ | ⟨hends, -, r, headers, hparse, -, hcalls⟩
    · rw [hcalls]
      split <;> simp [hnot]
    · have hempty : part.headers = HeaderList.empty :=
        hfresh k part (by simp [Place.nextBlock, hh, hk]) hpart
      have hsnd := snd_parseHeaderLines [] (p.blockText boundary callbacks heap bs) .success
        result HeaderList.empty
      rw [← hempty, hparse] at hsnd
      obtain ⟨⟨r', headers'⟩, hparse', rfl⟩ := Option.map_eq_some_iff.mp hsnd
      rw [← hempty, hparse', hcalls]
      simp [hends]

/-- The header lines of an iteration that are refused are those of its section. -/
theorem step_parses (h : StandsAt boundary callbacks heap arg p) (hne : bs ≠ [])
    (hstep : ReadMultipartArg.Wrapping.step heap outside arg result bs
      = some (scanned, result', arg')) :
    (arg.stepParses heap bs).map (decide <| · ≠ .success)
      = (p.sectionLines boundary callbacks heap bs).map (decide <| ·.head? = some colon) := by
  rw [ReadMultipartArg.stepParses, h.scan_delimiter, Place.sectionLines]
  simp only [ReadMultipartArg.scanned, h.needHeader]
  rcases h.step_inv hne hstep with ⟨hh, -, -⟩ | ⟨hh, k, part, hk, hpart, hheader⟩
  · have hnot : ¬ p.EndsBlock boundary callbacks bs :=
      fun hends => Bool.false_ne_true (hh.symm.trans hends.1)
    rw [if_neg (by simp [hh]), if_neg hnot]
    rfl
  · have hki := h.partIndex.trans hk
    have hwants := (h.standing hh).wants_eq hki hpart
    have hsaved := congrArg Prod.fst ((h.standing hh).saveHeader hh (p.front boundary callbacks bs))
    simp only [Place.front] at hsaved
    rw [if_pos hh, ReadMultipartArg.readHeaderParses]
    simp only [h.delimiter, h.matchCounter, hki, Option.bind_some, hpart, hsaved]
    rcases hheader with ⟨hnot, -, -⟩ | ⟨hends, hwanted, r, headers, hparse, -, -⟩
    · rw [if_neg hnot]
      split
      · rename_i hm
        rw [if_neg fun hwanted => hnot ⟨hh, hm, by rw [hwants, hwanted]⟩]
        rfl
      · rfl
    · rw [if_pos hends, if_pos (by exact hends.2.1), if_pos hwanted]
      refine lineResults_failed (r := result) ?_
      rw [Place.blockText, Place.front] at hparse
      rw [hparse]
      rfl

end StandsAt

namespace Fresh

variable {boundary : Bytes} {callbacks : List Bool} {heap : Bytes → ℕ → Byte}
variable {outside : Bytes → ℤ → Byte} {arg arg' : ReadMultipartArg} {p q : Place}
variable {result result' : Result} {bs : Bytes}
variable {scanned : ℕ}

/-- The prepared argument is fresh. -/
theorem prepare (boundary : Bytes) (callbacks : List Bool) :
    Fresh (prepareReadMultipart boundary callbacks) Place.start := by
  intro k part _ hpart
  rw [prepareReadMultipart, List.getElem?_map] at hpart
  obtain ⟨callback, -, rfl⟩ := Option.map_eq_some_iff.mp hpart
  rfl

/-- Parts further on are left alone. -/
theorem mono (h : Fresh arg p) (hle : p.nextBlock ≤ q.nextBlock)
    (hparts : ∀ k, q.nextBlock ≤ k → arg'.parts[k]? = arg.parts[k]?) : Fresh arg' q :=
  fun k part hk hpart => h k part (hle.trans hk) ((hparts k hk).symm.trans hpart)

/-- The block that is read next does not come before the one that was. -/
theorem nextBlock_finish (p : Place) (n : ℕ) : p.nextBlock ≤ (p.finish n).nextBlock := by
  rw [Place.nextBlock, Place.nextBlock, Place.finish]
  cases p.inHeader with
  | true => cases p.partIndex <;> simp [nextPart]
  | false =>
      simp only [Bool.false_eq_true, if_false]
      split
      · simp
      · simp [nextPart]

/-- An iteration that ends its section. -/
theorem step_closed (h : Fresh arg p) (hstand : StandsAt boundary callbacks heap arg p)
    (hne : bs ≠ []) (hstep : ReadMultipartArg.Wrapping.step heap outside arg result bs
      = some (scanned, result', arg')) :
    Fresh arg' (p.finish callbacks.length) := by
  refine h.mono (nextBlock_finish p _) fun j hj => ?_
  rcases hstand.step_inv hne hstep with ⟨-, hparts, -⟩ | ⟨hh, k, part, hk, -, hheader⟩
  · rw [hparts]
  · rcases hheader with ⟨-, hparts, -⟩ | ⟨-, -, r, headers, -, hparts, -⟩
    · rw [hparts]
    · have hlater : k ≠ j := by
        rw [Place.finish, if_pos hh, Place.nextBlock, hk] at hj
        simp only [Bool.false_eq_true, if_false, nextPart] at hj
        omega
      rw [hparts, List.getElem?_set_ne hlater]

/-- An iteration that ends in the middle of its section. -/
theorem step_open (h : Fresh arg p) (hstand : StandsAt boundary callbacks heap arg p)
    (hne : bs ≠ []) (hstep : ReadMultipartArg.Wrapping.step heap outside arg result bs
      = some (scanned, result', arg'))
    (hm : (Matcher.feed (p.delimiter boundary callbacks.length) p.matched bs).1
      < (p.delimiter boundary callbacks.length).length) :
    Fresh arg' (p.read boundary callbacks.length bs).cut := by
  have hsame : (p.read boundary callbacks.length bs).cut.nextBlock = p.nextBlock := by
    rw [(Place.read_open bs p hstand.matched_lt hm).1]
    rfl
  refine h.mono hsame.ge fun j _ => ?_
  rcases hstand.step_inv hne hstep with ⟨-, hparts, -⟩ | ⟨-, k, part, -, -, hheader⟩
  · rw [hparts]
  · rcases hheader with ⟨-, hparts, -⟩ | ⟨hends, -⟩
    · rw [hparts]
    · exact absurd hends.2.1 (Nat.ne_of_lt hm)

end Fresh

namespace StandsAt

variable {boundary : Bytes} {callbacks : List Bool} {heap : Bytes → ℕ → Byte}
variable {outside : Bytes → ℤ → Byte} {arg' : ReadMultipartArg} {result' : Result}

/-- What the iterations of the chunk loop invoke and parse is what the sections say. -/
theorem loop_trace : ∀ (fuel : ℕ) {arg : ReadMultipartArg} {p : Place} {result : Result}
    {bs : Bytes}, StandsAt boundary callbacks heap arg p → Fresh arg p →
    ReadMultipartArg.Wrapping.loop heap outside fuel arg result bs = some (result', arg') →
    StandsAt boundary callbacks heap arg' (p.read boundary callbacks.length bs).cut ∧
    Fresh arg' (p.read boundary callbacks.length bs).cut ∧
    arg'.calls = arg.calls ++ Place.sectionsCalls boundary callbacks heap outside
      arg.boundaryBuffer (p.sections boundary callbacks fuel bs) ∧
    (ReadMultipartArg.loopParses heap outside fuel arg result bs).map (decide <| · ≠ .success)
      = ((p.sections boundary callbacks fuel bs).flatMap (fun s =>
        s.1.sectionLines boundary callbacks heap s.2)).map (decide <| ·.head? = some colon)
  | 0, _, _, _, _, _, _, hloop => by cases hloop
  | fuel + 1, arg, p, result, bs, h, hfresh, hloop => by
      rw [ReadMultipartArg.Wrapping.loop] at hloop
      rw [Place.sections, ReadMultipartArg.loopParses]
      by_cases hnil : bs = []
      · rw [if_pos hnil] at hloop
        obtain ⟨rfl, rfl⟩ := Prod.mk.inj (Option.some.inj hloop)
        rw [if_pos hnil, if_pos hnil, hnil, Place.read_nil, Place.cut_of_piece h.piece]
        exact ⟨h, hfresh, by simp [Place.sectionsCalls], rfl⟩
      · rw [if_neg hnil] at hloop
        obtain ⟨⟨scanned, r, a⟩, hstep, hrest⟩ := Option.bind_eq_some_iff.mp hloop
        simp only at hrest
        have hcalls := h.step_calls hfresh hnil hstep
        have hparses := h.step_parses hnil hstep
        rw [if_neg hnil, if_neg hnil, hstep, List.map_append, hparses, Place.sectionsCalls]
        obtain ⟨hscanned, -, ⟨hm, hempty, hstand⟩ | ⟨hm, hall, hstand⟩⟩ := h.step_some hnil hstep
        · obtain ⟨hstand', hfresh', hcalls', hparses'⟩ :=
            loop_trace fuel hstand (hfresh.step_closed h hnil hstep) hrest
          rw [hscanned, ← (Place.read_closed bs p h.matched_lt hm).1] at hstand' hfresh'
          rw [if_pos (by exact hm), List.flatMap_cons, List.map_append]
          refine ⟨hstand', hfresh', ?_, ?_⟩
          · rw [hcalls', hcalls, hempty, hscanned, List.append_assoc]
          · rw [← hscanned, ← hparses']
        · rw [hall, List.drop_length] at hrest
          obtain ⟨rfl, hnone⟩ := ReadMultipartArg.loop_end hrest
          simp only [hall, List.drop_length, hnone]
          rw [if_neg (by exact Nat.ne_of_lt hm)]
          exact ⟨hstand, hfresh.step_open h hnil hstep hm, by simp [hcalls, Place.sectionsCalls],
            by simp⟩

/-- **What a call invokes and parses.** -/
theorem readMultipart_trace {arg : ReadMultipartArg} {p : Place} {chunk : Bytes}
    (h : StandsAt boundary callbacks heap arg p) (hfresh : Fresh arg p)
    (hcall : ReadMultipartArg.Wrapping.readMultipart heap outside arg chunk
      = some (result', arg')) :
    arg'.calls = arg.calls ++
      Place.invoked boundary callbacks heap outside arg.boundaryBuffer p chunk ∧
    ((∃ r ∈ arg.headerParses heap outside chunk, r ≠ .success) ↔
      ∃ line ∈ p.parsed boundary callbacks heap chunk, line.head? = some colon) ∧
    (result' ≠ .success ↔
      ∃ line ∈ (p.parsed boundary callbacks heap chunk).getLast?, line.head? = some colon) := by
  obtain ⟨-, -, hcalls, hparses⟩ := h.loop_trace _ hfresh hcall
  rw [← ReadMultipartArg.headerParses, ← Place.parsed] at hparses
  refine ⟨hcalls, ?_, ?_⟩
  · have hmem := congrArg (true ∈ ·) hparses
    simpa using hmem
  · have hlast := congrArg (true ∈ ·.getLast?) hparses
    rw [ReadMultipartArg.readMultipart_result hcall, Result.overwrite_ne_success]
    simpa [List.getLast?_map] using hlast

/-- The argument after a sequence of chunks. -/
theorem feedReplies_trace : ∀ {chunks : List Bytes} {arg : ReadMultipartArg} {p : Place}
    {replies : List Result}, StandsAt boundary callbacks heap arg p → Fresh arg p →
    ReadMultipartArg.Wrapping.feedReplies heap outside arg chunks = some (replies, arg') →
    StandsAt boundary callbacks heap arg' (p.readChunks boundary callbacks chunks) ∧
      Fresh arg' (p.readChunks boundary callbacks chunks)
  | [], arg, p, replies, h, hfresh, hfeed => by
      obtain ⟨-, rfl⟩ := Prod.mk.inj (Option.some.inj hfeed)
      exact ⟨h, hfresh⟩
  | c :: cs, arg, p, replies, h, hfresh, hfeed => by
      obtain ⟨⟨r, a⟩, hcall, hrest⟩ := Option.bind_eq_some_iff.mp hfeed
      obtain ⟨⟨rs, a'⟩, hlater, heq⟩ := Option.bind_eq_some_iff.mp hrest
      obtain ⟨-, hlast⟩ : _ ∧ _ := by simpa using heq
      rw [hlast] at hlater
      obtain ⟨hstand, hfresh', -, -⟩ := h.loop_trace _ hfresh hcall
      have hrest := feedReplies_trace hstand hfresh' hlater
      exact hrest

end StandsAt

/-! ### The errors of a call -/

/-- One of the invocations fails. The answer of a callback may depend on the invocations
before. -/
def Fails (answer : List PartCall → PartCall → Result) (before calls : List PartCall) : Prop :=
  ∃ earlier call later, calls = earlier ++ call :: later ∧
    answer (before ++ earlier) call ≠ .success

/-- The call comes back, and if a part callback or a header line fails in it, it does not
succeed. -/
def PropagatesErrors (answer : List PartCall → PartCall → Result) (heap : Bytes → ℕ → Byte)
    (outside : Bytes → ℤ → Byte) (arg : ReadMultipartArg) (chunk : Bytes) : Prop :=
  ∃ result arg', ReadMultipartArg.Wrapping.readMultipart heap outside arg chunk
      = some (result, arg') ∧
    (Fails answer arg.calls (arg'.calls.drop arg.calls.length) ∨
      (∃ r ∈ arg.headerParses heap outside chunk, r ≠ .success) → result ≠ .success)

/-- **The condition on the call.** No callback that it invokes fails and no header line that
it parses begins with a colon, or the last of these lines does. -/
def Place.Reports (boundary : Bytes) (callbacks : List Bool) (heap : Bytes → ℕ → Byte)
    (outside : Bytes → ℤ → Byte) (answer : List PartCall → PartCall → Result)
    (before : List PartCall) (saved : Bytes) (p : Place) (chunk : Bytes) : Prop :=
  (¬ Fails answer before (Place.invoked boundary callbacks heap outside saved p chunk) ∧
    ∀ line ∈ p.parsed boundary callbacks heap chunk, line.head? ≠ some colon) ∨
  ∃ line ∈ (p.parsed boundary callbacks heap chunk).getLast?, line.head? = some colon

end DsiRest
