import DsiRest.MultipartChunks

/-!
# The Multipart Reader in Machine Arithmetic

At the end of a chunk that ends with a candidate delimiter, the source computes
`scanned - match_counter` in `size_t`. The counter counts over all chunks and `scanned` over
the current one, so the difference wraps once a candidate spans more than two chunks, or two
of which the second is the shorter. `ReadMultipartArg.partialBoundary` is `none` there. The
code goes on: the part's callback is called with the wrapped length, bytes from before the
chunk are saved, possibly past the end of the boundary buffer, and the loop continues.

`ReadMultipartArg.Wrapping` has the functions of the reader with that branch as the machine
runs it. Where the length does not wrap and the saved bytes fit, they are the functions of
`ReadMultipartArg` (`Wrapping.step_of_step`). `StandsAt` says what still holds of the
argument: its counter, its part index and its header block follow the place in the message,
and of the saved bytes nothing is known.

## Main results

* `StandsAt.loop_some`, `StandsAt.loop_none` — a call that wraps reads on, and is undefined
  only behind the closing delimiter or in a header line that its parser leaves.
-/

namespace DsiRest

/-- Subtraction in `size_t`. -/
def sizeSub (a b : ℕ) : ℕ :=
  if b ≤ a then a - b else word - (b - a) % word

theorem sizeSub_of_le {a b : ℕ} (h : b ≤ a) : sizeSub a b = a - b := if_pos h

/-- A difference that wraps is not zero. -/
theorem sizeSub_pos_of_lt {a b : ℕ} (h : a < b) : 0 < sizeSub a b := by
  rw [sizeSub, if_neg (Nat.not_le.mpr h)]
  exact Nat.sub_pos_of_lt (Nat.mod_lt _ (by decide))

/-- Only equal numbers have the difference zero. -/
theorem sizeSub_eq_zero {a b : ℕ} : sizeSub a b = 0 ↔ a = b := by
  rcases Nat.lt_or_ge a b with h | h
  · exact iff_of_false (Nat.pos_iff_ne_zero.mp (sizeSub_pos_of_lt h)) (Nat.ne_of_lt h)
  · rw [sizeSub_of_le h]
    omega

/-- The byte at an offset from the start of a buffer. `outside` is what the memory around
the buffer holds. -/
def byteAt (outside : Bytes → ℤ → Byte) (buffer : Bytes) (i : ℤ) : Byte :=
  if 0 ≤ i then buffer.getD i.toNat (outside buffer i) else outside buffer i

/-- The `n` bytes from an offset on. -/
def bytesAt (outside : Bytes → ℤ → Byte) (buffer : Bytes) (start : ℤ) (n : ℕ) : Bytes :=
  (List.range n).map fun j : ℕ => byteAt outside buffer (start + j)

@[simp] theorem length_bytesAt (outside : Bytes → ℤ → Byte) (buffer : Bytes) (start : ℤ)
    (n : ℕ) : (bytesAt outside buffer start n).length = n := by
  rw [bytesAt, List.length_map, List.length_range]

/-- Bytes of the buffer itself. -/
theorem bytesAt_of_le (outside : Bytes → ℤ → Byte) {buffer : Bytes} {start n : ℕ}
    (h : start + n ≤ buffer.length) :
    bytesAt outside buffer start n = (buffer.drop start).take n := by
  refine List.ext_getElem (by simp; omega) fun i hi _ => ?_
  have hlt : i < n := by simpa using hi
  have hin : start + i < buffer.length := by omega
  simp only [bytesAt, List.getElem_map, List.getElem_range, List.getElem_take,
    List.getElem_drop, byteAt]
  rw [if_pos (by omega), show ((start : ℤ) + (i : ℤ)).toNat = start + i by omega,
    List.getD_eq_getElem?_getD, List.getElem?_eq_getElem hin, Option.getD_some]

namespace ReadMultipartArg.Wrapping

/-! ### The functions of the source -/

variable (heap : Bytes → ℕ → Byte) (outside : Bytes → ℤ → Byte)

/-- The branch at a partial delimiter, with its length in `size_t` and its two buffers
wherever they lie. -/
def partialBoundary (arg : ReadMultipartArg) (buffer : Bytes) (scanned : ℕ) :
    Option ReadMultipartArg :=
  let saved := bytesAt outside buffer (scanned - arg.matchCounter) arg.matchCounter
  (arg.passOn (bytesAt outside buffer 0 (sizeSub scanned arg.matchCounter))).map
    fun (passed : ReadMultipartArg) =>
    { passed with boundaryBuffer := passed.boundaryBuffer ++ saved }

/-- The branches of the chunk loop. -/
def dispatch (arg : ReadMultipartArg) (result : Result) (d buffer : Bytes) (scanned : ℕ) :
    Option (Result × ReadMultipartArg) :=
  let piece := buffer.take scanned
  if arg.needHeader then arg.readHeader heap result d piece
  else if arg.matchCounter = d.length then (arg.completeBoundary d piece).map (result, ·)
  else if 0 < arg.matchCounter then (partialBoundary outside arg buffer scanned).map (result, ·)
  else (arg.noBoundary buffer).map (result, ·)

/-- One iteration of the chunk loop. -/
def step (arg : ReadMultipartArg) (result : Result) (buffer : Bytes) :
    Option (ℕ × Result × ReadMultipartArg) :=
  let d := arg.delimiter
  if d.length < arg.boundary.length + 9 then do
    let (scanned, arg) ← arg.scan d buffer
    let (result, arg) ← dispatch heap outside arg result d buffer scanned
    some (scanned, result, arg)
  else none

/-- The chunk loop. -/
def loop : ℕ → ReadMultipartArg → Result → Bytes → Option (Result × ReadMultipartArg)
  | 0, _, _, _ => none
  | fuel + 1, arg, result, buffer =>
    if buffer = [] then some (result, arg)
    else do
      let (scanned, result, arg) ← step heap outside arg result buffer
      loop fuel arg result (buffer.drop scanned)

/-- `globus_l_dsi_rest_read_multipart`. -/
def readMultipart (arg : ReadMultipartArg) (buffer : Bytes) :
    Option (Result × ReadMultipartArg) :=
  loop heap outside (buffer.length + 1) arg .success buffer

/-- Feeding chunks one by one, with the result of each call. -/
def feedReplies : ReadMultipartArg → List Bytes → Option (List Result × ReadMultipartArg)
  | arg, [] => some ([], arg)
  | arg, chunk :: chunks => do
    let (reply, arg) ← readMultipart heap outside arg chunk
    let (replies, arg) ← feedReplies arg chunks
    some (reply :: replies, arg)

variable {heap outside} {arg arg' : ReadMultipartArg} {result result' : Result}
variable {buffer : Bytes} {scanned : ℕ}

/-! ### Where nothing wraps -/

/-- A scan passes over bytes of its buffer only. -/
theorem scan_le {d : Bytes} : ∀ {bs : Bytes} {arg arg' : ReadMultipartArg} {scanned : ℕ},
    arg.scan d bs = some (scanned, arg') → scanned ≤ bs.length
  | [], arg, arg', scanned, h => by
      obtain ⟨rfl, -⟩ : _ ∧ _ := by simpa [scan] using h
      exact Nat.le_refl 0
  | b :: bs, arg, arg', scanned, h => by
      rw [scan] at h
      split at h
      · obtain ⟨a, -, h⟩ := Option.bind_eq_some_iff.mp h
        obtain ⟨⟨n, a'⟩, hrest, h⟩ := Option.bind_eq_some_iff.mp h
        obtain ⟨rfl, -⟩ : _ ∧ _ := by simpa using h
        exact Nat.succ_le_succ (scan_le hrest)
      · obtain ⟨rfl, -⟩ : _ ∧ _ := by simpa using h
        exact Nat.zero_le _

/-- A partial delimiter that lies in the chunk is saved alike. -/
theorem partialBoundary_of_some (hle : scanned ≤ buffer.length)
    (h : arg.partialBoundary (buffer.take scanned) = some arg') :
    partialBoundary outside arg buffer scanned = some arg' := by
  have hpiece : (buffer.take scanned).length = scanned := List.length_take_of_le hle
  rw [ReadMultipartArg.partialBoundary, hpiece] at h
  split at h
  · cases h
  · rename_i hfit
    have hm : arg.matchCounter ≤ scanned := Nat.not_lt.mp hfit
    obtain ⟨passed, hpass, h⟩ := Option.bind_eq_some_iff.mp h
    have hcounter : bytesAt outside buffer (scanned - arg.matchCounter) arg.matchCounter
        = (buffer.take scanned).drop (scanned - arg.matchCounter) := by
      rw [← Nat.cast_sub hm, bytesAt_of_le outside (by omega), List.drop_take]
      congr 1
      omega
    have hfront : bytesAt outside buffer 0 (sizeSub scanned arg.matchCounter)
        = (buffer.take scanned).take (scanned - arg.matchCounter) := by
      rw [sizeSub_of_le hm, ← Nat.cast_zero, bytesAt_of_le outside (by omega), List.drop_zero,
        List.take_take, Nat.min_eq_left (Nat.sub_le _ _)]
    rw [partialBoundary, hfront, hpass, hcounter]
    split at h
    · cases h
    · exact h

/-- **Where nothing wraps.** An iteration that stays in its buffers is the same iteration. -/
theorem step_of_step (outside : Bytes → ℤ → Byte)
    (h : arg.step heap result buffer = some (scanned, result', arg')) :
    step heap outside arg result buffer = some (scanned, result', arg') := by
  rw [ReadMultipartArg.step] at h
  simp only at h
  split at h
  · rename_i hbound
    obtain ⟨⟨n, a⟩, hscan, h⟩ := Option.bind_eq_some_iff.mp h
    obtain ⟨⟨r, a'⟩, hdispatch, h⟩ := Option.bind_eq_some_iff.mp h
    have hdispatch' : dispatch heap outside a result arg.delimiter buffer n = some (r, a') := by
      simp only [ReadMultipartArg.dispatch] at hdispatch
      simp only [dispatch]
      split
      · rename_i hh
        rwa [if_pos hh] at hdispatch
      · rename_i hh
        rw [if_neg hh] at hdispatch
        split
        · rename_i hm
          rwa [if_pos hm] at hdispatch
        · rename_i hm
          rw [if_neg hm] at hdispatch
          split
          · rename_i hpos
            rw [if_pos hpos] at hdispatch
            obtain ⟨saved, hsaved, heq⟩ := Option.map_eq_some_iff.mp hdispatch
            rw [partialBoundary_of_some (scan_le hscan) hsaved]
            exact congrArg some heq
          · rename_i hpos
            rwa [if_neg hpos] at hdispatch
    simp only [step, if_pos hbound, hscan, Option.bind_eq_bind, Option.bind_some, hdispatch']
    exact h
  · cases h

/-- **Where nothing wraps.** A call that stays in its buffers is the same call. -/
theorem readMultipart_of_some (h : arg.readMultipart heap buffer = some (result', arg')) :
    readMultipart heap outside arg buffer = some (result', arg') := by
  have hloop : ∀ (fuel : ℕ) {arg : ReadMultipartArg} {result : Result} {buffer : Bytes},
      ReadMultipartArg.loop heap fuel arg result buffer = some (result', arg') →
        loop heap outside fuel arg result buffer = some (result', arg') := by
    intro fuel
    induction fuel with
    | zero => intro arg result buffer h; cases h
    | succ fuel ih =>
        intro arg result buffer h
        rw [ReadMultipartArg.loop] at h
        rw [loop]
        split at h
        · rename_i hnil
          rwa [if_pos hnil]
        · rename_i hne
          obtain ⟨⟨n, r, a⟩, hstep, hrest⟩ := Option.bind_eq_some_iff.mp h
          rw [if_neg hne, step_of_step outside hstep]
          exact ih hrest
  exact hloop _ h

/-- The loop goes on after an iteration. -/
theorem loop_of_step (hne : buffer ≠ [])
    (h : step heap outside arg result buffer = some (scanned, result', arg')) (fuel : ℕ) :
    loop heap outside (fuel + 1) arg result buffer
      = loop heap outside fuel arg' result' (buffer.drop scanned) := by
  rw [loop, if_neg hne, h]
  rfl

/-- The loop fails with an iteration. -/
theorem loop_of_step_none (hne : buffer ≠ [])
    (h : step heap outside arg result buffer = none) (fuel : ℕ) :
    loop heap outside fuel arg result buffer = none := by
  cases fuel with
  | zero => rfl
  | succ fuel =>
      rw [loop, if_neg hne, h]
      rfl

/-- The loop ends with the buffer. -/
theorem loop_nil {fuel : ℕ} (h : 0 < fuel) : loop heap outside fuel arg result []
    = some (result, arg) := by
  cases fuel with
  | zero => exact absurd h (Nat.lt_irrefl 0)
  | succ fuel => rfl

/-- The buffers of the data calls of an iteration that ends in the middle of a section. -/
def interrupted (outside : Bytes → ℤ → Byte) (arg : ReadMultipartArg) (buffer : Bytes) :
    List Bytes :=
  arg.replayed buffer ++ [bytesAt outside buffer 0 (sizeSub buffer.length
    (Matcher.feed arg.delimiter arg.matchCounter buffer).1)]

end ReadMultipartArg.Wrapping

open ReadMultipartArg

section Refinement

variable {boundary : Bytes} {callbacks : List Bool} {heap : Bytes → ℕ → Byte}
variable {outside : Bytes → ℤ → Byte}

/-- The argument stands at a place, whatever was saved of a candidate delimiter. -/
structure StandsAt (boundary : Bytes) (callbacks : List Bool) (heap : Bytes → ℕ → Byte)
    (arg : ReadMultipartArg) (p : Place) : Prop where
  boundary_eq : arg.boundary = boundary
  callbacks_eq : arg.parts.map ReadPart.responseCallback = callbacks
  partIndex : arg.partIndex = p.partIndex
  needHeader : arg.needHeader = p.inHeader
  matchCounter : arg.matchCounter = p.matched
  piece : p.piece = []
  matched_lt : p.matched < (p.delimiter boundary callbacks.length).length
  header : p.inHeader = true → arg.boundaryBuffer = [] ∧
    ∃ k, p.partIndex = some k ∧ k < callbacks.length
  epilogue : p.Within callbacks.length ∨ p.matched = 0 ∧ arg.boundaryBuffer = []
  offset : arg.headerBufferOffset
    = if p.inHeader then (Place.headerBlock heap p.earlier).2 else 0
  block : p.inHeader = true → p.earlier ≠ [] →
    arg.headerBuffer = (Place.headerBlock heap p.earlier).1

namespace StandsAt

variable {arg : ReadMultipartArg} {p : Place} {result : Result} {bs : Bytes}

/-- The number of parts. -/
theorem numParts (h : StandsAt boundary callbacks heap arg p) :
    arg.parts.length = callbacks.length := by
  rw [← h.callbacks_eq, List.length_map]

/-- The delimiter the reader looks for is that of the section. -/
theorem delimiter (h : StandsAt boundary callbacks heap arg p) :
    arg.delimiter = p.delimiter boundary callbacks.length := by
  rw [ReadMultipartArg.delimiter, Place.delimiter, h.boundary_eq, h.numParts, h.partIndex,
    h.needHeader]

/-- The counter is below the length of the delimiter. -/
theorem counter (h : StandsAt boundary callbacks heap arg p) :
    arg.matchCounter < arg.delimiter.length := by
  rw [h.delimiter, h.matchCounter]
  exact h.matched_lt

/-- An argument that stands at a place with the candidate saved stands there. -/
theorem of_standing (h : Standing boundary callbacks heap arg p) :
    StandsAt boundary callbacks heap arg p where
  boundary_eq := h.boundary
  callbacks_eq := h.callbacks
  partIndex := h.partIndex
  needHeader := h.needHeader
  matchCounter := h.matchCounter
  piece := h.piece
  matched_lt := h.matched_lt
  header := fun hh => by
    obtain ⟨k, hk, hlt⟩ := h.ready.header (h.needHeader.trans hh)
    refine ⟨?_, k, h.partIndex.symm.trans hk, h.numParts ▸ hlt⟩
    rw [h.ready.buffered, h.needHeader, if_pos hh]
  epilogue := by
    by_cases hwithin : p.Within callbacks.length
    · exact Or.inl hwithin
    · rw [Place.Within, not_forall] at hwithin
      obtain ⟨k, hk⟩ := hwithin
      rw [Classical.not_imp, ← h.partIndex, ← h.numParts] at hk
      have hzero := (h.ready.epilogue k hk.1).resolve_left hk.2
      refine Or.inr ⟨h.matchCounter.symm.trans hzero, ?_⟩
      rw [h.ready.buffered, hzero, List.take_zero, ite_self]
  offset := h.offset
  block := h.block

/-- Inside a header block nothing is saved, so the candidate is. -/
theorem standing (h : StandsAt boundary callbacks heap arg p) (hh : p.inHeader = true) :
    Standing boundary callbacks heap arg p where
  boundary := h.boundary_eq
  callbacks := h.callbacks_eq
  partIndex := h.partIndex
  needHeader := h.needHeader
  matchCounter := h.matchCounter
  piece := h.piece
  ready :=
    { counter := h.counter
      buffered := by rw [(h.header hh).1, h.needHeader, if_pos hh]
      header := fun _ => by
        obtain ⟨-, k, hk, hlt⟩ := h.header hh
        exact ⟨k, h.partIndex.trans hk, h.numParts.symm ▸ hlt⟩
      epilogue := fun j hj => by
        obtain ⟨-, k, hk, hlt⟩ := h.header hh
        obtain rfl : k = j := Option.some.inj ((h.partIndex.trans hk).symm.trans hj)
        exact Or.inl (h.numParts.symm ▸ hlt) }
  offset := h.offset
  block := h.block

/-- The prepared argument stands at the start. -/
theorem prepare : StandsAt boundary callbacks heap (prepareReadMultipart boundary callbacks)
    Place.start := of_standing Standing.prepare

/-- Before the end of the message the current part exists. -/
theorem part_lt (h : StandsAt boundary callbacks heap arg p)
    (hwithin : p.Within callbacks.length) :
    ∀ k, arg.partIndex = some k → k < arg.parts.length := by
  rw [h.partIndex, h.numParts]
  exact hwithin

/-- After the last part nothing is saved. -/
theorem replayable (h : StandsAt boundary callbacks heap arg p) :
    ∀ k, arg.partIndex = some k → k < arg.parts.length ∨ arg.boundaryBuffer = [] := by
  intro k hk
  rcases h.epilogue with hwithin | ⟨-, hnil⟩
  · exact Or.inl (h.part_lt hwithin k hk)
  · exact Or.inr hnil

/-- The scan for the delimiter of the section. -/
theorem scan_delimiter (h : StandsAt boundary callbacks heap arg p) :
    arg.scan arg.delimiter bs
      = some ((Matcher.feed arg.delimiter arg.matchCounter bs).2, arg.scanned bs) := by
  rw [scan_eq _ _ h.replayable h.counter.le, scanned, replayed]
  split <;> simp

/-- An iteration is the matcher's scan and one of the branches. -/
theorem step_eq (h : StandsAt boundary callbacks heap arg p) :
    Wrapping.step heap outside arg result bs
      = (Wrapping.dispatch heap outside (arg.scanned bs) result arg.delimiter bs
          (Matcher.feed arg.delimiter arg.matchCounter bs).2).map
        ((Matcher.feed arg.delimiter arg.matchCounter bs).2, ·) := by
  have hbound : arg.delimiter.length < arg.boundary.length + 9 :=
    (length_delimiterText _ _ _ _).2
  rw [Wrapping.step, if_pos hbound, h.scan_delimiter]
  simp only [Option.bind_eq_bind, Option.bind_some]
  rw [Option.map_eq_bind]
  rfl

/-- Inside a header block nothing wraps. -/
theorem step_header (h : StandsAt boundary callbacks heap arg p) (hh : p.inHeader = true) :
    Wrapping.step heap outside arg result bs = arg.step heap result bs := by
  have hneed : (arg.scanned bs).needHeader = true := h.needHeader.trans hh
  rw [h.step_eq, (h.standing hh).ready.step_eq, Wrapping.dispatch, dispatch, if_pos hneed,
    if_pos hneed]

/-- The start of the next section. -/
theorem mk_finish {arg' : ReadMultipartArg} (h : StandsAt boundary callbacks heap arg p)
    (hh : p.inHeader = false) (hb : arg'.boundary = arg.boundary) (hc : arg'.parts = arg.parts)
    (hi : arg'.partIndex = some (nextPart p.partIndex))
    (hn : arg'.needHeader = decide (nextPart p.partIndex < callbacks.length))
    (hm : arg'.matchCounter = 0) (hbuf : arg'.boundaryBuffer = [])
    (ho : arg'.headerBufferOffset = arg.headerBufferOffset) :
    StandsAt boundary callbacks heap arg' (p.finish callbacks.length) := by
  have hfinish : p.finish callbacks.length = ⟨some (nextPart p.partIndex),
      decide (nextPart p.partIndex < callbacks.length), 0, [], []⟩ := if_neg (by simp [hh])
  have hoffset := h.offset
  rw [if_neg (by simp [hh])] at hoffset
  rw [hfinish]
  exact
    { boundary_eq := hb.trans h.boundary_eq
      callbacks_eq := by rw [hc, h.callbacks_eq]
      partIndex := hi
      needHeader := hn
      matchCounter := hm
      piece := rfl
      matched_lt := (length_delimiterText _ _ _ _).1
      header := fun hlt => ⟨hbuf, _, rfl, by simpa using hlt⟩
      epilogue := Or.inr ⟨rfl, hbuf⟩
      offset := by rw [ho, hoffset]; exact (ite_self 0).symm
      block := fun _ hne => absurd rfl hne }

/-- The matcher scans for the delimiter of the section. -/
theorem feed_eq (h : StandsAt boundary callbacks heap arg p) (bs : Bytes) :
    Matcher.feed arg.delimiter arg.matchCounter bs
      = Matcher.feed (p.delimiter boundary callbacks.length) p.matched bs := by
  rw [h.delimiter, h.matchCounter]

/-- **To the end of a section.** -/
theorem step_closed (h : StandsAt boundary callbacks heap arg p)
    (outside : Bytes → ℤ → Byte) (result : Result)
    (hm : (Matcher.feed (p.delimiter boundary callbacks.length) p.matched bs).1
      = (p.delimiter boundary callbacks.length).length)
    (hwithin : p.Within callbacks.length)
    (hok : p.HeaderOk callbacks heap
      (bs.take (Matcher.feed (p.delimiter boundary callbacks.length) p.matched bs).2)) :
    ∃ arg', Wrapping.step heap outside arg result bs = some
        ((Matcher.feed (p.delimiter boundary callbacks.length) p.matched bs).2,
          p.headerReply callbacks heap
            (bs.take (Matcher.feed (p.delimiter boundary callbacks.length) p.matched bs).2) result,
          arg') ∧
      StandsAt boundary callbacks heap arg' (p.finish callbacks.length) ∧
      arg'.boundaryBuffer = [] ∧
      (p.inHeader = true → deliveries arg'.calls = deliveries arg.calls) ∧
      (p.inHeader = false → arg'.parts = arg.parts ∧
        arg'.calls = arg.calls ++ dataCalls arg.partIndex (arg.completed bs)) := by
  cases hh : p.inHeader with
  | true =>
      obtain ⟨arg', hstep, hstand, hcalls⟩ :=
        (h.standing hh).step_closed_header result hh hm hok
      have hempty : arg'.boundaryBuffer = [] := by
        rw [hstand.ready.buffered, hstand.matchCounter, Place.finish_matched, List.take_zero,
          ite_self]
      refine ⟨arg', ?_, of_standing hstand, hempty, fun _ => hcalls, fun hf => by cases hf⟩
      rw [h.step_header hh, hstep]
  | false =>
      have hn := (Matcher.feed_spec arg.delimiter bs arg.matchCounter h.counter.le).2.1
      have hfeed := h.feed_eq bs
      rw [← hfeed] at hm ⊢
      set n := (Matcher.feed arg.delimiter arg.matchCounter bs).2 with hndef
      have hpiece : (bs.take n).length = n := List.length_take_of_le hn
      have hwhole : completeBoundary (arg.scanned bs) arg.delimiter (bs.take n)
          = some { arg with
            partIndex := some (nextPart arg.partIndex)
            needHeader := decide (nextPart arg.partIndex < arg.parts.length)
            matchCounter := 0, boundaryBuffer := []
            calls := arg.calls ++ dataCalls arg.partIndex (arg.completed bs) } := by
        rw [completeBoundary_eq (by exact h.part_lt hwithin), hpiece, List.take_take,
          Nat.min_eq_left (Nat.sub_le _ _)]
        simp only [scanned, completed, ← hndef, List.append_assoc, dataCalls_append]
      have hreply : p.headerReply callbacks heap (bs.take n) result = result :=
        if_neg fun hwants => Bool.false_ne_true (hh.symm.trans hwants.1)
      have hstep : Wrapping.step heap outside arg result bs = some (n, result, { arg with
            partIndex := some (nextPart arg.partIndex)
            needHeader := decide (nextPart arg.partIndex < arg.parts.length)
            matchCounter := 0, boundaryBuffer := []
            calls := arg.calls ++ dataCalls arg.partIndex (arg.completed bs) }) := by
        rw [h.step_eq, Wrapping.dispatch, if_neg (by simp [scanned, h.needHeader, hh]),
          if_pos (by rw [h.delimiter]; exact hm), ← hndef, hwhole]
        rfl
      rw [hreply]
      refine ⟨_, hstep, h.mk_finish hh rfl rfl ?_ ?_ rfl rfl rfl, rfl, (fun hf => by cases hf),
        fun _ => ⟨rfl, rfl⟩⟩
      · exact congrArg (some <| nextPart ·) h.partIndex
      · simp only [h.partIndex, h.numParts]

/-- The dispatch at the end of a chunk in the middle of a body. What is saved depends on whether
the chunk ends with part of a delimiter, everything else does not. -/
theorem dispatch_interrupted (h : StandsAt boundary callbacks heap arg p)
    (outside : Bytes → ℤ → Byte) (result : Result) (hh : p.inHeader = false)
    (hm : (Matcher.feed (p.delimiter boundary callbacks.length) p.matched bs).1
      < (p.delimiter boundary callbacks.length).length)
    (hwithin : p.Within callbacks.length) :
    ∃ saved, Wrapping.dispatch heap outside (arg.scanned bs) result arg.delimiter bs bs.length
      = some (result, { arg with
        matchCounter := (Matcher.feed arg.delimiter arg.matchCounter bs).1
        boundaryBuffer := saved
        calls := arg.calls ++ dataCalls arg.partIndex (Wrapping.interrupted outside arg bs) }) := by
  have hpass : ∀ piece, passOn (arg.scanned bs) piece = some { arg.scanned bs with
      calls := (arg.scanned bs).calls ++ dataCalls arg.partIndex [piece] } :=
    fun piece => passOn_eq (by exact h.part_lt hwithin)
  rw [Wrapping.dispatch, if_neg (by simp [scanned, h.needHeader, hh]),
    if_neg (by simpa only [scanned, h.delimiter, h.matchCounter] using Nat.ne_of_lt hm)]
  by_cases hpos : 0 < (Matcher.feed arg.delimiter arg.matchCounter bs).1
  · refine ⟨(arg.scanned bs).boundaryBuffer ++ bytesAt outside bs
      (bs.length - (Matcher.feed arg.delimiter arg.matchCounter bs).1)
      (Matcher.feed arg.delimiter arg.matchCounter bs).1, ?_⟩
    rw [if_pos (by exact hpos), Wrapping.partialBoundary, hpass]
    simp only [scanned, Wrapping.interrupted, dataCalls_append, List.append_assoc,
      Option.map_some]
  · refine ⟨[], ?_⟩
    have hzero := Nat.eq_zero_of_not_pos hpos
    have hall : bytesAt outside bs 0 (sizeSub bs.length 0) = bs := by
      rw [sizeSub_of_le (Nat.zero_le _), ← Nat.cast_zero, bytesAt_of_le outside (by omega)]
      simp
    rw [if_neg (by exact hpos), noBoundary, hpass]
    simp only [scanned, Wrapping.interrupted, hzero, hall, dataCalls_append,
      List.append_assoc, Option.map_some]

/-- **To the end of a chunk in the middle of a section**, whether or not the length wraps. -/
theorem step_open (h : StandsAt boundary callbacks heap arg p)
    (outside : Bytes → ℤ → Byte) (result : Result)
    (hne : bs ≠ [])
    (hm : (Matcher.feed (p.delimiter boundary callbacks.length) p.matched bs).1
      < (p.delimiter boundary callbacks.length).length)
    (hwithin : p.Within callbacks.length) :
    ∃ arg', Wrapping.step heap outside arg result bs = some (bs.length, result, arg') ∧
      StandsAt boundary callbacks heap arg' (p.read boundary callbacks.length bs).cut ∧
      arg'.parts = arg.parts ∧
      arg'.calls = arg.calls ++
        if p.inHeader then []
        else dataCalls arg.partIndex (Wrapping.interrupted outside arg bs) := by
  have hlen := (Matcher.feed_spec _ bs _ h.matched_lt.le).2.2.1 hm
  obtain ⟨hread, -⟩ := Place.read_open bs p h.matched_lt hm
  have hcut : (p.read boundary callbacks.length bs).cut = { p with
      matched := (Matcher.feed (p.delimiter boundary callbacks.length) p.matched bs).1
      earlier := p.earlier ++ [bs], piece := [] } := by
    rw [hread, Place.cut, h.piece, List.nil_append, nonempty,
      if_pos (List.length_pos_iff.mpr hne)]
  rw [hcut]
  cases hh : p.inHeader with
  | true =>
      obtain ⟨arg', hstep, hparts, hcalls, hstand⟩ := (h.standing hh).step_piece result hh hm
      have hstand' := of_standing hstand
      rw [hh] at hstand'
      exact ⟨arg', by rw [h.step_header hh, hstep], hstand', hparts, by simp [hcalls]⟩
  | false =>
      have hfeed := h.feed_eq bs
      have hoffset := h.offset
      rw [if_neg (by simp [hh])] at hoffset
      obtain ⟨saved, hdispatch⟩ := h.dispatch_interrupted outside result hh hm hwithin
      have hstep : Wrapping.step heap outside arg result bs = some (bs.length, result, { arg with
            matchCounter := (Matcher.feed arg.delimiter arg.matchCounter bs).1
            boundaryBuffer := saved
            calls := arg.calls ++
              dataCalls arg.partIndex (Wrapping.interrupted outside arg bs) }) := by
        rw [h.step_eq, hfeed, hlen, hdispatch, hfeed]
        rfl
      refine ⟨_, hstep, ?_, rfl, rfl⟩
      exact
        { boundary_eq := h.boundary_eq
          callbacks_eq := h.callbacks_eq
          partIndex := h.partIndex
          needHeader := h.needHeader.trans hh
          matchCounter := congrArg Prod.fst hfeed
          piece := rfl
          matched_lt := by simpa only [Place.delimiter, hh] using hm
          header := fun hf => absurd hf Bool.false_ne_true
          epilogue := Or.inl hwithin
          offset := by simpa using hoffset
          block := fun hf => absurd hf Bool.false_ne_true }

/-- Past the closing delimiter nothing can be read. -/
theorem step_not_within (h : StandsAt boundary callbacks heap arg p)
    (hwithin : ¬ p.Within callbacks.length) :
    Wrapping.step heap outside arg result bs = none := by
  have hh : p.inHeader = false := by
    by_contra hne
    obtain ⟨-, k, hk, hlt⟩ := h.header (by simpa using hne)
    refine hwithin fun j hj => ?_
    obtain rfl := Option.some.inj (hk.symm.trans hj)
    exact hlt
  rw [Place.Within, not_forall] at hwithin
  obtain ⟨k, hk⟩ := hwithin
  rw [Classical.not_imp] at hk
  have hcall : ∀ b, callRead (arg.scanned bs) k b = none := fun b => by
    rw [callRead, if_neg (by simp only [scanned, h.numParts]; exact hk.2)]
  have hindex : (arg.scanned bs).partIndex = some k := h.partIndex.trans hk.1
  have hpass : ∀ b, passOn (arg.scanned bs) b = none := fun b => by
    simp only [passOn, hindex, hcall]
  rw [h.step_eq, Wrapping.dispatch, if_neg (by simp [scanned, h.needHeader, hh]),
    Option.map_eq_none_iff]
  split
  · simp only [completeBoundary, hindex, endPart, hcall]
    split
    · rfl
    · simp [hcall]
  · split
    · simp only [Wrapping.partialBoundary, hpass]
      rfl
    · simp only [noBoundary, hpass]
      rfl

/-- A section that cannot be read to its end has no defined behaviour. -/
theorem step_closed_none (h : StandsAt boundary callbacks heap arg p)
    (hm : (Matcher.feed (p.delimiter boundary callbacks.length) p.matched bs).1
      = (p.delimiter boundary callbacks.length).length)
    (hbad : ¬ (p.Within callbacks.length ∧ p.HeaderOk callbacks heap
      (bs.take (Matcher.feed (p.delimiter boundary callbacks.length) p.matched bs).2))) :
    Wrapping.step heap outside arg result bs = none := by
  by_cases hwithin : p.Within callbacks.length
  · have hok := not_and.mp hbad hwithin
    have hh : p.inHeader = true := by
      by_contra hne
      exact hok fun hh => absurd hh hne
    rw [h.step_header hh]
    exact (h.standing hh).step_closed_none hm hbad
  · exact h.step_not_within hwithin

/-- **An iteration that comes back** has read to the end of its section or of its chunk. -/
theorem step_some {result' : Result} {scanned : ℕ} {arg' : ReadMultipartArg}
    (h : StandsAt boundary callbacks heap arg p) (hne : bs ≠ [])
    (hstep : Wrapping.step heap outside arg result bs = some (scanned, result', arg')) :
    scanned = (Matcher.feed (p.delimiter boundary callbacks.length) p.matched bs).2 ∧
    p.Within callbacks.length ∧
    ((Matcher.feed (p.delimiter boundary callbacks.length) p.matched bs).1
        = (p.delimiter boundary callbacks.length).length ∧ arg'.boundaryBuffer = [] ∧
      StandsAt boundary callbacks heap arg' (p.finish callbacks.length) ∨
    (Matcher.feed (p.delimiter boundary callbacks.length) p.matched bs).1
        < (p.delimiter boundary callbacks.length).length ∧ scanned = bs.length ∧
      StandsAt boundary callbacks heap arg' (p.read boundary callbacks.length bs).cut) := by
  rcases Nat.lt_or_eq_of_le (Matcher.feed_spec (p.delimiter boundary callbacks.length) bs _
    h.matched_lt.le).1 with hm | hm
  · have hlen := (Matcher.feed_spec _ bs _ h.matched_lt.le).2.2.1 hm
    by_cases hwithin : p.Within callbacks.length
    · obtain ⟨_, hstep', hstand, -⟩ := h.step_open outside result hne hm hwithin
      obtain ⟨rfl, rfl, rfl⟩ : _ ∧ _ ∧ _ := by simpa using hstep'.symm.trans hstep
      exact ⟨hlen.symm, hwithin, Or.inr ⟨hm, rfl, hstand⟩⟩
    · rw [h.step_not_within hwithin] at hstep
      cases hstep
  · by_cases hgood : p.Within callbacks.length ∧ p.HeaderOk callbacks heap
        (bs.take (Matcher.feed (p.delimiter boundary callbacks.length) p.matched bs).2)
    · obtain ⟨_, hstep', hstand, hempty, -⟩ := h.step_closed outside result hm hgood.1 hgood.2
      obtain ⟨rfl, rfl, rfl⟩ : _ ∧ _ ∧ _ := by simpa using hstep'.symm.trans hstep
      exact ⟨rfl, hgood.1, Or.inl ⟨hm, hempty, hstand⟩⟩
    · rw [h.step_closed_none hm hgood] at hstep
      cases hstep

/-- A complete delimiter was not complete before the scan. -/
theorem scanned_pos (h : StandsAt boundary callbacks heap arg p)
    (hm : (Matcher.feed (p.delimiter boundary callbacks.length) p.matched bs).1
      = (p.delimiter boundary callbacks.length).length) :
    0 < (Matcher.feed (p.delimiter boundary callbacks.length) p.matched bs).2 := by
  have hle := Matcher.feed_fst_le h.matched_lt.le bs
  have hlt := h.matched_lt
  omega

/-- **A chunk.** Where a chunk is readable the reader stands at the place it leads to, and
its result is what the places say. -/
theorem loop_some (outside : Bytes → ℤ → Byte) : ∀ (fuel : ℕ) {arg : ReadMultipartArg}
    {p : Place} (result : Result) {bs : Bytes}, StandsAt boundary callbacks heap arg p →
    bs.length < fuel → p.Readable boundary callbacks heap bs →
    ∃ arg', Wrapping.loop heap outside fuel arg result bs
        = some (p.reply boundary callbacks heap result bs, arg') ∧
      StandsAt boundary callbacks heap arg' (p.read boundary callbacks.length bs).cut
  | 0, _, _, _, _, _, hfuel, _ => absurd hfuel (Nat.not_lt_zero _)
  | fuel + 1, arg, p, result, bs, h, hfuel, hr => by
      by_cases hnil : bs = []
      · subst hnil
        refine ⟨arg, rfl, ?_⟩
        rw [Place.read_nil, Place.cut_of_piece h.piece]
        exact h
      · have hpos : 0 < bs.length := List.length_pos_iff.mpr hnil
        rcases Nat.lt_or_eq_of_le (Matcher.feed_spec (p.delimiter boundary callbacks.length) bs _
          h.matched_lt.le).1 with hm | hm
        · obtain ⟨arg', hstep, hstand, -⟩ := h.step_open outside result hnil hm
            ((Place.readable_open bs p h.matched_lt hm).mp hr hnil)
          refine ⟨arg', ?_, hstand⟩
          rw [Wrapping.loop_of_step hnil hstep, List.drop_length,
            Place.reply_open bs p result h.matched_lt hm]
          exact Wrapping.loop_nil (by omega)
        · obtain ⟨hwithin, hok, hrest⟩ := (Place.readable_closed bs p h.matched_lt hm).mp hr
          rw [h.piece, List.nil_append] at hok
          obtain ⟨arg', hstep, hstand, -⟩ :=
            h.step_closed outside result hm hwithin hok
          have hscanned := h.scanned_pos hm
          obtain ⟨arg'', hloop, hstand'⟩ := loop_some outside fuel _ hstand
            (by rw [List.length_drop]; omega) hrest
          refine ⟨arg'', ?_, (Place.read_closed bs p h.matched_lt hm).1 ▸ hstand'⟩
          rw [Wrapping.loop_of_step hnil hstep, hloop,
            Place.reply_closed bs p result h.matched_lt hm, h.piece, List.nil_append]

/-- A chunk that is not readable has no defined behaviour. -/
theorem loop_none : ∀ (fuel : ℕ) {arg : ReadMultipartArg} {p : Place} (result : Result)
    {bs : Bytes}, StandsAt boundary callbacks heap arg p →
    ¬ p.Readable boundary callbacks heap bs →
    Wrapping.loop heap outside fuel arg result bs = none
  | 0, _, _, _, _, _, _ => rfl
  | fuel + 1, arg, p, result, bs, h, hbad => by
      have hnil : bs ≠ [] := by
        rintro rfl
        exact hbad trivial
      rcases Nat.lt_or_eq_of_le (Matcher.feed_spec (p.delimiter boundary callbacks.length) bs _
        h.matched_lt.le).1 with hm | hm
      · rw [Place.readable_open bs p h.matched_lt hm, forall_prop_of_true hnil] at hbad
        exact Wrapping.loop_of_step_none hnil (h.step_not_within hbad) _
      · rw [Place.readable_closed bs p h.matched_lt hm, h.piece, List.nil_append] at hbad
        by_cases hgood : p.Within callbacks.length ∧ p.HeaderOk callbacks heap
            (bs.take (Matcher.feed (p.delimiter boundary callbacks.length) p.matched bs).2)
        · obtain ⟨arg', hstep, hstand, -⟩ :=
            h.step_closed outside result hm hgood.1 hgood.2
          rw [Wrapping.loop_of_step hnil hstep]
          exact loop_none fuel _ hstand fun hrest => hbad ⟨hgood.1, hgood.2, hrest⟩
        · exact Wrapping.loop_of_step_none hnil (h.step_closed_none hm hgood) _

end StandsAt

end Refinement

end DsiRest
