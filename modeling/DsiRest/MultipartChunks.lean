import DsiRest.MultipartPlace

/-!
# The Multipart Reader and the Cuts of its Input

The reader follows `Place`: from an argument that stands at a place, a chunk leads to an
argument that stands where `Place.read` leads, and the part callbacks receive what
`Place.out` says, followed by `Place.stray`. This holds where the chunk is readable and
may end where it does; everywhere else the call has no defined behaviour.

Bodies therefore do not depend on the cuts of the message as long as no chunk ends with a
candidate delimiter that began in an earlier chunk, or with nothing but a candidate
delimiter of the body it is in. `readMultipart_chunks_iff` says that these are exactly the
messages and cuts for which the parts receive what they would receive from one call.

## Main results

* `Standing.loop_some`, `Standing.loop_none` — the reader follows the places.
* `readMultipart_chunks_iff` — when cutting a message does not change its bodies.
-/

namespace DsiRest

/-! ### What the parts receive -/

/-- The deliveries of one callback invocation. -/
def PartCall.deliveries : PartCall → List (ℕ × Delivery)
  | .data k buffer => if buffer = [] then [(k, none)] else buffer.map (k, some ·)
  | .response _ _ => []

/-- The deliveries of a sequence of invocations. -/
def deliveries (calls : List PartCall) : List (ℕ × Delivery) :=
  calls.flatMap PartCall.deliveries

@[simp] theorem deliveries_append (xs ys : List PartCall) :
    deliveries (xs ++ ys) = deliveries xs ++ deliveries ys :=
  List.flatMap_append

@[simp] theorem deliveries_response (k : ℕ) (headers : KeyArray) :
    deliveries [.response k headers] = [] := rfl

/-- A call made for non-empty data only delivers the data. -/
theorem deliveries_nonempty (k : ℕ) (buffer : Bytes) :
    deliveries ((nonempty buffer).map (.data k)) = buffer.map (k, some ·) := by
  unfold nonempty
  split
  · rename_i h
    have hne : buffer ≠ [] := List.length_pos_iff.mp h
    simp [deliveries, PartCall.deliveries, hne]
  · rename_i h
    rw [List.length_eq_zero_iff.mp (Nat.eq_zero_of_not_pos h)]
    rfl

/-! ### The reader stands at a place -/

section Refinement

variable {boundary : Bytes} {callbacks : List Bool} {heap : Bytes → ℕ → Byte}

/-- The argument stands at a place, between two calls or two iterations. -/
structure Standing (boundary : Bytes) (callbacks : List Bool) (heap : Bytes → ℕ → Byte)
    (arg : ReadMultipartArg) (p : Place) : Prop where
  boundary : arg.boundary = boundary
  callbacks : arg.parts.map ReadPart.responseCallback = callbacks
  partIndex : arg.partIndex = p.partIndex
  needHeader : arg.needHeader = p.inHeader
  matchCounter : arg.matchCounter = p.matched
  piece : p.piece = []
  ready : arg.Ready
  offset : arg.headerBufferOffset
    = if p.inHeader then (Place.headerBlock heap p.earlier).2 else 0
  block : p.inHeader = true → p.earlier ≠ [] →
    arg.headerBuffer = (Place.headerBlock heap p.earlier).1

namespace Standing

variable {arg : ReadMultipartArg} {p : Place} {result : Result} {bs : Bytes}

/-- The prepared argument stands at the start. -/
theorem prepare : Standing boundary callbacks heap (prepareReadMultipart boundary callbacks)
    Place.start where
  boundary := rfl
  callbacks := by
    simp only [prepareReadMultipart, List.map_map]
    exact List.map_id' callbacks
  partIndex := rfl
  needHeader := rfl
  matchCounter := rfl
  piece := rfl
  ready :=
    { counter := (length_delimiterText _ _ _ _).1
      buffered := rfl
      header := fun h => absurd h Bool.false_ne_true
      epilogue := fun k hk => absurd hk (by simp [prepareReadMultipart]) }
  offset := rfl
  block := fun h => absurd h (by decide)

/-- The number of parts. -/
theorem numParts (h : Standing boundary callbacks heap arg p) :
    arg.parts.length = callbacks.length := by
  rw [← h.callbacks, List.length_map]

/-- The delimiter the reader looks for is that of the section. -/
theorem delimiter (h : Standing boundary callbacks heap arg p) :
    arg.delimiter = p.delimiter boundary callbacks.length := by
  rw [ReadMultipartArg.delimiter, Place.delimiter, h.boundary, h.numParts, h.partIndex,
    h.needHeader]

/-- The match is not complete. -/
theorem matched_lt (h : Standing boundary callbacks heap arg p) :
    p.matched < (p.delimiter boundary callbacks.length).length := by
  rw [← h.delimiter, ← h.matchCounter]
  exact h.ready.counter

/-- The header buffer after one more piece. -/
theorem saveHeader (h : Standing boundary callbacks heap arg p) (hh : p.inHeader = true)
    (piece : Bytes) :
    (saveHeader heap arg.headerBuffer arg.headerBufferOffset piece,
        arg.headerBufferOffset + piece.length)
      = Place.headerBlock heap (p.earlier ++ [piece]) := by
  have hoffset := h.offset
  rw [if_pos hh] at hoffset
  rw [Place.headerBlock, List.foldl_append, ← Place.headerBlock, List.foldl_cons,
    List.foldl_nil, hoffset]
  by_cases hnil : p.earlier = []
  · simp only [hnil, Place.headerBlock, List.foldl_nil, saveHeader_zero]
  · rw [h.block hh hnil]

/-- The start of the next section. -/
theorem mk_finish {arg' : ReadMultipartArg} (h : Standing boundary callbacks heap arg p)
    (hb : arg'.boundary = arg.boundary)
    (hc : arg'.parts.map ReadPart.responseCallback = arg.parts.map ReadPart.responseCallback)
    (hi : arg'.partIndex = (p.finish callbacks.length).partIndex)
    (hh : arg'.needHeader = (p.finish callbacks.length).inHeader)
    (hm : arg'.matchCounter = 0) (hbuf : arg'.boundaryBuffer = [])
    (ho : arg'.headerBufferOffset = 0) :
    Standing boundary callbacks heap arg' (p.finish callbacks.length) where
  boundary := hb.trans h.boundary
  callbacks := hc.trans h.callbacks
  partIndex := hi
  needHeader := hh
  matchCounter := hm.trans (Place.finish_matched p).symm
  piece := Place.finish_piece p
  ready :=
    { counter := by
        rw [hm]
        exact (length_delimiterText _ _ _ _).1
      buffered := by
        rw [hbuf, hm, List.take_zero, ite_self]
      header := by
        have hlen : arg'.parts.length = callbacks.length := by
          rw [← h.callbacks, ← hc, List.length_map]
        intro hn
        rw [hh, Place.finish] at hn
        rw [hi, Place.finish, hlen]
        split at hn
        · exact absurd hn (by simp)
        · rename_i hp
          rw [if_neg hp]
          exact ⟨_, rfl, by simpa using hn⟩
      epilogue := fun _ _ => Or.inr hm }
  offset := by
    rw [ho, Place.finish_earlier]
    split <;> rfl
  block := fun _ hne => absurd (Place.finish_earlier p) hne

/-- A later place in the same section. -/
theorem mk_open {arg' : ReadMultipartArg} {m : ℕ} {pieces : List Bytes}
    (h : Standing boundary callbacks heap arg p) (hwithin : p.Within callbacks.length)
    (hm : m < (p.delimiter boundary callbacks.length).length)
    (hb : arg'.boundary = arg.boundary) (hc : arg'.parts = arg.parts)
    (hi : arg'.partIndex = arg.partIndex) (hh : arg'.needHeader = arg.needHeader)
    (hcounter : arg'.matchCounter = m)
    (hbuf : arg'.boundaryBuffer
      = if arg.needHeader then [] else (p.delimiter boundary callbacks.length).take m)
    (ho : arg'.headerBufferOffset = if p.inHeader then (Place.headerBlock heap pieces).2 else 0)
    (hblock : p.inHeader = true → pieces ≠ [] →
      arg'.headerBuffer = (Place.headerBlock heap pieces).1) :
    Standing boundary callbacks heap arg'
      { p with matched := m, earlier := pieces, piece := [] } where
  boundary := hb.trans h.boundary
  callbacks := by rw [hc, h.callbacks]
  partIndex := hi.trans h.partIndex
  needHeader := hh.trans h.needHeader
  matchCounter := hcounter
  piece := rfl
  ready := by
    have hd : arg'.delimiter = arg.delimiter := by
      rw [ReadMultipartArg.delimiter, ReadMultipartArg.delimiter, hb, hc, hi, hh]
    exact
      { counter := by rw [hd, h.delimiter, hcounter]; exact hm
        buffered := by rw [hd, h.delimiter, hcounter, hbuf, hh]
        header := by rw [hh, hi, hc]; exact h.ready.header
        epilogue := fun k hk => by
          left
          rw [hc, h.numParts]
          exact hwithin k (h.partIndex ▸ hi ▸ hk) }
  offset := ho
  block := hblock

/-- What a broken match replays is what the matcher releases of it. -/
theorem replayed_eq (h : Standing boundary callbacks heap arg p) (hh : p.inHeader = false) :
    arg.replayed bs
      = if (Matcher.feed (p.delimiter boundary callbacks.length) p.matched bs).1
          = p.matched + (Matcher.feed (p.delimiter boundary callbacks.length) p.matched bs).2
        then []
        else nonempty ((p.delimiter boundary callbacks.length).take p.matched) := by
  rw [ReadMultipartArg.replayed, h.ready.buffered, h.needHeader, hh, h.delimiter,
    h.matchCounter]
  rfl

/-- The data calls at a complete delimiter. -/
theorem deliveries_completed (h : Standing boundary callbacks heap arg p)
    (hh : p.inHeader = false)
    (hm : (Matcher.feed (p.delimiter boundary callbacks.length) p.matched bs).1
      = (p.delimiter boundary callbacks.length).length) :
    deliveries (dataCalls arg.partIndex (arg.completed bs))
      = p.emit (Matcher.releases (p.delimiter boundary callbacks.length) p.matched bs) true := by
  rw [h.partIndex, Place.emit, if_neg (by simp [hh])]
  cases hi : p.partIndex with
  | none => rfl
  | some k =>
      simp only [dataCalls_some, ReadMultipartArg.completed, h.replayed_eq hh, h.delimiter,
        h.matchCounter, List.map_append, deliveries_append, deliveries_nonempty,
        Matcher.releases_eq h.matched_lt.le, ← hm]
      split
      · rename_i heq
        rw [heq, Nat.sub_eq_zero_of_le (Nat.le_add_left _ _)]
        rfl
      · rw [deliveries_nonempty, List.map_append]
        rfl

/-- The data calls at the end of a chunk in the middle of a section. -/
theorem deliveries_interrupted (h : Standing boundary callbacks heap arg p)
    (hh : p.inHeader = false) (hne : bs ≠ [])
    (hm : (Matcher.feed (p.delimiter boundary callbacks.length) p.matched bs).1
      < (p.delimiter boundary callbacks.length).length)
    (hfit : (Matcher.feed (p.delimiter boundary callbacks.length) p.matched bs).1
      ≤ bs.length) :
    deliveries (dataCalls arg.partIndex (arg.interrupted bs))
      = p.emit (Matcher.releases (p.delimiter boundary callbacks.length) p.matched bs) false ++
        (p.read boundary callbacks.length bs).stray := by
  have hlen := (Matcher.feed_spec _ bs _ h.matched_lt.le).2.2.1 hm
  have hpos : 0 < bs.length := List.length_pos_iff.mpr hne
  obtain ⟨hread, -⟩ := Place.read_open bs p h.matched_lt hm
  rw [h.partIndex, Place.emit, if_neg (by simp [hh]), hread]
  cases hi : p.partIndex with
  | none =>
      rw [Place.stray_none rfl]
      rfl
  | some k =>
      rw [Place.stray_some (by exact hh) (by exact rfl)]
      simp only [dataCalls_some, ReadMultipartArg.interrupted, h.replayed_eq hh, h.delimiter,
        h.matchCounter, List.map_append, deliveries_append,
        Matcher.releases_eq h.matched_lt.le, hlen, h.piece, List.nil_append]
      set m := (Matcher.feed (p.delimiter boundary callbacks.length) p.matched bs).1
      have hreplay : deliveries (List.map (PartCall.data k)
          (if m = p.matched + bs.length then []
            else nonempty ((p.delimiter boundary callbacks.length).take p.matched)))
          = (if m = p.matched + bs.length then []
            else (p.delimiter boundary callbacks.length).take p.matched).map (k, some ·) := by
        split
        · rfl
        · rw [deliveries_nonempty]
      rw [hreplay]
      by_cases hall : bs.length = m
      · -- the buffer is the candidate alone, so the call has no data
        have hs : 0 < m ∧ bs.length = m := ⟨hall ▸ hpos, hall⟩
        rw [if_pos hs, show bs.length - m = 0 by omega, List.take_zero]
        split <;> simp [deliveries, PartCall.deliveries]
      · have hdata : bs.take (bs.length - m) ≠ [] := by
          rw [← List.length_pos_iff, List.length_take]
          omega
        have hbroken : ¬ m = p.matched + bs.length := by omega
        have hs : ¬ (0 < m ∧ bs.length = m) := fun hs => hall hs.2
        rw [if_neg hs, if_neg hbroken, if_neg hbroken]
        simp [deliveries, PartCall.deliveries, hdata]

/-- Whether the header block of a part is parsed depends on the part's response callback. -/
theorem wants_eq (h : Standing boundary callbacks heap arg p) {k : ℕ} {part : ReadPart}
    (hk : arg.partIndex = some k) (hpart : arg.parts[k]? = some part) :
    p.partIndex.bind (callbacks[·]?) = some part.responseCallback := by
  rw [← h.partIndex, hk, Option.bind_some, ← h.callbacks, List.getElem?_map, hpart,
    Option.map_some]

/-- Parsing a header block replies what the place says it does. -/
theorem headerReply_parsed (hh : p.inHeader = true)
    (hwants : p.partIndex.bind (callbacks[·]?) = some true) {last : Bytes}
    {before headers : HeaderList} {result' : Result}
    (hparse : parseHeaderLines [] (cstr (Place.headerBlock heap (p.earlier ++ [last])).1) result
      before = some (result', headers)) :
    p.headerReply callbacks heap last result = result' := by
  rw [Place.headerReply, if_pos ⟨hh, hwants⟩, fst_parseHeaderLines _ _ _ _ before, hparse]
  rfl

/-- **The iteration that ends a header block.** The headers are parsed from the buffer if
the part has a response callback. -/
theorem step_block (h : Standing boundary callbacks heap arg p) (result : Result)
    (hh : p.inHeader = true) {k : ℕ} {part : ReadPart} (hk : p.partIndex = some k)
    (hpart : arg.parts[k]? = some part)
    (hm : (Matcher.feed (p.delimiter boundary callbacks.length) p.matched bs).1
      = (p.delimiter boundary callbacks.length).length) :
    let n := (Matcher.feed (p.delimiter boundary callbacks.length) p.matched bs).2
    let block := (Place.headerBlock heap (p.earlier ++ [bs.take n])).1
    let read := { arg with
      needHeader := false, headerBufferOffset := 0, matchCounter := 0, headerBuffer := block }
    arg.step heap result bs =
      if part.responseCallback then
        (parseHeaderLines [] (cstr block) result part.headers).map fun (result, headers) =>
          (n, result, { read with
            parts := arg.parts.set k { part with headers := headers }
            calls := arg.calls ++ [.response k headers.entries] })
      else some (n, result, read) := by
  intro n block read
  have hsaved := congrArg Prod.fst (h.saveHeader hh (bs.take n))
  simp only at hsaved
  rw [h.ready.step_header (h.needHeader.trans hh), h.delimiter, h.matchCounter,
    ReadMultipartArg.readHeader, if_pos (by exact hm), hsaved]
  simp only [read, h.partIndex.trans hk, hpart, Option.bind_eq_bind, Option.bind_some]
  split
  · cases parseHeaderLines [] (cstr block) result part.headers <;> rfl
  · rfl

/-- **To the end of a header block.** The headers are parsed if the part has a response
callback, and the body of the part is next. -/
theorem step_closed_header (h : Standing boundary callbacks heap arg p) (result : Result)
    (hh : p.inHeader = true)
    (hm : (Matcher.feed (p.delimiter boundary callbacks.length) p.matched bs).1
      = (p.delimiter boundary callbacks.length).length)
    (hok : p.HeaderOk callbacks heap
      (bs.take (Matcher.feed (p.delimiter boundary callbacks.length) p.matched bs).2)) :
    ∃ arg', arg.step heap result bs = some
        ((Matcher.feed (p.delimiter boundary callbacks.length) p.matched bs).2,
          p.headerReply callbacks heap
            (bs.take (Matcher.feed (p.delimiter boundary callbacks.length) p.matched bs).2) result,
          arg') ∧
      Standing boundary callbacks heap arg' (p.finish callbacks.length) ∧
      deliveries arg'.calls = deliveries arg.calls := by
  obtain ⟨k, hk, hlt⟩ := h.ready.header (h.needHeader.trans hh)
  have hpart : arg.parts[k]? = some arg.parts[k] := List.getElem?_eq_getElem hlt
  have hwants := h.wants_eq hk hpart
  have hfinish : p.finish callbacks.length = ⟨p.partIndex, false, 0, [], []⟩ := if_pos hh
  have hnil : arg.boundaryBuffer = [] := by
    rw [h.ready.buffered, h.needHeader, if_pos hh]
  rw [h.step_block result hh (h.partIndex.symm.trans hk) hpart hm]
  split
  · rename_i hwanted
    rw [hwanted] at hwants
    have hcallback : callbacks[k]? = some true := by
      rw [← h.callbacks, List.getElem?_map, hpart, Option.map_some, hwanted]
    have hsome := hok hh k (h.partIndex ▸ hk) hcallback
    rw [Place.HeadersLegible, isSome_parseHeaderLines _ _ _ result _ arg.parts[k].headers] at hsome
    obtain ⟨⟨result', headers⟩, hparse⟩ := Option.isSome_iff_exists.mp hsome
    rw [hparse, headerReply_parsed hh hwants hparse]
    refine ⟨_, rfl, h.mk_finish rfl ?_ ?_ ?_ rfl hnil rfl, ?_⟩
    · refine List.ext_getElem? fun j => ?_
      by_cases hj : k = j
      · subst hj
        simp [hlt]
      · simp [List.getElem?_set_ne hj]
    · rw [hfinish]
      exact h.partIndex
    · rw [hfinish]
    · simp
  · rename_i hunwanted
    have hreply : p.headerReply callbacks heap (bs.take
        (Matcher.feed (p.delimiter boundary callbacks.length) p.matched bs).2) result = result :=
      if_neg fun hboth => hunwanted (Option.some.inj (hwants.symm.trans hboth.2))
    rw [hreply]
    refine ⟨_, rfl, h.mk_finish rfl rfl ?_ ?_ rfl hnil rfl, rfl⟩
    · rw [hfinish]
      exact h.partIndex
    · rw [hfinish]

/-- **An iteration inside a header block.** The rest of the chunk is appended to the
buffer. -/
theorem step_piece (h : Standing boundary callbacks heap arg p) (result : Result)
    (hh : p.inHeader = true)
    (hm : (Matcher.feed (p.delimiter boundary callbacks.length) p.matched bs).1
      < (p.delimiter boundary callbacks.length).length) :
    ∃ arg', arg.step heap result bs = some (bs.length, result, arg') ∧
      arg'.parts = arg.parts ∧ arg'.calls = arg.calls ∧
      Standing boundary callbacks heap arg' { p with
        matched := (Matcher.feed (p.delimiter boundary callbacks.length) p.matched bs).1
        earlier := p.earlier ++ [bs], piece := [] } := by
  have hwithin : p.Within callbacks.length := by
    obtain ⟨k, hk, hlt⟩ := h.ready.header (h.needHeader.trans hh)
    rintro k' hk'
    obtain rfl : k = k' := Option.some.inj (hk.symm.trans (h.partIndex.trans hk'))
    rwa [← h.numParts]
  have hlen := (Matcher.feed_spec _ bs _ h.matched_lt.le).2.2.1 hm
  have hsaved := h.saveHeader hh bs
  have hstep : arg.step heap result bs = _ := h.ready.step_header (h.needHeader.trans hh)
  rw [h.delimiter, h.matchCounter, hlen, List.take_length, ReadMultipartArg.readHeader,
    if_neg (by exact Nat.ne_of_lt hm)] at hstep
  refine ⟨_, hstep, rfl, rfl, h.mk_open hwithin hm rfl rfl rfl rfl rfl ?_ ?_ ?_⟩
  · simp [h.ready.buffered, h.needHeader, hh]
  · rw [if_pos hh]
    exact congrArg Prod.snd hsaved
  · exact fun _ _ => congrArg Prod.fst hsaved

/-- **To the end of a section.** The reader passes on what precedes the delimiter and
stands at the start of the next section. -/
theorem step_closed_some (h : Standing boundary callbacks heap arg p) (result : Result)
    (hm : (Matcher.feed (p.delimiter boundary callbacks.length) p.matched bs).1
      = (p.delimiter boundary callbacks.length).length)
    (hwithin : p.Within callbacks.length)
    (hok : p.HeaderOk callbacks heap
      (bs.take (Matcher.feed (p.delimiter boundary callbacks.length) p.matched bs).2)) :
    ∃ arg', arg.step heap result bs = some
        ((Matcher.feed (p.delimiter boundary callbacks.length) p.matched bs).2,
          p.headerReply callbacks heap
            (bs.take (Matcher.feed (p.delimiter boundary callbacks.length) p.matched bs).2) result,
          arg') ∧
      Standing boundary callbacks heap arg' (p.finish callbacks.length) ∧
      deliveries arg'.calls = deliveries arg.calls ++
        p.emit (Matcher.releases (p.delimiter boundary callbacks.length) p.matched bs) true := by
  cases hh : p.inHeader with
  | true =>
      obtain ⟨arg', hstep, h', hcalls⟩ := h.step_closed_header result hh hm hok
      have hemit : ∀ released, p.emit released true = [] := fun released => if_pos hh
      exact ⟨arg', hstep, h', by rw [hcalls, hemit, List.append_nil]⟩
  | false =>
      have hin : ∀ k, arg.partIndex = some k → k < arg.parts.length := by
        rw [h.partIndex, h.numParts]
        exact hwithin
      have hstep : arg.step heap result bs = _ := h.ready.step_complete
        (h.needHeader.trans hh) hin (by rw [h.delimiter, h.matchCounter]; exact hm)
      have hreply : p.headerReply callbacks heap (bs.take
          (Matcher.feed (p.delimiter boundary callbacks.length) p.matched bs).2) result
          = result := if_neg fun hwants => Bool.false_ne_true (hh.symm.trans hwants.1)
      rw [h.delimiter, h.matchCounter] at hstep
      rw [hreply]
      refine ⟨_, hstep, h.mk_finish rfl rfl ?_ ?_ rfl rfl ?_, ?_⟩
      · rw [Place.finish, if_neg (by simp [hh]), h.partIndex]
      · rw [Place.finish, if_neg (by simp [hh]), h.numParts, h.partIndex]
      · have ho := h.offset
        rwa [if_neg (by simp [hh])] at ho
      · rw [deliveries_append, h.deliveries_completed hh hm]

/-- Past the closing delimiter nothing can be read. -/
theorem step_not_within (h : Standing boundary callbacks heap arg p)
    (hwithin : ¬ p.Within callbacks.length) : arg.step heap result bs = none := by
  rw [Place.Within, not_forall] at hwithin
  obtain ⟨k, hk⟩ := hwithin
  rw [Classical.not_imp] at hk
  exact h.ready.step_epilogue (h.partIndex.trans hk.1) (by rw [h.numParts]; omega)

/-- A section that cannot be read to its end has no defined behaviour. -/
theorem step_closed_none (h : Standing boundary callbacks heap arg p)
    (hm : (Matcher.feed (p.delimiter boundary callbacks.length) p.matched bs).1
      = (p.delimiter boundary callbacks.length).length)
    (hbad : ¬ (p.Within callbacks.length ∧ p.HeaderOk callbacks heap
      (bs.take (Matcher.feed (p.delimiter boundary callbacks.length) p.matched bs).2))) :
    arg.step heap result bs = none := by
  by_cases hwithin : p.Within callbacks.length
  · have hok := not_and.mp hbad hwithin
    simp only [Place.HeaderOk, not_forall] at hok
    obtain ⟨hh, k, hk, hcallback, hlegible⟩ := hok
    have hlt : k < arg.parts.length := by
      rw [h.numParts]
      exact hwithin k hk
    have hpart : arg.parts[k]? = some arg.parts[k] := List.getElem?_eq_getElem hlt
    have hwanted : arg.parts[k].responseCallback = true := by
      rw [← h.callbacks, List.getElem?_map, hpart, Option.map_some] at hcallback
      exact Option.some.inj hcallback
    rw [Place.HeadersLegible, isSome_parseHeaderLines _ _ _ result _ arg.parts[k].headers,
      Bool.not_eq_true, Option.isSome_eq_false_iff, Option.isNone_iff_eq_none] at hlegible
    rw [h.step_block result hh hk hpart hm, if_pos hwanted, hlegible]
    rfl
  · exact h.step_not_within hwithin

/-- **To the end of a chunk in the middle of a section.** -/
theorem step_open_some (h : Standing boundary callbacks heap arg p) (result : Result)
    (hne : bs ≠ [])
    (hm : (Matcher.feed (p.delimiter boundary callbacks.length) p.matched bs).1
      < (p.delimiter boundary callbacks.length).length)
    (hwithin : p.Within callbacks.length)
    (hend : (p.read boundary callbacks.length bs).Endable) :
    ∃ arg', arg.step heap result bs = some (bs.length, result, arg') ∧
      Standing boundary callbacks heap arg' (p.read boundary callbacks.length bs).cut ∧
      deliveries arg'.calls = deliveries arg.calls ++
        p.emit (Matcher.releases (p.delimiter boundary callbacks.length) p.matched bs) false ++
        (p.read boundary callbacks.length bs).stray := by
  have hd := h.delimiter
  have hc := h.matchCounter
  have hlen := (Matcher.feed_spec _ bs _ h.matched_lt.le).2.2.1 hm
  obtain ⟨hread, -⟩ := Place.read_open bs p h.matched_lt hm
  have hcut : (p.read boundary callbacks.length bs).cut = { p with
      matched := (Matcher.feed (p.delimiter boundary callbacks.length) p.matched bs).1
      earlier := p.earlier ++ [bs], piece := [] } := by
    rw [hread, Place.cut, h.piece, List.nil_append, nonempty,
      if_pos (List.length_pos_iff.mpr hne)]
  have hin : ∀ k, arg.partIndex = some k → k < arg.parts.length := by
    rw [h.partIndex, h.numParts]
    exact hwithin
  cases hh : p.inHeader with
  | true =>
      obtain ⟨arg', hstep, -, hcalls, hstand⟩ := h.step_piece result hh hm
      refine ⟨arg', hstep, by rw [hcut]; exact hstand, ?_⟩
      have hemit : ∀ released ended, p.emit released ended = [] := fun _ _ => if_pos hh
      rw [hcalls, hemit, Place.stray_inHeader (by rw [hread]; exact hh)]
      simp
  | false =>
      have hfit : (Matcher.feed (p.delimiter boundary callbacks.length) p.matched bs).1
          ≤ bs.length := by
        rw [Place.Endable, hread] at hend
        simpa [hh, h.piece] using hend
      have hstep : arg.step heap result bs = _ := h.ready.step_interrupted
        (h.needHeader.trans hh) hin (by rw [hd, hc]; exact hm) (by rw [hd, hc]; exact hfit)
      refine ⟨_, hstep, ?_, ?_⟩
      · rw [hcut]
        refine h.mk_open hwithin hm rfl rfl rfl rfl ?_ ?_ ?_ ?_
        · rw [hd, hc]
        · simp [h.needHeader, hh, hd, hc]
        · have ho := h.offset
          rw [if_neg (by simp [hh])] at ho
          simpa [hh] using ho
        · exact fun hp => absurd hp (by simp [hh])
      · rw [deliveries_append, h.deliveries_interrupted hh hne hm hfit, List.append_assoc]

/-- A chunk that cannot end where it does has no defined behaviour. -/
theorem step_open_none (h : Standing boundary callbacks heap arg p)
    (hm : (Matcher.feed (p.delimiter boundary callbacks.length) p.matched bs).1
      < (p.delimiter boundary callbacks.length).length)
    (hbad : ¬ (p.Within callbacks.length ∧ (p.read boundary callbacks.length bs).Endable)) :
    arg.step heap result bs = none := by
  by_cases hwithin : p.Within callbacks.length
  · have hend := not_and.mp hbad hwithin
    obtain ⟨hread, -⟩ := Place.read_open bs p h.matched_lt hm
    rw [Place.Endable, hread, not_or] at hend
    simp only [Bool.not_eq_true, h.piece, List.nil_append, Nat.not_le] at hend
    refine h.ready.step_overrun (h.needHeader.trans hend.1) ?_ ?_
    · rw [h.delimiter, h.matchCounter]
      exact hm
    · rw [h.delimiter, h.matchCounter]
      exact hend.2
  · exact h.step_not_within hwithin

/-- A complete delimiter was not complete before the scan. -/
theorem scanned_pos (h : Standing boundary callbacks heap arg p)
    (hm : (Matcher.feed (p.delimiter boundary callbacks.length) p.matched bs).1
      = (p.delimiter boundary callbacks.length).length) :
    0 < (Matcher.feed (p.delimiter boundary callbacks.length) p.matched bs).2 := by
  have hle := Matcher.feed_fst_le h.matched_lt.le bs
  have hlt := h.matched_lt
  omega

/-- **A chunk.** Where a chunk is readable and may end, the reader stands at the place it
leads to, and its result and what its parts received are what the places say. -/
theorem loop_some : ∀ (fuel : ℕ) {arg : ReadMultipartArg} {p : Place} (result : Result)
    {bs : Bytes}, Standing boundary callbacks heap arg p → bs.length < fuel →
    p.Readable boundary callbacks heap bs → (p.read boundary callbacks.length bs).Endable →
    ∃ arg', ReadMultipartArg.loop heap fuel arg result bs
        = some (p.reply boundary callbacks heap result bs, arg') ∧
      Standing boundary callbacks heap arg' (p.read boundary callbacks.length bs).cut ∧
      deliveries arg'.calls = deliveries arg.calls ++ p.out boundary callbacks.length bs ++
        (p.read boundary callbacks.length bs).stray
  | 0, _, _, _, _, _, hfuel, _, _ => absurd hfuel (Nat.not_lt_zero _)
  | fuel + 1, arg, p, result, bs, h, hfuel, hr, hend => by
      by_cases hnil : bs = []
      · subst hnil
        refine ⟨arg, rfl, ?_, ?_⟩
        · rw [Place.read_nil, Place.cut_of_piece h.piece]
          exact h
        · rw [Place.read_nil, Place.stray_of_piece h.piece]
          simp [Place.out]
      · have hpos : 0 < bs.length := List.length_pos_iff.mpr hnil
        obtain ⟨hle, -⟩ := Matcher.feed_spec (p.delimiter boundary callbacks.length) bs _
          h.matched_lt.le
        rcases Nat.lt_or_eq_of_le hle with hm | hm
        · obtain ⟨arg', hstep, hstand, hdel⟩ := h.step_open_some result hnil hm
            ((Place.readable_open bs p h.matched_lt hm).mp hr hnil) hend
          obtain ⟨-, hout⟩ := Place.read_open bs p h.matched_lt hm
          refine ⟨arg', ?_, hstand, ?_⟩
          · rw [ReadMultipartArg.loop_of_step hnil hstep, List.drop_length,
              Place.reply_open bs p result h.matched_lt hm]
            exact ReadMultipartArg.loop_nil heap (by omega) arg' result
          · rw [hdel, hout]
        · obtain ⟨hwithin, hok, hrest⟩ := (Place.readable_closed bs p h.matched_lt hm).mp hr
          obtain ⟨hread, hout⟩ := Place.read_closed bs p h.matched_lt hm
          rw [h.piece, List.nil_append] at hok
          obtain ⟨arg', hstep, hstand, hdel⟩ := h.step_closed_some result hm hwithin hok
          have hscanned := h.scanned_pos hm
          obtain ⟨arg'', hloop, hstand', hdel'⟩ := loop_some fuel _ hstand
            (by rw [List.length_drop]; omega) hrest (hread ▸ hend)
          refine ⟨arg'', ?_, hread ▸ hstand', ?_⟩
          · rw [ReadMultipartArg.loop_of_step hnil hstep, hloop,
              Place.reply_closed bs p result h.matched_lt hm, h.piece, List.nil_append]
          · rw [hdel', hdel, hout, hread]
            simp only [List.append_assoc]

/-- A chunk that is not readable, or may not end where it does, has no defined behaviour. -/
theorem loop_none : ∀ (fuel : ℕ) {arg : ReadMultipartArg} {p : Place} (result : Result)
    {bs : Bytes}, Standing boundary callbacks heap arg p → (bs = [] → p.matched = 0) →
    ¬ (p.Readable boundary callbacks heap bs ∧
      (p.read boundary callbacks.length bs).Endable) →
    ReadMultipartArg.loop heap fuel arg result bs = none
  | 0, _, _, _, _, _, _, _ => rfl
  | fuel + 1, arg, p, result, bs, h, hzero, hbad => by
      by_cases hnil : bs = []
      · subst hnil
        refine absurd ⟨trivial, Or.inr ?_⟩ hbad
        rw [Place.read_nil, hzero rfl]
        exact Nat.zero_le _
      · obtain ⟨hle, -⟩ := Matcher.feed_spec (p.delimiter boundary callbacks.length) bs _
          h.matched_lt.le
        rcases Nat.lt_or_eq_of_le hle with hm | hm
        · refine ReadMultipartArg.loop_of_step_none hnil (h.step_open_none hm ?_) _
          rwa [Place.readable_open bs p h.matched_lt hm, forall_prop_of_true hnil] at hbad
        · by_cases hgood : p.Within callbacks.length ∧ p.HeaderOk callbacks heap
              (bs.take (Matcher.feed (p.delimiter boundary callbacks.length) p.matched bs).2)
          · obtain ⟨arg', hstep, hstand, -⟩ :=
              h.step_closed_some result hm hgood.1 hgood.2
            rw [ReadMultipartArg.loop_of_step hnil hstep]
            refine loop_none fuel _ hstand (fun _ => ?_) fun hrest => hbad ⟨?_, ?_⟩
            · exact Place.finish_matched p
            · rw [Place.readable_closed bs p h.matched_lt hm, h.piece]
              exact ⟨hgood.1, hgood.2, hrest.1⟩
            · rw [(Place.read_closed bs p h.matched_lt hm).1]
              exact hrest.2
          · exact ReadMultipartArg.loop_of_step_none hnil (h.step_closed_none hm hgood) _

end Standing

/-! ### Sequences of chunks -/

namespace Place

variable (boundary callbacks heap)

/-- Each chunk is readable and may end where it does. -/
def ChunksReadable : Place → List Bytes → Prop
  | _, [] => True
  | p, c :: cs =>
    p.Readable boundary callbacks heap c ∧ (p.read boundary callbacks.length c).Endable ∧
      ChunksReadable (p.read boundary callbacks.length c).cut cs

instance decidableChunksReadable : ∀ (p : Place) (chunks : List Bytes),
    Decidable (p.ChunksReadable boundary callbacks heap chunks)
  | _, [] => isTrue trivial
  | p, c :: cs =>
    have := decidableChunksReadable (p.read boundary callbacks.length c).cut cs
    inferInstanceAs (Decidable (_ ∧ _ ∧ _))

/-- A chunk that holds nothing of a body but a candidate delimiter comes last, and no byte
of that body came in an earlier chunk. -/
def NoStray : Place → List Bytes → Prop
  | _, [] => True
  | p, c :: cs =>
    ((p.read boundary callbacks.length c).Stray →
      cs = [] ∧ (p.read boundary callbacks.length c).earlier.flatten = []) ∧
    NoStray (p.read boundary callbacks.length c).cut cs

instance decidableNoStray : ∀ (p : Place) (chunks : List Bytes),
    Decidable (p.NoStray boundary callbacks chunks)
  | _, [] => isTrue trivial
  | p, c :: cs =>
    have := decidableNoStray (p.read boundary callbacks.length c).cut cs
    inferInstanceAs (Decidable ((_ → _) ∧ _))

/-- The place after some chunks. -/
def readChunks (p : Place) (chunks : List Bytes) : Place :=
  chunks.foldl (fun p c => (p.read boundary callbacks.length c).cut) p

/-- The deliveries that chunks give rise to. -/
def outChunks : Place → List Bytes → List (ℕ × Delivery)
  | _, [] => []
  | p, c :: cs =>
    p.out boundary callbacks.length c ++ (p.read boundary callbacks.length c).stray ++
      outChunks (p.read boundary callbacks.length c).cut cs

/-- The stray deliveries among them. -/
def strays : Place → List Bytes → List (ℕ × Delivery)
  | _, [] => []
  | p, c :: cs =>
    (p.read boundary callbacks.length c).stray ++
      strays (p.read boundary callbacks.length c).cut cs

end Place

variable {arg : ReadMultipartArg} {p : Place}

/-- The reader follows the places over a sequence of chunks. -/
theorem Standing.feedChunks_some : ∀ {chunks : List Bytes} {arg : ReadMultipartArg} {p : Place},
    Standing boundary callbacks heap arg p → p.ChunksReadable boundary callbacks heap chunks →
    ∃ arg', arg.feedChunks heap chunks = some arg' ∧
      deliveries arg'.calls = deliveries arg.calls ++ p.outChunks boundary callbacks chunks
  | [], arg, p, _, _ => ⟨arg, rfl, by simp [Place.outChunks]⟩
  | c :: cs, arg, p, h, hr => by
      obtain ⟨arg', hloop, hstand, hdel⟩ :=
        h.loop_some (c.length + 1) .success (Nat.lt_succ_self _) hr.1 hr.2.1
      obtain ⟨arg'', hfeed, hdel'⟩ := Standing.feedChunks_some hstand hr.2.2
      refine ⟨arg'', ?_, ?_⟩
      · rw [ReadMultipartArg.feedChunks, ReadMultipartArg.readMultipart, hloop]
        exact hfeed
      · rw [hdel', hdel, Place.outChunks]
        simp only [List.append_assoc]

/-- Chunks that the places rule out have no defined behaviour. -/
theorem Standing.feedChunks_none : ∀ {chunks : List Bytes} {arg : ReadMultipartArg} {p : Place},
    Standing boundary callbacks heap arg p → (∀ c ∈ chunks, c ≠ [] ∨ p.matched = 0 ∧ chunks = [c]) →
    ¬ p.ChunksReadable boundary callbacks heap chunks → arg.feedChunks heap chunks = none
  | [], _, _, _, _, hbad => absurd trivial hbad
  | c :: cs, arg, p, h, hne, hbad => by
      rw [ReadMultipartArg.feedChunks, ReadMultipartArg.readMultipart]
      by_cases hgood : p.Readable boundary callbacks heap c ∧
          (p.read boundary callbacks.length c).Endable
      · obtain ⟨arg', hloop, hstand, -⟩ :=
          h.loop_some (c.length + 1) .success (Nat.lt_succ_self _) hgood.1 hgood.2
        rw [hloop]
        refine Standing.feedChunks_none hstand (fun d hd => ?_)
          fun hrest => hbad ⟨hgood.1, hgood.2, hrest⟩
        rcases hne d (List.mem_cons_of_mem c hd) with hd' | ⟨-, hone⟩
        · exact Or.inl hd'
        · rw [(List.cons.inj hone).2] at hd
          exact absurd hd List.not_mem_nil
      · rw [h.loop_none (c.length + 1) .success (fun hnil => ?_) hgood]
        · rfl
        · rcases hne c List.mem_cons_self with hc | ⟨hm, -⟩
          · exact absurd hnil hc
          · exact hm

namespace Place

/-- The deliveries of the chunks are those of their concatenation and the stray ones. -/
theorem outChunks_perm : ∀ (chunks : List Bytes) (p : Place),
    (p.outChunks boundary callbacks chunks).Perm
      (p.out boundary callbacks.length chunks.flatten ++ p.strays boundary callbacks chunks)
  | [], _ => List.Perm.refl _
  | c :: cs, p => by
      have hcut : (p.read boundary callbacks.length c).cut.out boundary callbacks.length cs.flatten
          = (p.read boundary callbacks.length c).out boundary callbacks.length cs.flatten :=
        ((SameSection.cut _).read cs.flatten).2
      rw [outChunks, strays, List.flatten_cons, out_append, ← hcut, List.append_assoc,
        List.append_assoc]
      refine List.Perm.append_left _ ?_
      calc (p.read boundary callbacks.length c).stray ++
            (p.read boundary callbacks.length c).cut.outChunks boundary callbacks cs
          |>.Perm ((p.read boundary callbacks.length c).stray ++
            ((p.read boundary callbacks.length c).cut.out boundary callbacks.length cs.flatten ++
              (p.read boundary callbacks.length c).cut.strays boundary callbacks cs)) :=
            (outChunks_perm cs _).append_left _
        _ |>.Perm _ := List.perm_append_comm_assoc _ _ _

section Last

variable (cs : List Bytes) (c : Bytes)

/-- The stray deliveries before the last chunk and at its end. -/
theorem strays_concat (p : Place) :
    p.strays boundary callbacks (cs ++ [c])
      = p.strays boundary callbacks cs ++
        ((p.readChunks boundary callbacks cs).read boundary callbacks.length c).stray := by
  induction cs generalizing p with
  | nil => simp [strays, readChunks]
  | cons d cs ih => rw [List.cons_append, strays, ih, strays, List.append_assoc]; rfl

/-- The last chunk may end where it does. -/
theorem endable_of_chunksReadable {p : Place}
    (h : p.ChunksReadable boundary callbacks heap (cs ++ [c])) :
    ((p.readChunks boundary callbacks cs).read boundary callbacks.length c).Endable := by
  induction cs generalizing p with
  | nil => exact h.2.1
  | cons d cs ih => exact ih h.2.2

/-- Chunks lead to where their concatenation leads. -/
theorem sameSection_readChunks (p : Place) :
    SameSection ((p.readChunks boundary callbacks cs).read boundary callbacks.length c)
      (p.read boundary callbacks.length (cs ++ [c]).flatten) := by
  induction cs generalizing p with
  | nil => simpa [readChunks] using SameSection.refl _
  | cons d cs ih =>
      rw [List.cons_append, List.flatten_cons, read_append]
      exact (ih _).trans ((SameSection.cut _).read _).1

/-- No stray chunk before the last, and none at its end unless it holds all of the body. -/
theorem noStray_concat (p : Place) :
    p.NoStray boundary callbacks (cs ++ [c]) ↔
      p.strays boundary callbacks cs = [] ∧
      (((p.readChunks boundary callbacks cs).read boundary callbacks.length c).Stray →
        ((p.readChunks boundary callbacks cs).read boundary
          callbacks.length c).earlier.flatten = []) := by
  induction cs generalizing p with
  | nil => simp [NoStray, strays, readChunks]
  | cons d cs ih =>
      rw [List.cons_append, NoStray, ih, strays]
      simp only [List.append_eq_nil_iff, stray_eq_nil, List.cons_ne_nil, and_false, false_and,
        imp_false, and_assoc]
      exact Iff.rfl

/-- Without stray chunks before the last, the parts receive the bodies, and what the last
chunk adds. -/
theorem outChunks_concat {p : Place} (h : p.strays boundary callbacks cs = []) :
    p.outChunks boundary callbacks (cs ++ [c])
      = p.out boundary callbacks.length (cs ++ [c]).flatten ++
        ((p.readChunks boundary callbacks cs).read boundary callbacks.length c).stray := by
  induction cs generalizing p with
  | nil => simp [outChunks, readChunks]
  | cons d cs ih =>
      rw [strays, List.append_eq_nil_iff] at h
      rw [List.cons_append, outChunks, h.1, ih h.2, List.flatten_cons, out_append,
        ((SameSection.cut _).read _).2, List.append_nil, List.append_assoc]
      rfl

end Last

/-- Without stray chunks the cuts do not change what is delivered. -/
theorem outChunks_eq {p : Place} {chunks : List Bytes} (hearlier : p.earlier = [])
    (hpiece : p.piece = []) (hr : p.ChunksReadable boundary callbacks heap chunks)
    (hs : p.NoStray boundary callbacks chunks) :
    p.outChunks boundary callbacks chunks
      = p.outChunks boundary callbacks [chunks.flatten] := by
  rcases List.eq_nil_or_concat' chunks with rfl | ⟨cs, c, rfl⟩
  · simp [outChunks, out, stray_of_piece hpiece]
  · have hwhole : (p.read boundary callbacks.length (cs ++ [c]).flatten).earlier = [] :=
      read_earlier _ hearlier
    have hlast : SameSection
        ((p.readChunks boundary callbacks cs).read boundary callbacks.length c)
        (p.read boundary callbacks.length (cs ++ [c]).flatten) :=
      sameSection_readChunks cs c p
    have hend := endable_of_chunksReadable cs c hr
    obtain ⟨hnone, hspared⟩ := (noStray_concat cs c p).mp hs
    rw [outChunks_concat cs c hnone, outChunks, outChunks, List.append_nil]
    congr 1
    refine hlast.stray_eq ⟨fun h => ?_, fun h => ?_⟩
    · exact hlast.uncut_stray hwhole h (hspared h)
    · exact (hlast.stray_of_uncut hwhole hend h).1

/-- If the cuts do not change how often anything is delivered, there are no stray
chunks. -/
theorem noStray_of_count {p : Place} {chunks : List Bytes} (hearlier : p.earlier = [])
    (hr : p.ChunksReadable boundary callbacks heap chunks)
    (hcount : ∀ delivery, (p.outChunks boundary callbacks chunks).count delivery
      = (p.outChunks boundary callbacks [chunks.flatten]).count delivery) :
    p.NoStray boundary callbacks chunks := by
  have hperm : (p.strays boundary callbacks chunks).Perm
      (p.read boundary callbacks.length chunks.flatten).stray := by
    refine List.perm_iff_count.mpr fun delivery => ?_
    have hall : (p.outChunks boundary callbacks chunks).count delivery
        = (p.out boundary callbacks.length chunks.flatten ++
          p.strays boundary callbacks chunks).count delivery :=
      (outChunks_perm chunks p).count_eq delivery
    rw [hcount, outChunks, outChunks, List.append_nil, List.count_append,
      List.count_append] at hall
    omega
  rcases List.eq_nil_or_concat' chunks with rfl | ⟨cs, c, rfl⟩
  · trivial
  · have hwhole : (p.read boundary callbacks.length (cs ++ [c]).flatten).earlier = [] :=
      read_earlier _ hearlier
    have hlast : SameSection
        ((p.readChunks boundary callbacks cs).read boundary callbacks.length c)
        (p.read boundary callbacks.length (cs ++ [c]).flatten) :=
      sameSection_readChunks cs c p
    have hend := endable_of_chunksReadable cs c hr
    rw [strays_concat] at hperm
    refine (noStray_concat cs c p).mpr ?_
    by_cases hstray : (p.read boundary callbacks.length (cs ++ [c]).flatten).Stray
    · obtain ⟨hs, hflat⟩ := hlast.stray_of_uncut hwhole hend hstray
      rw [hlast.stray_eq (iff_of_true hs hstray)] at hperm
      have hlen := hperm.length_eq
      rw [List.length_append] at hlen
      exact ⟨List.length_eq_zero_iff.mp (by omega), fun _ => hflat⟩
    · rw [stray_eq_nil.mpr hstray] at hperm
      obtain ⟨hnone, hlastNone⟩ := List.append_eq_nil_iff.mp hperm.eq_nil
      exact ⟨hnone, fun h => absurd h (stray_eq_nil.mp hlastNone)⟩

end Place

end Refinement

/-! ### Cutting a message -/

/-- What the data read callback of part `k` received. -/
def ReadMultipartArg.received (arg : ReadMultipartArg) (k : ℕ) : List Delivery :=
  (deliveries arg.calls).filterMap fun delivery =>
    if delivery.1 = k then some delivery.2 else none

/-- Fed chunk by chunk, the parts receive the same bytes and the same ends of parts as
after one call with the whole message. -/
def SameBodies (heap : Bytes → ℕ → Byte) (arg : ReadMultipartArg) (chunks : List Bytes) :
    Prop :=
  ∃ whole pieces, arg.feedChunks heap [chunks.flatten] = some whole ∧
    arg.feedChunks heap chunks = some pieces ∧ ∀ k, pieces.received k = whole.received k

/-- How often a part received a byte or its end. -/
theorem count_received (arg : ReadMultipartArg) (delivery : ℕ × Delivery) :
    (arg.received delivery.1).count delivery.2 = (deliveries arg.calls).count delivery := by
  rw [ReadMultipartArg.received]
  induction deliveries arg.calls with
  | nil => rfl
  | cons d l ih =>
      by_cases hk : d.1 = delivery.1
      · rw [List.filterMap_cons_some (by rw [if_pos hk]), List.count_cons, List.count_cons, ih]
        congr 1
        simp only [beq_iff_eq, Prod.ext_iff, hk, true_and]
      · rw [List.filterMap_cons_none (by rw [if_neg hk]), ih,
          List.count_cons_of_ne (fun he => hk (by rw [he]))]

/-- The parts received equally often each byte and each end. -/
theorem count_deliveries_eq {arg arg' : ReadMultipartArg}
    (h : ∀ k, arg.received k = arg'.received k) (delivery : ℕ × Delivery) :
    (deliveries arg.calls).count delivery = (deliveries arg'.calls).count delivery := by
  rw [← count_received, ← count_received, h]

/-- **When the bodies do not depend on the cuts.** Cutting a message into non-empty chunks
leaves what every part receives unchanged if and only if, in one piece and in chunks, the
message ends with its closing delimiter and has no header line that cannot be parsed, every
chunk that ends outside a header block holds the whole candidate delimiter it ends with,
and only the last chunk may hold nothing of a body but such a candidate, and then only if
no byte of that body came earlier. -/
theorem readMultipart_chunks_iff (heap : Bytes → ℕ → Byte) (boundary : Bytes)
    (callbacks : List Bool) (chunks : List Bytes) (hne : ∀ c ∈ chunks, c ≠ []) :
    SameBodies heap (prepareReadMultipart boundary callbacks) chunks ↔
      Place.start.ChunksReadable boundary callbacks heap [chunks.flatten] ∧
      Place.start.ChunksReadable boundary callbacks heap chunks ∧
      Place.start.NoStray boundary callbacks chunks := by
  have hprep : Standing boundary callbacks heap (prepareReadMultipart boundary callbacks)
      Place.start := Standing.prepare
  have hone : ∀ d ∈ [chunks.flatten], d ≠ [] ∨
      Place.start.matched = 0 ∧ [chunks.flatten] = [d] :=
    fun d hd => Or.inr ⟨rfl, by rw [List.mem_singleton.mp hd]⟩
  have hmany : ∀ d ∈ chunks, d ≠ [] ∨ Place.start.matched = 0 ∧ chunks = [d] :=
    fun d hd => Or.inl (hne d hd)
  by_cases hreadable : Place.start.ChunksReadable boundary callbacks heap [chunks.flatten] ∧
      Place.start.ChunksReadable boundary callbacks heap chunks
  · obtain ⟨hwhole, hpieces⟩ := hreadable
    obtain ⟨whole, hfeed, hdel⟩ := hprep.feedChunks_some hwhole
    obtain ⟨pieces, hfeed', hdel'⟩ := hprep.feedChunks_some hpieces
    have hbodies : SameBodies heap (prepareReadMultipart boundary callbacks) chunks
        ↔ ∀ k, pieces.received k = whole.received k := by
      simp [SameBodies, hfeed, hfeed']
    rw [hbodies]
    simp only [hwhole, hpieces, true_and]
    constructor
    · intro hsame
      refine Place.noStray_of_count rfl hpieces fun delivery => ?_
      have hcount := count_deliveries_eq hsame delivery
      rwa [hdel, hdel', List.count_append, List.count_append, Nat.add_left_cancel_iff] at hcount
    · intro hs k
      rw [ReadMultipartArg.received, ReadMultipartArg.received, hdel, hdel',
        Place.outChunks_eq rfl rfl hpieces hs]
  · constructor
    · rintro ⟨whole, pieces, hfeed, hfeed', -⟩
      refine absurd ⟨?_, ?_⟩ hreadable
      · by_contra hbad
        rw [hprep.feedChunks_none hone hbad] at hfeed
        exact absurd hfeed (by simp)
      · by_contra hbad
        rw [hprep.feedChunks_none hmany hbad] at hfeed'
        exact absurd hfeed' (by simp)
    · exact fun h => absurd ⟨h.1, h.2.1⟩ hreadable

/-- A message with one part whose body `"\r" ++ "x"` is cut after its first byte. -/
def splitBody : List Bytes :=
  [bytes "--b\r\nA: 1\r\n\r\n", bytes "\r", bytes "x\r\n--b--\r\n"]

/-- The same body in three other chunks. -/
def evenBody : List Bytes :=
  [bytes "--b\r\nA: 1\r\n\r\n", bytes "\rx", bytes "\r\n--b--\r\n"]

/-- The case of `evenBody`, and the criterion at `splitBody`. -/
theorem readMultipart_chunks_iff_splitBody :
    SameBodies (fun _ _ => 0) (prepareReadMultipart (bytes "b") [false]) evenBody ∧
      (SameBodies (fun _ _ => 0) (prepareReadMultipart (bytes "b") [false]) splitBody ↔
        Place.start.ChunksReadable (bytes "b") [false] (fun _ _ => 0) [splitBody.flatten] ∧
        Place.start.ChunksReadable (bytes "b") [false] (fun _ _ => 0) splitBody ∧
        Place.start.NoStray (bytes "b") [false] splitBody) :=
  ⟨(readMultipart_chunks_iff _ _ _ _ (by decide)).mpr
      ⟨by decide +kernel, by decide +kernel, by decide +kernel⟩,
    readMultipart_chunks_iff _ _ _ _ (by decide)⟩

/-- Cut like this, the part is told that it ends before it receives its first byte. -/
theorem readMultipart_splitBody :
    ¬ ∀ (boundary : Bytes) (callbacks : List Bool) (chunks : List Bytes), cr ∉ boundary →
      0 < callbacks.length → (∀ c ∈ chunks, c ≠ []) →
      SameBodies (fun _ _ => 0) (prepareReadMultipart boundary callbacks) chunks := by
  intro h
  obtain ⟨whole, pieces, hwhole, hpieces, hsame⟩ :=
    h (bytes "b") [false] splitBody (by decide) (by decide) (by decide)
  have hwhole' : ((prepareReadMultipart (bytes "b") [false]).feedChunks (fun _ _ => 0)
      [splitBody.flatten]).map (·.received 0) = some [some 13, some 120, none] := by
    decide +kernel
  have hpieces' : ((prepareReadMultipart (bytes "b") [false]).feedChunks (fun _ _ => 0)
      splitBody).map (·.received 0) = some [none, some 13, some 120, none] := by
    decide +kernel
  rw [hwhole, Option.map_some, Option.some.injEq] at hwhole'
  rw [hpieces, Option.map_some, Option.some.injEq, hsame, hwhole'] at hpieces'
  exact absurd hpieces' (by decide)

end DsiRest
