import DsiRest.MissingBoundary
import DsiRest.MultipartRoundTrip

/-!
# Nested Multipart Readers

A part of a multipart message may be read by `globus_dsi_rest_read_multipart` itself, and
preparation makes an argument for such a part. Its boundary is to be found in the headers of
the part. But the header callback of the library looks at the headers of the response and
sets the boundary of the reader of the request only, so that a reader further down never has
one.

A `PartReader` is a read part with what its callback has got so far. The calls made for the
parts of a message are regrouped by part, since parts do not share anything.

## Main results

* `PartReader.feed_unbounded` — the first byte for an inner reader is fatal.
* `nested_unread` — no message with an inner multipart message is read as it should.
* `nested_undefined` — where the outer reader does its work, the inner one ends the run.
-/

namespace DsiRest

/-! ### Read parts -/

/-- A part of the client's multipart argument: whether it has a response callback, and its
data read callback. -/
structure ClientReadPart (R : Type) where
  responseCallback : Bool
  dataRead : R

/-- The client's `data_read_callback` of a part, as far as the multipart reader goes. -/
inductive ClientReader
  | client
  | multipart (parts : List (ClientReadPart ClientReader))

/-- A prepared data read callback: one of the client with the buffers it was called with, or
a multipart reader, of which `bounded` says that it has a boundary. -/
inductive PartReader
  | client (received : List Bytes)
  | multipart (arg : ReadMultipartArg) (bounded : Bool) (parts : List PartReader)

mutual

/-- `globus_l_dsi_rest_prepare_read_callbacks` with its multipart case. -/
def prepareReadCallbacks : ClientReader → PartReader
  | .client => .client []
  | .multipart parts =>
    .multipart (prepareReadMultipart [] (parts.map (·.responseCallback))) false
      (prepareReadParts parts)

/-- The loop of `globus_l_dsi_rest_prepare_read_multipart` over the parts. -/
def prepareReadParts : List (ClientReadPart ClientReader) → List PartReader
  | [] => []
  | part :: parts => prepareReadCallbacks part.dataRead :: prepareReadParts parts

end

/-- The header callback sets the boundary of the reader of the request. -/
def PartReader.updateBoundary (boundary : Bytes) : PartReader → PartReader
  | .client received => .client received
  | .multipart arg _ parts =>
    .multipart { arg with boundary := boundary, boundaryBuffer := [] } true parts

/-- The buffers with which part `k` is called. -/
def buffersOf (k : ℕ) (calls : List PartCall) : List Bytes :=
  calls.filterMap fun
    | .data part buffer => if part = k then some buffer else none
    | .response _ _ => none

/-- Calls of a multipart reader one after another. -/
def ReadMultipartArg.readAll (heap : Bytes → ℕ → Byte) (bounded : Bool) :
    ReadMultipartArg → List Bytes → Option ReadMultipartArg
  | arg, [] => some arg
  | arg, buffer :: buffers => do
    let (_, arg) ← arg.read heap bounded buffer
    readAll heap bounded arg buffers

mutual

/-- Calls of a data read callback one after another. -/
def PartReader.feed (heap : Bytes → ℕ → Byte) : PartReader → List Bytes → Option PartReader
  | .client received, buffers => some (.client (received ++ buffers))
  | .multipart arg bounded parts, buffers => do
    let last ← arg.readAll heap bounded buffers
    let parts ← feedParts heap (last.calls.drop arg.calls.length) 0 parts
    some (.multipart last bounded parts)

/-- The calls for the parts from number `k` on. -/
def feedParts (heap : Bytes → ℕ → Byte) (calls : List PartCall) :
    ℕ → List PartReader → Option (List PartReader)
  | _, [] => some []
  | k, part :: parts => do
    let part ← part.feed heap (buffersOf k calls)
    let parts ← feedParts heap calls (k + 1) parts
    some (part :: parts)

end

mutual

/-- The height of the tree of readers. -/
def ClientReader.depth : ClientReader → ℕ
  | .client => 0
  | .multipart parts => readDepth parts + 1

/-- The greatest height among the parts. -/
def readDepth : List (ClientReadPart ClientReader) → ℕ
  | [] => 0
  | part :: parts => max part.dataRead.depth (readDepth parts)

end

mutual

/-- The reader has the shape of the writer. -/
def ClientReader.Mirrors : ClientReader → Writer → Prop
  | .client, .multipart _ => False
  | .client, _ => True
  | .multipart parts, .multipart arg => MirrorsParts parts arg.parts
  | .multipart _, _ => False

/-- Readers have the shapes of writers, one by one. -/
def MirrorsParts : List (ClientReadPart ClientReader) → List (WritePart Writer) → Prop
  | [], [] => True
  | part :: parts, written :: more => part.dataRead.Mirrors written.writer ∧
      MirrorsParts parts more
  | _, _ => False

end

mutual

/-- Every part of the message has a header. -/
def Writer.Headed : Writer → Prop
  | .multipart arg => HeadedParts arg.parts
  | _ => True

/-- Every part of the list has a header, and so have its parts. -/
def HeadedParts : List (WritePart Writer) → Prop
  | [] => True
  | part :: parts => part.headers ≠ [] ∧ part.writer.Headed ∧ HeadedParts parts

end

mutual

/-- Every multipart message has a part, as it must to be sent. -/
def Writer.HasParts : Writer → Prop
  | .multipart arg => arg.parts ≠ [] ∧ PartsHaveParts arg.parts
  | _ => True

/-- So have all messages among the parts. -/
def PartsHaveParts : List (WritePart Writer) → Prop
  | [] => True
  | part :: parts => part.writer.HasParts ∧ PartsHaveParts parts

end

mutual

/-- A reader has the boundary of the message for it, and so have the readers of its parts. -/
def PartReader.Bounded : PartReader → Writer → Prop
  | .client _, _ => True
  | .multipart arg bounded parts, .multipart written =>
    (bounded = true ∧ written.boundary = some arg.boundary) ∧ BoundedParts parts written.parts
  | .multipart _ _ _, _ => False

/-- Readers have the boundaries of messages, one by one. -/
def BoundedParts : List PartReader → List (WritePart Writer) → Prop
  | [], [] => True
  | part :: parts, written :: more => part.Bounded written.writer ∧ BoundedParts parts more
  | _, _ => False

end

mutual

/-- A client's callback got the body that was written for it, followed by its end, and so did
those of the parts of a multipart reader. -/
def PartReader.Received : PartReader → Writer → Prop
  | .client received, written =>
    ∃ data, received = data ++ [[]] ∧ (∀ buffer ∈ data, buffer ≠ []) ∧
      data.flatten = written.encode
  | .multipart _ _ parts, .multipart written => ReceivedParts parts written.parts
  | .multipart _ _ _, _ => False

/-- Readers got what writers wrote, one by one. -/
def ReceivedParts : List PartReader → List (WritePart Writer) → Prop
  | [], [] => True
  | part :: parts, written :: more => part.Received written.writer ∧ ReceivedParts parts more
  | _, _ => False

end

/-- A run in which a message is handed over in chunks, to readers of which the first was told
its boundary. -/
def nestedRun (heap : Bytes → ℕ → Byte) (reader : ClientReader)
    (written : WriteMultipartArg Writer) (chunks : List Bytes) : Option PartReader := do
  let boundary ← written.boundary
  ((prepareReadCallbacks reader).updateBoundary boundary).feed heap chunks

/-- The run is defined, and every reader used the boundary of the message for it. -/
def UsesBoundaries (heap : Bytes → ℕ → Byte) (reader : ClientReader)
    (written : WriteMultipartArg Writer) (chunks : List Bytes) : Prop :=
  ∃ last, nestedRun heap reader written chunks = some last ∧ last.Bounded (.multipart written)

/-- The run is defined, and every leaf got its body and its end. -/
def LeavesReceive (heap : Bytes → ℕ → Byte) (reader : ClientReader)
    (written : WriteMultipartArg Writer) (chunks : List Bytes) : Prop :=
  ∃ last, nestedRun heap reader written chunks = some last ∧ last.Received (.multipart written)

/-! ### Inner readers -/

/-- A multipart reader that has no boundary. -/
def PartReader.Unbounded (part : PartReader) : Prop :=
  ∃ arg parts, part = .multipart arg false parts

variable {heap : Bytes → ℕ → Byte}

/-- **The first byte for a reader without a boundary** leaves defined behaviour. -/
theorem PartReader.feed_unbounded {part : PartReader} (h : part.Unbounded) {buffers : List Bytes}
    (hbytes : buffers.flatten ≠ []) : part.feed heap buffers = none := by
  obtain ⟨arg, parts, rfl⟩ := h
  suffices hread : arg.readAll heap false buffers = none by
    rw [PartReader.feed, hread]
    rfl
  induction buffers with
  | nil => exact absurd rfl hbytes
  | cons buffer buffers ih =>
      rw [ReadMultipartArg.readAll]
      cases buffer with
      | nil =>
          have hempty : arg.read heap false [] = some (.success, arg) := if_pos (Or.inr rfl)
          simp only [hempty, Option.bind_eq_bind, Option.bind_some]
          exact ih (by simpa using hbytes)
      | cons b buffer =>
          have hnone : arg.read heap false (b :: buffer) = none := if_neg (by simp)
          simp only [hnone]
          rfl

mutual

/-- Without calls a reader stays as it is. -/
theorem PartReader.feed_nil : ∀ part : PartReader, part.feed heap [] = some part
  | .client received => by rw [PartReader.feed, List.append_nil]
  | .multipart arg bounded parts => by
      have hparts := feedParts_nil 0 parts
      rw [PartReader.feed, ReadMultipartArg.readAll, Option.bind_eq_bind, Option.bind_some,
        List.drop_length, hparts]
      rfl

/-- Without calls the readers of parts stay as they are. -/
theorem feedParts_nil : ∀ (k : ℕ) (parts : List PartReader),
    feedParts heap [] k parts = some parts
  | k, [] => rfl
  | k, part :: parts => by
      have hpart : part.feed heap (buffersOf k []) = some part := part.feed_nil
      rw [feedParts, hpart, feedParts_nil (k + 1) parts]
      rfl

end

/-- A prepared multipart reader has no boundary. -/
theorem unbounded_prepareReadCallbacks (parts : List (ClientReadPart ClientReader)) :
    (prepareReadCallbacks (.multipart parts)).Unbounded := by
  rw [prepareReadCallbacks]
  exact ⟨_, _, rfl⟩

/-- A reader without a boundary stays as it is in every run that is defined. -/
theorem PartReader.Unbounded.feed {part last : PartReader} (h : part.Unbounded)
    {buffers : List Bytes} (hfeed : part.feed heap buffers = some last) : last = part := by
  have hempty : buffers.flatten = [] := by
    by_contra hbytes
    rw [PartReader.feed_unbounded h hbytes] at hfeed
    exact absurd hfeed (by simp)
  obtain ⟨arg, parts, rfl⟩ := h
  have hread : arg.readAll heap false buffers = some arg := by
    clear hfeed
    induction buffers with
    | nil => rfl
    | cons buffer buffers ih =>
        obtain ⟨rfl, hrest⟩ := List.append_eq_nil_iff.mp hempty
        have hnil : arg.read heap false [] = some (.success, arg) := if_pos (Or.inr rfl)
        rw [ReadMultipartArg.readAll, hnil]
        exact ih hrest
  rw [PartReader.feed, hread, Option.bind_eq_bind, Option.bind_some, List.drop_length,
    feedParts_nil] at hfeed
  exact (Option.some.inj hfeed).symm

/-- A reader without a boundary does not have that of a message. -/
theorem PartReader.Unbounded.not_bounded {part : PartReader} (h : part.Unbounded)
    (written : Writer) : ¬ part.Bounded written := by
  obtain ⟨arg, parts, rfl⟩ := h
  cases written <;> simp [PartReader.Bounded]

mutual

/-- A prepared reader has not received anything. -/
theorem not_received_prepareReadCallbacks : ∀ (reader : ClientReader) {written : Writer},
    written.HasParts → ¬ (prepareReadCallbacks reader).Received written
  | .client, written, _ => by
      rw [prepareReadCallbacks, PartReader.Received]
      rintro ⟨data, hdata, -⟩
      exact absurd hdata.symm (List.append_ne_nil_of_right_ne_nil _ (List.cons_ne_nil _ _))
  | .multipart parts, .multipart written, h => by
      rw [prepareReadCallbacks, PartReader.Received]
      exact not_receivedParts_prepareReadParts parts h.1 h.2
  | .multipart parts, .block _, _ => id
  | .multipart parts, .blocks _, _ => id
  | .multipart parts, .fixed _ _, _ => id
  | .multipart parts, .client _ _, _ => id

/-- Prepared readers of parts have not received anything. -/
theorem not_receivedParts_prepareReadParts : ∀ (parts : List (ClientReadPart ClientReader))
    {written : List (WritePart Writer)}, written ≠ [] → PartsHaveParts written →
    ¬ ReceivedParts (prepareReadParts parts) written
  | _, [], hne, _ => absurd rfl hne
  | [], _ :: _, _, _ => id
  | part :: parts, written :: more, _, h => by
      rw [prepareReadParts, ReceivedParts]
      rintro ⟨hpart, -⟩
      exact not_received_prepareReadCallbacks part.dataRead h.1 hpart

end

/-- An inner reader among the parts keeps them from having their boundaries and from having
received their bodies. -/
theorem feedParts_unread {calls : List PartCall} : ∀ {k : ℕ}
    {parts : List (ClientReadPart ClientReader)} {last : List PartReader}
    {written : List (WritePart Writer)},
    feedParts heap calls k (prepareReadParts parts) = some last → 0 < readDepth parts →
    PartsHaveParts written → ¬ BoundedParts last written ∧ ¬ ReceivedParts last written
  | k, [], last, written, _, h, _ => absurd h (lt_irrefl 0)
  | k, part :: parts, last, written, hfeed, h, hparts => by
      rw [prepareReadParts, feedParts, Option.bind_eq_bind, Option.bind_eq_some_iff] at hfeed
      obtain ⟨part', hpart', hfeed⟩ := hfeed
      rw [Option.bind_eq_bind, Option.bind_eq_some_iff] at hfeed
      obtain ⟨parts', hparts', hlast⟩ := hfeed
      rw [← Option.some.inj hlast]
      cases written with
      | nil => exact ⟨id, id⟩
      | cons written more =>
          obtain ⟨hhead, hmore⟩ := hparts
          rw [BoundedParts, ReceivedParts]
          rw [readDepth] at h
          cases hread : part.dataRead with
          | client =>
              rw [hread, ClientReader.depth, Nat.zero_max] at h
              obtain ⟨hbounded, hreceived⟩ := feedParts_unread hparts' h hmore
              exact ⟨fun hall => hbounded hall.2, fun hall => hreceived hall.2⟩
          | multipart inner =>
              have hunbounded := unbounded_prepareReadCallbacks inner
              rw [hread] at hpart'
              rw [hunbounded.feed hpart']
              constructor
              · rintro ⟨hbounded, -⟩
                exact hunbounded.not_bounded _ hbounded
              · rintro ⟨hreceived, -⟩
                exact not_received_prepareReadCallbacks _ hhead hreceived

/-- **An inner multipart message is not read**: with a multipart reader among the parts of a
multipart reader, whatever the message and however it is handed over, there is a reader that
does not use its boundary, and a leaf that does not get what was written for it. -/
theorem nested_unread (heap : Bytes → ℕ → Byte) {reader : ClientReader} (hdepth : 2 ≤ reader.depth)
    {written : WriteMultipartArg Writer} (hparts : (Writer.multipart written).HasParts)
    (chunks : List Bytes) :
    ¬ UsesBoundaries heap reader written chunks ∧ ¬ LeavesReceive heap reader written chunks := by
  have hunread : ∀ last, nestedRun heap reader written chunks = some last →
      ¬ last.Bounded (.multipart written) ∧ ¬ last.Received (.multipart written) := by
    intro last hrun
    rw [nestedRun, Option.bind_eq_bind, Option.bind_eq_some_iff] at hrun
    obtain ⟨boundary, -, hfeed⟩ := hrun
    cases reader with
    | client => simp [ClientReader.depth] at hdepth
    | multipart parts =>
        rw [ClientReader.depth] at hdepth
        rw [prepareReadCallbacks, PartReader.updateBoundary, PartReader.feed, Option.bind_eq_bind,
          Option.bind_eq_some_iff] at hfeed
        obtain ⟨arg', -, hfeed⟩ := hfeed
        rw [Option.bind_eq_bind, Option.bind_eq_some_iff] at hfeed
        obtain ⟨parts', hparts', hlast⟩ := hfeed
        obtain ⟨hbounded, hreceived⟩ := feedParts_unread hparts' (by omega) hparts.2
        rw [← Option.some.inj hlast, PartReader.Bounded, PartReader.Received]
        exact ⟨fun hall => hbounded hall.2, hreceived⟩
  constructor
  · rintro ⟨last, hrun, hbounded⟩
    exact (hunread last hrun).1 hbounded
  · rintro ⟨last, hrun, hreceived⟩
    exact (hunread last hrun).2 hreceived

/-! ### Where the outer reader does its work -/

@[simp] theorem buffersOf_append (k : ℕ) (first second : List PartCall) :
    buffersOf k (first ++ second) = buffersOf k first ++ buffersOf k second :=
  List.filterMap_append

/-- The buffers of calls of part `k`. -/
theorem buffersOf_data (j k : ℕ) (buffers : List Bytes) :
    buffersOf j (buffers.map (.data k)) = if k = j then buffers else [] := by
  induction buffers with
  | nil => simp [buffersOf]
  | cons buffer buffers ih =>
      rw [buffersOf] at ih ⊢
      by_cases h : k = j <;> simp_all

/-- The calls that hand over part `k` have buffers for that. -/
theorem buffersOf_partCalls (j k : ℕ) (part : WritePart Writer) :
    buffersOf j (partCalls k part)
      = if k = j then nonempty part.writer.encode ++ [[]] else [] := by
  have hresponse : buffersOf j [.response k part.headers] = [] := rfl
  rw [partCalls, dataCalls_some, buffersOf_append, hresponse, buffersOf_data, List.nil_append]

/-- The calls that hand over parts have no buffers for earlier ones. -/
theorem buffersOf_partsCalls {j : ℕ} : ∀ (k : ℕ) (written : List (WritePart Writer)), j < k →
    buffersOf j (partsCalls k written) = []
  | k, [], _ => rfl
  | k, part :: written, h => by
      rw [partsCalls, buffersOf_append, buffersOf_partCalls, if_neg (by omega),
        buffersOf_partsCalls (k + 1) written (Nat.lt_succ_of_lt h), List.nil_append]

/-- A message with a delimiter and parts is not empty. -/
theorem Writer.Delimited.encode_ne_nil {arg : WriteMultipartArg Writer}
    (h : (Writer.multipart arg).Delimited) : (Writer.multipart arg).encode ≠ [] := by
  obtain ⟨hboundary, hparts, -⟩ := h
  obtain ⟨boundary, hboundary⟩ := Option.isSome_iff_exists.mp hboundary
  obtain ⟨part, later, hparts⟩ := List.exists_cons_of_ne_nil hparts
  rw [Writer.encode, hboundary, hparts, encodeParts_cons]
  simp [crlf]

/-- A multipart reader mirrors a multipart writer only. -/
theorem ClientReader.Mirrors.multipart {parts : List (ClientReadPart ClientReader)} :
    ∀ {written : Writer}, (ClientReader.multipart parts).Mirrors written →
      ∃ arg, written = .multipart arg
  | .multipart arg, _ => ⟨arg, rfl⟩
  | .block _, h => False.elim h
  | .blocks _, h => False.elim h
  | .fixed _ _, h => False.elim h
  | .client _ _, h => False.elim h

/-- The first part that is a multipart message ends the run. -/
theorem feedParts_inner {before : List PartCall} : ∀ {k : ℕ}
    {parts : List (ClientReadPart ClientReader)} {written : List (WritePart Writer)},
    (∀ j, k ≤ j → buffersOf j before = []) → MirrorsParts parts written →
    DelimitedParts written → 0 < readDepth parts →
    feedParts heap (before ++ partsCalls k written) k (prepareReadParts parts) = none
  | k, [], written, _, _, _, h => absurd h (lt_irrefl 0)
  | k, part :: parts, [], _, hmirrors, _, _ => False.elim hmirrors
  | k, part :: parts, written :: more, hbefore, hmirrors, hdelimited, h => by
      obtain ⟨hmirror, hmirrors⟩ := hmirrors
      obtain ⟨hdelimit, hdelimited⟩ := hdelimited
      have hown : buffersOf k (before ++ partsCalls k (written :: more))
          = nonempty written.writer.encode ++ [[]] := by
        rw [partsCalls, buffersOf_append, buffersOf_append, hbefore k le_rfl, buffersOf_partCalls,
          if_pos rfl, buffersOf_partsCalls (k + 1) more (Nat.lt_succ_self k), List.nil_append,
          List.append_nil]
      rw [prepareReadParts, feedParts, hown]
      cases hread : part.dataRead with
      | client =>
          rw [readDepth, hread, ClientReader.depth, Nat.zero_max] at h
          have hbefore' : ∀ j, k + 1 ≤ j → buffersOf j (before ++ partCalls k written) = [] := by
            intro j hj
            rw [buffersOf_append, hbefore j (by omega), buffersOf_partCalls, if_neg (by omega),
              List.nil_append]
          have hrest := feedParts_inner hbefore' hmirrors hdelimited h
          rw [List.append_assoc] at hrest
          rw [prepareReadCallbacks, PartReader.feed]
          simp only [Option.bind_eq_bind, Option.bind_some, partsCalls, hrest]
          rfl
      | multipart inner =>
          have hbytes : written.writer.encode ≠ [] := by
            rw [hread] at hmirror
            obtain ⟨arg, hwriter⟩ := hmirror.multipart
            rw [hwriter] at hdelimit ⊢
            exact hdelimit.encode_ne_nil
          have hfed : (nonempty written.writer.encode ++ [[]]).flatten ≠ [] := by
            rw [nonempty, if_pos (List.length_pos_iff.mpr hbytes)]
            simpa using hbytes
          rw [PartReader.feed_unbounded (unbounded_prepareReadCallbacks inner) hfed]
          rfl

/-- Readers that mirror writers are as many. -/
theorem MirrorsParts.length : ∀ {parts : List (ClientReadPart ClientReader)}
    {written : List (WritePart Writer)}, MirrorsParts parts written →
    parts.length = written.length
  | [], [], _ => rfl
  | _ :: _, _ :: _, h => congrArg (· + 1) (MirrorsParts.length h.2)
  | [], _ :: _, h => False.elim h
  | _ :: _, [], h => False.elim h

/-- **Where the outer reader does its work**, an inner message leaves defined behaviour: for
parts with transmittable headers and response callbacks, whose bodies do not contain the
front of a delimiter, handed over whole. -/
theorem nested_undefined (heap : Bytes → ℕ → Byte) {boundary : Bytes} (hcr : cr ∉ boundary)
    {parts : List (ClientReadPart ClientReader)} (hdepth : 0 < readDepth parts)
    (hcallbacks : ∀ part ∈ parts, part.responseCallback = true)
    {written : List (WritePart Writer)} (hmirrors : MirrorsParts parts written)
    (hdelimited : DelimitedParts written) (hparts : ∀ part ∈ written, Decodable boundary part) :
    ((prepareReadCallbacks (.multipart parts)).updateBoundary boundary).feed heap
      [encodeParts (some boundary) written] = none := by
  have hne : written ≠ [] := by
    rintro rfl
    have hlen := hmirrors.length
    rw [List.length_eq_zero_iff.mp hlen] at hdepth
    exact lt_irrefl 0 hdepth
  obtain ⟨arg', hread, -, hcalls⟩ := readMultipart_encodeParts heap hcr hne hparts
  have hsame : parts.map (·.responseCallback) = List.replicate written.length true := by
    rw [← hmirrors.length]
    exact List.eq_replicate_iff.mpr ⟨List.length_map _, by simpa using hcallbacks⟩
  have hall : (prepareReadMultipart boundary (List.replicate written.length true)).readAll heap true
      [encodeParts (some boundary) written] = some arg' := by
    rw [ReadMultipartArg.readAll, ReadMultipartArg.read, if_pos (Or.inl rfl), hread]
    rfl
  have hinner : feedParts heap ([] ++ partsCalls 0 written) 0 (prepareReadParts parts) = none :=
    feedParts_inner (fun _ _ => rfl) hmirrors hdelimited hdepth
  rw [List.nil_append, ← hcalls] at hinner
  have hprepared : (prepareReadCallbacks (.multipart parts)).updateBoundary boundary
      = .multipart (prepareReadMultipart boundary (List.replicate written.length true)) true
          (prepareReadParts parts) := by
    rw [prepareReadCallbacks, hsame]
    rfl
  rw [hprepared, PartReader.feed, hall, Option.bind_eq_bind, Option.bind_some]
  show (feedParts heap arg'.calls 0 (prepareReadParts parts)).bind _ = none
  rw [hinner]
  rfl

/-! ### A message within a message -/

/-- A message of one part, before it is sent. -/
def messageOf (boundary : Bytes) (headers : KeyArray) (writer : Writer) :
    WriteMultipartArg Writer where
  boundary := some boundary
  partIndex := 0
  currentBoundary := some (boundaryText boundary false (some headers))
  currentBoundaryOffset := 0
  currentBoundaryLength := (boundaryText boundary false (some headers)).length
  parts := [⟨headers, writer⟩]

/-- A message whose part is a message. -/
def nestedMessage : WriteMultipartArg Writer :=
  messageOf (bytes "b") [.pair (bytes "Content-Type") (bytes "multipart/mixed; boundary=c")]
    (.multipart (messageOf (bytes "c") [.pair (bytes "A") (bytes "1")]
      (.block (.start (bytes "x")))))

/-- A reader for it. -/
def nestedReader : ClientReader :=
  .multipart [⟨true, .multipart [⟨true, .client⟩]⟩]

/-- The message within a message is not read. -/
theorem nested_unread_nestedMessage :
    2 ≤ nestedReader.depth ∧ (Writer.multipart nestedMessage).HasParts ∧
      ¬ UsesBoundaries (fun _ _ => 0) nestedReader nestedMessage
        [(Writer.multipart nestedMessage).encode] ∧
      ¬ LeavesReceive (fun _ _ => 0) nestedReader nestedMessage
        [(Writer.multipart nestedMessage).encode] := by
  have hparts : (Writer.multipart nestedMessage).HasParts :=
    ⟨List.cons_ne_nil _ _, ⟨List.cons_ne_nil _ _, trivial, trivial⟩, trivial⟩
  exact ⟨by decide, hparts, nested_unread (fun _ _ => 0) (by decide) hparts _⟩

/-- The message within a message makes its reader leave defined behaviour. -/
theorem nestedRun_nestedMessage :
    ¬ ∀ (heap : Bytes → ℕ → Byte) (reader : ClientReader) (written : WriteMultipartArg Writer)
      (chunks : List Bytes), 2 ≤ reader.depth → (Writer.multipart written).Fresh →
      (Writer.multipart written).Delimited → (Writer.multipart written).Headed →
      reader.Mirrors (.multipart written) →
      chunks.flatten = (Writer.multipart written).encode →
      UsesBoundaries heap reader written chunks ∧ LeavesReceive heap reader written chunks := by
  intro h
  have hfresh : (Writer.multipart nestedMessage).Fresh :=
    ⟨⟨rfl, rfl, _, [], rfl, rfl, rfl⟩, ⟨⟨rfl, rfl, _, [], rfl, rfl, rfl⟩, rfl, trivial⟩, trivial⟩
  have hdelimited : (Writer.multipart nestedMessage).Delimited :=
    ⟨rfl, List.cons_ne_nil _ _, ⟨rfl, List.cons_ne_nil _ _, trivial, trivial⟩, trivial⟩
  have hheaded : (Writer.multipart nestedMessage).Headed :=
    ⟨List.cons_ne_nil _ _, ⟨List.cons_ne_nil _ _, trivial, trivial⟩, trivial⟩
  obtain ⟨⟨last, hrun, -⟩, -⟩ := h (fun _ _ => 0) nestedReader nestedMessage
    [(Writer.multipart nestedMessage).encode] (by decide) hfresh hdelimited hheaded
    ⟨⟨trivial, trivial⟩, trivial⟩ (by decide +kernel)
  have hnone : (nestedRun (fun _ _ => 0) nestedReader nestedMessage
      [(Writer.multipart nestedMessage).encode]).isNone = true := by
    decide +kernel
  rw [hrun] at hnone
  exact absurd hnone (by simp)

end DsiRest
