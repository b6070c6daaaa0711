import DsiRest.MultipartChunks
import DsiRest.MultipartRoundTrip
import DsiRest.ReadJson

/-!
# Values in a Multipart Message

A client gives the parts of a multipart body as blocks, forms and JSON values; another one reads the
parts with callbacks of its own, such as `globus_dsi_rest_read_json`. What the first one gave is
what the second one gets: the preparation turns each part into a byte string, the writer sends them
in an exchange, the reader hands each of them to the callback of its part, in pieces, followed by
the end of the part, and the callback puts the pieces together.

## Main results

* `received_partsCalls` — what the callback of each part of a message receives.
* `jsonPart_received` — what `globus_dsi_rest_read_json` makes of a part.
* `multipart_values` — blocks, forms and JSON values travel in one message.
-/

namespace DsiRest

/-! ### What is prepared -/

/-- Each part is prepared on its own. -/
theorem prepareParts_getElem {uuid : ℕ → Bytes} {parts : List (ClientPart ClientWriter)} :
    ∀ {drawn k i : ℕ} {prepared : List (WritePart Writer)} {given : ClientPart ClientWriter},
      prepareParts uuid parts drawn = .ok (prepared, k) → parts[i]? = some given →
      ∃ part before after, prepared[i]? = some part ∧
        prepareWriteCallbacks uuid given.partHeader given.dataWrite before = .ok (part, after) := by
  induction parts with
  | nil =>
      intro _ _ i _ _ _ hi
      cases hi
  | cons first parts ih =>
      intro drawn k i prepared given h hi
      simp only [prepareParts, bind, Except.bind, pure, Except.pure] at h
      split at h
      · cases h
      rename_i one hone
      split at h
      · cases h
      rename_i more hmore
      cases h
      cases i with
      | zero =>
          obtain rfl := Option.some.inj hi
          exact ⟨_, _, _, rfl, hone⟩
      | succ i =>
          obtain ⟨part, before, after, hpart, hprepared⟩ := ih hmore hi
          exact ⟨part, before, after, hpart, hprepared⟩

/-- What the preparation of a multipart body prepares. -/
theorem prepareWriteCallbacks_multipart {uuid : ℕ → Bytes} {headers : KeyArray}
    {parts : List (ClientPart ClientWriter)} {drawn k : ℕ} {part : WritePart Writer}
    {arg : WriteMultipartArg Writer}
    (h : prepareWriteCallbacks uuid headers (.multipart parts) drawn = .ok (part, k))
    (hwriter : part.writer = .multipart arg) :
    ∃ before after, prepareParts uuid parts before = .ok (arg.parts, after) := by
  simp only [prepareWriteCallbacks, bind, Except.bind, pure, Except.pure] at h
  split at h
  · cases h
  split at h
  · cases h
  rename_i prepared hparts
  split at h
  · cases h
  rename_i first hfirst
  cases h
  obtain rfl := Writer.multipart.inj hwriter
  obtain ⟨-, hsame, -⟩ := firstBoundary_start hfirst
  rw [hsame]
  exact ⟨_, _, hparts⟩

/-! ### What is received -/

/-- What the data read callback of a part receives in some calls. -/
def receivedOf (k : ℕ) (calls : List PartCall) : List Delivery :=
  (deliveries calls).filterMap fun delivery => if delivery.1 = k then some delivery.2 else none

/-- A body, and its end. -/
def bodyDeliveries (body : Bytes) : List Delivery :=
  body.map some ++ [none]

theorem receivedOf_append (k : ℕ) (first later : List PartCall) :
    receivedOf k (first ++ later) = receivedOf k first ++ receivedOf k later := by
  rw [receivedOf, deliveries_append, List.filterMap_append]
  rfl

/-- What the callback of a part receives of the calls for one part. -/
theorem receivedOf_partCalls (k j : ℕ) (part : WritePart Writer) :
    receivedOf k (partCalls j part)
      = if j = k then bodyDeliveries part.writer.encode else [] := by
  have hdeliveries : deliveries (partCalls j part)
      = (bodyDeliveries part.writer.encode).map fun delivery => (j, delivery) := by
    rw [partCalls, deliveries_append, deliveries_response, List.nil_append, dataCalls_some,
      List.map_append, deliveries_append, deliveries_nonempty, bodyDeliveries, List.map_append,
      List.map_map]
    rfl
  rw [receivedOf, hdeliveries, List.filterMap_map]
  split_ifs with hsame
  · subst hsame
    simp
  · simp [hsame]

/-- Later parts are no concern of a callback. -/
theorem receivedOf_later (parts : List (WritePart Writer)) :
    ∀ {j k : ℕ}, k < j → receivedOf k (partsCalls j parts) = [] := by
  induction parts with
  | nil => exact fun _ => rfl
  | cons part parts ih =>
      intro j k hlt
      rw [partsCalls, receivedOf_append, receivedOf_partCalls, if_neg (by omega), ih (by omega)]
      rfl

/-- **What the callback of each part receives**: the body, and its end. -/
theorem received_partsCalls {parts : List (WritePart Writer)} :
    ∀ {j i : ℕ} {part : WritePart Writer}, parts[i]? = some part →
      receivedOf (j + i) (partsCalls j parts) = bodyDeliveries part.writer.encode := by
  induction parts with
  | nil =>
      intro j i part hi
      simp at hi
  | cons first parts ih =>
      intro j i part hi
      rw [partsCalls, receivedOf_append, receivedOf_partCalls]
      cases i with
      | zero =>
          obtain rfl := Option.some.inj hi
          have hlater : receivedOf (j + 0) (partsCalls (j + 1) parts) = [] :=
            receivedOf_later parts (Nat.lt_succ_self j)
          rw [if_pos (Nat.add_zero j).symm, hlater, List.append_nil]
      | succ i =>
          rw [if_neg (by omega), List.nil_append, show j + (i + 1) = j + 1 + i by omega]
          exact ih (by simpa using hi)

/-- The front of a body. -/
theorem bodyDeliveries_front {buffer body : Bytes} {later : List Delivery}
    (h : buffer.map some ++ later = bodyDeliveries body) :
    ∃ more, body = buffer ++ more ∧ later = bodyDeliveries more := by
  induction buffer generalizing body with
  | nil => exact ⟨body, rfl, h⟩
  | cons b buffer ih =>
      cases body with
      | nil => exact absurd (List.cons.inj h).1 (by simp)
      | cons c body =>
          obtain ⟨hfirst, hrest⟩ := List.cons.inj h
          obtain ⟨more, rfl, hlater⟩ := ih hrest
          exact ⟨more, by rw [Option.some.inj hfirst]; rfl, hlater⟩

/-! ### Reading a part as JSON -/

variable {J : Type}

/-- The calls of the callback of a part, if it is `globus_dsi_rest_read_json` and finds memory. The
multipart reader drops its results. -/
def jsonPart (loads : Bytes → Option J) (k : ℕ) :
    ReadJsonArg J → List PartCall → Option (ReadJsonArg J)
  | arg, [] => some arg
  | arg, .data j buffer :: calls =>
    if j = k then do
      let (_, arg) ← readJson loads arg true buffer
      jsonPart loads k arg calls
    else jsonPart loads k arg calls
  | arg, .response _ _ :: calls => jsonPart loads k arg calls

/-- The deliveries of a call. -/
theorem receivedOf_data (k : ℕ) (buffer : Bytes) (calls : List PartCall) :
    receivedOf k (.data k buffer :: calls)
      = (if buffer = [] then [none] else buffer.map some) ++ receivedOf k calls := by
  rw [← List.singleton_append, receivedOf_append]
  congr 1
  rw [receivedOf, deliveries, List.flatMap_singleton, PartCall.deliveries]
  split_ifs with hnil
  · simp
  · rw [List.filterMap_map]
    simp

/-- A call for another part, or of a response callback. -/
theorem receivedOf_other {k : ℕ} {call : PartCall} (h : ∀ buffer, call ≠ .data k buffer)
    (calls : List PartCall) : receivedOf k (call :: calls) = receivedOf k calls := by
  rw [← List.singleton_append, receivedOf_append]
  cases call with
  | response j headers => rfl
  | data j buffer =>
      have hother : j ≠ k := fun hsame => h buffer (by rw [hsame])
      have hnone : receivedOf k [.data j buffer] = [] := by
        rw [receivedOf, deliveries, List.flatMap_singleton, PartCall.deliveries]
        split_ifs with hnil
        · simp [hother]
        · simp [hother]
      rw [hnone, List.nil_append]

/-- Calls of other callbacks. -/
theorem jsonPart_of_received_nil {loads : Bytes → Option J} {k : ℕ} {calls : List PartCall}
    (arg : ReadJsonArg J) :
    receivedOf k calls = [] → jsonPart loads k arg calls = some arg := by
  induction calls with
  | nil => exact fun _ => rfl
  | cons call calls ih =>
      intro h
      cases call with
      | response j headers =>
          rw [receivedOf_other (fun _ => PartCall.noConfusion)] at h
          exact ih h
      | data j buffer =>
          by_cases hsame : j = k
          · subst hsame
            rw [receivedOf_data] at h
            split_ifs at h with hnil
            · cases h
            · exact absurd (List.map_eq_nil_iff.mp (List.append_eq_nil_iff.mp h).1) hnil
          · rw [receivedOf_other fun _ he => hsame (PartCall.data.inj he).1] at h
            rw [jsonPart, if_neg hsame]
            exact ih h

/-- **A part with JSON**: the text is put together from the pieces and parsed at its end. -/
theorem jsonPart_received {loads : Bytes → Option J} {k : ℕ} {calls : List PartCall} :
    ∀ {arg : ReadJsonArg J} {before body : Bytes}, arg.Keeps before →
      receivedOf k calls = bodyDeliveries body → before.length + body.length + 1 < word →
      ∃ last, jsonPart loads k arg calls = some last ∧
        last.jsonOut = bodyJson loads (before ++ body) := by
  induction calls with
  | nil =>
      intro arg before body _ h _
      exact absurd h.symm (by simp [bodyDeliveries, receivedOf, deliveries])
  | cons call calls ih =>
      intro arg before body hkeeps h hsize
      cases call with
      | response j headers =>
          rw [receivedOf_other (fun _ => PartCall.noConfusion)] at h
          exact ih hkeeps h hsize
      | data j buffer =>
          by_cases hsame : j = k
          · subst hsame
            rw [receivedOf_data] at h
            rw [jsonPart, if_pos rfl]
            split_ifs at h with hnil
            · -- the end of the part, behind all of its body
              subst hnil
              obtain ⟨rfl, hrest⟩ : body = [] ∧ receivedOf j calls = [] := by
                cases body with
                | nil => exact ⟨rfl, (List.cons.inj h).2⟩
                | cons b body => exact absurd (List.cons.inj h).1 (by simp)
              obtain ⟨result, hread, -, -⟩ := hkeeps.finish loads true
              rw [hread, Option.bind_eq_bind, Option.bind_some]
              exact ⟨_, jsonPart_of_received_nil _ hrest, by rw [List.append_nil]⟩
            · obtain ⟨more, rfl, hrest⟩ : ∃ more, body = buffer ++ more ∧
                  receivedOf j calls = bodyDeliveries more :=
                bodyDeliveries_front h
              rw [List.length_append] at hsize
              obtain ⟨next, hread, hnext, -⟩ := hkeeps.read loads hnil (by omega)
              rw [hread, Option.bind_eq_bind, Option.bind_some, ← List.append_assoc]
              exact ih hnext hrest (by rw [List.length_append]; omega)
          · rw [receivedOf_other fun _ he => hsame (PartCall.data.inj he).1] at h
            rw [jsonPart, if_neg hsame]
            exact ih hkeeps h hsize

/-! ### Messages in pieces -/

/-- A part is no longer than the message. -/
theorem length_encode_le (boundary : Option Bytes) {parts : List (WritePart Writer)} :
    ∀ {i : ℕ} {part : WritePart Writer}, parts[i]? = some part →
      part.writer.encode.length ≤ (encodeParts boundary parts).length := by
  induction parts with
  | nil =>
      intro i part hi
      cases hi
  | cons first parts ih =>
      intro i part hi
      rw [encodeParts, List.length_append, List.length_append]
      cases i with
      | zero =>
          obtain rfl := Option.some.inj hi
          omega
      | succ i =>
          have hlater := ih (show parts[i]? = some part from hi)
          omega

section Cuts

variable (heap : Bytes → ℕ → Byte) {boundary : Bytes} {parts : List (WritePart Writer)}

/-- A message may be read in one piece. -/
theorem readable_encodeParts (hcr : cr ∉ boundary) (hne : parts ≠ [])
    (hparts : ∀ part ∈ parts, Decodable boundary part) :
    Place.start.ChunksReadable boundary (List.replicate parts.length true) heap
        [encodeParts (some boundary) parts] ∧
      Place.start.NoStray boundary (List.replicate parts.length true)
        [encodeParts (some boundary) parts] := by
  obtain ⟨arg, hread, -, -⟩ := readMultipart_encodeParts heap hcr hne hparts
  refine ⟨?_, fun _ => ⟨rfl, ?_⟩, trivial⟩
  · by_contra hbad
    have hnone := Standing.prepare.feedChunks_none
      (fun _ hc => .inr ⟨rfl, by rw [List.mem_singleton.mp hc]⟩) hbad
    rw [ReadMultipartArg.feedChunks, hread] at hnone
    cases hnone
  · rw [Place.read_earlier _ rfl]
    rfl

/-- **A message that is read in pieces**: every part receives its body, and its end. -/
theorem received_encodeParts (hcr : cr ∉ boundary) (hne : parts ≠ [])
    (hparts : ∀ part ∈ parts, Decodable boundary part) {chunks : List Bytes}
    (hall : chunks.flatten = encodeParts (some boundary) parts)
    (hreadable : Place.start.ChunksReadable boundary (List.replicate parts.length true) heap
      chunks)
    (hstray : Place.start.NoStray boundary (List.replicate parts.length true) chunks) :
    ∃ got, (prepareReadMultipart boundary (List.replicate parts.length true)).feedChunks heap
        chunks = some got ∧
      ∀ {i part}, parts[i]? = some part →
        receivedOf i got.calls = bodyDeliveries part.writer.encode := by
  obtain ⟨whole, hread, -, hcalls⟩ := readMultipart_encodeParts heap hcr hne hparts
  obtain ⟨hone, -⟩ := readable_encodeParts heap hcr hne hparts
  obtain ⟨again, hagain, hdeliveries⟩ := Standing.prepare.feedChunks_some hone
  rw [ReadMultipartArg.feedChunks, hread] at hagain
  obtain rfl : whole = again := Option.some.inj hagain
  obtain ⟨got, hfeed, hpieces⟩ := Standing.prepare.feedChunks_some hreadable
  rw [Place.outChunks_eq rfl rfl hreadable hstray, hall, ← hdeliveries, hcalls] at hpieces
  refine ⟨got, hfeed, fun {i part} hi => ?_⟩
  have hreceived := received_partsCalls (j := 0) hi
  rw [Nat.zero_add, receivedOf, ← hpieces] at hreceived
  exact hreceived

end Cuts

/-! ### Values that travel -/

/-- What the recipient of a part makes of it: of a block its data, of a form the fields, of JSON the
value. -/
def Recovered (dumps : J → Option Bytes) (loads : Bytes → Option J) (calls : List PartCall)
    (i : ℕ) (given : ClientWriter) : Prop :=
  (∀ data, given = .block data → receivedOf i calls = bodyDeliveries data) ∧
  (∀ fields : List (Bytes × Bytes),
    given = .form (fields.map fun field => .pair field.1 field.2) →
      ∃ body, receivedOf i calls = bodyDeliveries body ∧ decodeFormData body = fields) ∧
  ∀ json, given = .json (dumps json) → ∀ jsonOut, ∃ last,
    jsonPart loads i (prepareReadJson jsonOut) calls = some last ∧ last.jsonOut = some json

/-- A prepared part whose body arrives. -/
theorem Recovered.of_received {dumps : J → Option Bytes} {loads : Bytes → Option J}
    (hjson : ∀ json text, dumps json = some text → loads text = some json)
    (hempty : loads [] = none) {uuid : ℕ → Bytes} {headers : KeyArray} {given : ClientWriter}
    {drawn k i : ℕ} {part : WritePart Writer}
    (hprep : prepareWriteCallbacks uuid headers given drawn = .ok (part, k))
    {calls : List PartCall} (hreceived : receivedOf i calls = bodyDeliveries part.writer.encode)
    (hsize : part.writer.encode.length + 1 < word) : Recovered dumps loads calls i given := by
  refine ⟨?_, ?_, ?_⟩
  · rintro data rfl
    rw [prepareWriteCallbacks] at hprep
    obtain ⟨rfl, -⟩ := Prod.mk.inj (Except.ok.inj hprep)
    exact hreceived
  · rintro fields rfl
    obtain ⟨-, hencode, -⟩ := prepareWriteCallbacks_form hprep
    refine ⟨_, hreceived, ?_⟩
    rw [hencode]
    exact formCode.decodeFields_encodeFields fields
  · rintro json rfl jsonOut
    cases hdumps : dumps json with
    | none =>
        rw [hdumps, prepareWriteCallbacks] at hprep
        cases hprep
    | some text =>
        rw [hdumps, prepareWriteCallbacks] at hprep
        obtain ⟨rfl, -⟩ := Prod.mk.inj (Except.ok.inj hprep)
        have hlength : ([] : Bytes).length + text.length + 1 < word := by
          rw [List.length_nil, Nat.zero_add]
          exact hsize
        obtain ⟨last, hlast, hout⟩ : ∃ last,
            jsonPart loads i (prepareReadJson jsonOut) calls = some last ∧
            last.jsonOut = bodyJson loads ([] ++ text) :=
          jsonPart_received (.prepare jsonOut) hreceived hlength
        have htext := hjson json text hdumps
        have hne : text ≠ [] := by
          rintro rfl
          rw [hempty] at htext
          cases htext
        refine ⟨last, hlast, hout.trans ?_⟩
        rw [List.nil_append]
        exact (if_neg hne).trans htext

/-- The parts of a message whose bodies arrive. -/
theorem recovered_parts {dumps : J → Option Bytes} {loads : Bytes → Option J}
    (hjson : ∀ json text, dumps json = some text → loads text = some json)
    (hempty : loads [] = none) {uuid : ℕ → Bytes} {headers : KeyArray}
    {parts : List (ClientPart ClientWriter)} {drawn k : ℕ} {part : WritePart Writer}
    {arg : WriteMultipartArg Writer}
    (hprep : prepareWriteCallbacks uuid headers (.multipart parts) drawn = .ok (part, k))
    (hwriter : part.writer = .multipart arg)
    (hsize : (encodeParts arg.boundary arg.parts).length + 1 < word) {calls : List PartCall}
    (hreceived : ∀ {i one}, arg.parts[i]? = some one →
      receivedOf i calls = bodyDeliveries one.writer.encode) :
    ∀ i given, parts[i]? = some given → Recovered dumps loads calls i given.dataWrite := by
  intro i given hi
  obtain ⟨before, after, hprepared⟩ := prepareWriteCallbacks_multipart hprep hwriter
  obtain ⟨one, first, next, hone, hpart⟩ := prepareParts_getElem hprepared hi
  have hlength := length_encode_le arg.boundary hone
  exact .of_received hjson hempty hpart (hreceived hone) (by omega)

/-- **What is sent of a message** in an exchange that completes without a failure, once libcurl is
told its end. -/
theorem sent_message {ρ α : Type} {reader : DataReader ρ α} {uuid : ℕ → Bytes}
    {headers : KeyArray} {parts : List (ClientPart ClientWriter)} {drawn k : ℕ}
    {part : WritePart Writer} {arg : WriteMultipartArg Writer} {x last : Exchange ρ Writer}
    {actions : List (ExchangeAction α ℕ)} {rc : ℕ} {choice : α}
    (hprep : prepareWriteCallbacks uuid headers (.multipart parts) drawn = .ok (part, k))
    (hwriter : part.writer = .multipart arg) (hdelimited : part.writer.Delimited)
    (hx : x.writer = part.writer) (hkind : x.request.SinglePart)
    (hpos : ∀ e ∈ (Client.mk reader treeWriter).asked x actions, 0 < e.size)
    (hend : ∃ e ∈ (Client.mk reader treeWriter).asked x actions, e.out = [])
    (hsent : (Client.mk reader treeWriter).perform x actions rc choice = some (.success, last)) :
    arg.parts ≠ [] ∧ sentBody ((Client.mk reader treeWriter).asked x actions)
      = encodeParts arg.boundary arg.parts := by
  obtain ⟨-, -, hfollows⟩ := Client.perform_success hkind hsent
  have hrun := hfollows.writer
  rw [hx] at hrun
  obtain ⟨-, -, -, hnil, -⟩ := treeWriter_sent
    (prepareWriteCallbacks_fresh uuid _ _ _ _ _ hprep) hdelimited hpos hrun
  have hsame := hnil hend
  rw [hwriter] at hdelimited hsame
  exact ⟨hdelimited.2.1, hsame⟩

/-- **Blocks, forms and JSON values travel in one message.** One request sends them as the parts of
a multipart body, completes without a failure, and libcurl is told the end of its body; no part has
the delimiter in it. The recipient gets what was sent, in pieces that end where the multipart reader
can go on. It comes back with every piece, and the callback of each part gets what the client gave
for that part. -/
theorem multipart_values {ρ α : Type} {dumps : J → Option Bytes} {loads : Bytes → Option J}
    (hjson : ∀ json text, dumps json = some text → loads text = some json)
    (hempty : loads [] = none) {reader : DataReader ρ α} {uuid : ℕ → Bytes} {headers : KeyArray}
    {parts : List (ClientPart ClientWriter)} {drawn k : ℕ} {part : WritePart Writer}
    {arg : WriteMultipartArg Writer} {boundary : Bytes} {x last : Exchange ρ Writer}
    {actions : List (ExchangeAction α ℕ)} {rc : ℕ} {choice : α}
    (hprep : prepareWriteCallbacks uuid headers (.multipart parts) drawn = .ok (part, k))
    (hwriter : part.writer = .multipart arg) (hboundary : arg.boundary = some boundary)
    (hcr : cr ∉ boundary) (hdelimited : part.writer.Delimited)
    (hparts : ∀ part ∈ arg.parts, Decodable boundary part) (hx : x.writer = part.writer)
    (hkind : x.request.SinglePart)
    (hpos : ∀ e ∈ (Client.mk reader treeWriter).asked x actions, 0 < e.size)
    (hend : ∃ e ∈ (Client.mk reader treeWriter).asked x actions, e.out = [])
    (hsent : (Client.mk reader treeWriter).perform x actions rc choice = some (.success, last))
    {heap : Bytes → ℕ → Byte} {chunks : List Bytes}
    (hall : chunks.flatten = sentBody ((Client.mk reader treeWriter).asked x actions))
    (hsize : chunks.flatten.length + 1 < word)
    (hreadable : Place.start.ChunksReadable boundary (List.replicate arg.parts.length true) heap
      chunks)
    (hstray : Place.start.NoStray boundary (List.replicate arg.parts.length true) chunks) :
    ∃ got, (prepareReadMultipart boundary (List.replicate arg.parts.length true)).feedChunks heap
        chunks = some got ∧
      ∀ i given, parts[i]? = some given →
        Recovered dumps loads got.calls i given.dataWrite := by
  obtain ⟨hne, hmessage⟩ := sent_message hprep hwriter hdelimited hx hkind hpos hend hsent
  rw [hmessage] at hall
  rw [hall] at hsize
  rw [hboundary] at hall
  obtain ⟨got, hfeed, hreceived⟩ :=
    received_encodeParts heap hcr hne hparts hall hreadable hstray
  exact ⟨got, hfeed, recovered_parts hjson hempty hprep hwriter hsize hreceived⟩

/-- A multipart body with a JSON value and a form. -/
def twoValues : List (ClientPart ClientWriter) :=
  [⟨[], .json (some (bytes "[]"))⟩, ⟨[], .form [.pair (bytes "k") (bytes "v")]⟩]

/-- The header of the JSON value. -/
def jsonHeader : KeyValue :=
  .pair (bytes "Content-Type") (bytes "application/json; charset=UTF-8")

/-- The header of the form. -/
def formHeader : KeyValue :=
  .pair (bytes "Content-Type") (bytes "application/x-www-form-urlencoded")

/-- The delimiter in front of the JSON value. -/
def twoValuesHead : Bytes :=
  boundaryText (bytes "globus_") false (some [jsonHeader])

/-- What the body is prepared to, with a UUID without text. -/
def twoValuesArg : WriteMultipartArg Writer :=
  ⟨some (bytes "globus_"), 0, some twoValuesHead, 0, twoValuesHead.length,
    [⟨[jsonHeader], .block (.start (bytes "[]"))⟩, ⟨[formHeader], .block (.start (bytes "k=v"))⟩]⟩

/-- An exchange that sends it. -/
def twoValuesExchange : Exchange Unit Writer :=
  ⟨postRequest, (), .multipart twoValuesArg⟩

/-- Two calls with a large buffer. -/
def twoReads : List (ExchangeAction Unit ℕ) :=
  [.readData 9 [] 1 400, .readData 9 [] 1 400]

theorem twoValues_prepared : prepareWriteCallbacks (fun _ => []) [] (.multipart twoValues) 0
    = .ok (⟨[.pair (bytes "Content-Type") (bytes "multipart/related; boundary=globus_")],
      .multipart twoValuesArg⟩, 1) := by
  rfl

theorem twoValues_sent :
    ((Client.mk noReader treeWriter).perform twoValuesExchange twoReads 0 ()).map Prod.fst
      = some .success := by
  decide +kernel

theorem twoValues_asked :
    ((Client.mk noReader treeWriter).asked twoValuesExchange twoReads).map
        (fun e => (e.size, e.out))
      = [(400, encodeParts (some (bytes "globus_")) twoValuesArg.parts), (400, [])] := by
  decide +kernel

/-- A content type survives transmission. -/
theorem transmittable_contentType {value : Bytes} (hne : value ≠ []) (hcr : cr ∉ value)
    (hnul : 0 ∉ value) (hstart : ∀ b ∈ value.head?, isHeaderSpace b = false) :
    (KeyValue.pair (bytes "Content-Type") value).Transmittable := by
  refine .pair (by decide) (by decide) (by decide) (by decide) (fun b hb => ?_) hne hcr hnul hstart
  obtain rfl : 67 = b := Option.some.inj hb
  decide

/-- Both parts can be told apart. -/
theorem twoValues_decodable : ∀ part ∈ twoValuesArg.parts, Decodable (bytes "globus_") part := by
  intro part hpart
  rcases List.mem_cons.mp hpart with rfl | hpart
  · refine ⟨List.cons_ne_nil _ _, fun kv hkv => ?_, by decide⟩
    obtain rfl := List.mem_singleton.mp hkv
    refine transmittable_contentType (by decide) (by decide) (by decide) fun b hb => ?_
    obtain rfl : 97 = b := Option.some.inj hb
    decide
  · obtain rfl := List.mem_singleton.mp hpart
    refine ⟨List.cons_ne_nil _ _, fun kv hkv => ?_, by decide⟩
    obtain rfl := List.mem_singleton.mp hkv
    refine transmittable_contentType (by decide) (by decide) (by decide) fun b hb => ?_
    obtain rfl : 97 = b := Option.some.inj hb
    decide

/-- The two calls send the whole message, and its end. -/
theorem twoValues_calls :
    let asked := (Client.mk noReader treeWriter).asked twoValuesExchange twoReads
    (∀ e ∈ asked, 0 < e.size) ∧ (∃ e ∈ asked, e.out = []) ∧
      sentBody asked = encodeParts (some (bytes "globus_")) twoValuesArg.parts := by
  intro asked
  have hsizes : asked.map WriterEvent.size = [400, 400] := by
    have h := congrArg (List.map Prod.fst) twoValues_asked
    rwa [List.map_map] at h
  have houts : asked.map WriterEvent.out
      = [encodeParts (some (bytes "globus_")) twoValuesArg.parts, []] := by
    have h := congrArg (List.map Prod.snd) twoValues_asked
    rwa [List.map_map] at h
  refine ⟨fun e he => ?_, ?_, ?_⟩
  · have hmem := List.mem_map_of_mem (f := WriterEvent.size) he
    rw [hsizes] at hmem
    rcases List.mem_cons.mp hmem with h | h
    · omega
    · rw [List.mem_singleton.mp h]
      decide
  · have hmem : ([] : Bytes) ∈ asked.map WriterEvent.out := by
      rw [houts]
      exact List.mem_cons_of_mem _ List.mem_cons_self
    exact List.mem_map.mp hmem
  · rw [sentBody_eq, houts]
    exact List.append_nil _

/-- The exchange serves a single part. -/
theorem twoValues_singlePart : twoValuesExchange.request.SinglePart := by
  intro arg harg
  cases harg

/-- A parser of empty arrays. -/
def loadsArray (text : Bytes) : Option Unit :=
  if text = bytes "[]" then some () else none

theorem loadsArray_dumps (json : Unit) (text : Bytes) (h : some (bytes "[]") = some text) :
    loadsArray text = some json := by
  obtain rfl := Option.some.inj h
  rfl

/-- The case of a JSON value and a form, received in one piece. -/
theorem multipart_values_jsonAndForm :
    let asked := (Client.mk noReader treeWriter).asked twoValuesExchange twoReads
    ∃ got, (prepareReadMultipart (bytes "globus_") [true, true]).feedChunks (fun _ _ => 0)
        [sentBody asked] = some got ∧
      (∃ last, jsonPart loadsArray 0 (prepareReadJson none) got.calls = some last ∧
        last.jsonOut = some ()) ∧
      ∃ body, receivedOf 1 got.calls = bodyDeliveries body ∧
        decodeFormData body = [(bytes "k", bytes "v")] := by
  intro asked
  obtain ⟨hpos, hend, hbody⟩ := twoValues_calls
  obtain ⟨⟨result, last⟩, hsent, hresult⟩ := Option.map_eq_some_iff.mp twoValues_sent
  obtain rfl : result = .success := hresult
  have hne : twoValuesArg.parts ≠ [] := List.cons_ne_nil _ _
  obtain ⟨hreadable, hstray⟩ :=
    readable_encodeParts (fun _ _ => 0) (by decide) hne twoValues_decodable
  rw [← hbody] at hreadable hstray
  have hsize : [sentBody asked].flatten.length + 1 < word := by
    rw [List.flatten_singleton, hbody]
    decide +kernel
  obtain ⟨got, hfeed, hall⟩ := multipart_values loadsArray_dumps rfl twoValues_prepared rfl rfl
    (by decide) ⟨rfl, hne, trivial, trivial, trivial⟩ twoValues_decodable rfl twoValues_singlePart
    hpos hend hsent List.flatten_singleton hsize hreadable hstray
  refine ⟨got, hfeed, ?_, ?_⟩
  · exact (hall 0 ⟨[], .json (some (bytes "[]"))⟩ rfl).2.2 () rfl none
  · exact (hall 1 ⟨[], .form [.pair (bytes "k") (bytes "v")]⟩ rfl).2.1
      [(bytes "k", bytes "v")] rfl

end DsiRest
