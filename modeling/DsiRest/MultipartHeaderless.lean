import DsiRest.MultipartEnds
import DsiRest.MultipartRoundTrip

/-!
# Parts without Headers

The writer may be given parts without headers, whose delimiter line is followed by an empty
line. The reader consumes the line end of a delimiter with the delimiter and then looks for
two line ends in a row, so it takes the empty line behind such a delimiter for the front of
a header block that ends later on: it is late. From there on it stays late. A section of
the message is as long as the reader thinks it is only if it starts in time, and a header
block that is read from its middle is not parsed into the headers of its part. The message
ends before the reader has seen the end of its last part.

## Main results

* `parseHeaderLines_drop` — what remains of a header block is not parsed into its headers.
* `readMultipart_headers_iff` — the parts come back if and only if each has a header.
-/

namespace DsiRest

/-! ### The rest of a header block -/

/-- A line without a carriage return in front of a header block. -/
theorem parseHeaderLines_line {text : Bytes} (htext : cr ∉ text) {kvs : KeyArray}
    (hkvs : ∀ kv ∈ kvs, kv.Transmittable) (result : Result)
    (headers : HeaderList) {result' : Result} {headers' : HeaderList}
    (h : parseHeaderLines [] (text ++ crlf ++ (kvs.flatMap headerLine ++ crlf)) result headers
      = some (result', headers')) :
    ∃ result₁ headers₁, headerParse headers
          (text ++ crlf ++ (kvs.flatMap headerLine ++ crlf)) text.length
        = some (result₁, headers₁) ∧ headers'.entries = headers₁.entries ++ kvs := by
  rw [parseHeaderLines_ended htext (head?_headerBlock hkvs)] at h
  obtain ⟨⟨result₁, headers₁⟩, hparse, hrest⟩ := Option.bind_eq_some_iff.mp h
  obtain ⟨headers₂, hblock, hentries⟩ := parseHeaderLines_flatMap hkvs result₁ headers₁
  simp only at hrest
  rw [hblock] at hrest
  obtain ⟨-, rfl⟩ := Prod.mk.inj (Option.some.inj hrest)
  exact ⟨result₁, headers₁, hparse, hentries⟩

/-- The text of a transmittable header line. -/
theorem KeyValue.Transmittable.headerLine_eq {kv : KeyValue} (h : kv.Transmittable) :
    ∃ key value, kv = .pair key value ∧ key ≠ [] ∧ colon ∉ key ∧
      DsiRest.headerLine kv = key ++ bytes ": " ++ value ++ crlf ∧
      cr ∉ key ++ bytes ": " ++ value := by
  cases h with
  | @pair key value keyNonempty keyColon keyCr _ _ _ valueCr _ _ =>
      refine ⟨key, value, rfl, keyNonempty, keyColon, rfl, ?_⟩
      simp only [List.mem_append, not_or]
      exact ⟨⟨keyCr, by decide⟩, valueCr⟩

/-- A line feed left over from a line end is part of the line that follows it. -/
theorem length_parseHeaderLines_lf {kvs : KeyArray} (hkvs : ∀ kv ∈ kvs, kv.Transmittable)
    (hne : kvs ≠ []) {result result' : Result} {headers headers' : HeaderList}
    (h : parseHeaderLines [] (lf :: (kvs.flatMap headerLine ++ crlf)) result headers
      = some (result', headers')) :
    headers'.entries.length ≤ headers.entries.length + kvs.length := by
  obtain ⟨kv, later, rfl⟩ := List.exists_cons_of_ne_nil hne
  obtain ⟨hkv, hlater⟩ := List.forall_mem_cons.mp hkvs
  obtain ⟨key, value, -, -, -, hline, hcr⟩ := hkv.headerLine_eq
  have hsplit : lf :: ((kv :: later).flatMap headerLine ++ crlf)
      = lf :: (key ++ bytes ": " ++ value) ++ crlf ++ (later.flatMap headerLine ++ crlf) := by
    rw [List.flatMap_cons, hline]
    simp
  have hcr' : cr ∉ lf :: (key ++ bytes ": " ++ value) := by
    rw [List.mem_cons, not_or]
    exact ⟨by decide, hcr⟩
  rw [hsplit] at h
  obtain ⟨result₁, headers₁, hparse, hentries⟩ := parseHeaderLines_line hcr' hlater _ _ h
  rw [List.append_assoc] at hparse
  rw [hentries, List.length_append, List.length_cons]
  rcases headerParse_inv hparse with hsame | ⟨_, _, _, -, -, hmore⟩
  · rw [hsame]
    omega
  · rw [hmore, List.length_append, List.length_singleton]
    omega

/-- A header line read from its middle is not parsed into its header. -/
theorem headerParse_drop {key value : Bytes} (hne : key ≠ []) (hcolon : colon ∉ key) {d : ℕ}
    (hd : 0 < d) {after : Bytes} {result : Result} {headers headers' : HeaderList}
    (h : headerParse headers ((key ++ bytes ": " ++ value).drop d ++ after)
      ((key ++ bytes ": " ++ value).drop d).length = some (result, headers')) :
    headers'.entries ≠ headers.entries ++ [.pair key value] := by
  intro heq
  rcases headerParse_inv h with hsame | ⟨key', blank, value', hline, hkey', hmore⟩
  · rw [hsame] at heq
    simpa using congrArg List.length heq
  · rw [hmore] at heq
    have hpair := List.append_cancel_left heq
    simp only [List.cons.injEq, KeyValue.mk.injEq, Option.some.injEq, and_true] at hpair
    obtain ⟨hname, hvalue⟩ := hpair
    have hnameLength : key.length ≤ key'.length := by
      rw [← hname]
      exact length_cstr_le key'
    have hvalueLength : value.length ≤ value'.length := by
      rw [← hvalue]
      exact ((List.takeWhile_sublist _).trans (List.takeWhile_sublist _)).length_le
    have hpos := List.length_pos_iff.mpr hne
    have hlength := congrArg List.length hline
    simp only [List.length_drop, List.length_append, List.length_cons,
      show (bytes ": ").length = 2 from rfl] at hlength
    -- the colon behind the name is in the rest of the line
    have hdrop : (key ++ bytes ": " ++ value).drop d = key.drop d ++ colon :: (space :: value) := by
      rw [List.append_assoc, List.drop_append_of_le_length (by omega)]
      rfl
    rw [hdrop] at hline
    obtain ⟨rfl, -⟩ := colon_split_inj hline (fun hmem => hcolon (List.mem_of_mem_drop hmem)) hkey'
    rw [List.length_drop] at hnameLength
    omega

/-- Where the rest of its first line remains of a header block, at most as many headers are
parsed, and only the whole line is parsed into its header. -/
theorem parseHeaderLines_restOfLine {key value : Bytes} (hne : key ≠ []) (hcolon : colon ∉ key)
    (hcr : cr ∉ key ++ bytes ": " ++ value) {later : KeyArray}
    (hlater : ∀ kv ∈ later, kv.Transmittable) {d : ℕ} {result result' : Result}
    {headers headers' : HeaderList}
    (h : parseHeaderLines [] ((key ++ bytes ": " ++ value).drop d ++
        (crlf ++ (later.flatMap headerLine ++ crlf))) result headers = some (result', headers')) :
    headers'.entries.length ≤ headers.entries.length + (later.length + 1) ∧
      (0 < d → headers'.entries ≠ headers.entries ++ (.pair key value :: later)) := by
  have hcr' : cr ∉ (key ++ bytes ": " ++ value).drop d :=
    fun hmem => hcr (List.mem_of_mem_drop hmem)
  rw [← List.append_assoc] at h
  obtain ⟨result₁, headers₁, hparse, hentries⟩ := parseHeaderLines_line hcr' hlater _ _ h
  rw [List.append_assoc] at hparse
  constructor
  · rw [hentries, List.length_append]
    rcases headerParse_inv hparse with hsame | ⟨_, _, _, -, -, hmore⟩
    · rw [hsame]
      omega
    · rw [hmore, List.length_append, List.length_singleton]
      omega
  · intro hd hall
    have hboth : headers₁.entries ++ later
        = headers.entries ++ [KeyValue.pair key value] ++ later := by
      rw [← hentries, hall, List.append_assoc, List.singleton_append]
    exact headerParse_drop hne hcolon hd hparse (List.append_cancel_right hboth)

/-- **What remains of a header block** is parsed into at most as many headers, and not into
the headers of the block unless all of it remains. -/
theorem parseHeaderLines_drop : ∀ {kvs : KeyArray} (_ : ∀ kv ∈ kvs, kv.Transmittable) {d : ℕ}
    {result result' : Result} {headers headers' : HeaderList},
    4 ≤ ((kvs.flatMap headerLine ++ crlf).drop d).length →
    parseHeaderLines [] ((kvs.flatMap headerLine ++ crlf).drop d) result headers
      = some (result', headers') →
    headers'.entries.length ≤ headers.entries.length + kvs.length ∧
      (0 < d → headers'.entries ≠ headers.entries ++ kvs)
  | [], _, d, _, _, _, _, hlong, _ => by
      simp only [List.flatMap_nil, List.nil_append, List.length_drop,
        length_crlf] at hlong
      omega
  | kv :: later, hkvs, d, result, result', headers, headers', hlong, h => by
      obtain ⟨hkv, hlater⟩ := List.forall_mem_cons.mp hkvs
      obtain ⟨key, value, rfl, hne, hcolon, hline, hcr⟩ := hkv.headerLine_eq
      set text := key ++ bytes ": " ++ value with htext
      have hblock : ((KeyValue.pair key value :: later).flatMap headerLine ++ crlf)
          = text ++ (crlf ++ (later.flatMap headerLine ++ crlf)) := by
        rw [List.flatMap_cons, hline]
        simp
      have hfewer : headers'.entries.length ≤ headers.entries.length + later.length →
          headers'.entries.length ≤ headers.entries.length +
              (KeyValue.pair key value :: later).length ∧
            (0 < d → headers'.entries ≠ headers.entries ++ (KeyValue.pair key value :: later)) := by
        intro hle
        refine ⟨by rw [List.length_cons]; omega, fun _ heq => ?_⟩
        rw [heq, List.length_append, List.length_cons] at hle
        omega
      rw [hblock] at h hlong
      rcases Nat.lt_trichotomy d (text.length + 1) with hlt | heq | hgt
      · -- part of the first line remains, and the lines behind it are whole
        rw [List.drop_append_of_le_length (by omega)] at h
        exact parseHeaderLines_restOfLine hne hcolon hcr hlater h
      · -- only the line feed of the first line remains
        have hlf : (text ++ (crlf ++ (later.flatMap headerLine ++ crlf))).drop d
            = lf :: (later.flatMap headerLine ++ crlf) := by
          rw [heq, ← List.drop_drop, List.drop_left]
          rfl
        rw [hlf] at h hlong
        refine hfewer (length_parseHeaderLines_lf hlater (fun hnil => ?_) h)
        rw [hnil] at hlong
        exact absurd hlong (by decide)
      · -- the first line is gone
        obtain ⟨d', rfl⟩ : ∃ d', d = text.length + (2 + d') := ⟨d - text.length - 2, by omega⟩
        have hlines : (text ++ (crlf ++ (later.flatMap headerLine ++ crlf))).drop
            (text.length + (2 + d')) = (later.flatMap headerLine ++ crlf).drop d' := by
          rw [← List.drop_drop, List.drop_left, ← List.drop_drop]
          rfl
        rw [hlines] at h hlong
        exact hfewer (parseHeaderLines_drop hlater hlong h).1

/-- **The end of a header block** is the only place in it with two line ends in a row. -/
theorem headerBlock_end {kvs : KeyArray} (h : ∀ kv ∈ kvs, kv.Transmittable)
    {front rest : Bytes}
    (hblock : kvs.flatMap headerLine ++ crlf = front ++ bytes "\r\n\r\n" ++ rest) :
    rest = [] := by
  obtain ⟨lines, -, hlines, heq⟩ := headerLines_eq h
  rw [heq] at hblock
  exact lines_end hlines hblock

/-- The headers that are handed over where the block starts in time. -/
theorem headers_in_time {headers : KeyArray} (hheaders : ∀ kv ∈ headers, kv.Transmittable)
    {d e : ℕ} {rest front : Bytes} {result result' : Result} {parsed : HeaderList}
    (hfound : ((headers.flatMap headerLine ++ crlf ++ rest).drop d).take e
      = front ++ bytes "\r\n\r\n")
    (hparse : parseHeaderLines [] (cstr
        (((headers.flatMap headerLine ++ crlf ++ rest).drop d).take e ++ [0])) result
        HeaderList.empty = some (result', parsed))
    (hparsed : parsed.entries = headers)
    (hend : d + e = (headers.flatMap headerLine ++ crlf).length) : d = 0 ∧ headers ≠ [] := by
  have hblock : ((headers.flatMap headerLine ++ crlf ++ rest).drop d).take e
      = (headers.flatMap headerLine ++ crlf).drop d := by
    rw [List.drop_append_of_le_length (by omega), List.take_append_of_le_length
      (by rw [List.length_drop]; omega), List.take_of_length_le (by rw [List.length_drop]; omega)]
  rw [hblock] at hfound hparse
  have hlong : 4 ≤ ((headers.flatMap headerLine ++ crlf).drop d).length := by
    rw [hfound, List.length_append]
    exact Nat.le_add_left 4 _
  have hnul : 0 ∉ (headers.flatMap headerLine ++ crlf).drop d :=
    fun hmem => nul_notMem_headerBlock hheaders (List.mem_of_mem_drop hmem)
  rw [cstr_append_nul hnul] at hparse
  constructor
  · by_contra hd
    exact (parseHeaderLines_drop hheaders hlong hparse).2 (Nat.pos_of_ne_zero hd) hparsed
  · rintro rfl
    simp only [List.flatMap_nil, List.nil_append, List.length_drop,
      length_crlf] at hlong
    omega

/-- The terminator of a header block is not found before the end of the block. -/
theorem length_le_of_found {headers : KeyArray} (hheaders : ∀ kv ∈ headers, kv.Transmittable)
    {d e : ℕ} {rest front : Bytes}
    (hfound : ((headers.flatMap headerLine ++ crlf ++ rest).drop d).take e
      = front ++ bytes "\r\n\r\n") :
    (headers.flatMap headerLine ++ crlf).length ≤ d + e := by
  by_contra hshort
  set block := headers.flatMap headerLine ++ crlf with hblock
  have hinside : ((block ++ rest).drop d).take e = (block.drop d).take e := by
    rw [List.drop_append_of_le_length (by omega), List.take_append_of_le_length
      (by rw [List.length_drop]; omega)]
  have hsplit : block = (block.take d ++ front) ++ bytes "\r\n\r\n" ++ block.drop (d + e) := by
    rw [List.append_assoc (block.take d), ← hfound, hinside, List.append_assoc, ← List.drop_drop,
      List.take_append_drop, List.take_append_drop]
  have hnone := congrArg List.length (headerBlock_end hheaders hsplit)
  rw [List.length_drop, List.length_nil] at hnone
  omega

/-! ### What a part was handed -/

/-- The part a callback invocation is for. -/
def PartCall.part : PartCall → ℕ
  | .data k _ => k
  | .response k _ => k

/-- The headers that the response callback of part `k` was called with. -/
def responses (k : ℕ) (calls : List PartCall) : List KeyArray :=
  calls.filterMap fun
    | .response j headers => if j = k then some headers else none
    | .data _ _ => none

/-- Part `k` was handed its headers once, its body and the end of its body. -/
def Handed (k : ℕ) (part : WritePart Writer) (calls : List PartCall) : Prop :=
  toPart k (deliveries calls) = part.writer.encode.map some ++ [none] ∧
    responses k calls = [part.headers]

/-- The deliveries of a call are for its part. -/
theorem fst_deliveries {call : PartCall} {delivery : ℕ × Delivery}
    (h : delivery ∈ call.deliveries) : delivery.1 = call.part := by
  cases call with
  | data k buffer =>
      rw [PartCall.deliveries] at h
      split at h
      · rw [List.mem_singleton.mp h]
        rfl
      · obtain ⟨b, -, rfl⟩ := List.mem_map.mp h
        rfl
  | response k headers => exact absurd h List.not_mem_nil

/-- Calls for other parts hand a part nothing. -/
theorem handed_nothing {k : ℕ} {calls : List PartCall} (h : ∀ call ∈ calls, call.part ≠ k) :
    toPart k (deliveries calls) = [] ∧ responses k calls = [] := by
  constructor
  · rw [toPart, List.filterMap_eq_nil_iff]
    intro delivery hmem
    obtain ⟨call, hcall, hdelivery⟩ := List.mem_flatMap.mp hmem
    exact if_neg (fst_deliveries hdelivery ▸ h call hcall)
  · rw [responses, List.filterMap_eq_nil_iff]
    intro call hcall
    cases call with
    | data j buffer => rfl
    | response j headers => exact if_neg (h _ hcall)

/-- A part that is not called is not handed its headers. -/
theorem not_handed {k : ℕ} {part : WritePart Writer} {calls : List PartCall}
    (h : ∀ call ∈ calls, call.part ≠ k) : ¬ Handed k part calls := by
  rintro ⟨-, hresponses⟩
  exact absurd (hresponses.symm.trans (handed_nothing h).2) (List.cons_ne_nil _ _)

/-- The data calls of a part are no responses. -/
theorem responses_dataCalls (k : ℕ) (index : Option ℕ) (buffers : List Bytes) :
    responses k (dataCalls index buffers) = [] := by
  cases index with
  | none => rfl
  | some j => simp [responses]

/-- What a part is handed by its own calls, between calls for other parts. -/
theorem handed_iff {k : ℕ} {part : WritePart Writer} {before after : List PartCall}
    {headers : KeyArray} {buffers : List Bytes} (hbefore : ∀ call ∈ before, call.part ≠ k)
    (hafter : ∀ call ∈ after, call.part ≠ k) :
    Handed k part (before ++ [.response k headers] ++ dataCalls (some k) buffers ++ after) ↔
      toPart k (deliveries (dataCalls (some k) buffers))
          = part.writer.encode.map some ++ [none] ∧ headers = part.headers := by
  obtain ⟨hdel, hresp⟩ := handed_nothing hbefore
  obtain ⟨hdel', hresp'⟩ := handed_nothing hafter
  have hown : responses k (before ++ [.response k headers] ++ dataCalls (some k) buffers ++ after)
      = [headers] := by
    have happend : ∀ xs ys : List PartCall,
        responses k (xs ++ ys) = responses k xs ++ responses k ys :=
      fun _ _ => List.filterMap_append
    rw [happend, happend, happend, hresp, hresp', responses_dataCalls]
    simp [responses]
  have hdata : toPart k (deliveries
        (before ++ [.response k headers] ++ dataCalls (some k) buffers ++ after))
      = toPart k (deliveries (dataCalls (some k) buffers)) := by
    simp only [deliveries_append, toPart_append, hdel, hdel', deliveries_response, List.append_nil,
      List.nil_append]
  rw [Handed, hown, hdata, List.cons.injEq]
  simp

/-- The data calls for text deliver the text. -/
theorem toPart_text (k : ℕ) (text : Bytes) :
    toPart k (deliveries (dataCalls (some k) (nonempty text))) = text.map some := by
  have hmap : text.map (k, some ·) = (text.map some).map (k, ·) := by
    rw [List.map_map]
    rfl
  rw [dataCalls_some, deliveries_nonempty, hmap, toPart_self]

/-- The data calls at the end of a body deliver the body and its end. -/
theorem toPart_body (k : ℕ) (body : Bytes) :
    toPart k (deliveries (dataCalls (some k) (nonempty body ++ [[]])))
      = body.map some ++ [none] := by
  rw [dataCalls_append, deliveries_append, toPart_append, toPart_text]
  exact congrArg _ (toPart_self k [none])

/-- The calls that hand over parts are for these parts. -/
theorem part_partsCalls : ∀ {parts : List (WritePart Writer)} {k : ℕ} {call : PartCall},
    call ∈ partsCalls k parts → k ≤ call.part
  | [], _, _, h => absurd h List.not_mem_nil
  | part :: later, k, call, h => by
      rcases List.mem_append.mp h with hown | hlater
      · rcases List.mem_append.mp hown with hresponse | hdata
        · rw [List.mem_singleton.mp hresponse]
          exact le_rfl
        · obtain ⟨buffer, -, rfl⟩ := List.mem_map.mp hdata
          exact le_rfl
      · exact (Nat.le_succ k).trans (part_partsCalls hlater)

/-- A part whose calls so far do not end it is handed its body and its end only if there is
nothing to hand over; and that is what it looks like before the first byte. -/
theorem handed_open {k : ℕ} {part : WritePart Writer} {before : List PartCall}
    {headers : KeyArray} {text : Bytes} (hbefore : ∀ call ∈ before, call.part ≠ k)
    (h : Handed k part (before ++ [.response k headers] ++ dataCalls (some k) [text])) :
    headers = part.headers ∧ text = [] ∧ part.writer.encode = [] := by
  have hnone : ∀ call ∈ ([] : List PartCall), call.part ≠ k := by
    intro call hcall
    exact absurd hcall List.not_mem_nil
  obtain ⟨htext, hheaders⟩ := (handed_iff hbefore hnone).mp (by rwa [List.append_nil])
  have hempty : text = [] := by
    by_contra hne
    have hdata : nonempty text = [text] := if_pos (List.length_pos_iff.mpr hne)
    rw [← hdata, toPart_text] at htext
    have hlast : none ∈ text.map some :=
      htext ▸ List.mem_append_right _ (List.mem_singleton_self none)
    simp at hlast
  rw [hempty] at htext
  have hends : [none] = part.writer.encode.map some ++ [none] :=
    (toPart_body k []).symm.trans htext
  have hlen := congrArg List.length hends
  simp only [List.length_append, List.length_map, List.length_singleton] at hlen
  exact ⟨hheaders, hempty, List.length_eq_zero_iff.mp (by omega)⟩

/-- A part that is ended is handed its body and its end if the text is its body. -/
theorem handed_ended {k : ℕ} {part : WritePart Writer} {before after : List PartCall}
    {headers : KeyArray} {text : Bytes} (hbefore : ∀ call ∈ before, call.part ≠ k)
    (hafter : ∀ call ∈ after, call.part ≠ k)
    (h : Handed k part (before ++ [.response k headers] ++
      dataCalls (some k) (nonempty text ++ [[]]) ++ after)) :
    headers = part.headers ∧ text = part.writer.encode := by
  obtain ⟨htext, hheaders⟩ := (handed_iff hbefore hafter).mp h
  rw [toPart_body] at htext
  exact ⟨hheaders,
    List.map_injective_iff.mpr (Option.some_injective Byte) (List.append_cancel_right htext)⟩

/-- The calls that hand over the parts of a message hand each part what it is to get. -/
theorem handed_partsCalls : ∀ (parts : List (WritePart Writer)) (k j : ℕ)
    {part : WritePart Writer} {before : List PartCall}, (∀ call ∈ before, call.part < k) →
    parts[j]? = some part → Handed (k + j) part (before ++ partsCalls k parts)
  | [], _, _, _, _, _, hpart => absurd hpart (by simp)
  | first :: later, k, 0, part, before, hbefore, hpart => by
      obtain rfl := Option.some.inj hpart
      have hhanded := (@handed_iff k first before (partsCalls (k + 1) later) first.headers
        (nonempty first.writer.encode ++ [[]]) (fun call hcall => (hbefore call hcall).ne)
        (fun call hcall => (Nat.lt_of_succ_le (part_partsCalls hcall)).ne')).mpr
        ⟨toPart_body k first.writer.encode, rfl⟩
      show Handed k first (before ++ (partCalls k first ++ partsCalls (k + 1) later))
      rw [partCalls, ← List.append_assoc, ← List.append_assoc]
      exact hhanded
  | first :: later, k, j + 1, part, before, hbefore, hpart => by
      have hown : ∀ call ∈ before ++ partCalls k first, call.part < k + 1 := by
        intro call hcall
        rcases List.mem_append.mp hcall with hmem | hmem
        · exact Nat.lt_succ_of_lt (hbefore call hmem)
        · rcases List.mem_append.mp hmem with hresponse | hdata
          · rw [List.mem_singleton.mp hresponse]
            exact Nat.lt_succ_self k
          · obtain ⟨buffer, -, rfl⟩ := List.mem_map.mp hdata
            exact Nat.lt_succ_self k
      have hlater := handed_partsCalls later (k + 1) j hown hpart
      rw [List.append_assoc, show k + 1 + j = k + (j + 1) by omega] at hlater
      exact hlater

/-! ### One section of the reader -/

section Reading

variable {heap : Bytes → ℕ → Byte} {boundary : Bytes} {n : ℕ}

namespace AtSection

variable {k fresh fuel : ℕ} {arg arg' : ReadMultipartArg} {result result' : Result}
  {buffer : Bytes}

/-- A header section of any text either lasts to the end of the text, and calls nothing, or
is parsed and handed over at the first two line ends in a row. -/
theorem loop_header (h : AtSection boundary n (some k) true fresh arg) (hk : k < n)
    (hfresh : fresh ≤ k)
    (hloop : ReadMultipartArg.loop heap (fuel + 1) arg result buffer = some (result', arg')) :
    arg'.calls = arg.calls ∨
    ∃ e front result₁ headers arg₁, e ≤ buffer.length ∧
      buffer.take e = front ++ bytes "\r\n\r\n" ∧
      parseHeaderLines [] (cstr (buffer.take e ++ [0])) result HeaderList.empty
        = some (result₁, headers) ∧
      AtSection boundary n (some k) false (k + 1) arg₁ ∧
      arg₁.calls = arg.calls ++ [.response k headers.entries] ∧
      ReadMultipartArg.loop heap fuel arg₁ result₁ (buffer.drop e) = some (result', arg') := by
  by_cases hnil : buffer = []
  · subst hnil
    obtain ⟨-, rfl⟩ := Prod.mk.inj (Option.some.inj hloop)
    exact Or.inl rfl
  have hd : arg.delimiter = bytes "\r\n\r\n" := h.delimiter
  have hpart := h.parts k hfresh hk
  have hready := h.ready fun _ => ⟨k, rfl, hk⟩
  obtain ⟨hle, hscanned, hall, -⟩ :=
    Matcher.feed_spec (bytes "\r\n\r\n") buffer 0 (Nat.zero_le _)
  rw [ReadMultipartArg.loop, if_neg hnil, hready.step_header h.needHeader, h.matchCounter, hd,
    ReadMultipartArg.readHeader] at hloop
  simp only [h.headerBufferOffset, saveHeader_zero] at hloop
  by_cases hm : (Matcher.feed (bytes "\r\n\r\n") 0 buffer).1 = (bytes "\r\n\r\n").length
  · have hfound := Matcher.take_of_found hm
    rw [if_pos hm] at hloop
    simp only [h.partIndex, hpart, Option.bind_eq_bind, Option.bind_some, if_true] at hloop
    set e := (Matcher.feed (bytes "\r\n\r\n") 0 buffer).2
    cases hparse : parseHeaderLines [] (cstr (buffer.take e ++ [0])) result HeaderList.empty with
    | none => simp [hparse] at hloop
    | some parsed =>
        obtain ⟨result₁, headers⟩ := parsed
        simp only [hparse, Option.bind_some, Option.map_some] at hloop
        refine Or.inr ⟨e, _, result₁, headers, _, hscanned, hfound, hparse, ?_, rfl, hloop⟩
        exact
          { boundary := h.boundary
            length := by simp [h.length]
            parts := fun j hj hjn => by
              rw [List.getElem?_set_ne (by omega)]
              exact h.parts j (by omega) hjn
            partIndex := rfl
            needHeader := rfl
            matchCounter := rfl
            boundaryBuffer := h.boundaryBuffer
            headerBufferOffset := rfl }
  · rw [if_neg hm] at hloop
    simp only [Option.map_some, Option.bind_eq_bind, Option.bind_some,
      hall (Nat.lt_of_le_of_ne hle hm), List.drop_length] at hloop
    cases fuel with
    | zero => exact absurd hloop (by simp [ReadMultipartArg.loop])
    | succ fuel =>
        obtain ⟨-, rfl⟩ := Prod.mk.inj (Option.some.inj hloop)
        exact Or.inl rfl

/-- A body section of any text either lasts to the end of the text, with the text up to a
candidate delimiter passed on, or is passed on up to the delimiter and ended. -/
theorem loop_body (h : AtSection boundary n (some k) false fresh arg) (hk : k < n)
    (hne : buffer ≠ [])
    (hloop : ReadMultipartArg.loop heap (fuel + 1) arg result buffer = some (result', arg')) :
    (∃ m, m ≤ buffer.length ∧ m < (delimiterText boundary n (some k) false).length ∧
      buffer.drop (buffer.length - m) = (delimiterText boundary n (some k) false).take m ∧
      arg'.calls = arg.calls ++ dataCalls (some k) [buffer.take (buffer.length - m)]) ∨
    ∃ m arg₁, m ≤ buffer.length ∧ (delimiterText boundary n (some k) false).length ≤ m ∧
      AtSection boundary n (some (k + 1)) (decide (k + 1 < n)) fresh arg₁ ∧
      arg₁.calls = arg.calls ++ dataCalls (some k) (nonempty
        (buffer.take (m - (delimiterText boundary n (some k) false).length)) ++ [[]]) ∧
      ReadMultipartArg.loop heap fuel arg₁ result (buffer.drop m) = some (result', arg') := by
  have hd : arg.delimiter = delimiterText boundary n (some k) false := h.delimiter
  have hready := h.ready fun hh => absurd hh Bool.false_ne_true
  have hin : ∀ j, arg.partIndex = some j → j < arg.parts.length := by
    rw [h.partIndex, h.length]
    exact fun j hj => Option.some.inj hj ▸ hk
  have hnothing : arg.replayed buffer = [] := by
    rw [ReadMultipartArg.replayed, h.boundaryBuffer, nonempty_nil, ite_self]
  obtain ⟨hle, hscanned, hall, -⟩ :=
    Matcher.feed_spec (delimiterText boundary n (some k) false) buffer 0 (Nat.zero_le _)
  have hfit := Matcher.feed_fst_le (Nat.zero_le (delimiterText boundary n (some k) false).length)
    buffer
  by_cases hm : (Matcher.feed (delimiterText boundary n (some k) false) 0 buffer).1
      = (delimiterText boundary n (some k) false).length
  · have hstep : arg.step heap result buffer = _ :=
      hready.step_complete h.needHeader hin (by rw [hd, h.matchCounter, hm])
    rw [ReadMultipartArg.completed, hnothing, hd, h.matchCounter, h.partIndex, h.length,
      List.nil_append] at hstep
    rw [ReadMultipartArg.loop_of_step hne hstep] at hloop
    refine Or.inr ⟨_, _, hscanned, by omega, ?_, rfl, hloop⟩
    exact
      { boundary := h.boundary
        length := h.length
        parts := h.parts
        partIndex := rfl
        needHeader := rfl
        matchCounter := rfl
        boundaryBuffer := rfl
        headerBufferOffset := h.headerBufferOffset }
  · have hopen := Nat.lt_of_le_of_ne hle hm
    have hstep : arg.step heap result buffer = _ :=
      hready.step_interrupted h.needHeader hin (by rw [hd, h.matchCounter]; exact hopen)
        (by rw [hd, h.matchCounter]; omega)
    rw [ReadMultipartArg.interrupted, hnothing, hd, h.matchCounter, h.partIndex,
      List.nil_append] at hstep
    rw [ReadMultipartArg.loop_of_step hne hstep, List.drop_length] at hloop
    refine Or.inl ⟨_, by omega, hopen, Matcher.drop_eq_take (Nat.zero_le _) hopen (by omega), ?_⟩
    cases fuel with
    | zero => exact absurd hloop (by simp [ReadMultipartArg.loop])
    | succ fuel =>
        obtain ⟨-, rfl⟩ := Prod.mk.inj (Option.some.inj hloop)
        rfl

/-- From a section of a part on, no part before it is called. -/
theorem loop_calls : ∀ {fuel k fresh : ℕ} {header : Bool} {arg : ReadMultipartArg}
    {result : Result} {buffer : Bytes}, AtSection boundary n (some k) header fresh arg →
    (header = true → k < n ∧ fresh ≤ k) → fresh ≤ k + 1 →
    ReadMultipartArg.loop heap fuel arg result buffer = some (result', arg') →
    ∃ calls, arg'.calls = arg.calls ++ calls ∧ ∀ call ∈ calls, k ≤ call.part
  | 0, _, _, _, _, _, _, _, _, _, hloop => absurd hloop (by simp [ReadMultipartArg.loop])
  | fuel + 1, k, fresh, true, arg, result, buffer, h, hheader, hfresh, hloop => by
      obtain ⟨hk, hfresh'⟩ := hheader rfl
      rcases h.loop_header hk hfresh' hloop with hsame |
        ⟨_, _, result₁, headers, arg₁, -, -, -, h₁, hcalls₁, hloop₁⟩
      · exact ⟨[], by rw [hsame, List.append_nil], fun _ hcall => absurd hcall List.not_mem_nil⟩
      · obtain ⟨calls, hcalls, hparts⟩ := loop_calls h₁ (fun hh => absurd hh Bool.false_ne_true)
          le_rfl hloop₁
        refine ⟨.response k headers.entries :: calls, ?_, fun call hcall => ?_⟩
        · rw [hcalls, hcalls₁, List.append_assoc, List.singleton_append]
        · rcases List.mem_cons.mp hcall with rfl | hmem
          · exact le_rfl
          · exact hparts call hmem
  | fuel + 1, k, fresh, false, arg, result, buffer, h, _, hfresh, hloop => by
      by_cases hnil : buffer = []
      · subst hnil
        obtain ⟨-, rfl⟩ := Prod.mk.inj (Option.some.inj hloop)
        exact ⟨[], (List.append_nil _).symm, fun _ hcall => absurd hcall List.not_mem_nil⟩
      by_cases hk : k < n
      · rcases h.loop_body hk hnil hloop with ⟨_, -, -, -, hcalls⟩ |
            ⟨_, arg₁, -, -, h₁, hcalls₁, hloop₁⟩
        · refine ⟨_, hcalls, fun call hcall => ?_⟩
          obtain ⟨_, -, rfl⟩ := List.mem_map.mp hcall
          exact le_rfl
        · obtain ⟨calls, hcalls, hparts⟩ := loop_calls h₁
            (fun hh => ⟨of_decide_eq_true hh, hfresh⟩) (Nat.le_succ_of_le hfresh) hloop₁
          refine ⟨_, by rw [hcalls, hcalls₁, List.append_assoc], fun call hcall => ?_⟩
          rcases List.mem_append.mp hcall with hown | hmem
          · obtain ⟨_, -, rfl⟩ := List.mem_map.mp hown
            exact le_rfl
          · exact (Nat.le_succ k).trans (hparts call hmem)
      · have hstep : arg.step heap result buffer = none :=
          (h.ready fun hh => absurd hh Bool.false_ne_true).step_epilogue h.partIndex
            (by rw [h.length]; omega)
        rw [ReadMultipartArg.loop_of_step_none hnil hstep] at hloop
        exact absurd hloop (by simp)

/-- Where part `k` is handed its headers, its body and its end, the text either is a front of
the delimiter, which looks like the end of an empty body, or is as long as the body and its
delimiter, behind which the next section starts. -/
theorem loop_body_handed (h : AtSection boundary n (some k) false (k + 1) arg) (hk : k < n)
    {before : List PartCall} {headers : KeyArray} {part : WritePart Writer}
    (hbefore : ∀ call ∈ before, call.part < k)
    (hcalls : arg.calls = before ++ [.response k headers])
    (hloop : ReadMultipartArg.loop heap fuel arg result buffer = some (result', arg'))
    (hhanded : Handed k part arg'.calls) :
    headers = part.headers ∧
    ((∃ m, 0 < m ∧ m < (delimiterText boundary n (some k) false).length ∧
        buffer = (delimiterText boundary n (some k) false).take m ∧ part.writer.encode = [] ∧
        ∀ call ∈ arg'.calls, call.part < k + 1) ∨
      ∃ fuel₁ arg₁, part.writer.encode.length + (delimiterText boundary n (some k) false).length
          ≤ buffer.length ∧
        AtSection boundary n (some (k + 1)) (decide (k + 1 < n)) (k + 1) arg₁ ∧
        (∀ call ∈ arg₁.calls, call.part < k + 1) ∧
        ReadMultipartArg.loop heap fuel₁ arg₁ result (buffer.drop (part.writer.encode.length +
          (delimiterText boundary n (some k) false).length)) = some (result', arg')) := by
  have hearlier : ∀ call ∈ before, call.part ≠ k := fun call hcall => (hbefore call hcall).ne
  have hown : ∀ buffers : List Bytes, ∀ call ∈ before ++ [.response k headers] ++
      dataCalls (some k) buffers, call.part < k + 1 := by
    intro buffers call hcall
    rcases List.mem_append.mp hcall with hfirst | hdata
    · rcases List.mem_append.mp hfirst with hmem | hresponse
      · exact Nat.lt_succ_of_lt (hbefore call hmem)
      · rw [List.mem_singleton.mp hresponse]
        exact Nat.lt_succ_self k
    · obtain ⟨_, -, rfl⟩ := List.mem_map.mp hdata
      exact Nat.lt_succ_self k
  cases fuel with
  | zero => exact absurd hloop (by simp [ReadMultipartArg.loop])
  | succ fuel =>
      by_cases hnil : buffer = []
      · subst hnil
        obtain ⟨-, rfl⟩ := Prod.mk.inj (Option.some.inj hloop)
        have hnothing := (@handed_iff _ _ _ [] _ [] hearlier
          (fun _ hcall => absurd hcall List.not_mem_nil)).mp
            (by rw [hcalls] at hhanded; simpa using hhanded)
        exact absurd hnothing.1.symm
          (List.append_ne_nil_of_right_ne_nil _ (List.cons_ne_nil _ _))
      rcases h.loop_body hk hnil hloop with ⟨m, hm, hlt, hdrop, hcalls'⟩ |
        ⟨m, arg₁, hm, hle, h₁, hcalls₁, hloop₁⟩
      · rw [hcalls', hcalls] at hhanded
        obtain ⟨hheaders, hempty, hbody⟩ := handed_open hearlier hhanded
        have hsplit := List.take_append_drop (buffer.length - m) buffer
        rw [hempty, List.nil_append, hdrop] at hsplit
        refine ⟨hheaders, Or.inl ⟨m, ?_, hlt, hsplit.symm, hbody, ?_⟩⟩
        · exact Nat.pos_of_ne_zero fun h0 => hnil (by rw [← hsplit, h0, List.take_zero])
        · rw [hcalls', hcalls]
          exact hown _
      · obtain ⟨calls, hcalls', hparts⟩ := loop_calls h₁ (fun hh => ⟨of_decide_eq_true hh, le_rfl⟩)
          (Nat.le_succ _) hloop₁
        rw [hcalls', hcalls₁, hcalls] at hhanded
        obtain ⟨hheaders, hbody⟩ := handed_ended hearlier
          (fun call hcall => (Nat.lt_of_succ_le (hparts call hcall)).ne') hhanded
        have hlen := congrArg List.length hbody
        rw [List.length_take_of_le (by omega)] at hlen
        have hwhole : part.writer.encode.length + (delimiterText boundary n (some k) false).length
            = m := by omega
        rw [hwhole]
        exact ⟨hheaders, Or.inr ⟨fuel, arg₁, hm, h₁, by rw [hcalls₁, hcalls]; exact hown _, hloop₁⟩⟩

/-- If what is behind some front of the closing delimiter looks like a front of it, then the
one front ends with the dashes. -/
theorem bodyEnd_take (hcr : cr ∉ boundary) {d m : ℕ} (hpos : 0 < m)
    (hlt : m < (bodyEnd boundary []).length)
    (h : (bodyEnd boundary []).drop d = (bodyEnd boundary []).take m) :
    ∃ front, (bodyEnd boundary []).take d = front ++ [45] := by
  set core := lf :: (bytes "--" ++ boundary ++ bytes "-") with hcore
  have hsplit : bodyEnd boundary [] = (cr :: core ++ [45]) ++ crlf := by
    simp [bodyEnd, hcore, bytes, crlf]
  have hnotin : cr ∉ core ++ [45] := by
    simp only [hcore, List.cons_append, List.mem_cons, List.mem_append, not_or]
    exact ⟨by decide, ⟨⟨by decide, hcr⟩, by decide⟩, by decide, List.not_mem_nil⟩
  rw [hsplit] at h hlt ⊢
  have hcrAt : (cr :: core ++ [45] ++ crlf)[d]? = some cr := by
    have hfirst := congrArg (·[0]?) h
    simp only [List.getElem?_drop, List.getElem?_take, if_pos hpos] at hfirst
    exact hfirst
  have hlength : (cr :: core ++ [45]).length = core.length + 2 := by simp
  rcases Nat.lt_trichotomy d (core.length + 2) with hin | hend | hafter
  · cases d with
    | zero =>
        have hall := congrArg List.length h
        rw [List.drop_zero, List.length_take] at hall
        omega
    | succ d =>
        rw [List.getElem?_append_left (by omega)] at hcrAt
        have hinside : (core ++ [45])[d]? = some cr := hcrAt
        exact absurd (List.mem_of_getElem? hinside) hnotin
  · exact ⟨cr :: core, by rw [hend, ← hlength, List.take_left]⟩
  · rw [List.getElem?_append_right (by omega), hlength] at hcrAt
    obtain ⟨i, hi⟩ : ∃ i, d - (core.length + 2) = i + 1 := ⟨d - (core.length + 2) - 1, by omega⟩
    rw [hi] at hcrAt
    exact absurd (List.mem_of_getElem? (l := [lf]) hcrAt) (by decide)

/-- Two line ends in a row do not end inside the closing delimiter where a front of the
delimiter follows them. -/
theorem not_found_in_bodyEnd (hcr : cr ∉ boundary) {block front : Bytes} {d e d' m : ℕ}
    (hfound : ((block ++ bodyEnd boundary []).drop d).take e = front ++ bytes "\r\n\r\n")
    (hd' : d + e = block.length + d') (hpos : 0 < m) (hlt : m < (bodyEnd boundary []).length)
    (hfront : (bodyEnd boundary []).drop d' = (bodyEnd boundary []).take m) : False := by
  obtain ⟨front', hlast⟩ := bodyEnd_take hcr hpos hlt hfront
  have htake : (block ++ bodyEnd boundary []).take (d + e) = block ++ (front' ++ [45]) := by
    rw [hd', List.take_length_add_append, hlast]
  rw [List.take_add, hfound, ← List.append_assoc, ← List.append_assoc] at htake
  have hbyte : (bytes "\r\n\r\n").getLast? = some 45 := by
    have hgot := congrArg List.getLast? htake
    rwa [List.getLast?_append_of_ne_nil _ (by decide), List.getLast?_concat] at hgot
  exact absurd hbyte (by decide)

/-- A reader that hands every part what it is to get was in time for the first of them, and
all of them have headers. -/
theorem in_time (hcr : cr ∉ boundary) : ∀ {parts : List (WritePart Writer)} {k fuel d : ℕ}
    {arg : ReadMultipartArg} {result : Result}, parts ≠ [] →
    AtSection boundary n (some k) true k arg → k + parts.length = n →
    (∀ part ∈ parts, ∀ kv ∈ part.headers, kv.Transmittable) →
    (∀ call ∈ arg.calls, call.part < k) →
    ReadMultipartArg.loop heap fuel arg result ((afterHeaders boundary parts).drop d)
      = some (result', arg') →
    (∀ j part, parts[j]? = some part → Handed (k + j) part arg'.calls) →
    d = 0 ∧ ∀ part ∈ parts, part.headers ≠ []
  | [], _, _, _, _, _, hne, _, _, _, _, _, _ => absurd rfl hne
  | _ :: _, _, 0, _, _, _, _, _, _, _, _, hloop, _ =>
      absurd hloop (by simp [ReadMultipartArg.loop])
  | part :: later, k, fuel + 1, d, arg, result, _, h, hn, hheaders, hbefore, hloop, hall => by
      have hhanded : Handed k part arg'.calls := hall 0 part rfl
      obtain ⟨hpart, hlater⟩ := List.forall_mem_cons.mp hheaders
      have hk : k < n := by rw [List.length_cons] at hn; omega
      have hearlier : ∀ call ∈ arg.calls, call.part ≠ k := fun call hcall => (hbefore call hcall).ne
      rcases h.loop_header hk le_rfl hloop with hsame |
        ⟨e, front, result₁, parsed, arg₁, -, hfound, hparse, h₁, hcalls₁, hloop₁⟩
      · rw [hsame] at hhanded
        exact absurd hhanded (not_handed hearlier)
      rw [afterHeaders] at hfound hparse hloop₁
      have hreached := length_le_of_found hpart hfound
      have hintime := headers_in_time hpart hfound hparse
      set block := part.headers.flatMap headerLine ++ crlf with hblock
      set body := part.writer.encode with hbody
      set rest := body ++ (bodyEnd boundary later ++ afterHeaders boundary later) with hrest
      obtain ⟨d', hd'⟩ : ∃ d', d + e = block.length + d' := ⟨d + e - block.length, by omega⟩
      have hleft : ((block ++ rest).drop d).drop e = rest.drop d' := by
        rw [List.drop_drop, hd', ← List.drop_drop, List.drop_left]
      rw [hleft] at hloop₁
      obtain ⟨hparsed, hbody'⟩ :=
        h₁.loop_body_handed hk hbefore hcalls₁ hloop₁ hhanded
      rw [delimiterText_body hn] at hbody'
      suffices hzero : d' = 0 ∧ ∀ part ∈ later, part.headers ≠ [] by
        obtain ⟨hd, hne⟩ := hintime hparsed (by omega)
        exact ⟨hd, List.forall_mem_cons.mpr ⟨hne, hzero.2⟩⟩
      by_cases hnil : later = []
      · subst hnil
        refine ⟨?_, fun _ hmem => absurd hmem List.not_mem_nil⟩
        rcases hbody' with ⟨m, hpos, hlt, hfront, hempty, -⟩ | ⟨-, -, hlong, -⟩
        · -- only the line end behind the closing delimiter is left, and it follows no line end
          have hrest' : rest = bodyEnd boundary [] := by
            rw [hrest, hbody, hempty, List.nil_append]
            exact List.append_nil _
          rw [hrest'] at hfront hfound
          exact (not_found_in_bodyEnd hcr hfound hd' hpos hlt hfront).elim
        · rw [← hbody, hrest, List.length_drop] at hlong
          simp only [List.length_append, afterHeaders, List.length_nil] at hlong
          have hpos : 0 < (bodyEnd boundary []).length := by simp [bodyEnd, bytes]
          omega
      · have hmany : k + 1 + later.length = n := by rw [List.length_cons] at hn; omega
        have hpos := List.length_pos_iff.mpr hnil
        rcases hbody' with ⟨-, -, -, -, -, hcalls⟩ | ⟨fuel₂, arg₂, hlong, h₂, hcalls₂, hloop₂⟩
        · -- the next part is not called at all
          obtain ⟨next, later', rfl⟩ := List.exists_cons_of_ne_nil hnil
          have hnext : Handed (k + 1) next arg'.calls := hall 1 next rfl
          exact absurd hnext (not_handed fun call hcall => (hcalls call hcall).ne)
        · have hnextText : (rest.drop d').drop (body.length + (bodyEnd boundary later).length)
              = (afterHeaders boundary later).drop d' := by
            rw [List.drop_drop, hrest, ← List.append_assoc,
              show d' + (body.length + (bodyEnd boundary later).length)
                = (body ++ bodyEnd boundary later).length + d' by
                  rw [List.length_append]; omega,
              ← List.drop_drop, List.drop_left]
          rw [hnextText] at hloop₂
          rw [decide_eq_true (by omega)] at h₂
          refine in_time hcr hnil h₂ hmany hlater hcalls₂ hloop₂ fun j next hnext => ?_
          have hhanded' := hall (j + 1) next hnext
          rwa [show k + (j + 1) = k + 1 + j by omega] at hhanded'

end AtSection

end Reading

/-! ### The message -/

/-- Handed the bytes of a message in one call, the reader hands every part its headers, its
body and its end. -/
def RoundTrips (heap : Bytes → ℕ → Byte) (boundary : Bytes) (parts : List (WritePart Writer))
    (message : Bytes) : Prop :=
  ∃ result arg, (prepareReadMultipart boundary
      (List.replicate parts.length true)).readMultipart heap message = some (result, arg) ∧
    ∀ k part, parts[k]? = some part → Handed k part arg.calls

/-- **Which messages come back.** For parts with transmittable headers, if any, whose bodies
do not contain the front of a delimiter, let the writer be called with any positive buffer
lengths until it yields nothing. Its output, handed to a reader prepared for the same
delimiter and number of parts, gives every part its headers, its body and its end if and
only if every part has a header. -/
theorem readMultipart_headers_iff (heap : Bytes → ℕ → Byte) {boundary : Bytes}
    (hcr : cr ∉ boundary) {arg : WriteMultipartArg Writer} (hboundary : arg.boundary = some boundary)
    (hfresh : (Writer.multipart arg).Fresh) (hdelimited : (Writer.multipart arg).Delimited)
    (hheaders : ∀ part ∈ arg.parts, ∀ kv ∈ part.headers, kv.Transmittable)
    (hbodies : ∀ part ∈ arg.parts, ¬ (crlf ++ bytes "--" ++ boundary) <:+: part.writer.encode)
    {ns : List ℕ} {outs : List Bytes} {w w' : Writer} (hpos : ∀ n ∈ ns, 0 < n)
    (hreads : (Writer.multipart arg).Reads ns outs w) {n : ℕ} (hn : 0 < n)
    (hend : w.Returns n ⟨.success, []⟩ w') :
    RoundTrips heap boundary arg.parts outs.flatten ↔
      ∀ part ∈ arg.parts, part.headers ≠ [] := by
  rw [flatten_eq_encodeParts hboundary hfresh hdelimited hpos hreads hn hend]
  have hne : arg.parts ≠ [] := hdelimited.2.1
  have hlen : 0 < arg.parts.length := List.length_pos_iff.mpr hne
  constructor
  · rintro ⟨result, last, hread, hall⟩
    obtain ⟨part, later, hcons⟩ := List.exists_cons_of_ne_nil hne
    obtain ⟨arg₁, hpreface, h₁, hcalls₁⟩ := @AtSection.loop_preface heap boundary arg.parts.length
      part later (encodeParts (some boundary) arg.parts).length
    rw [decide_eq_true hlen] at h₁
    rw [← hcons] at hpreface
    rw [ReadMultipartArg.readMultipart, hpreface, ← List.drop_zero (l := afterHeaders _ _)] at hread
    refine (AtSection.in_time hcr hne h₁ (Nat.zero_add _) hheaders ?_ hread
      fun j part hpart => ?_).2
    · rw [hcalls₁]
      exact fun _ hcall => absurd hcall List.not_mem_nil
    · rw [Nat.zero_add]
      exact hall j part hpart
  · intro hall
    obtain ⟨last, hread, -, hcalls⟩ := readMultipart_encodeParts heap hcr hne fun part hpart =>
      ⟨hall part hpart, hheaders part hpart, hbodies part hpart⟩
    refine ⟨_, last, hread, fun k part hpart => ?_⟩
    have hhanded : Handed (0 + k) part ([] ++ partsCalls 0 arg.parts) :=
      handed_partsCalls arg.parts 0 k (fun _ hcall => absurd hcall List.not_mem_nil) hpart
    rw [hcalls]
    simpa using hhanded

/-- A message with one part without headers, before it is sent. -/
def bareParts : WriteMultipartArg Writer where
  boundary := some (bytes "b")
  partIndex := 0
  currentBoundary := some (boundaryText (bytes "b") false (some []))
  currentBoundaryOffset := 0
  currentBoundaryLength := (boundaryText (bytes "b") false (some [])).length
  parts := [⟨[], .block (.start (bytes "x"))⟩]

/-- The message can be sent byte by byte. -/
theorem bareParts_reads :
    (Writer.multipart bareParts).Fresh ∧ (Writer.multipart bareParts).Delimited ∧
      ∃ outs w w', (Writer.multipart bareParts).Reads (List.replicate 25 1) outs w ∧
        w.Returns 1 ⟨.success, []⟩ w' := by
  have hfresh : (Writer.multipart bareParts).Fresh :=
    ⟨⟨rfl, rfl, _, [], rfl, rfl, rfl⟩, rfl, trivial⟩
  have hdelimited : (Writer.multipart bareParts).Delimited :=
    ⟨rfl, List.cons_ne_nil _ _, trivial, trivial⟩
  have hpos : ∀ n ∈ List.replicate 25 1, 0 < n := by decide
  obtain ⟨outs, w, w', hreads, hret⟩ :=
    hfresh.exists_sent hdelimited hpos (by decide) Nat.one_pos
  exact ⟨hfresh, hdelimited, outs, w, w', hreads, hret⟩

/-- The case of two parts with headers, and the criterion at `bareParts`. -/
theorem readMultipart_headers_iff_bareParts :
    (∃ outs w, (Writer.multipart headedParts).Reads (List.replicate 48 1) outs w ∧
      RoundTrips (fun _ _ => 0) (bytes "b") headedParts.parts outs.flatten) ∧
    ∃ outs w, (Writer.multipart bareParts).Reads (List.replicate 25 1) outs w ∧
      (RoundTrips (fun _ _ => 0) (bytes "b") bareParts.parts outs.flatten ↔
        ∀ part ∈ bareParts.parts, part.headers ≠ []) := by
  constructor
  · obtain ⟨hfresh, hdelimited, outs, w, w', hreads, hret⟩ := headedParts_reads
    exact ⟨outs, w, hreads, (readMultipart_headers_iff (fun _ _ => 0) (by decide) rfl hfresh
      hdelimited (fun part hpart => (headedParts_decodable part hpart).transmittable)
      (fun part hpart => (headedParts_decodable part hpart).body) (by decide) hreads Nat.one_pos
      hret).mpr fun part hpart => (headedParts_decodable part hpart).headers⟩
  · obtain ⟨hfresh, hdelimited, outs, w, w', hreads, hret⟩ := bareParts_reads
    refine ⟨outs, w, hreads, readMultipart_headers_iff (fun _ _ => 0) (by decide) rfl hfresh
      hdelimited (fun part hpart kv hkv => ?_) (fun part hpart => ?_) (by decide) hreads
      Nat.one_pos hret⟩
    · obtain rfl := List.mem_singleton.mp hpart
      exact absurd hkv List.not_mem_nil
    · obtain rfl := List.mem_singleton.mp hpart
      decide

/-- The part of `bareParts` is never ended, and its response callback is not called. -/
theorem readMultipart_bareParts :
    ¬ ∀ (boundary : Bytes) (arg : WriteMultipartArg Writer) (ns : List ℕ) (outs : List Bytes)
      (w w' : Writer), cr ∉ boundary → arg.boundary = some boundary →
      (Writer.multipart arg).Fresh → (Writer.multipart arg).Delimited →
      (∃ part ∈ arg.parts, part.headers = []) →
      (∀ part ∈ arg.parts, ∀ kv ∈ part.headers, kv.Transmittable) →
      (∀ part ∈ arg.parts, ¬ (crlf ++ bytes "--" ++ boundary) <:+: part.writer.encode) →
      (∀ n ∈ ns, 0 < n) → (Writer.multipart arg).Reads ns outs w →
      w.Returns 1 ⟨.success, []⟩ w' →
      RoundTrips (fun _ _ => 0) boundary arg.parts outs.flatten := by
  intro h
  obtain ⟨hfresh, hdelimited, outs, w, w', hreads, hret⟩ := bareParts_reads
  obtain ⟨result, last, hread, hall⟩ := h (bytes "b") bareParts (List.replicate 25 1) outs w w'
    (by decide) rfl hfresh hdelimited ⟨_, List.mem_singleton_self _, rfl⟩
    (fun part hpart kv hkv => by
      obtain rfl := List.mem_singleton.mp hpart
      exact absurd hkv List.not_mem_nil)
    (fun part hpart => by
      obtain rfl := List.mem_singleton.mp hpart
      decide)
    (by decide) hreads hret
  rw [flatten_eq_encodeParts rfl hfresh hdelimited (by decide) hreads Nat.one_pos hret] at hread
  have hrun : ((prepareReadMultipart (bytes "b") [true]).readMultipart (fun _ _ => 0)
      (encodeParts (some (bytes "b")) bareParts.parts)).map (fun r => r.2.calls)
        = some [] := by
    decide +kernel
  have hcalls : last.calls = [] := by
    rw [show [true] = List.replicate bareParts.parts.length true from rfl, hread] at hrun
    exact Option.some.inj hrun
  have hhanded := (hall 0 _ rfl).2
  rw [hcalls] at hhanded
  exact absurd hhanded (by decide)

end DsiRest
