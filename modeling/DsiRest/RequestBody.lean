import DsiRest.Exchange
import DsiRest.FormEncoding
import DsiRest.MultipartExact
import DsiRest.RequestHeaders

/-!
# Sending a Body

The write callback of a request whose body is in memory, with the trees of parts that a multipart
body is made of, in an exchange with libcurl. libcurl takes a call that stores nothing for the end
of the body. A request that completes without a failure has then sent exactly what its writer stands
for; for a form this is the encoding of its fields, sent under the content type of a form.

## Main results

* `requestBody_exact` — the body that is sent in an exchange.
* `form_submitted` — the recipient of a form decodes the fields.
-/

namespace DsiRest

/-- The length of the buffer that a write callback is asked to fill. -/
def WriterEvent.size {β : Type} : WriterEvent β → ℕ
  | .data _ n _ => n
  | .tick _ => 0

/-- The body that is sent. -/
def sentBody {β : Type} (asked : List (WriterEvent β)) : Bytes :=
  asked.flatMap WriterEvent.out

/-- The body that is received. -/
def receivedBody {α : Type} (heard : List (ReaderEvent α)) : Bytes :=
  heard.flatMap ReaderEvent.chunk

/-- The write callbacks that serve a body from memory; a call is given fuel for its loops, and
between the calls nothing happens. -/
def treeWriter : DataWriter Writer ℕ where
  write writer fuel n := writer.write fuel n
  tick _ _ := none

/-- A call that is accepted comes back with a success. -/
theorem treeWriter_accept {writer writer' : Writer} {e : WriterEvent ℕ}
    (h : treeWriter.accept writer e = some writer') :
    writer.Returns e.size ⟨.success, e.out⟩ writer' := by
  cases e with
  | tick choice => cases h
  | data fuel n out =>
      rw [DataWriter.accept] at h
      split at h
      · rename_i data next hwrite
        split_ifs at h with hout
        obtain rfl := Option.some.inj h
        rw [← hout]
        exact Writer.returns_of_write hwrite
      · cases h

/-- The calls of an exchange are reads of the writer. -/
theorem treeWriter_reads {asked : List (WriterEvent ℕ)} : ∀ {writer writer' : Writer},
    Guarded.run treeWriter.accept writer asked = some writer' →
    writer.Reads (asked.map WriterEvent.size) (asked.map WriterEvent.out) writer' := by
  induction asked with
  | nil =>
      intro writer writer' h
      obtain rfl := Option.some.inj h
      exact .nil writer
  | cons e asked ih =>
      intro writer writer' h
      obtain ⟨next, hfirst, hrest⟩ := Guarded.run_cons.mp h
      exact .cons (treeWriter_accept hfirst) (ih hrest)

/-- The outputs of the calls together. -/
theorem sentBody_eq {β : Type} (asked : List (WriterEvent β)) :
    sentBody asked = (asked.map WriterEvent.out).flatten :=
  List.flatMap_def

/-- **The calls of a prepared writer** that succeed. -/
theorem treeWriter_sent {part : WritePart Writer} {writer : Writer} {asked : List (WriterEvent ℕ)}
    (hfresh : part.writer.Fresh) (hdelimited : part.writer.Delimited)
    (hpos : ∀ e ∈ asked, 0 < e.size)
    (h : Guarded.run treeWriter.accept part.writer asked = some writer) :
    part.writer.encode = sentBody asked ++ writer.rest ∧ writer.Sound ∧
      (∀ e ∈ asked, e.out.length ≤ e.size) ∧
      ((∃ e ∈ asked, e.out = []) → sentBody asked = part.writer.encode) ∧
      (part.writer.encode.length ≤ asked.length → sentBody asked = part.writer.encode) := by
  obtain ⟨hsound, hrest⟩ := Writer.Fresh.sound _ hfresh hdelimited
  have hreads := treeWriter_reads h
  have hsizes : ∀ n ∈ asked.map WriterEvent.size, 0 < n := by
    intro n hn
    obtain ⟨e, he, rfl⟩ := List.mem_map.mp hn
    exact hpos e he
  rw [← hrest, sentBody_eq]
  refine ⟨Writer.exact.flatten_append hreads hsound hsizes,
    Writer.exact.inv_reads hreads hsound hsizes, ?_, ?_, ?_⟩
  · have hfits := Writer.exact.forall_length_le hreads hsound hsizes
    rw [List.forall₂_map_left_iff, List.forall₂_map_right_iff, List.forall₂_same] at hfits
    exact hfits
  · rintro ⟨e, he, hout⟩
    exact Writer.exact.flatten_eq_of_nil_mem hreads hsound hsizes
      (List.mem_map.mpr ⟨e, he, hout⟩)
  · intro henough
    refine Writer.exact.flatten_eq hreads hsound hsizes ?_
    rw [List.length_map]
    exact henough

/-- **The body of a request.** In every exchange that completes without a failure, however large
libcurl's buffers are and whatever else happens, no call stores more than fits, what is sent is
the front of the body that the prepared writer stands for, and all of it once a call stored nothing
or as many calls were made as the body has bytes. What is sent is what the request counts, and
another call would come back. -/
theorem requestBody_exact {ρ α : Type} {reader : DataReader ρ α} {uuid : ℕ → Bytes}
    {headers : KeyArray} {body : ClientWriter} {drawn k : ℕ} {part : WritePart Writer}
    {x last : Exchange ρ Writer} {actions : List (ExchangeAction α ℕ)} {rc : ℕ} {choice : α}
    (hprep : prepareWriteCallbacks uuid headers body drawn = .ok (part, k))
    (hdelimited : part.writer.Delimited) (hx : x.writer = part.writer)
    (hkind : x.request.SinglePart)
    (hpos : ∀ e ∈ (Client.mk reader treeWriter).asked x actions, 0 < e.size)
    (h : (Client.mk reader treeWriter).perform x actions rc choice = some (.success, last)) :
    let asked := (Client.mk reader treeWriter).asked x actions
    (∀ e ∈ asked, e.out.length ≤ e.size) ∧ sentBody asked <+: part.writer.encode ∧
      ((∃ e ∈ asked, e.out = []) ∨ part.writer.encode.length ≤ asked.length →
        sentBody asked = part.writer.encode) ∧
      last.request.requestBytesUploaded
        ≡ x.request.requestBytesUploaded + (sentBody asked).length [MOD word] ∧
      ∀ n, 0 < n → ∃ out writer, last.writer.Returns n ⟨.success, out⟩ writer ∧
        (out = [] ↔ sentBody asked = part.writer.encode) := by
  obtain ⟨-, -, hall⟩ := Client.perform_success hkind h
  have hwriter := hall.writer
  rw [hx] at hwriter
  obtain ⟨hsplit, hsound, hfits, hnil, henough⟩ := treeWriter_sent
    (prepareWriteCallbacks_fresh uuid _ _ _ _ _ hprep) hdelimited hpos hwriter
  refine ⟨hfits, ⟨_, hsplit.symm⟩, fun hend => hend.elim hnil henough, hall.uploaded,
    fun n hn => ?_⟩
  obtain ⟨out, writer, hreturns⟩ := Writer.exact.returns last.writer n hsound hn
  refine ⟨out, writer, hreturns, ?_⟩
  rw [hsplit, List.self_eq_append_right]
  constructor
  · rintro rfl
    exact Writer.exact.exhausted last.writer n writer hsound hn hreturns
  · intro hrest
    have htaken := Writer.exact.rest_eq last.writer n out writer hsound hn hreturns
    rw [hrest] at htaken
    exact (List.append_eq_nil_iff.mp htaken.symm).1

/-- A request that has a body to send and no read callback. -/
def postRequest : Request :=
  ⟨.success, 0, [], 0, 0, true, .none, HeaderList.empty, .none, false⟩

/-- A read callback that is not there. -/
def noReader : DataReader Unit Unit where
  read state _ _ := some (.success, state)
  tick state _ := some state

/-- The case of a block of three bytes and buffers of two bytes. -/
theorem requestBody_exact_block :
    let x : Exchange Unit Writer := ⟨postRequest, (), .block (.start (bytes "abc"))⟩
    let actions : List (ExchangeAction Unit ℕ) :=
      [.readData 1 [] 1 2, .invoke (.xferinfo .success), .readData 1 [] 1 2, .readData 1 [] 1 2]
    let asked := (Client.mk noReader treeWriter).asked x actions
    ∃ last, (Client.mk noReader treeWriter).perform x actions 0 () = some (.success, last) ∧
      sentBody asked = bytes "abc" ∧
      last.request.requestBytesUploaded ≡ 0 + (sentBody asked).length [MOD word] := by
  intro x actions asked
  have hkind : x.request.SinglePart := by
    intro arg harg
    cases harg
  have hasked : asked = [.data 1 2 (bytes "ab"), .data 1 2 (bytes "c"), .data 1 2 []] := rfl
  have hpos : ∀ e ∈ asked, 0 < e.size := by
    rw [hasked]
    decide
  have hperform :
      (Client.mk noReader treeWriter).perform x actions 0 () = some (.success, _) := rfl
  have hprep : prepareWriteCallbacks (fun _ => []) [] (.block (bytes "abc")) 0
      = .ok (⟨[], .block (.start (bytes "abc"))⟩, 0) := rfl
  obtain ⟨-, -, hall, hcounted, -⟩ :=
    requestBody_exact hprep trivial rfl hkind hpos hperform
  have hnil : ∃ e ∈ asked, e.out = [] := by
    rw [hasked]
    exact ⟨.data 1 2 [], by simp, rfl⟩
  exact ⟨_, hperform, hall (.inl hnil), hcounted⟩

/-! ### Forms -/

/-- The line of the content type that the preparation of a form adds. -/
def formLine : Bytes :=
  bytes "Content-Type: application/x-www-form-urlencoded"

/-- The encoding of a form without `NULL`. -/
theorem encodeFormData_eq (fields : List (Bytes × Bytes)) :
    encodeFormData (fields.map fun field => .pair field.1 field.2)
      = some (formCode.encodeFields fields) := by
  have hlt := length_encodeFields_lt fields
  have hloop := encodeFields_add fields (formLength fields - (formCode.encodeFields fields).length)
  rw [Nat.add_sub_cancel' hlt.le] at hloop
  rw [encodeFormData, formFields_map]
  simp only [Option.bind_eq_bind, Option.bind_some, hloop]

/-- What a form is prepared to. -/
theorem prepareWriteCallbacks_form {uuid : ℕ → Bytes} {headers : KeyArray}
    {fields : List (Bytes × Bytes)} {drawn k : ℕ} {part : WritePart Writer}
    (h : prepareWriteCallbacks uuid headers
      (.form (fields.map fun field => .pair field.1 field.2)) drawn = .ok (part, k)) :
    part.writer.Delimited ∧ part.writer.encode = formCode.encodeFields fields ∧
      formLine ∈ emittedLines part.headers := by
  rw [prepareWriteCallbacks, encodeFormData_eq] at h
  obtain ⟨rfl, -⟩ := Prod.mk.inj (Except.ok.inj h)
  refine ⟨trivial, rfl, ?_⟩
  rw [emittedLines, List.filterMap_append]
  exact List.mem_append_right _ (List.mem_singleton.mpr rfl)

/-- The lines of a request are those of its headers, and the library's own unless the client has a
header with a framing name. -/
theorem mem_requestHeaders {fails : ℕ → Bool} {method : Bytes} {headers prepared : KeyArray}
    {lines : List Bytes} (h : requestHeaders fails method headers prepared true = .ok lines) :
    (∀ line ∈ emittedLines prepared, line ∈ lines) ∧
      ((∀ kv ∈ headers, kv.namesFraming = false) → chunkedLine ∈ lines) := by
  rcases requestHeaders_eq fails method headers prepared true with ⟨herror, -⟩ | hlines
  · rw [herror] at h
    cases h
  · have hbody : mayHaveBody method true = true := Bool.or_true _
    rw [hlines, if_pos hbody] at h
    rcases framingSearch_eq headers with ⟨-, hsearch⟩ | ⟨-, hsearch⟩
    · rw [hsearch] at h
      obtain rfl := Except.ok.inj h
      refine ⟨fun line hline => List.mem_append_left _ hline, fun hnone => ?_⟩
      have hany : headers.any KeyValue.namesFraming = false :=
        List.any_eq_false.mpr fun kv hkv => by rw [hnone kv hkv]; exact Bool.false_ne_true
      rw [hany]
      exact List.mem_append_right _ (List.mem_singleton.mpr rfl)
    · rw [hsearch] at h
      cases h

/-- **A form is submitted.** When the request for a form completes without a failure and libcurl was
told the end of the body, the recipient decodes the fields from what was sent. It was sent under the
content type of a form, and in chunks if the client names no other framing. -/
theorem form_submitted {ρ α : Type} {reader : DataReader ρ α} {uuid : ℕ → Bytes}
    {headers : KeyArray} {fields : List (Bytes × Bytes)} {drawn k : ℕ} {part : WritePart Writer}
    {x last : Exchange ρ Writer} {actions : List (ExchangeAction α ℕ)} {rc : ℕ} {choice : α}
    {fails : ℕ → Bool} {method : Bytes} {lines : List Bytes}
    (hprep : prepareWriteCallbacks uuid headers
      (.form (fields.map fun field => .pair field.1 field.2)) drawn = .ok (part, k))
    (hlines : requestHeaders fails method headers part.headers true = .ok lines)
    (hx : x.writer = part.writer) (hkind : x.request.SinglePart)
    (hpos : ∀ e ∈ (Client.mk reader treeWriter).asked x actions, 0 < e.size)
    (hend : ∃ e ∈ (Client.mk reader treeWriter).asked x actions, e.out = [])
    (h : (Client.mk reader treeWriter).perform x actions rc choice = some (.success, last)) :
    decodeFormData (sentBody ((Client.mk reader treeWriter).asked x actions)) = fields ∧
      formLine ∈ lines ∧
      ((∀ kv ∈ headers, kv.namesFraming = false) → chunkedLine ∈ lines) := by
  obtain ⟨-, -, hall⟩ := Client.perform_success hkind h
  obtain ⟨hdelimited, hencode, hline⟩ := prepareWriteCallbacks_form hprep
  obtain ⟨hemitted, hchunked⟩ := mem_requestHeaders hlines
  have hwriter := hall.writer
  rw [hx] at hwriter
  obtain ⟨-, -, -, hnil, -⟩ := treeWriter_sent
    (prepareWriteCallbacks_fresh uuid _ _ _ _ _ hprep) hdelimited hpos hwriter
  refine ⟨?_, hemitted formLine hline, hchunked⟩
  rw [hnil hend, hencode]
  exact formCode.decodeFields_encodeFields fields

/-- The case of one field with a space in its value. -/
theorem form_submitted_oneField :
    let fields := [(bytes "k", bytes "a b")]
    let x : Exchange Unit Writer := ⟨postRequest, (), .block (.start (bytes "k=a+b"))⟩
    let actions : List (ExchangeAction Unit ℕ) :=
      [.readData 1 [] 1 4, .readData 1 [] 1 4, .readData 1 [] 1 4]
    let asked := (Client.mk noReader treeWriter).asked x actions
    ∃ last, (Client.mk noReader treeWriter).perform x actions 0 () = some (.success, last) ∧
      decodeFormData (sentBody asked) = fields := by
  intro fields x actions asked
  have hkind : x.request.SinglePart := by
    intro arg harg
    cases harg
  have hasked : asked = [.data 1 4 (bytes "k=a+"), .data 1 4 (bytes "b"), .data 1 4 []] := rfl
  have hpos : ∀ e ∈ asked, 0 < e.size := by
    rw [hasked]
    decide
  have hend : ∃ e ∈ asked, e.out = [] := by
    rw [hasked]
    exact ⟨.data 1 4 [], by simp, rfl⟩
  have hprep : prepareWriteCallbacks (fun _ => []) []
      (.form (fields.map fun field => .pair field.1 field.2)) 0 = .ok (_, 0) := rfl
  have hlines : requestHeaders (fun _ => false) (bytes "POST") [] [.pair (bytes "Content-Type")
      (bytes "application/x-www-form-urlencoded")] true = .ok [formLine, chunkedLine] := rfl
  have hperform :
      (Client.mk noReader treeWriter).perform x actions 0 () = some (.success, _) := rfl
  exact ⟨_, hperform, (form_submitted hprep hlines rfl hkind hpos hend hperform).1⟩

end DsiRest
