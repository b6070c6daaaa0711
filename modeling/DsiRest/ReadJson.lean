import DsiRest.Lib.Cells
import DsiRest.RequestBody

/-!
# Reading JSON

`globus_dsi_rest_read_json` appends what it is called with to a buffer that it reallocates, and
parses the buffer when it is called without data. The buffer is modelled as memory, where a cell may
be uninitialised and an access outside is undefined, `none`. What `json_loadb` makes of a byte
string is a parameter, and so is whether `realloc` succeeds.

However the response is cut into pieces, the parser gets all of it and nothing else. Together with
`globus_dsi_rest_write_json` this makes a JSON value travel through any two exchanges.

## Main results

* `ReadJsonArg.Keeps.read` — a call with data, within the buffer.
* `json_received` — what comes of the response to a request that reads JSON.
* `json_roundTrip` — a value that one request sends is the value that another receives.
-/

namespace DsiRest

/-! ### The callback -/

/-- A `globus_i_dsi_rest_read_json_arg_t`; `buffer` has no cells while it is `NULL`, and `jsonOut`
is what `*json_out` holds. -/
structure ReadJsonArg (J : Type) where
  buffer : List (Option Byte)
  bufferLen : ℕ
  bufferUsed : ℕ
  jsonOut : Option J

variable {J : Type}

/-- `globus_l_dsi_rest_prepare_read_json_callback`, with what `*json_out` holds before. -/
def prepareReadJson (jsonOut : Option J) : ReadJsonArg J :=
  ⟨[], 0, 0, jsonOut⟩

/-- `globus_dsi_rest_read_json`; `allocated` is whether `realloc` succeeds. The message of a failed
parse has as much of the text as `printf` prints. -/
def readJson (loads : Bytes → Option J) (arg : ReadJsonArg J) (allocated : Bool) (buffer : Bytes) :
    Option (Result × ReadJsonArg J) :=
  if 0 < buffer.length then
    if allocated then do
      let bufferLen := add64 arg.bufferLen buffer.length
      let bufferUsed := add64 arg.bufferUsed buffer.length
      let copied ← Cells.store (Cells.resize arg.buffer (add64 bufferLen 1)) arg.bufferUsed buffer
      let ended ← Cells.store copied bufferUsed [0]
      some (.success,
        { arg with buffer := ended, bufferLen := bufferLen, bufferUsed := bufferUsed })
    else some (.error .memory, arg)
  else if 0 < arg.bufferUsed then do
    let text ← Cells.load arg.buffer arg.bufferUsed
    match loads text with
    | some json => some (.success, { arg with jsonOut := some json })
    | none => some (.error (.json (precise (intOfSize arg.bufferUsed) (cstr text))),
        { arg with jsonOut := none })
  else some (.success, { arg with jsonOut := none })

/-- The callback in an exchange. -/
def jsonReader (loads : Bytes → Option J) : DataReader (ReadJsonArg J) Bool where
  read := readJson loads
  tick _ _ := none

/-! ### Calls -/

/-- A call with data for which there is no memory. -/
theorem readJson_noMemory (loads : Bytes → Option J) (arg : ReadJsonArg J) {chunk : Bytes}
    (hchunk : chunk ≠ []) : readJson loads arg false chunk = some (.error .memory, arg) := by
  rw [readJson, if_pos (List.length_pos_iff.mpr hchunk)]
  exact if_neg Bool.false_ne_true

/-- What `*json_out` is to be after a body: `NULL` if it is empty. -/
def bodyJson (loads : Bytes → Option J) (body : Bytes) : Option J :=
  if body = [] then none else loads body

/-- The buffer holds the data that was received, and a NUL behind it once there is any. -/
structure ReadJsonArg.Keeps (arg : ReadJsonArg J) (body : Bytes) : Prop where
  bufferLen : arg.bufferLen = body.length
  bufferUsed : arg.bufferUsed = body.length
  holds : Cells.Holds arg.buffer body
  ended : body ≠ [] → Cells.Holds arg.buffer (body ++ [0])

namespace ReadJsonArg.Keeps

variable {arg : ReadJsonArg J} {body : Bytes}

/-- Nothing is received at first. -/
theorem prepare (jsonOut : Option J) : (prepareReadJson jsonOut).Keeps [] :=
  ⟨rfl, rfl, .nil _, fun h => absurd rfl h⟩

/-- **A call with data** writes within the buffer, and keeps the data behind what it kept. -/
theorem read (h : arg.Keeps body) (loads : Bytes → Option J) {chunk : Bytes}
    (hchunk : chunk ≠ []) (hsize : body.length + chunk.length + 1 < word) :
    ∃ arg', readJson loads arg true chunk = some (.success, arg') ∧ arg'.Keeps (body ++ chunk) ∧
      arg'.jsonOut = arg.jsonOut := by
  have hlength : (body ++ chunk).length = body.length + chunk.length := List.length_append
  have hadd : add64 body.length chunk.length = (body ++ chunk).length := by
    rw [hlength, add64_eq (by omega)]
  have hend : add64 (body ++ chunk).length 1 = (body ++ chunk).length + 1 :=
    add64_eq (by omega)
  have hresized : Cells.Holds (Cells.resize arg.buffer ((body ++ chunk).length + 1)) body :=
    h.holds.resize (by omega)
  obtain ⟨copied, hcopied, hholds, hcells⟩ := hresized.store
    (show body.length + chunk.length ≤ _ by rw [Cells.length_resize]; omega)
  rw [Cells.length_resize] at hcells
  obtain ⟨ended, hended, hnul, -⟩ := hholds.store
    (show (body ++ chunk).length + ([0] : Bytes).length ≤ _ by rw [hcells]; exact Nat.le_refl _)
  refine ⟨⟨ended, (body ++ chunk).length, (body ++ chunk).length, arg.jsonOut⟩, ?_,
    ⟨rfl, rfl, hnul.left, fun _ => hnul⟩, rfl⟩
  rw [readJson, if_pos (List.length_pos_iff.mpr hchunk), if_pos rfl]
  simp only [h.bufferLen, h.bufferUsed, hadd, hend, hcopied, hended, Option.bind_eq_bind,
    Option.bind_some]

/-- **The call without data** parses what was kept, unless it is nothing. -/
theorem finish (h : arg.Keeps body) (loads : Bytes → Option J) (allocated : Bool) :
    ∃ result, readJson loads arg allocated []
        = some (result, { arg with jsonOut := bodyJson loads body }) ∧
      (result = .success ↔ body = [] ∨ (loads body).isSome) ∧
      (result ≠ .success →
        result = .error (.json (precise (intOfSize body.length) (cstr body)))) := by
  rw [readJson, if_neg (show ¬ 0 < ([] : Bytes).length from Nat.lt_irrefl 0), h.bufferUsed,
    bodyJson]
  by_cases hbody : body = []
  · subst hbody
    exact ⟨.success, rfl, by simp, fun hne => absurd rfl hne⟩
  · rw [if_pos (List.length_pos_iff.mpr hbody), if_neg hbody, h.holds.load]
    simp only [Option.bind_eq_bind, Option.bind_some]
    cases loads body with
    | none => exact ⟨_, rfl, by simp [hbody], fun _ => rfl⟩
    | some json => exact ⟨_, rfl, by simp, fun hne => absurd rfl hne⟩

/-- **No call** writes or reads outside of the buffer, or reads what was never written. -/
theorem within (h : arg.Keeps body) (loads : Bytes → Option J) (allocated : Bool) {chunk : Bytes}
    (hsize : body.length + chunk.length + 1 < word) :
    ∃ next, readJson loads arg allocated chunk = some next := by
  by_cases hchunk : chunk = []
  · subst hchunk
    obtain ⟨result, hread, -, -⟩ := h.finish loads allocated
    exact ⟨_, hread⟩
  · cases allocated with
    | false => exact ⟨_, readJson_noMemory loads arg hchunk⟩
    | true =>
        obtain ⟨next, hread, -, -⟩ := h.read loads hchunk hsize
        exact ⟨_, hread⟩

/-- A call that is accepted keeps its data. -/
theorem accept (h : arg.Keeps body) {loads : Bytes → Option J} {arg' : ReadJsonArg J}
    {e : ReaderEvent Bool} (hsize : body.length + e.chunk.length + 1 < word)
    (haccept : (jsonReader loads).accept arg e = some arg') : arg'.Keeps (body ++ e.chunk) := by
  cases e with
  | tick choice => cases haccept
  | data allocated chunk =>
      rw [DataReader.accept] at haccept
      by_cases hchunk : chunk = []
      · subst hchunk
        obtain ⟨result, hread, -, -⟩ := h.finish loads allocated
        rw [show (jsonReader loads).read arg allocated [] = _ from hread] at haccept
        cases result with
        | error e => cases haccept
        | success =>
            obtain rfl := Option.some.inj haccept
            rw [show (ReaderEvent.data allocated []).chunk = [] from rfl, List.append_nil]
            exact ⟨h.bufferLen, h.bufferUsed, h.holds, h.ended⟩
      · cases allocated with
        | false =>
            rw [show (jsonReader loads).read arg false chunk = _ from
              readJson_noMemory loads arg hchunk] at haccept
            cases haccept
        | true =>
            obtain ⟨next, hread, hnext, -⟩ := h.read loads hchunk hsize
            rw [show (jsonReader loads).read arg true chunk = _ from hread] at haccept
            obtain rfl := Option.some.inj haccept
            exact hnext

/-- Calls that are accepted keep all of their data. -/
theorem run {loads : Bytes → Option J} {events : List (ReaderEvent Bool)} :
    ∀ {arg last : ReadJsonArg J} {body : Bytes}, arg.Keeps body →
    body.length + (events.flatMap ReaderEvent.chunk).length + 1 < word →
    Guarded.run (jsonReader loads).accept arg events = some last →
    last.Keeps (body ++ events.flatMap ReaderEvent.chunk) := by
  induction events with
  | nil =>
      intro arg last body h _ hrun
      obtain rfl := Option.some.inj hrun
      rw [List.flatMap_nil, List.append_nil]
      exact h
  | cons e events ih =>
      intro arg last body h hsize hrun
      obtain ⟨next, hfirst, hrest⟩ := Guarded.run_cons.mp hrun
      rw [List.flatMap_cons, List.length_append] at hsize
      have hnext := h.accept (by omega) hfirst
      rw [List.flatMap_cons, ← List.append_assoc]
      refine ih hnext ?_ hrest
      rw [List.length_append]
      omega

end ReadJsonArg.Keeps

/-! ### Responses -/

section Response

variable {ω β : Type} {writer : DataWriter ω β} {loads : Bytes → Option J}
  {x last : Exchange (ReadJsonArg J) ω} {actions : List (ExchangeAction Bool β)}
  {jsonOut : Option J}

/-- What the buffer keeps of a response, unless the request failed. -/
theorem keeps_response (hread : x.request.dataReadCallback = .client)
    (hx : x.reader = prepareReadJson jsonOut)
    (hsize : (receivedBody (actions.flatMap ExchangeAction.heard)).length + 1 < word)
    (hrun : Guarded.run (Client.mk (jsonReader loads) writer).step x actions = some last)
    (hlast : last.request.result = .success) :
    last.request.dataReadCallback = .client ∧
      last.reader.Keeps (receivedBody (actions.flatMap ExchangeAction.heard)) := by
  have hkind : x.request.SinglePart := by
    intro arg harg
    rw [hread] at harg
    cases harg
  have hall := Client.Follows.run hkind hrun hlast
  have hreader := hall.reader
  rw [hx] at hreader
  have hkeeps := (ReadJsonArg.Keeps.prepare jsonOut).run
    (by rw [List.length_nil, Nat.zero_add]; exact hsize) hreader
  rw [List.nil_append] at hkeeps
  exact ⟨hall.dataReadCallback.trans hread, hkeeps⟩

/-- The end of the data, where no failure is recorded. -/
theorem finish_response (loads : Bytes → Option J) (writer : DataWriter ω β)
    (hread : last.request.dataReadCallback = .client) {body : Bytes}
    (hkeeps : last.reader.Keeps body) (hlast : last.request.result = .success)
    (allocated : Bool) :
    ∃ result final, (Client.mk (jsonReader loads) writer).finish last 0 allocated
        = some (result, final) ∧
      final.reader.jsonOut = bodyJson loads body ∧
      (result = .success ↔ body = [] ∨ (loads body).isSome) ∧
      (result ≠ .success →
        result = .error (.json (precise (intOfSize body.length) (cstr body)))) := by
  obtain ⟨result, hcall, hsuccess, hfailed⟩ := hkeeps.finish loads allocated
  have hreads : Execution.readsEnd last.request = true := by
    rw [Execution.readsEnd, hread]
  have hthread : last.request.performThread 0 result = result := by
    rw [Request.performThread_zero (by rw [hread]; exact ReadCallback.noConfusion), hlast,
      Result.latch_success_left]
  have hcall' : (jsonReader loads).read last.reader allocated [] = _ := hcall
  rw [Client.finish, if_pos ⟨rfl, hreads⟩, hcall', Option.bind_eq_bind, Option.bind_some]
  simp only [hthread]
  exact ⟨result, _, rfl, rfl, hsuccess, hfailed⟩

/-- **The response to a request that reads JSON.** However the body is cut into pieces and whatever
else libcurl does, the request succeeds exactly if libcurl had no error, nothing failed before, and
the body is empty or JSON; the client then has what the whole body parses to, and `NULL` for an
empty body. Where only the parse can fail, it is made, and a failure is reported with the body, and
another call, with data or without, stays within the buffer. -/
theorem json_received (hread : x.request.dataReadCallback = .client)
    (hx : x.reader = prepareReadJson jsonOut)
    (hsize : (receivedBody (actions.flatMap ExchangeAction.heard)).length + 1 < word)
    (hrun : Guarded.run (Client.mk (jsonReader loads) writer).step x actions = some last) :
    let body := receivedBody (actions.flatMap ExchangeAction.heard)
    (∀ rc allocated result final,
      (Client.mk (jsonReader loads) writer).finish last rc allocated = some (result, final) →
      (result = .success ↔ rc = 0 ∧ last.request.result = .success ∧
        (body = [] ∨ (loads body).isSome)) ∧
      (result = .success → final.reader.jsonOut = bodyJson loads body)) ∧
    (last.request.result = .success → ∀ allocated, ∃ result final,
      (Client.mk (jsonReader loads) writer).finish last 0 allocated = some (result, final) ∧
      final.reader.jsonOut = bodyJson loads body ∧
      (result ≠ .success →
        result = .error (.json (precise (intOfSize body.length) (cstr body))))) ∧
    (last.request.result = .success → ∀ allocated chunk, body.length + chunk.length + 1 < word →
      ∃ next, readJson loads last.reader allocated chunk = some next) := by
  intro body
  refine ⟨?_, ?_, ?_⟩
  · intro rc allocated result final hfinish
    have honly : result = .success → rc = 0 ∧ last.request.result = .success := by
      rintro rfl
      obtain ⟨hrc, hresult, -⟩ := Client.finish_success hfinish
      exact ⟨hrc, hresult⟩
    by_cases hgood : rc = 0 ∧ last.request.result = .success
    · obtain ⟨rfl, hresult⟩ := hgood
      obtain ⟨hkind, hkeeps⟩ := keeps_response hread hx hsize hrun hresult
      obtain ⟨result', final', hfinish', hout, hsuccess, -⟩ :=
        finish_response loads writer hkind hkeeps hresult allocated
      obtain ⟨rfl, rfl⟩ := Prod.mk.inj (Option.some.inj (hfinish.symm.trans hfinish'))
      exact ⟨⟨fun h => ⟨rfl, hresult, hsuccess.mp h⟩, fun h => hsuccess.mpr h.2.2⟩, fun _ => hout⟩
    · exact ⟨iff_of_false (fun h => hgood (honly h)) fun h => hgood ⟨h.1, h.2.1⟩,
        fun h => absurd (honly h) hgood⟩
  · intro hresult allocated
    obtain ⟨hkind, hkeeps⟩ := keeps_response hread hx hsize hrun hresult
    obtain ⟨result, final, hfinish, hout, -, hfailed⟩ :=
      finish_response loads writer hkind hkeeps hresult allocated
    exact ⟨result, final, hfinish, hout, hfailed⟩
  · intro hresult allocated chunk hchunk
    obtain ⟨-, hkeeps⟩ := keeps_response hread hx hsize hrun hresult
    exact hkeeps.within loads allocated hchunk

/-- The case of an array that comes in two pieces, and of a parser that takes any text of two
bytes. -/
theorem json_received_twoPieces :
    let loads : Bytes → Option Bytes := fun text => if text.length = 2 then some text else none
    let client : Client (ReadJsonArg Bytes) Bytes Bool Unit := ⟨jsonReader loads, supplier⟩
    let x : Exchange (ReadJsonArg Bytes) Bytes :=
      ⟨⟨.success, 200, bytes "OK", 0, 0, false, .client, HeaderList.empty, .none, false⟩,
        prepareReadJson none, []⟩
    let actions : List (ExchangeAction Bool Unit) :=
      [.writeData true (bytes "[x") 1 1, .invoke (.xferinfo .success),
        .writeData true (bytes "]") 1 1]
    ∃ last final, Guarded.run client.step x actions = some last ∧
      client.finish last 0 true = some (.success, final) ∧
      final.reader.jsonOut = some (bytes "[]") := by
  intro loads client x actions
  have hrun : Guarded.run client.step x actions = some _ := rfl
  obtain ⟨hall, -⟩ := json_received rfl rfl (by decide) hrun
  refine ⟨_, _, hrun, rfl, ?_⟩
  exact (hall 0 true .success _ rfl).2 rfl

end Response

/-! ### Values that travel -/

/-- The line of the content type that the preparation of a JSON body adds. -/
def jsonLine : Bytes :=
  bytes "Content-Type: application/json; charset=UTF-8"

/-- **A JSON value travels.** One request sends a value as JSON, completes without a failure, and
libcurl is told the end of its body; another request reads JSON, and what it receives is what the
first one sent, in pieces of any size. If nothing else fails for it, the second request succeeds,
and its client has the value. The value was sent under the content type of JSON. -/
theorem json_roundTrip {ρ ω α β : Type} {dumps : J → Option Bytes} {loads : Bytes → Option J}
    (hjson : ∀ json text, dumps json = some text → loads text = some json)
    (hempty : loads [] = none) {json : J} {reader : DataReader ρ α} {uuid : ℕ → Bytes}
    {headers : KeyArray} {drawn k : ℕ} {part : WritePart Writer} {x sent : Exchange ρ Writer}
    {sending : List (ExchangeAction α ℕ)} {rc : ℕ} {choice : α}
    (hprep : prepareWriteCallbacks uuid headers (.json (dumps json)) drawn = .ok (part, k))
    (hx : x.writer = part.writer) (hkind : x.request.SinglePart)
    (hpos : ∀ e ∈ (Client.mk reader treeWriter).asked x sending, 0 < e.size)
    (hend : ∃ e ∈ (Client.mk reader treeWriter).asked x sending, e.out = [])
    (hsent : (Client.mk reader treeWriter).perform x sending rc choice = some (.success, sent))
    {writer : DataWriter ω β} {y got : Exchange (ReadJsonArg J) ω}
    {receiving : List (ExchangeAction Bool β)} {jsonOut : Option J}
    (hread : y.request.dataReadCallback = .client) (hy : y.reader = prepareReadJson jsonOut)
    (hpassed : receivedBody (receiving.flatMap ExchangeAction.heard)
      = sentBody ((Client.mk reader treeWriter).asked x sending))
    (hsize : (receivedBody (receiving.flatMap ExchangeAction.heard)).length + 1 < word)
    (hrun : Guarded.run (Client.mk (jsonReader loads) writer).step y receiving = some got)
    (hgot : got.request.result = .success) (allocated : Bool) :
    (∃ final,
      (Client.mk (jsonReader loads) writer).finish got 0 allocated = some (.success, final) ∧
      final.reader.jsonOut = some json) ∧ jsonLine ∈ emittedLines part.headers := by
  cases hdumps : dumps json with
  | none =>
      rw [hdumps, prepareWriteCallbacks] at hprep
      cases hprep
  | some text =>
      rw [hdumps] at hprep
      have htext := hjson json text hdumps
      have hne : text ≠ [] := by
        rintro rfl
        rw [hempty] at htext
        cases htext
      have hfresh := prepareWriteCallbacks_fresh uuid _ _ _ _ _ hprep
      rw [prepareWriteCallbacks] at hprep
      obtain ⟨rfl, -⟩ := Prod.mk.inj (Except.ok.inj hprep)
      obtain ⟨-, -, hall⟩ := Client.perform_success hkind hsent
      have hwriter := hall.writer
      rw [hx] at hwriter
      obtain ⟨-, -, -, hnil, -⟩ := treeWriter_sent hfresh trivial hpos hwriter
      have hbody : receivedBody (receiving.flatMap ExchangeAction.heard) = text :=
        hpassed.trans (hnil hend)
      obtain ⟨hclient, hkeeps⟩ := keeps_response hread hy hsize hrun hgot
      rw [hbody] at hkeeps
      obtain ⟨result, final, hfinish, hout, hsuccess, -⟩ :=
        finish_response loads writer hclient hkeeps hgot allocated
      obtain rfl := hsuccess.mpr (.inr (by rw [htext]; rfl))
      refine ⟨⟨final, hfinish, ?_⟩, ?_⟩
      · rw [hout, bodyJson, if_neg hne, htext]
      · rw [emittedLines, List.filterMap_append]
        exact List.mem_append_right _ (List.mem_singleton.mpr rfl)

/-- The case of an array that is sent in one piece and received in two. -/
theorem json_roundTrip_array :
    let loads : Bytes → Option Unit := fun text => if text = bytes "[]" then some () else none
    let client : Client (ReadJsonArg Unit) Bytes Bool Unit := ⟨jsonReader loads, supplier⟩
    let x : Exchange Unit Writer := ⟨postRequest, (), .block (.start (bytes "[]"))⟩
    let y : Exchange (ReadJsonArg Unit) Bytes :=
      ⟨⟨.success, 200, bytes "OK", 0, 0, false, .client, HeaderList.empty, .none, false⟩,
        prepareReadJson none, []⟩
    let sending : List (ExchangeAction Unit ℕ) := [.readData 1 [] 1 16, .readData 1 [] 1 16]
    let receiving : List (ExchangeAction Bool Unit) :=
      [.writeData true (bytes "[") 1 1, .writeData true (bytes "]") 1 1]
    sentBody ((Client.mk noReader treeWriter).asked x sending) = bytes "[]" ∧
      ∃ got, Guarded.run client.step y receiving = some got ∧
      ∃ final, client.finish got 0 true = some (.success, final) ∧
        final.reader.jsonOut = some () := by
  intro loads client x y sending receiving
  have hjson : ∀ (json : Unit) (text : Bytes), some (bytes "[]") = some text →
      loads text = some json := by
    intro json text htext
    obtain rfl := Option.some.inj htext
    rfl
  have hkind : x.request.SinglePart := by
    intro arg harg
    cases harg
  have hasked : (Client.mk noReader treeWriter).asked x sending
      = [.data 1 16 (bytes "[]"), .data 1 16 []] := rfl
  have hpos : ∀ e ∈ (Client.mk noReader treeWriter).asked x sending, 0 < e.size := by
    rw [hasked]
    decide
  have hend : ∃ e ∈ (Client.mk noReader treeWriter).asked x sending, e.out = [] := by
    rw [hasked]
    exact ⟨.data 1 16 [], by simp, rfl⟩
  have hprep : prepareWriteCallbacks (fun _ => []) [] (.json (some (bytes "[]"))) 0
      = .ok (_, 0) := rfl
  have hsent : (Client.mk noReader treeWriter).perform x sending 0 () = some (.success, _) := rfl
  have hrun : Guarded.run client.step y receiving = some _ := rfl
  exact ⟨rfl, _, hrun, (json_roundTrip hjson rfl hprep rfl hkind hpos hend hsent rfl rfl rfl
    (by decide) hrun rfl true).1⟩

end DsiRest
