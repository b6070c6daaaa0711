import DsiRest.FinalResponse

/-!
# The Response Callback of the Library

A client that passes `globus_dsi_rest_response` names the headers it wants to know. Each time
the headers of a response end, the callback looks them up: it compares names without regard to
case, takes the first header with the name, and duplicates its value. It does not free the
value that it overwrites, and when `strdup` fails, it leaves the headers behind alone.

## Main results

* `ResponseArg.response_found`, `ResponseArg.response_fails` — what the callback finds, and when
  it fails.
* `Request.desired_received` — after any number of 100 Continue responses and a final one the
  client has the headers of the final one.
-/

namespace DsiRest

/-- An entry of the `desired_headers`. -/
structure DesiredHeader where
  key : Bytes
  value : Option Bytes
  deriving DecidableEq

/-- A `globus_dsi_rest_response_arg_t` without its counters. `duplicated` is the number of
values that `strdup` was successful for so far. -/
structure ResponseArg where
  responseCode : ℤ
  desiredHeaders : List DesiredHeader
  duplicated : ℕ
  deriving DecidableEq

/-- The value of the first header with a given name, `none` inside if there is none. The names
that are compared must not be `NULL`, nor must the value. -/
def findHeader (key : Bytes) : KeyArray → Option (Option Bytes)
  | [] => some none
  | ⟨some name, value⟩ :: headers =>
    if strcaseeq key name then value.map some else findHeader key headers
  | ⟨none, _⟩ :: _ => none

/-- The loop over the desired headers, from the `i`-th one on: the result, the headers, and the
number of values that were duplicated. `strdup i` is whether `strdup` has memory for the
`i`-th value. -/
def fillDesired (strdup : ℕ → Bool) (headers : KeyArray) :
    ℕ → List DesiredHeader → Option (Result × List DesiredHeader × ℕ)
  | _, [] => some (.success, [], 0)
  | i, desired :: later => do
    match ← findHeader desired.key headers with
    | none =>
      let (result, filled, n) ← fillDesired strdup headers (i + 1) later
      some (result, ⟨desired.key, none⟩ :: filled, n)
    | some value =>
      if strdup i then
        let (result, filled, n) ← fillDesired strdup headers (i + 1) later
        some (result, ⟨desired.key, some value⟩ :: filled, n + 1)
      else some (.error .memory, ⟨desired.key, none⟩ :: later, 0)

/-- `globus_l_dsi_rest_response`. -/
def ResponseArg.response (arg : ResponseArg) (strdup : ℕ → Bool) (heard : Heard) :
    Option (Result × ResponseArg) :=
  (fillDesired strdup heard.headers 0 arg.desiredHeaders).map fun (result, desired, n) =>
    (result, ⟨heard.responseCode, desired, arg.duplicated + n⟩)

/-! ### What is found -/

/-- Headers as `globus_i_dsi_rest_header_parse` makes them. -/
def keyArray (pairs : List (Bytes × Bytes)) : KeyArray :=
  pairs.map fun p => .pair p.1 p.2

/-- The value of the first pair whose name is the key, but for the case of letters. -/
def firstValue (key : Bytes) (pairs : List (Bytes × Bytes)) : Option Bytes :=
  (pairs.find? fun p => strcaseeq key p.1).map Prod.snd

/-- The search finds the first value. -/
theorem findHeader_keyArray (key : Bytes) (pairs : List (Bytes × Bytes)) :
    findHeader key (keyArray pairs) = some (firstValue key pairs) := by
  induction pairs with
  | nil => rfl
  | cons p pairs ih =>
      rw [keyArray, List.map_cons, findHeader, firstValue, List.find?_cons]
      by_cases hkey : strcaseeq key p.1 = true
      · rw [if_pos hkey, hkey]
        rfl
      · rw [if_neg hkey, Bool.eq_false_of_not_eq_true hkey]
        exact ih

/-- A desired header with what was found for it. -/
def DesiredHeader.found (pairs : List (Bytes × Bytes)) (desired : DesiredHeader) : DesiredHeader :=
  ⟨desired.key, firstValue desired.key pairs⟩

/-- The number of desired headers that are found. -/
def numFound (pairs : List (Bytes × Bytes)) (desired : List DesiredHeader) : ℕ :=
  desired.countP fun d => (firstValue d.key pairs).isSome

/-- There is memory for every value that is found, where the first of the headers is the `i`-th
one. -/
def Duplicates (strdup : ℕ → Bool) (pairs : List (Bytes × Bytes)) :
    ℕ → List DesiredHeader → Prop
  | _, [] => True
  | i, desired :: later =>
    (firstValue desired.key pairs ≠ none → strdup i = true) ∧ Duplicates strdup pairs (i + 1) later

section Found

variable {strdup : ℕ → Bool} {pairs : List (Bytes × Bytes)}

/-- **With enough memory** every desired header gets the value that was found for it, or
`NULL`. -/
theorem fillDesired_found {i : ℕ} {desired : List DesiredHeader}
    (h : Duplicates strdup pairs i desired) :
    fillDesired strdup (keyArray pairs) i desired
      = some (.success, desired.map (·.found pairs), numFound pairs desired) := by
  induction desired generalizing i with
  | nil => rfl
  | cons d later ih =>
      obtain ⟨hmemory, hlater⟩ := h
      rw [fillDesired, findHeader_keyArray, ih hlater]
      cases hvalue : firstValue d.key pairs with
      | none => simp [DesiredHeader.found, numFound, hvalue]
      | some value =>
          have hd : strdup i = true := hmemory (by rw [hvalue]; simp)
          simp [DesiredHeader.found, numFound, hvalue, hd]

/-- **Without enough memory** the headers behind the first one whose value cannot be duplicated
keep the values they had. -/
theorem fillDesired_fails {i : ℕ} {desired : List DesiredHeader}
    (h : ¬ Duplicates strdup pairs i desired) :
    ∃ before d later, desired = before ++ d :: later ∧
      fillDesired strdup (keyArray pairs) i desired
        = some (.error .memory, before.map (·.found pairs) ++ ⟨d.key, none⟩ :: later,
          numFound pairs before) := by
  induction desired generalizing i with
  | nil => exact absurd trivial h
  | cons d later ih =>
      rw [fillDesired, findHeader_keyArray]
      by_cases hmemory : firstValue d.key pairs ≠ none → strdup i = true
      · obtain ⟨before, d', later', rfl, hfill⟩ := ih fun hlater => h ⟨hmemory, hlater⟩
        refine ⟨d :: before, d', later', rfl, ?_⟩
        rw [hfill]
        cases hvalue : firstValue d.key pairs with
        | none => simp [DesiredHeader.found, numFound, hvalue]
        | some value =>
            have hd : strdup i = true := hmemory (by rw [hvalue]; simp)
            simp [DesiredHeader.found, numFound, hvalue, hd]
      · obtain ⟨hvalue, hd⟩ := Classical.not_imp.mp hmemory
        obtain ⟨value, hvalue⟩ := Option.ne_none_iff_exists'.mp hvalue
        exact ⟨[], d, later, rfl, by simp [hvalue, hd, numFound]⟩

namespace ResponseArg

variable {arg arg' : ResponseArg} {heard : Heard}

/-- The values the client has to free. -/
def live (arg : ResponseArg) : ℕ :=
  arg.desiredHeaders.countP (·.value.isSome)

/-- The client has no values yet. -/
def Fresh (arg : ResponseArg) : Prop :=
  ∀ d ∈ arg.desiredHeaders, d.value = none

instance (arg : ResponseArg) : Decidable arg.Fresh :=
  inferInstanceAs (Decidable (∀ d ∈ arg.desiredHeaders, d.value = none))

/-- The argument after a call that found the values. -/
def filled (arg : ResponseArg) (code : ℤ) (pairs : List (Bytes × Bytes)) : ResponseArg :=
  ⟨code, arg.desiredHeaders.map (·.found pairs),
    arg.duplicated + numFound pairs arg.desiredHeaders⟩

/-- **The callback succeeds** if there is memory for the values. -/
theorem response_found (hheaders : heard.headers = keyArray pairs)
    (h : Duplicates strdup pairs 0 arg.desiredHeaders) :
    arg.response strdup heard = some (.success, arg.filled heard.responseCode pairs) := by
  rw [response, hheaders, fillDesired_found h]
  rfl

/-- What was found is what the client has to free. -/
theorem live_filled (arg : ResponseArg) (code : ℤ) (pairs : List (Bytes × Bytes)) :
    (arg.filled code pairs).live = numFound pairs arg.desiredHeaders := by
  rw [live, filled, List.countP_map]
  rfl

/-- **The callback fails** otherwise, and a client without values has to free what was
duplicated in front of the failure. -/
theorem response_fails (hheaders : heard.headers = keyArray pairs)
    (h : ¬ Duplicates strdup pairs 0 arg.desiredHeaders) :
    ∃ arg', arg.response strdup heard = some (.error .memory, arg') ∧
      arg'.responseCode = heard.responseCode ∧
      (arg.Fresh → arg'.duplicated = arg.duplicated + arg'.live) := by
  obtain ⟨before, d, later, hsplit, hfill⟩ := fillDesired_fails h
  refine ⟨_, by rw [response, hheaders, hfill]; rfl, rfl, fun hfresh => ?_⟩
  have hlater : later.countP (·.value.isSome) = 0 := by
    refine List.countP_eq_zero.mpr fun d' hd' => ?_
    rw [hfresh d' (by rw [hsplit]; simp [hd'])]
    exact Bool.false_ne_true
  simp only [live, List.countP_append, List.countP_map, List.countP_cons, hlater]
  rfl

end ResponseArg

end Found

/-! ### The responses of a request -/

/-- A header field as a pair. -/
def Field.toPair (f : Field) : Bytes × Bytes :=
  (f.key, f.value)

namespace Head

/-- The names and values of the fields. -/
def pairs (h : Head) : List (Bytes × Bytes) :=
  h.fields.map Field.toPair

/-- What the response callback is called with at the end of the head. -/
def heard (h : Head) : Heard :=
  ⟨h.code, h.scannedReason, h.fields.map Field.pair⟩

/-- These are the headers that the parser makes. -/
theorem heard_headers (h : Head) : h.heard.headers = keyArray h.pairs := by
  rw [keyArray, pairs, List.map_map]
  rfl

/-- The head, at the end of which the response callback returns `result`. -/
def answered (h : Head) (result : Result) : Head :=
  { h with response := result }

end Head

namespace Request

variable {request : Request}

/-- **The 100 Continue responses** leave the request as it was. -/
theorem Awaiting.receive_interims (h : request.Awaiting) {interims : List Head}
    (hinterims : ∀ head ∈ interims, head.code = 100 ∧ head.scannedReason ≠ [] ∧ head.Legible)
    (calls : List HeaderCall) :
    request.receive (interims.flatMap Head.calls ++ calls)
      = (request.receive calls).map
          (Reception.prepend (List.replicate (interims.flatMap Head.calls).length none)) := by
  induction interims with
  | nil =>
      rw [List.flatMap_nil, List.nil_append]
      cases request.receive calls <;> rfl
  | cons head interims ih =>
      obtain ⟨⟨h100, hreason, hlegible⟩, hlater⟩ := List.forall_mem_cons.mp hinterims
      rw [List.flatMap_cons, List.append_assoc, h.receive_interim h100 hreason hlegible, ih hlater,
        Option.map_map, List.length_append, ← List.replicate_append_replicate]
      refine congrArg (fun f => Option.map f _) (funext fun r => ?_)
      rw [Function.comp_apply, Reception.prepend_prepend]

/-- Where nothing is called, nothing is heard. -/
theorem filterMap_replicate_none {α : Type*} (n : ℕ) :
    (List.replicate n (none : Option α)).filterMap id = [] :=
  List.filterMap_eq_nil_iff.mpr fun _ ho => (List.eq_of_mem_replicate ho)

/-- **The final response** makes the callback be called once, and is accepted if that succeeds. -/
theorem Awaiting.receive_final (h : request.Awaiting) {interims : List Head}
    (hinterims : ∀ head ∈ interims, head.code = 100 ∧ head.scannedReason ≠ [] ∧ head.Legible)
    {final : Head} (hcode : final.code ≠ 100) (hreason : final.scannedReason ≠ [])
    (hlegible : final.Legible) (hsearch : request.SearchDefined (final.fields.map Field.pair))
    (result : Result) :
    ∃ r, request.receive ((interims ++ [final.answered result]).flatMap Head.calls) = some r ∧
      r.heard.filterMap id = [final.heard] ∧ (r.accepted = true ↔ result = .success) := by
  have hsplit : (interims ++ [final.answered result]).flatMap Head.calls
      = interims.flatMap Head.calls ++ ((final.answered result).calls ++ []) := by
    simp
  obtain ⟨found, hfound, hcalls⟩ :=
    h.receive_other (show (final.answered result).code ≠ 100 from hcode)
      (show (final.answered result).scannedReason ≠ [] from hreason)
      (show (final.answered result).Legible from hlegible) []
  obtain ⟨last, rfl⟩ := Option.isSome_iff_exists.mp (hfound.mpr hsearch)
  rw [hsplit, h.receive_interims hinterims, hcalls, Option.bind_some]
  have hresponse : (final.answered result).response = result := rfl
  rw [hresponse]
  by_cases hsuccess : result = .success
  · rw [if_pos hsuccess]
    refine ⟨_, rfl, ?_, iff_of_true rfl hsuccess⟩
    simp only [Reception.prepend, List.filterMap_append, filterMap_replicate_none]
    rfl
  · rw [if_neg hsuccess]
    refine ⟨_, rfl, ?_, iff_of_false Bool.false_ne_true hsuccess⟩
    simp only [Reception.prepend, List.filterMap_append, filterMap_replicate_none]
    rfl

/-- **The client has the headers it asks for.** Let a request with `globus_dsi_rest_response` as
its callback get any number of 100 Continue responses and a final one. The callback is called
once, and the values it duplicated are those the client has. If there is memory for the values,
all lines are accepted, and the client finds the code of the final response and for each of its
headers the value of the first field of the final response with that name. Otherwise the last
line is refused, and the request fails. -/
theorem desired_received {u d : ℕ} (hstatus : request.Expecting)
    (hheaders : request.headers = HeaderList.empty)
    (hcallback : request.responseCallback = .response u d) {interims : List Head}
    (hinterims : ∀ head ∈ interims, head.code = 100 ∧ head.scannedReason ≠ [] ∧ head.Legible)
    {final : Head} (hcode : final.code ≠ 100) (hreason : final.scannedReason ≠ [])
    (hlegible : final.Legible) (hsearch : request.SearchDefined (final.fields.map Field.pair))
    {arg : ResponseArg} (hfresh : arg.Fresh) (strdup : ℕ → Bool) :
    ∃ result arg' r, arg.response strdup final.heard = some (result, arg') ∧
      request.receive ((interims ++ [final.answered result]).flatMap Head.calls) = some r ∧
      r.heard.filterMap id = [final.heard] ∧ arg'.responseCode = final.code ∧
      arg'.duplicated = arg.duplicated + arg'.live ∧
      (Duplicates strdup final.pairs 0 arg.desiredHeaders →
        r.accepted = true ∧
          arg'.desiredHeaders = arg.desiredHeaders.map (·.found final.pairs)) ∧
      (¬ Duplicates strdup final.pairs 0 arg.desiredHeaders →
        r.accepted = false ∧
          ∀ finalRead, r.request.performThread writeError finalRead ≠ .success) := by
  have h : request.Awaiting := ⟨hstatus, hheaders, by rw [hcallback]; simp⟩
  have hreceive := h.receive_final hinterims hcode hreason hlegible hsearch
  by_cases hmemory : Duplicates strdup final.pairs 0 arg.desiredHeaders
  · obtain ⟨r, hr, hheard, haccepted⟩ := hreceive .success
    refine ⟨.success, _, r, ResponseArg.response_found final.heard_headers hmemory, hr, hheard, rfl,
      ?_, fun _ => ⟨haccepted.mpr rfl, rfl⟩, fun hnot => absurd hmemory hnot⟩
    rw [ResponseArg.live_filled]
    rfl
  · obtain ⟨arg', hresponse, hcode', hlive⟩ :=
      ResponseArg.response_fails final.heard_headers hmemory
    obtain ⟨r, hr, hheard, haccepted⟩ := hreceive (.error .memory)
    refine ⟨.error .memory, arg', r, hresponse, hr, hheard, hcode', hlive hfresh,
      fun hall => absurd hall hmemory, fun _ => ⟨?_, performThread_writeError r.request⟩⟩
    exact Bool.eq_false_of_not_eq_true fun hall => absurd (haccepted.mp hall) (by simp)

/-- The field `Location: /a` is a header line. -/
theorem location_spec :
    bytes "Location" ≠ [] ∧ colon ∉ bytes "Location" ∧ cr ∉ bytes "Location" ∧
      0 ∉ bytes "Location" ∧ (∀ b ∈ [space], b = space ∨ b = tab) ∧
      (∀ b ∈ (bytes "/a").head?, isHeaderSpace b = false) ∧ cr ∉ bytes "/a" ∧ 0 ∉ bytes "/a" ∧
      (bytes "Location" ++ [colon] ++ [space] ++ bytes "/a" ++ crlf).length < word := by
  decide +kernel

/-- A header field. -/
def location : Field :=
  have h := location_spec
  ⟨bytes "Location", [space], bytes "/a", [], h.1, h.2.1, h.2.2.1, h.2.2.2.1, h.2.2.2.2.1,
    h.2.2.2.2.2.1, h.2.2.2.2.2.2.1, h.2.2.2.2.2.2.2.1, h.2.2.2.2.2.2.2.2⟩

/-- A response with that field. -/
def created : Head :=
  { done with fields := [location] }

/-- The case of a header that is found, in other letters, and one that is not. -/
theorem desired_received_location :
    let arg : ResponseArg := ⟨0, [⟨bytes "location", none⟩, ⟨bytes "ETag", none⟩], 0⟩
    let request : Request := { query with responseCallback := .response 0 0 }
    ∃ result arg' r, arg.response (fun _ => true) created.heard = some (result, arg') ∧
      request.receive (([Head.goOn] ++ [created.answered result]).flatMap Head.calls) = some r ∧
      r.accepted = true ∧
      arg'.desiredHeaders = [⟨bytes "location", some (bytes "/a")⟩, ⟨bytes "ETag", none⟩] := by
  intro arg request
  have hinterims : ∀ head ∈ [Head.goOn],
      head.code = 100 ∧ head.scannedReason ≠ [] ∧ head.Legible := by
    intro head hhead
    obtain rfl := List.mem_singleton.mp hhead
    decide +kernel
  have hmemory : Duplicates (fun _ => true) created.pairs 0 arg.desiredHeaders :=
    ⟨fun _ => rfl, fun _ => rfl, trivial⟩
  have hstatus : request.Expecting := ⟨rfl, rfl⟩
  have hreason : created.scannedReason ≠ [] := by decide
  have hfresh : arg.Fresh := by decide
  obtain ⟨result, arg', r, hresponse, hr, -, -, -, hfound, -⟩ :=
    desired_received hstatus rfl rfl hinterims (by decide) hreason (by decide)
      (fun _ hread => absurd hread (by simp [request, query])) hfresh (fun _ => true)
  obtain ⟨haccepted, hdesired⟩ := hfound hmemory
  exact ⟨result, arg', r, hresponse, hr, haccepted, hdesired.trans (by decide +kernel)⟩

end Request

end DsiRest
