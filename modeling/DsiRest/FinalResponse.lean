import DsiRest.ResponseHead

/-!
# The Response Callback

A response callback is meant to be called once for a request, with the status line and the
header fields of the final response. The header callback of the library calls it at every
empty line, except behind a response with the code 100, after which it also forgets the
status line and the header fields it has seen.

## Main results

* `Request.Awaiting.receive_interim` — a request is as before behind a 100 Continue.
* `Request.Awaiting.receive_other` — the lines of any other head.
* `Request.response_heard_iff` — when the callback is called for the final response only.
-/

namespace DsiRest

/-- The number of lines of a head. -/
theorem Head.length_calls (h : Head) : h.calls.length = h.fields.length + 2 := by
  simp [calls]

/-- The reason phrase is stored as it is exactly if it is not empty, does not begin with
white space and fits. -/
theorem Head.scannedReason_eq_reason {h : Head} :
    h.scannedReason ≠ [] ∧ h.scannedReason = h.reason ↔
      h.reason ≠ [] ∧ (∀ b ∈ h.reason.head?, isSpace b = false) ∧ h.reason.length ≤ 64 := by
  rw [scannedReason]
  cases hreason : h.reason with
  | nil => simp
  | cons b reason =>
      by_cases hb : isSpace b = true
      · have hshort : ((reason.dropWhile isSpace).take 64).length < (b :: reason).length := by
          rw [List.length_take, List.length_cons]
          have := (List.dropWhile_sublist (l := reason) isSpace).length_le
          omega
        have hne : (reason.dropWhile isSpace).take 64 ≠ b :: reason := fun h => by
          rw [h] at hshort
          exact lt_irrefl _ hshort
        simp [hb, hne]
      · have hfirst : ∀ c ∈ (b :: reason).head?, isSpace c = false := by
          intro c hc
          obtain rfl := Option.some.inj hc
          simpa using hb
        rw [List.dropWhile_cons_of_neg hb, List.take_eq_self_iff]
        constructor
        · rintro ⟨-, hlen⟩
          exact ⟨List.cons_ne_nil _ _, hfirst, hlen⟩
        · rintro ⟨-, -, hlen⟩
          exact ⟨by simp, hlen⟩

namespace Request

/-- A request with a response callback, before anything of the response arrived. -/
structure Awaiting (request : Request) : Prop where
  status : request.Expecting
  headers : request.headers = HeaderList.empty
  responseCallback : request.responseCallback ≠ .none

/-- The search for a boundary, if the request makes one, stays within the headers. -/
def SearchDefined (request : Request) (headers : KeyArray) : Prop :=
  ∀ arg, request.dataReadCallback = .multipart arg → (responseBoundary headers).isSome = true

/-- The response callback is called once, at the last of the calls, with what is given. -/
def HearsLast (request : Request) (calls : List HeaderCall) (heard : Heard) : Prop :=
  ∃ r, request.receive calls = some r ∧
    r.heard = List.replicate (calls.length - 1) none ++ [some heard]

/-- The response callback is called once, at the end of the final response, with what is in
that. -/
def HearsFinal (request : Request) (interims : List Head) (final : Head) : Prop :=
  request.HearsLast ((interims ++ [final]).flatMap Head.calls)
    ⟨final.code, final.reason, final.fields.map Field.pair⟩

variable {request : Request}

/-- Looking for the boundary is defined exactly if the search stays within the headers. -/
theorem isSome_updateBoundary :
    request.updateBoundary.isSome = true ↔ request.SearchDefined request.headers.entries := by
  rw [updateBoundary, SearchDefined]
  cases request.dataReadCallback with
  | multipart arg =>
      cases responseBoundary request.headers.entries with
      | none => simp
      | some found => cases found <;> simp
  | none => simp
  | gridftpOp => simp
  | client => simp

/-! ### The lines of a head -/

/-- A status line without a reason is refused. -/
theorem Awaiting.receive_blank (h : request.Awaiting) {head : Head}
    (hblank : head.scannedReason = []) (calls : List HeaderCall) :
    request.receive (head.calls ++ calls)
      = some ⟨{ request with responseCode := head.code }, false, [none]⟩ := by
  rw [Head.calls, List.cons_append, receive_status h.status, if_pos hblank]

/-- The lines of a head up to the empty one. -/
theorem Awaiting.receive_lines (h : request.Awaiting) {head : Head}
    (hreason : head.scannedReason ≠ []) (calls : List HeaderCall) :
    request.receive (head.calls ++ calls)
      = if head.Legible then
          (Request.receive { request with
            responseCode := head.code, responseReason := head.scannedReason
            headers := HeaderList.empty.pushFields head.fields } (head.blankCall :: calls)).map
              (Reception.prepend (List.replicate (head.fields.length + 1) none))
        else none := by
  have hstatus : ¬ Expecting { request with
      responseCode := head.code, responseReason := head.scannedReason } :=
    fun hexp => hreason hexp.2
  have hlisten : Listening { request with
      responseCode := head.code, responseReason := head.scannedReason } :=
    Or.inl h.responseCallback
  rw [Head.calls, List.cons_append, List.append_assoc, List.singleton_append,
    receive_status h.status, if_neg hreason, receive_fields hstatus hlisten]
  by_cases hlegible : head.Legible
  · rw [if_pos hlegible, if_pos (show ∀ f ∈ head.fields, f.Legible from hlegible), Option.map_map,
      h.headers]
    refine congrArg (fun f => Option.map f _) (funext fun r => ?_)
    rw [Function.comp_apply, Reception.prepend_prepend, List.replicate_succ]
    rfl
  · rw [if_neg hlegible, if_neg (show ¬ ∀ f ∈ head.fields, f.Legible from hlegible)]
    rfl

/-- **A 100 Continue** leaves the request as it was. -/
theorem Awaiting.receive_interim (h : request.Awaiting) {head : Head} (h100 : head.code = 100)
    (hreason : head.scannedReason ≠ []) (hlegible : head.Legible) (calls : List HeaderCall) :
    request.receive (head.calls ++ calls)
      = (request.receive calls).map
          (Reception.prepend (List.replicate head.calls.length none)) := by
  have hstatus : ¬ Expecting { request with
      responseCode := head.code, responseReason := head.scannedReason
      headers := HeaderList.empty.pushFields head.fields } :=
    fun hexp => hreason hexp.2
  have hsame : { request with
      responseCode := 0, responseReason := [], headers := HeaderList.empty } = request := by
    rw [← h.status.1, ← h.status.2, ← h.headers]
  rw [h.receive_lines hreason, if_pos hlegible,
    receive_continue hstatus (Or.inl h.responseCallback) (by rw [h100]; rfl), Option.map_map]
  simp only [hsame]
  refine congrArg (fun f => Option.map f _) (funext fun r => ?_)
  rw [Function.comp_apply, Reception.prepend_prepend, head.length_calls]
  exact congrArg (r.prepend ·) (List.replicate_succ' ..).symm

/-- **Any other head** makes the response callback be called at its end. -/
theorem Awaiting.receive_other (h : request.Awaiting) {head : Head} (h100 : head.code ≠ 100)
    (hreason : head.scannedReason ≠ []) (hlegible : head.Legible) (calls : List HeaderCall) :
    ∃ last : Option Request,
      (last.isSome = true ↔ request.SearchDefined (head.fields.map Field.pair)) ∧
      request.receive (head.calls ++ calls)
        = last.bind fun last => if head.response = .success then
            (last.receive calls).map
              (Reception.prepend (List.replicate (head.fields.length + 1) none ++
                [some ⟨head.code, head.scannedReason, head.fields.map Field.pair⟩]))
          else some ⟨last, false, List.replicate (head.fields.length + 1) none ++
            [some ⟨head.code, head.scannedReason, head.fields.map Field.pair⟩]⟩ := by
  set whole : Request := { request with
    responseCode := head.code, responseReason := head.scannedReason
    headers := HeaderList.empty.pushFields head.fields } with hwhole
  have hstatus : ¬ whole.Expecting := fun hexp => hreason hexp.2
  have hcode : whole.responseCode ≠ 100 := by
    show ((head.code : ℕ) : ℤ) ≠ 100
    exact_mod_cast h100
  have hentries : whole.headers.entries = head.fields.map Field.pair := by
    rw [hwhole, HeaderList.pushFields_entries]
    rfl
  refine ⟨({ whole with headers := whole.headers.grow } : Request).updateCounters.updateBoundary,
    ?_, ?_⟩
  · rw [isSome_updateBoundary, updateCounters]
    split <;> simp only [HeaderList.grow_entries, hentries] <;> exact Iff.rfl
  · rw [h.receive_lines hreason, if_pos hlegible, receive_response hstatus
      (Or.inl h.responseCallback) hcode h.responseCallback, hentries]
    generalize ({ whole with headers := whole.headers.grow } :
      Request).updateCounters.updateBoundary = found
    cases found with
    | none => rfl
    | some last =>
        rw [Option.bind_some, Option.bind_some]
        split
        · rw [Option.map_map]
          refine congrArg (fun f => Option.map f _) (funext fun r => ?_)
          rw [Function.comp_apply, Reception.prepend_prepend]
        · rfl

/-! ### What is heard -/

/-- Where a list has its only element tells how it is cut. -/
theorem replicate_none_append {α : Type*} {x y : α} {tail : List (Option α)} :
    ∀ {m n : ℕ}, List.replicate m none ++ some x :: tail = List.replicate n none ++ [some y] →
      m = n ∧ x = y
  | 0, 0, h => ⟨rfl, Option.some.inj (List.cons.inj h).1⟩
  | 0, n + 1, h => absurd (List.cons.inj h).1 (by simp)
  | m + 1, 0, h => absurd (List.cons.inj h).1 (by simp)
  | m + 1, n + 1, h => by
      obtain ⟨hcut, hsame⟩ := replicate_none_append (List.cons.inj h).2
      exact ⟨congrArg (· + 1) hcut, hsame⟩

/-- Lines during which nothing is called do not matter. -/
theorem hearsLast_prepend {request' : Request} {calls calls' : List HeaderCall} {heard : Heard}
    (hne : calls' ≠ [])
    (h : request.receive (calls ++ calls') = (request'.receive calls').map
      (Reception.prepend (List.replicate calls.length none))) :
    request.HearsLast (calls ++ calls') heard ↔ request'.HearsLast calls' heard := by
  have hlen : (calls ++ calls').length - 1 = calls.length + (calls'.length - 1) := by
    have := List.length_pos_iff.mpr hne
    rw [List.length_append]
    omega
  simp only [HearsLast, h, hlen, Option.map_eq_some_iff, ← List.replicate_append_replicate,
    List.append_assoc]
  constructor
  · rintro ⟨-, ⟨r, hr, rfl⟩, hheard⟩
    exact ⟨r, hr, List.append_cancel_left hheard⟩
  · rintro ⟨r, hr, hheard⟩
    exact ⟨_, ⟨r, hr, rfl⟩, congrArg (List.replicate calls.length none ++ ·) hheard⟩

/-- A head with a blank reason is not heard of. -/
theorem Awaiting.not_hearsLast_blank (h : request.Awaiting) {head : Head}
    (hblank : head.scannedReason = []) (calls : List HeaderCall) (heard : Heard) :
    ¬ request.HearsLast (head.calls ++ calls) heard := by
  rintro ⟨r, hr, hheard⟩
  rw [h.receive_blank hblank] at hr
  rw [← Option.some.inj hr] at hheard
  have hlast := congrArg List.getLast? hheard
  simp at hlast

/-- Behind a head that the parser leaves nothing is defined. -/
theorem Awaiting.not_hearsLast_illegible (h : request.Awaiting) {head : Head}
    (hreason : head.scannedReason ≠ []) (hillegible : ¬ head.Legible) (calls : List HeaderCall)
    (heard : Heard) : ¬ request.HearsLast (head.calls ++ calls) heard := by
  rintro ⟨r, hr, -⟩
  rw [h.receive_lines hreason, if_neg hillegible] at hr
  exact absurd hr (by simp)

/-- A head that is no 100 Continue is heard of at its end. -/
theorem Awaiting.hearsLast_other (h : request.Awaiting) {head : Head} (h100 : head.code ≠ 100)
    (hreason : head.scannedReason ≠ []) (hlegible : head.Legible) {calls : List HeaderCall}
    {heard : Heard} (hheard : request.HearsLast (head.calls ++ calls) heard) :
    calls = [] ∧ ⟨head.code, head.scannedReason, head.fields.map Field.pair⟩ = heard ∧
      request.SearchDefined (head.fields.map Field.pair) := by
  obtain ⟨r, hr, hheard⟩ := hheard
  obtain ⟨found, hfound, hreceive⟩ := h.receive_other h100 hreason hlegible calls
  rw [hreceive, Option.bind_eq_some_iff] at hr
  obtain ⟨last, hlast, hr⟩ := hr
  obtain ⟨tail, htail⟩ : ∃ tail, r.heard = List.replicate (head.fields.length + 1) none ++
      some ⟨head.code, head.scannedReason, head.fields.map Field.pair⟩ :: tail := by
    split at hr
    · obtain ⟨rest, -, rfl⟩ := Option.map_eq_some_iff.mp hr
      exact ⟨rest.heard, by simp [Reception.prepend]⟩
    · exact ⟨[], by rw [← Option.some.inj hr]⟩
  rw [htail] at hheard
  obtain ⟨hcut, hsame⟩ := replicate_none_append hheard
  rw [List.length_append, head.length_calls] at hcut
  exact ⟨List.length_eq_zero_iff.mp (by omega), hsame, hfound.mp (by rw [hlast]; rfl)⟩

/-- The final response, with nothing in front of it. -/
theorem Awaiting.hearsFinal_nil (h : request.Awaiting) {final : Head} (hfinal : 200 ≤ final.code) :
    request.HearsFinal [] final ↔
      (final.scannedReason ≠ [] ∧ final.scannedReason = final.reason) ∧ final.Legible ∧
        request.SearchDefined (final.fields.map Field.pair) := by
  have hcalls : ([] ++ [final]).flatMap Head.calls = final.calls ++ [] := by simp
  rw [HearsFinal, hcalls]
  by_cases hblank : final.scannedReason = []
  · exact iff_of_false (h.not_hearsLast_blank hblank _ _) fun hall => hall.1.1 hblank
  by_cases hlegible : final.Legible
  swap
  · exact iff_of_false (h.not_hearsLast_illegible hblank hlegible _ _)
      fun hall => hlegible hall.2.1
  have h100 : final.code ≠ 100 := by omega
  constructor
  · intro hheard
    obtain ⟨-, hsame, hsearch⟩ := h.hearsLast_other h100 hblank hlegible hheard
    exact ⟨⟨hblank, congrArg Heard.responseReason hsame⟩, hlegible, hsearch⟩
  · rintro ⟨⟨-, hreason⟩, -, hsearch⟩
    obtain ⟨found, hfound, hreceive⟩ := h.receive_other h100 hblank hlegible []
    obtain ⟨last, rfl⟩ := Option.isSome_iff_exists.mp (hfound.mpr hsearch)
    have hlen : (final.calls ++ []).length - 1 = final.fields.length + 1 := by
      simp [final.length_calls]
    rw [Option.bind_some, hreason] at hreceive
    rw [HearsLast, hlen, hreceive]
    split
    · exact ⟨_, rfl, by simp [Reception.prepend]⟩
    · exact ⟨_, rfl, rfl⟩

/-- **When the response callback is called for the final response only.** Let a request
with a response callback get any number of complete interim responses and a final one. Its
callback is called exactly once, at the end of the final response and with the code, the
reason and the header fields of that, if and only if every interim response is a 100
Continue with a reason, the final reason is not empty, does not begin with white space and
has at most 64 bytes, no header line makes the parser leave it, and the search for a
boundary stays within the headers. -/
theorem response_heard_iff (h : request.Awaiting) (interims : List Head) {final : Head}
    (hfinal : 200 ≤ final.code) :
    request.HearsFinal interims final ↔
      (∀ head ∈ interims, head.code = 100 ∧ head.scannedReason ≠ [] ∧ head.Legible) ∧
      (final.reason ≠ [] ∧ (∀ b ∈ final.reason.head?, isSpace b = false) ∧
        final.reason.length ≤ 64) ∧
      final.Legible ∧ request.SearchDefined (final.fields.map Field.pair) := by
  rw [← Head.scannedReason_eq_reason]
  induction interims with
  | nil =>
      rw [h.hearsFinal_nil hfinal]
      exact ⟨fun hall => ⟨fun head hhead => absurd hhead List.not_mem_nil, hall⟩, And.right⟩
  | cons head interims ih =>
      have hne : (interims ++ [final]).flatMap Head.calls ≠ [] := by simp [Head.calls]
      rw [HearsFinal, List.cons_append, List.flatMap_cons, List.forall_mem_cons]
      by_cases hblank : head.scannedReason = []
      · exact iff_of_false (h.not_hearsLast_blank hblank _ _) fun hall => hall.1.1.2.1 hblank
      by_cases hlegible : head.Legible
      swap
      · exact iff_of_false (h.not_hearsLast_illegible hblank hlegible _ _)
          fun hall => hlegible hall.1.1.2.2
      by_cases h100 : head.code = 100
      · rw [hearsLast_prepend hne (h.receive_interim h100 hblank hlegible _)]
        exact ih.trans (by simp [h100, hblank, hlegible])
      · exact iff_of_false (fun hheard => hne (h.hearsLast_other h100 hblank hlegible hheard).1)
          fun hall => h100 hall.1.1.1

/-! ### Interim responses -/

/-- A response that asks to wait. -/
def processing : Head :=
  ⟨bytes "1.1", 102, bytes "Processing", [], [], [], .success, version_ne_nil, version_isSpace,
    nul_notMem_version, by decide, by decide, by decide, by decide⟩

/-- A response without header fields. -/
def done : Head :=
  ⟨bytes "1.1", 200, bytes "OK", [], [], [], .success, version_ne_nil, version_isSpace,
    nul_notMem_version, by decide, by decide, by decide, by decide⟩

/-- A request of a client that reads the response. -/
def query : Request :=
  ⟨.success, 0, [], 0, 0, false, .client, HeaderList.empty, .client, false⟩

/-- The case of a response behind two that ask to go on, and behind another. -/
theorem response_heard_iff_processing :
    query.HearsFinal [Head.goOn, Head.goOn] done ∧ ¬ query.HearsFinal [processing] done := by
  have hawaiting : query.Awaiting := ⟨⟨rfl, rfl⟩, rfl, by simp [query]⟩
  constructor
  · refine (response_heard_iff hawaiting [Head.goOn, Head.goOn] (by decide)).mpr
      ⟨by decide +kernel, by decide +kernel, by decide, fun arg harg => ?_⟩
    exact absurd harg (by simp [query])
  · intro hhears
    have hcodes := ((response_heard_iff hawaiting [processing] (by decide)).mp hhears).1
    exact absurd (hcodes processing (List.mem_singleton_self _)).1 (by decide)

/-- The callback is called for a 102 Processing, and behind the final response with the
status line of that again. -/
theorem response_processing :
    ¬ ∀ request : Request, request.Awaiting →
      ∀ interims : List Head, (∀ head ∈ interims, head.code < 200) →
      ∀ final : Head, 200 ≤ final.code → request.HearsFinal interims final := by
  intro h
  obtain ⟨r, hr, hheard⟩ := h query ⟨⟨rfl, rfl⟩, rfl, by simp [query]⟩ [processing] (by decide) done
    (by decide)
  have hrun : (query.receive (([processing] ++ [done]).flatMap Head.calls)).map Reception.heard
      = some [none, some ⟨102, bytes "Processing", []⟩, none,
        some ⟨102, bytes "Processing", []⟩] := by
    decide +kernel
  rw [hr] at hrun
  exact absurd (hheard.symm.trans (Option.some.inj hrun)) (by decide)

end Request

end DsiRest
