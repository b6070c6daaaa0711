import DsiRest.Prepare

/-!
# The Header List of a Request

`globus_dsi_rest_request` turns the client's header array into the list of header lines
for libcurl, and adds a `Transfer-Encoding: chunked` line to a request with a body that
the client does not frame itself. `globus_i_dsi_rest_compute_headers` passes over the
placeholders in the array, entries with a `NULL` key or value; the search for a framing
header does not, and dereferences every key up to the first framing name.

`curl_slist_append` can fail; whether it does when a list has `n` lines is a parameter.

## Main results

* `computeHeaders_eq` — the emitted lines are those of the entries that are in use.
* `framesBody_iff` — when the library's line is added exactly to the requests that need
  it, and no `NULL` key is dereferenced.
-/

namespace DsiRest

/-! ### The list -/

/-- `curl_slist_append`. -/
def curlSlistAppend (fails : ℕ → Bool) (lines : List Bytes) (line : Bytes) :
    Option (List Bytes) :=
  if fails lines.length then none else some (lines ++ [line])

/-- `globus_i_dsi_rest_add_header`. -/
def addHeader (fails : ℕ → Bool) (lines : List Bytes) (headerName headerValue : Bytes) :
    Except PrepareFailure (List Bytes) :=
  match curlSlistAppend fails lines (headerName ++ bytes ": " ++ headerValue) with
  | none => .error (.result .memory)
  | some lines => .ok lines

/-- The loop of `globus_i_dsi_rest_compute_headers`. A failure frees the list. -/
def computeHeaders (fails : ℕ → Bool) :
    KeyArray → List Bytes → Except PrepareFailure (List Bytes)
  | [], lines => .ok lines
  | ⟨some key, some value⟩ :: headers, lines => do
    let lines ← addHeader fails lines key value
    computeHeaders fails headers lines
  | _ :: headers, lines => computeHeaders fails headers lines

/-- The names of headers that frame a body. -/
def isFramingName (key : Bytes) : Bool :=
  strcaseeq key (bytes "Transfer-Encoding") || strcaseeq key (bytes "Content-Length")

/-- The search for a header with a framing name. A `NULL` key met on the way is
dereferenced. -/
def framingSearch : KeyArray → Except PrepareFailure Bool
  | [] => .ok false
  | ⟨none, _⟩ :: _ => .error .badPointer
  | ⟨some key, _⟩ :: headers =>
    if isFramingName key then .ok true else framingSearch headers

/-- The test for a request that may have a body. -/
def mayHaveBody (method : Bytes) (dataWriteCallback : Bool) : Bool :=
  method == bytes "POST" || method == bytes "PATCH" || method == bytes "PUT" ||
    dataWriteCallback

/-- The headers of the write part: a copy of the client's array, with what the preparation
of the write callback adds. -/
def preparedHeaders (uuid : ℕ → Bytes) (headers : KeyArray) :
    Option ClientWriter → ℕ → Except PrepareFailure KeyArray
  | none, _ => .ok headers
  | some writer, drawn => do
    let (part, _) ← prepareWriteCallbacks uuid headers writer drawn
    pure part.headers

/-- The header list of a request with prepared headers, as it is handed to libcurl. -/
def requestHeaders (fails : ℕ → Bool) (method : Bytes) (headers prepared : KeyArray)
    (dataWriteCallback : Bool) : Except PrepareFailure (List Bytes) := do
  let lines ← computeHeaders fails prepared []
  if mayHaveBody method dataWriteCallback then
    if ← framingSearch headers then pure lines
    else addHeader fails lines (bytes "Transfer-Encoding") (bytes "chunked")
  else pure lines

/-! ### Emitted lines -/

/-- The line of an entry that is in use. -/
def KeyValue.line (kv : KeyValue) : Option Bytes :=
  match kv.key, kv.value with
  | some key, some value => some (key ++ bytes ": " ++ value)
  | _, _ => none

/-- The lines of an array. -/
def emittedLines (headers : KeyArray) : List Bytes :=
  headers.filterMap KeyValue.line

/-- The entry has a framing name, in use or not. -/
def KeyValue.namesFraming (kv : KeyValue) : Bool :=
  kv.key.any isFramingName

/-- A line with a framing name is emitted from the array. -/
def emitsFraming (headers : KeyArray) : Bool :=
  headers.any fun kv => kv.namesFraming && kv.value.isSome

/-- The library's own line. -/
def chunkedLine : Bytes :=
  bytes "Transfer-Encoding: chunked"

/-- An entry in use adds its line. -/
theorem computeHeaders_pair (fails : ℕ → Bool) (key value : Bytes) (headers : KeyArray)
    (lines : List Bytes) :
    computeHeaders fails (.pair key value :: headers) lines =
      if fails lines.length then .error (.result .memory)
      else computeHeaders fails headers (lines ++ [key ++ bytes ": " ++ value]) := by
  simp only [computeHeaders, addHeader, curlSlistAppend, bind, Except.bind]
  by_cases hfails : fails lines.length = true
  · rw [if_pos hfails, if_pos hfails]
  · rw [if_neg hfails, if_neg hfails]

theorem emittedLines_pair (key value : Bytes) (headers : KeyArray) :
    emittedLines (.pair key value :: headers)
      = (key ++ bytes ": " ++ value) :: emittedLines headers := rfl

/-- **The emitted lines are those of the entries in use**, unless an allocation fails. -/
theorem computeHeaders_eq (fails : ℕ → Bool) : ∀ (headers : KeyArray) (lines : List Bytes),
    computeHeaders fails headers lines = .ok (lines ++ emittedLines headers) ∨
      (∃ n, fails n = true) ∧ computeHeaders fails headers lines = .error (.result .memory) := by
  intro headers
  induction headers with
  | nil =>
      intro lines
      exact Or.inl (by simp [computeHeaders, emittedLines])
  | cons kv headers ih =>
      intro lines
      obtain ⟨key, value⟩ := kv
      cases key with
      | none => exact ih lines
      | some key =>
          cases value with
          | none => exact ih lines
          | some value =>
              rw [computeHeaders_pair, emittedLines_pair]
              by_cases hfails : fails lines.length = true
              · rw [if_pos hfails]
                exact Or.inr ⟨⟨_, hfails⟩, rfl⟩
              · have happend : lines ++ (key ++ bytes ": " ++ value) :: emittedLines headers
                    = lines ++ [key ++ bytes ": " ++ value] ++ emittedLines headers := by simp
                rw [if_neg hfails, happend]
                exact ih _

/-! ### The search for a framing header -/

/-- No entry without a key stands before the first one with a framing name. -/
def KeysBeforeFraming (headers : KeyArray) : Prop :=
  ∀ kv ∈ headers.takeWhile (!·.namesFraming), kv.key ≠ none

/-- The search finds a framing name, used or not, and meets the keys before it. -/
theorem framingSearch_eq : ∀ headers : KeyArray,
    (KeysBeforeFraming headers ∧
        framingSearch headers = .ok (headers.any KeyValue.namesFraming)) ∨
      (¬ KeysBeforeFraming headers ∧ framingSearch headers = .error .badPointer) := by
  intro headers
  induction headers with
  | nil => exact Or.inl ⟨fun kv hkv => absurd hkv (by simp), rfl⟩
  | cons kv headers ih =>
      obtain ⟨key, value⟩ := kv
      cases key with
      | none =>
          refine Or.inr ⟨fun h => h ⟨none, value⟩ ?_ rfl, rfl⟩
          simp [KeyValue.namesFraming]
      | some key =>
          by_cases hname : isFramingName key = true
          · refine Or.inl ⟨fun kv hkv => ?_, ?_⟩
            · simp [KeyValue.namesFraming, hname] at hkv
            · simp [framingSearch, KeyValue.namesFraming, hname]
          · have hkeys : KeysBeforeFraming (⟨some key, value⟩ :: headers)
                ↔ KeysBeforeFraming headers := by
              simp [KeysBeforeFraming, KeyValue.namesFraming, hname]
            have hany : (⟨some key, value⟩ :: headers : KeyArray).any KeyValue.namesFraming
                = headers.any KeyValue.namesFraming := by
              simp [KeyValue.namesFraming, hname]
            rw [framingSearch, if_neg hname, hkeys, hany]
            exact ih

/-! ### Framing -/

/-- The request has a multipart writer, whose preparation looks for a content type. -/
def isMultipartWriter : Option ClientWriter → Bool
  | some (.multipart _) => true
  | _ => false

/-- The preparation of the write callback succeeds, or it comes to a `NULL` key in the
client's array. -/
def PreparedOrNull (uuid : ℕ → Bytes) (headers : KeyArray) (writer : Option ClientWriter)
    (drawn : ℕ) : Prop :=
  (∃ prepared, preparedHeaders uuid headers writer drawn = .ok prepared) ∨
    isMultipartWriter writer = true ∧ headersSearch headers = .error .badPointer

/-- What the header list of a request is meant to be. No `NULL` key is dereferenced, and
whenever a list is handed over, the library's line stands behind the emitted ones exactly
if the request may have a body and no emitted line frames it. -/
structure FramesBody (uuid : ℕ → Bytes) (method : Bytes) (headers : KeyArray)
    (writer : Option ClientWriter) (drawn : ℕ) : Prop where
  searched : isMultipartWriter writer = true → headersSearch headers ≠ .error .badPointer
  built : ∀ fails prepared, preparedHeaders uuid headers writer drawn = .ok prepared →
    requestHeaders fails method headers prepared writer.isSome ≠ .error .badPointer
  framed : ∀ fails prepared lines, preparedHeaders uuid headers writer drawn = .ok prepared →
    requestHeaders fails method headers prepared writer.isSome = .ok lines →
    lines = emittedLines prepared ++
      if mayHaveBody method writer.isSome && !emitsFraming headers then [chunkedLine] else []

/-- No entry without a key stands before the first content type. -/
def KeysBeforeContentType (headers : KeyArray) : Prop :=
  ∀ kv ∈ headers.takeWhile (!·.key.any (strcaseeq · (bytes "Content-Type"))), kv.key ≠ none

/-- The search for the content type meets a `NULL` key before it, or none. -/
theorem headersSearch_error_iff : ∀ headers : KeyArray,
    headersSearch headers = .error .badPointer ↔ ¬ KeysBeforeContentType headers := by
  intro headers
  induction headers with
  | nil => simp [headersSearch, KeysBeforeContentType]
  | cons kv headers ih =>
      obtain ⟨key, value⟩ := kv
      cases key with
      | none => simp [headersSearch, KeysBeforeContentType]
      | some key =>
          by_cases hname : strcaseeq key (bytes "Content-Type") = true
          · simp [headersSearch, KeysBeforeContentType, hname]
          · have hkeys : KeysBeforeContentType (⟨some key, value⟩ :: headers)
                ↔ KeysBeforeContentType headers := by
              simp [KeysBeforeContentType, hname]
            rw [headersSearch, if_neg hname, hkeys]
            exact ih

/-- A multipart writer that is prepared was not stopped by its search. -/
theorem headersSearch_of_preparedHeaders {uuid : ℕ → Bytes} {headers prepared : KeyArray}
    {writer : Option ClientWriter} {drawn : ℕ} (hwriter : isMultipartWriter writer = true)
    (h : preparedHeaders uuid headers writer drawn = .ok prepared) :
    headersSearch headers ≠ .error .badPointer := by
  intro hsearch
  match writer, hwriter with
  | some (.multipart parts), _ =>
      simp only [preparedHeaders, prepareWriteCallbacks, multipartHeaders, hsearch, bind,
        Except.bind] at h
      cases h

/-- The list of a request whose headers are prepared. -/
theorem requestHeaders_eq (fails : ℕ → Bool) (method : Bytes) (headers prepared : KeyArray)
    (dataWriteCallback : Bool) :
    requestHeaders fails method headers prepared dataWriteCallback = .error (.result .memory) ∧
        (∃ n, fails n = true) ∨
      requestHeaders fails method headers prepared dataWriteCallback =
        if mayHaveBody method dataWriteCallback then
          (framingSearch headers).map fun found =>
            emittedLines prepared ++ if found then [] else [chunkedLine]
        else .ok (emittedLines prepared) := by
  rw [requestHeaders]
  rcases computeHeaders_eq fails prepared [] with hlines | ⟨hfails, hlines⟩
  · simp only [hlines, List.nil_append, bind, Except.bind]
    by_cases hbody : mayHaveBody method dataWriteCallback = true
    · rw [if_pos hbody, if_pos hbody]
      cases framingSearch headers with
      | error e => exact Or.inr rfl
      | ok found =>
          cases found with
          | true => exact Or.inr (by simp [Except.map, pure, Except.pure])
          | false =>
              simp only [Bool.false_eq_true, if_false, addHeader, curlSlistAppend]
              by_cases hfail : fails (emittedLines prepared).length = true
              · rw [if_pos hfail]
                exact Or.inl ⟨rfl, _, hfail⟩
              · rw [if_neg hfail]
                exact Or.inr rfl
    · rw [if_neg hbody, if_neg hbody]
      exact Or.inr rfl
  · simp only [hlines, bind, Except.bind]
    exact Or.inl ⟨trivial, hfails⟩

/-- A used entry with a framing name has that name. -/
theorem any_namesFraming_of_emitsFraming {headers : KeyArray}
    (h : emitsFraming headers = true) : headers.any KeyValue.namesFraming = true := by
  obtain ⟨kv, hkv, hused⟩ := List.any_eq_true.mp h
  exact List.any_eq_true.mpr ⟨kv, hkv, (Bool.and_eq_true_iff.mp hused).1⟩

/-- The list of a request whose passes over the client's array agree. -/
theorem requestHeaders_agree {method : Bytes} {headers : KeyArray} {dataWriteCallback : Bool}
    (hagree : mayHaveBody method dataWriteCallback = true → KeysBeforeFraming headers ∧
      (headers.any KeyValue.namesFraming = true → emitsFraming headers = true))
    (fails : ℕ → Bool) (prepared : KeyArray) :
    requestHeaders fails method headers prepared dataWriteCallback = .error (.result .memory) ∨
      requestHeaders fails method headers prepared dataWriteCallback = .ok (emittedLines prepared ++
        if mayHaveBody method dataWriteCallback && !emitsFraming headers then [chunkedLine]
        else []) := by
  rcases requestHeaders_eq fails method headers prepared dataWriteCallback with
    ⟨hlist, -⟩ | hlist
  · exact Or.inl hlist
  · refine Or.inr ?_
    rw [hlist]
    by_cases hmay : mayHaveBody method dataWriteCallback = true
    · obtain ⟨hkeys, hemits⟩ := hagree hmay
      have hany : headers.any KeyValue.namesFraming = emitsFraming headers :=
        Bool.eq_iff_iff.mpr ⟨hemits, any_namesFraming_of_emitsFraming⟩
      rcases framingSearch_eq headers with ⟨-, hsearch⟩ | ⟨hnot, -⟩
      · rw [if_pos hmay, hsearch, hany, hmay]
        cases emitsFraming headers <;> rfl
      · exact absurd hkeys hnot
    · rw [Bool.not_eq_true] at hmay
      rw [hmay]
      simp

/-- **When the library frames the requests that need it.** The request's list is right
exactly if the two passes over the client's array agree on what counts. -/
theorem framesBody_iff {uuid : ℕ → Bytes} {method : Bytes} {headers : KeyArray}
    {writer : Option ClientWriter} {drawn : ℕ}
    (hprepared : PreparedOrNull uuid headers writer drawn) :
    FramesBody uuid method headers writer drawn ↔
      (isMultipartWriter writer = true → KeysBeforeContentType headers) ∧
        (mayHaveBody method writer.isSome = true → KeysBeforeFraming headers ∧
          (headers.any KeyValue.namesFraming = true → emitsFraming headers = true)) := by
  rcases hprepared with ⟨prepared, hok⟩ | ⟨hwriter, hnull⟩
  · constructor
    · rintro ⟨hsearched, hbuilt, hframed⟩
      refine ⟨fun hwriter => ?_, fun hbody => ?_⟩
      · exact not_not.mp fun hkeys => hsearched hwriter ((headersSearch_error_iff _).mpr hkeys)
      · -- a list that no allocation fails for shows what the search does
        have hbuilt := hbuilt (fun _ => false) prepared hok
        have hframed := hframed (fun _ => false) prepared
        rcases requestHeaders_eq (fun _ => false) method headers prepared writer.isSome with
          ⟨-, n, hn⟩ | hlist
        · exact absurd hn Bool.false_ne_true
        · rw [hlist, if_pos hbody] at hbuilt hframed
          rcases framingSearch_eq headers with ⟨hkeys, hsearch⟩ | ⟨-, hsearch⟩
          · rw [hsearch] at hframed
            have hlines := List.append_cancel_left (hframed _ hok rfl)
            rw [hbody, Bool.true_and] at hlines
            refine ⟨hkeys, fun hnamed => ?_⟩
            rw [hnamed, if_pos rfl] at hlines
            by_contra hemits
            rw [Bool.not_eq_true] at hemits
            rw [hemits, Bool.not_false, if_pos rfl] at hlines
            cases hlines
          · rw [hsearch] at hbuilt
            exact absurd rfl hbuilt
    · rintro ⟨-, hbody⟩
      refine ⟨fun hwriter => headersSearch_of_preparedHeaders hwriter hok, ?_, ?_⟩
      · intro fails prepared _
        rcases requestHeaders_agree hbody fails prepared with hlist | hlist
        · rw [hlist]
          exact fun h => by cases h
        · rw [hlist]
          exact fun h => by cases h
      · intro fails prepared lines _ hlines
        rcases requestHeaders_agree hbody fails prepared with hlist | hlist
        · rw [hlist] at hlines
          cases hlines
        · rw [hlist] at hlines
          exact (Except.ok.inj hlines).symm
  · refine iff_of_false (fun h => h.searched hwriter hnull) fun h => ?_
    exact (headersSearch_error_iff headers).mp hnull (h.1 hwriter)

/-- A placeholder without a value in front of the client's own framing does no harm. -/
theorem framesBody_placeholder :
    FramesBody (fun _ => []) (bytes "POST")
      [⟨some (bytes "X-Unused"), none⟩, .pair (bytes "content-length") (bytes "5")] none 0 :=
  (framesBody_iff (Or.inl ⟨_, rfl⟩)).mpr
    ⟨fun h => absurd h (by decide), fun _ => ⟨by unfold KeysBeforeFraming; decide, by decide⟩⟩

/-- A placeholder with a framing name leaves the request without any framing. -/
theorem framesBody_unframed :
    requestHeaders (fun _ => false) (bytes "POST") [⟨some (bytes "Content-Length"), none⟩]
        [⟨some (bytes "Content-Length"), none⟩] false = .ok [] ∧
      ¬ FramesBody (fun _ => []) (bytes "POST") [⟨some (bytes "Content-Length"), none⟩] none 0 := by
  have hlist : requestHeaders (fun _ => false) (bytes "POST")
      [⟨some (bytes "Content-Length"), none⟩] [⟨some (bytes "Content-Length"), none⟩] false
        = .ok [] := by
    rfl
  refine ⟨hlist, fun h => ?_⟩
  have hframed := h.framed (fun _ => false) _ [] rfl hlist
  exact absurd hframed (by decide)

end DsiRest
