import DsiRest.FirstError
import DsiRest.ResponseHead
import Mathlib.Data.Nat.Digits.Defs

/-!
# Errors after which to Try Again

`globus_dsi_rest_error_is_retryable` tells a client whether a failed request may succeed if it is
made again. It has nothing but the result, and takes the code of libcurl's error out of the message
that was made with it.

The error objects are kept by Globus. Which of them are errors of this library from libcurl
(`globus_error_match`) and the text of an error (`globus_error_print_friendly`) are parameters; it
is assumed that the objects that the library makes are told apart by their type, and that the text
of an error has its message in it.

## Main results

* `scanInt_decimal` — `scanf` reads the numbers that `printf` writes.
* `errorIsRetryable_curl` — the code of an error is found in its text.
* `request_retryable_iff` — which requests can be tried again.
-/

namespace DsiRest

/-! ### Numbers in messages -/

/-- `%d` of `printf`, for a number that is not negative. -/
def decimal (n : ℕ) : Bytes :=
  if n = 0 then [digit 0] else (Nat.digits 10 n).reverse.map digit

/-- Every byte is a digit. -/
theorem mem_decimal {n : ℕ} {b : Byte} (h : b ∈ decimal n) : ∃ d < 10, b = digit d := by
  rw [decimal] at h
  split_ifs at h
  · exact ⟨0, by omega, List.mem_singleton.mp h⟩
  · obtain ⟨d, hd, rfl⟩ := List.mem_map.mp h
    exact ⟨d, Nat.digits_lt_base (by omega) (List.mem_reverse.mp hd), rfl⟩

/-- There is a first digit. -/
theorem exists_decimal_eq_cons (n : ℕ) : ∃ d < 10, ∃ rest, decimal n = digit d :: rest := by
  have hne : decimal n ≠ [] := by
    rw [decimal]
    split_ifs with hzero
    · exact List.cons_ne_nil _ _
    · simpa [Nat.digits_eq_nil_iff_eq_zero] using hzero
  obtain ⟨b, rest, heq⟩ := List.exists_cons_of_ne_nil hne
  obtain ⟨d, hd, rfl⟩ := mem_decimal (heq ▸ List.mem_cons_self)
  exact ⟨d, hd, rest, heq⟩

/-- The value of digits, least significant first. -/
theorem foldl_digits {ds : List ℕ} (h : ∀ d ∈ ds, d < 10) :
    (ds.reverse.map digit).foldl (fun (n : ℤ) b => 10 * n + ((b.toNat : ℤ) - 48)) 0
      = (Nat.ofDigits 10 ds : ℕ) := by
  induction ds with
  | nil => rfl
  | cons d ds ih =>
      obtain ⟨hd, hds⟩ := List.forall_mem_cons.mp h
      obtain ⟨-, -, -, -, -, hvalue⟩ := digit_spec d hd
      rw [List.reverse_cons, List.map_append, List.foldl_append, ih hds, Nat.ofDigits_cons]
      simp only [List.map_cons, List.map_nil, List.foldl_cons, List.foldl_nil, hvalue]
      push_cast
      ring

/-- The value of the digits of a number. -/
theorem foldl_decimal (n : ℕ) :
    (decimal n).foldl (fun (n : ℤ) b => 10 * n + ((b.toNat : ℤ) - 48)) 0 = n := by
  rw [decimal]
  split_ifs with hzero
  · rw [hzero]
    rfl
  · rw [foldl_digits fun d hd => Nat.digits_lt_base (by omega) hd, Nat.ofDigits_digits]

/-- **What `printf` writes, `scanf` reads**, if no digit follows. -/
theorem scanInt_decimal {n : ℕ} (h : n < 2 ^ 31) {rest : Bytes}
    (hrest : ∀ b ∈ rest.head?, ¬ (48 ≤ b ∧ b ≤ 57)) :
    scanInt (decimal n ++ rest) = some ((n : ℤ), rest) := by
  obtain ⟨d, hd, more, hmore⟩ := exists_decimal_eq_cons n
  obtain ⟨-, hminus, hplus, -⟩ := digit_spec d hd
  have hnumber : (decimal n ++ rest).takeWhile (fun b => decide (48 ≤ b ∧ b ≤ 57))
      = decimal n := by
    have hend : rest.takeWhile (fun b => decide (48 ≤ b ∧ b ≤ 57)) = [] := by
      cases rest with
      | nil => rfl
      | cons b rest => exact List.takeWhile_cons_of_neg (by simpa using hrest b rfl)
    rw [List.takeWhile_append_of_pos, hend, List.append_nil]
    · intro b hb
      obtain ⟨d, hd, rfl⟩ := mem_decimal hb
      exact decide_eq_true (digit_spec d hd).1
  have hhead : (decimal n ++ rest).head? = some (digit d) := by rw [hmore]; rfl
  have hsign : ((decimal n ++ rest).head? == some 45) = false := by simpa [hhead] using hminus
  have hsign' : ((decimal n ++ rest).head? == some 43) = false := by simpa [hhead] using hplus
  have hsaturated : (max (-2 ^ 63) (min (2 ^ 63 - 1) (n : ℤ))).bmod (2 ^ 32) = (n : ℤ) := by
    rw [show max (-2 ^ 63) (min (2 ^ 63 - 1) (n : ℤ)) = (n : ℤ) by omega]
    exact Int.bmod_eq_of_le (by omega) (by omega)
  rw [scanInt]
  simp only [hsign, hsign', Bool.or_self, Bool.false_eq_true, if_false, hnumber, foldl_decimal,
    hsaturated]
  rw [if_neg (by rw [hmore]; exact List.cons_ne_nil _ _), List.drop_left]

/-! ### The test -/

/-- The message of `GlobusDsiRestErrorCurl`. -/
def curlMessage (strerror : ℕ → Bytes) (rc : ℕ) : Bytes :=
  bytes "libcurl error " ++ (decimal rc ++ (bytes ": " ++ strerror rc))

/-- `sscanf(s, "libcurl error %d", ..)`. -/
def scanCurlError (s : Bytes) : Option ℤ :=
  if (bytes "libcurl").isPrefixOf s then
    let error := (s.drop 7).dropWhile isSpace
    if (bytes "error").isPrefixOf error then
      (scanInt ((error.drop 5).dropWhile isSpace)).map Prod.fst
    else none
  else none

/-- `CURLE_COULDNT_RESOLVE_PROXY`, `CURLE_COULDNT_RESOLVE_HOST` or `CURLE_COULDNT_CONNECT`. -/
def isTransient (rc : ℤ) : Bool :=
  rc == 5 || rc == 6 || rc == 7

/-- `globus_dsi_rest_error_is_retryable`. -/
def errorIsRetryable (errorMatch : GlobusError → Bool) (printFriendly : GlobusError → Bytes) :
    Result → Bool
  | .success => true
  | .error e =>
    if errorMatch e then
      match strstr (printFriendly e) (bytes "libcurl error ") with
      | some p => (scanCurlError p).elim false isTransient
      | none => false
    else false

/-- What is assumed of Globus: an error object that is made from a code of libcurl matches the type
of such errors, and in its text, which has the message, no other message comes before its own. -/
structure KeepsErrors (strerror : ℕ → Bytes) (errorMatch : GlobusError → Bool)
    (printFriendly : GlobusError → Bytes) : Prop where
  curl : ∀ rc, errorMatch (.curl rc) = true
  text : ∀ rc, ∃ before after,
    printFriendly (.curl rc) = before ++ curlMessage strerror rc ++ after ∧
    strstr (before ++ (bytes "libcurl error ").dropLast) (bytes "libcurl error ") = none

/-- Behind a byte at which there is no occurrence. -/
theorem strstr_cons {needle : Bytes} {b : Byte} {s : Bytes} (h : ¬ needle <+: b :: s) :
    strstr (b :: s) needle = strstr s needle := by
  rw [strstr.eq_def, if_neg (by rwa [List.isPrefixOf_iff_prefix])]

/-- There is an occurrence at the start. -/
theorem strstr_prefix {needle s : Bytes} (h : needle <+: s) : strstr s needle = some s := by
  rw [strstr.eq_def, if_pos (List.isPrefixOf_iff_prefix.mpr h)]

/-- The occurrence behind a text in which none begins is found. -/
theorem strstr_append {needle : Bytes} (hneedle : needle ≠ []) (rest : Bytes) {before : Bytes}
    (hnone : strstr (before ++ needle.dropLast) needle = none) :
    strstr (before ++ (needle ++ rest)) needle = some (needle ++ rest) := by
  induction before with
  | nil => exact strstr_prefix (List.prefix_append _ _)
  | cons b before ih =>
      have hshort : needle.dropLast.length + 1 = needle.length := by
        have hpos := List.length_pos_iff.mpr hneedle
        rw [List.length_dropLast]
        omega
      have hnot : ¬ needle <+: b :: (before ++ needle.dropLast) := by
        intro h
        rw [List.cons_append, strstr_prefix h] at hnone
        cases hnone
      have hnot' : ¬ needle <+: b :: (before ++ (needle ++ rest)) := by
        intro h
        -- such an occurrence would end before the last byte of the next one
        refine hnot (List.prefix_of_prefix_length_le h ?_ ?_)
        · refine List.cons_prefix_cons.mpr ⟨rfl, List.prefix_append_right_inj _ |>.mpr ?_⟩
          exact (List.dropLast_prefix needle).trans (List.prefix_append _ _)
        · rw [List.length_cons, List.length_append]
          omega
      rw [List.cons_append, strstr_cons hnot] at hnone
      rw [List.cons_append, strstr_cons hnot', ih hnone]

/-- The code is read from behind the message's first words. -/
theorem scanCurlError_curlMessage (strerror : ℕ → Bytes) {rc : ℕ} (hrc : rc < 2 ^ 31)
    (after : Bytes) : scanCurlError (curlMessage strerror rc ++ after) = some (rc : ℤ) := by
  obtain ⟨d, hd, more, hmore⟩ := exists_decimal_eq_cons rc
  obtain ⟨-, -, -, hspace, -⟩ := digit_spec d hd
  have hdigits : (space :: (decimal rc ++ (bytes ": " ++ strerror rc ++ after))).dropWhile isSpace
      = decimal rc ++ (bytes ": " ++ strerror rc ++ after) := by
    rw [List.dropWhile_cons_of_pos rfl, hmore, List.cons_append,
      List.dropWhile_cons_of_neg (by simp [hspace])]
  have hmessage : curlMessage strerror rc ++ after = bytes "libcurl" ++ (space ::
      (bytes "error" ++ (space :: (decimal rc ++ (bytes ": " ++ strerror rc ++ after))))) := by
    simp only [curlMessage, List.append_assoc]
    rfl
  have herror : ((bytes "libcurl" ++ (space :: (bytes "error" ++ (space ::
      (decimal rc ++ (bytes ": " ++ strerror rc ++ after)))))).drop 7).dropWhile isSpace
      = bytes "error" ++ (space :: (decimal rc ++ (bytes ": " ++ strerror rc ++ after))) := rfl
  have hcode : (bytes "error" ++ (space ::
      (decimal rc ++ (bytes ": " ++ strerror rc ++ after)))).drop 5
      = space :: (decimal rc ++ (bytes ": " ++ strerror rc ++ after)) := rfl
  have hscan : scanInt (decimal rc ++ (bytes ": " ++ strerror rc ++ after))
      = some ((rc : ℤ), bytes ": " ++ strerror rc ++ after) := by
    refine scanInt_decimal hrc fun b hb => ?_
    obtain rfl : (58 : Byte) = b := Option.some.inj hb
    decide
  rw [hmessage, scanCurlError, if_pos (List.isPrefixOf_iff_prefix.mpr (List.prefix_append _ _))]
  simp only [herror]
  rw [if_pos (List.isPrefixOf_iff_prefix.mpr (List.prefix_append _ _)), hcode, hdigits, hscan]
  rfl

/-- **The code of an error from libcurl** is found in its text. -/
theorem errorIsRetryable_curl {strerror : ℕ → Bytes} {errorMatch : GlobusError → Bool}
    {printFriendly : GlobusError → Bytes} (hglobus : KeepsErrors strerror errorMatch printFriendly)
    {rc : ℕ} (hrc : rc < 2 ^ 31) :
    errorIsRetryable errorMatch printFriendly (.error (.curl rc)) = true
      ↔ rc = 5 ∨ rc = 6 ∨ rc = 7 := by
  obtain ⟨before, after, htext, hnone⟩ := hglobus.text rc
  have hmessage : before ++ curlMessage strerror rc ++ after = before ++ (bytes "libcurl error "
      ++ (decimal rc ++ (bytes ": " ++ strerror rc) ++ after)) := by
    simp only [curlMessage, List.append_assoc]
  have hfound : bytes "libcurl error " ++ (decimal rc ++ (bytes ": " ++ strerror rc) ++ after)
      = curlMessage strerror rc ++ after := by
    simp only [curlMessage, List.append_assoc]
  have hneedle : bytes "libcurl error " ≠ [] := List.cons_ne_nil _ _
  rw [errorIsRetryable, if_pos (hglobus.curl rc), htext, hmessage,
    strstr_append hneedle _ hnone, hfound]
  simp only [scanCurlError_curlMessage strerror hrc, Option.elim_some, isTransient, Bool.or_eq_true,
    beq_iff_eq]
  omega

/-! ### Requests -/

namespace Request

/-- What is recorded in a run came from one of the calls. -/
theorem run_result_mem {invocations : List Invocation} :
    ∀ {request last : Request} {results : List Result},
    request.run invocations = some (last, results) → last.result ≠ request.result →
    last.result ∈ results := by
  induction invocations with
  | nil =>
      intro request last results hrun hne
      obtain ⟨rfl, -⟩ := Prod.mk.inj (Option.some.inj hrun)
      exact absurd rfl hne
  | cons invocation later ih =>
      intro request last results hrun hne
      rw [run, Option.bind_eq_bind, Option.bind_eq_some_iff] at hrun
      obtain ⟨response, hcall, hrun⟩ := hrun
      rw [Option.bind_eq_bind, Option.bind_eq_some_iff] at hrun
      obtain ⟨⟨final, laterResults⟩, hlater, hrun⟩ := hrun
      obtain ⟨rfl, rfl⟩ := Prod.mk.inj (Option.some.inj hrun)
      by_cases hlast : final.result = response.request.result
      · refine List.mem_cons.mpr (.inl ?_)
        rw [hlast] at hne ⊢
        rcases Invocation.call_spec hcall with ⟨-, hsame, -⟩ | ⟨-, hlatch⟩
        · exact absurd hsame hne
        · rw [hlatch] at hne ⊢
          cases hresult : request.result with
          | success => rfl
          | error e =>
              rw [hresult] at hne
              exact absurd rfl hne
      · exact List.mem_cons_of_mem _ (ih hlater hlast)

end Request

/-- **Which requests can be tried again.** If no callback fails with an error of libcurl, as one
that makes a request of its own might, then what a request comes to is retryable exactly if nothing
was recorded as a failure, and libcurl succeeded and so did the read callback at the end, or libcurl
could not resolve or connect. -/
theorem request_retryable_iff {strerror : ℕ → Bytes} {errorMatch : GlobusError → Bool}
    {printFriendly : GlobusError → Bytes} (hglobus : KeepsErrors strerror errorMatch printFriendly)
    {request last : Request} {invocations : List Invocation} {results : List Result}
    (hfresh : request.result = .success)
    (hrun : request.run invocations = some (last, results)) {rc : ℕ} (hrc : rc < 2 ^ 31)
    {finalRead : Result}
    (hown : ∀ e, .error e ∈ finalRead :: results → errorMatch e = false) :
    errorIsRetryable errorMatch printFriendly (last.performThread rc finalRead) = true ↔
      last.result = .success ∧ (rc = 0 ∧ (∀ r ∈ last.finalReads rc finalRead, r = .success) ∨
        rc = 5 ∨ rc = 6 ∨ rc = 7) := by
  have hnot : ∀ e, .error e ∈ finalRead :: results →
      errorIsRetryable errorMatch printFriendly (.error e) = false := fun e he => by
    rw [errorIsRetryable, hown e he]
    rfl
  cases hlast : last.result with
  | error e =>
      have hmem : Result.error e ∈ results := by
        rw [← hlast]
        exact Request.run_result_mem hrun (by rw [hlast, hfresh]; exact Result.noConfusion)
      rw [Request.performThread_eq, Request.perform_of_error rc finalRead hlast,
        hnot e (List.mem_cons_of_mem _ hmem)]
      simp
  | success =>
      rw [Request.performThread_eq, Request.perform_of_success rc finalRead hlast]
      by_cases hzero : rc = 0
      · cases hread : last.dataReadCallback with
        | none => simp [Request.finalReads, hzero, hread, errorIsRetryable]
        | gridftpOp | multipart arg | client =>
            cases finalRead with
            | success => simp [Request.finalReads, hzero, hread, errorIsRetryable]
            | error e =>
                simp [Request.finalReads, hzero, hread, hnot e List.mem_cons_self]
      · have hcurl := errorIsRetryable_curl hglobus hrc
        simp [Request.finalReads, hzero, hcurl]

/-- The errors of this library from libcurl. -/
def isCurlError : GlobusError → Bool
  | .curl _ => true
  | _ => false

/-- A text that has the name of the module in front of the message. -/
def moduleText (strerror : ℕ → Bytes) : GlobusError → Bytes
  | .curl rc => bytes "globus_dsi_rest: " ++ curlMessage strerror rc ++ [lf]
  | _ => bytes "globus_dsi_rest: "

/-- The name of the module is not taken for a message. -/
theorem strstr_moduleName :
    strstr (bytes "globus_dsi_rest: " ++ (bytes "libcurl error ").dropLast)
      (bytes "libcurl error ") = none := by
  decide +kernel

/-- Globus can keep errors like this. -/
theorem keepsErrors_module (strerror : ℕ → Bytes) :
    KeepsErrors strerror isCurlError (moduleText strerror) where
  curl _ := rfl
  text _ := ⟨bytes "globus_dsi_rest: ", [lf], rfl, strstr_moduleName⟩

/-- The case of a server that cannot be connected to. -/
theorem request_retryable_iff_connect :
    let request : Request :=
      ⟨.success, 0, [], 0, 0, false, .client, HeaderList.empty, .none, true⟩
    let strerror : ℕ → Bytes := fun _ => bytes "Couldn't connect to server"
    ∃ last results, request.run [.xferinfo .success] = some (last, results) ∧
      errorIsRetryable isCurlError (moduleText strerror) (last.performThread 7 .success)
        = true := by
  intro request strerror
  have hrun : request.run [.xferinfo .success] = some (_, _) := rfl
  have hown : ∀ e, .error e ∈ [Result.success, Result.success] → isCurlError e = false :=
    fun e he => by simp at he
  exact ⟨_, _, hrun, (request_retryable_iff (keepsErrors_module strerror) rfl hrun (by omega)
    hown).mpr ⟨rfl, .inr (.inr (.inr rfl))⟩⟩

end DsiRest
