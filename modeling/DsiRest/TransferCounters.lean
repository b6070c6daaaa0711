import DsiRest.Lifecycle
import DsiRest.ResponseHead

/-!
# Transfer Counters

A request counts the bytes that it sends and receives, and a client that has
`globus_dsi_rest_response` as its response callback finds the counters in the argument of that. The
header callback copies them there, at the empty line behind the headers of a response, and nothing
does afterwards, when the body of the response arrives.

## Main results

* `Invocation.call_counters` — what a call counts, and when it copies.
* `counters_reported_iff` — when the client finds what was transferred.
-/

namespace DsiRest

/-- The value of an `off_t` with the bits of `n`. -/
def offT (n : ℕ) : ℤ :=
  (n : ℤ).bmod word

namespace Invocation

/-- The byte count that `globus_i_dsi_rest_read_data` returns. -/
def uploaded (request : Request) : Invocation → ℕ
  | .readData buffer size nitems written processed =>
    (request.readData buffer size nitems written processed).value
  | _ => 0

/-- The length that is delivered to `globus_i_dsi_rest_write_data`. -/
def downloaded : Invocation → ℕ
  | .writeData _ size nmemb _ => mul64 size nmemb
  | _ => 0

/-- A call for the empty line behind the headers of a response that is not a 100 Continue. -/
def EndsHeaders (request : Request) : Invocation → Prop
  | .header memory size nitems _ =>
    ¬ request.Expecting ∧
      (headerParse request.headers memory (mul64 size nitems)).map Prod.fst = some .success ∧
      memory.take 2 = crlf ∧ request.responseCode ≠ 100
  | _ => False

end Invocation

namespace Request

/-- The request has `globus_dsi_rest_response` as its response callback. -/
def Reporting (request : Request) : Prop :=
  ∃ u d, request.responseCallback = .response u d

/-- Two requests with the same counters and the same response callback. -/
def SameCounters (request request' : Request) : Prop :=
  request'.requestBytesUploaded = request.requestBytesUploaded ∧
    request'.responseBytesDownloaded = request.responseBytesDownloaded ∧
    request'.responseCallback = request.responseCallback

/-- Looking for the boundary leaves the counters alone. -/
theorem updateBoundary_sameCounters {request request' : Request}
    (h : request.updateBoundary = some request') : request.SameCounters request' := by
  rw [updateBoundary] at h
  split at h
  · rw [Option.bind_eq_bind, Option.bind_eq_some_iff] at h
    obtain ⟨boundary, -, h⟩ := h
    split at h
    · rw [← Option.some.inj h]
      exact ⟨rfl, rfl, rfl⟩
    · rw [← Option.some.inj h]
      exact ⟨rfl, rfl, rfl⟩
  · rw [← Option.some.inj h]
    exact ⟨rfl, rfl, rfl⟩

/-- The counters are copied at the end of the headers, unless it is that of a 100 Continue. -/
theorem endOfHeaders_counters {request : Request} {total : ℕ} {response : Result} {r : Response}
    (hreporting : request.Reporting) (h : request.endOfHeaders total response = some r) :
    r.request.requestBytesUploaded = request.requestBytesUploaded ∧
      r.request.responseBytesDownloaded = request.responseBytesDownloaded ∧
      r.request.responseCallback = if request.responseCode = 100 then request.responseCallback
        else .response request.requestBytesUploaded request.responseBytesDownloaded := by
  obtain ⟨u, d, hcallback⟩ := hreporting
  rw [endOfHeaders] at h
  by_cases h100 : request.responseCode = 100
  · rw [if_pos h100] at h
    rw [if_pos h100, ← Option.some.inj h]
    exact ⟨rfl, rfl, rfl⟩
  · rw [if_neg h100, Option.bind_eq_bind, Option.bind_eq_some_iff] at h
    obtain ⟨request', hboundary, h⟩ := h
    obtain ⟨hup, hdown, hkept⟩ := updateBoundary_sameCounters hboundary
    rw [updateCounters, hcallback] at hup hdown hkept
    simp only at hup hdown hkept
    simp only [hkept] at h
    rw [if_neg h100, ← Option.some.inj h]
    exact ⟨hup, hdown, hkept⟩

/-- A header call counts nothing, and copies the counters at the end of the headers. -/
theorem header_counters {request : Request} {memory : Bytes} {size nitems : ℕ}
    {response : Result} {r : Response} (hreporting : request.Reporting)
    (h : request.header memory size nitems response = some r) :
    r.request.requestBytesUploaded = request.requestBytesUploaded ∧
      r.request.responseBytesDownloaded = request.responseBytesDownloaded ∧
      (Invocation.EndsHeaders request (.header memory size nitems response) →
        r.request.responseCallback
          = .response request.requestBytesUploaded request.responseBytesDownloaded) ∧
      (¬ Invocation.EndsHeaders request (.header memory size nitems response) →
        r.request.responseCallback = request.responseCallback) := by
  obtain ⟨u, d, hcallback⟩ := hreporting
  rw [header] at h
  simp only [Invocation.EndsHeaders]
  by_cases hfirst : request.Expecting
  · rw [if_pos hfirst] at h
    rw [← Option.some.inj h]
    exact ⟨rfl, rfl, fun hends => absurd hfirst hends.1, fun _ => rfl⟩
  · rw [if_neg hfirst] at h
    split at h
    case h_1 hnone _ | h_2 hnone _ | h_3 hnone _ =>
      exact absurd (hcallback.symm.trans hnone) (by simp)
    case h_4 =>
      rw [Option.bind_eq_bind, Option.bind_eq_some_iff] at h
      obtain ⟨⟨result, headers⟩, hparse, h⟩ := h
      rw [hparse]
      rcases result with _ | e
      · by_cases hend : memory.take 2 = crlf
        · have hparsed : Reporting { request with headers := headers } := ⟨u, d, hcallback⟩
          obtain ⟨hup, hdown, hkept⟩ :=
            endOfHeaders_counters hparsed ((if_pos hend).symm.trans h)
          refine ⟨hup, hdown, fun hends => ?_, fun hends => ?_⟩
          · exact hkept.trans (if_neg hends.2.2.2)
          · exact hkept.trans (if_pos (not_not.mp fun h100 => hends ⟨hfirst, rfl, hend, h100⟩))
        · rw [← Option.some.inj ((if_neg hend).symm.trans h)]
          exact ⟨rfl, rfl, fun hends => absurd hends.2.2.1 hend, fun _ => rfl⟩
      · rw [← Option.some.inj h]
        exact ⟨rfl, rfl, fun hends => by simpa using hends.2.1, fun _ => rfl⟩

end Request

/-- **What a call counts**, and that the counters are copied at the end of the headers only. -/
theorem Invocation.call_counters {request : Request} {invocation : Invocation} {r : Response}
    (hreporting : request.Reporting) (h : invocation.call request = some r) :
    r.request.requestBytesUploaded
        ≡ request.requestBytesUploaded + invocation.uploaded request [MOD word] ∧
      r.request.responseBytesDownloaded
        ≡ request.responseBytesDownloaded + invocation.downloaded [MOD word] ∧
      (invocation.EndsHeaders request → r.request.responseCallback
        = .response request.requestBytesUploaded request.responseBytesDownloaded) ∧
      (¬ invocation.EndsHeaders request →
        r.request.responseCallback = request.responseCallback) := by
  cases invocation with
  | header memory size nitems response =>
      obtain ⟨hup, hdown, hcopy, hkeep⟩ := Request.header_counters hreporting h
      exact ⟨by rw [hup]; rfl, by rw [hdown]; rfl, hcopy, hkeep⟩
  | writeData ptr size nmemb read =>
      obtain rfl := Option.some.inj h
      exact ⟨rfl, Nat.mod_modEq _ _, False.elim, fun _ => rfl⟩
  | readData buffer size nitems written processed =>
      obtain rfl := Option.some.inj h
      simp only [Invocation.uploaded, Request.readData]
      split
      · exact ⟨Nat.mod_modEq _ _, rfl, False.elim, fun _ => rfl⟩
      · exact ⟨rfl, rfl, False.elim, fun _ => rfl⟩
  | xferinfo reported | progress reported =>
      obtain rfl := Option.some.inj h
      simp only [Request.xferinfo, Request.progress, Request.reportProgress]
      split
      · exact ⟨rfl, rfl, False.elim, fun _ => rfl⟩
      · exact ⟨rfl, rfl, False.elim, fun _ => rfl⟩

namespace Execution

/-- The byte count that `globus_i_dsi_rest_read_data` returns in a step. -/
def uploadedBy (e : Execution) : ExecutionAction → ℕ
  | .invoke _ invocation => invocation.uploaded e.request
  | _ => 0

/-- The length that is delivered to `globus_i_dsi_rest_write_data` in a step. -/
def downloadedBy (_ : Execution) : ExecutionAction → ℕ
  | .invoke _ invocation => invocation.downloaded
  | _ => 0

/-- A step at the end of the headers of a response that is not a 100 Continue. -/
def EndsHeaders (e : Execution) : ExecutionAction → Prop
  | .invoke _ invocation => invocation.EndsHeaders e.request
  | _ => False

/-- What the client finds in the argument of its response callback. -/
def Reports (e : Execution) (uploaded downloaded : ℕ) : Prop :=
  ∃ u d, e.request.responseCallback = .response u d ∧ offT u = uploaded ∧ offT d = downloaded

variable {args : RequestArgs} {e e' : Execution}

/-- Outside the calls of libcurl nothing is counted or copied. -/
theorem step_sameCounters {action : ExecutionAction}
    (hother : ∀ party invocation, action ≠ .invoke party invocation)
    (h : e.step args action = some e') : e.request.SameCounters e'.request := by
  cases action with
  | enter malloc =>
      rw [step] at h
      split_ifs at h
      rw [← Option.some.inj h, enter]
      split_ifs <;> exact ⟨rfl, rfl, rfl⟩
  | setup result =>
      rw [step] at h
      split at h
      · split_ifs at h <;> rw [← Option.some.inj h] <;> exact ⟨rfl, rfl, rfl⟩
      · rw [← Option.some.inj h]
        exact ⟨rfl, rfl, rfl⟩
      · cases h
  | threadCreate rc =>
      rw [step] at h
      split_ifs at h <;> rw [← Option.some.inj h] <;> exact ⟨rfl, rfl, rfl⟩
  | invoke party invocation => exact absurd rfl (hother party invocation)
  | finish party rc finalRead =>
      rw [step] at h
      split_ifs at h <;> rw [← Option.some.inj h] <;> cases party <;> exact ⟨rfl, rfl, rfl⟩
  | proceed party =>
      cases party with
      | caller =>
          rw [step, proceedCaller] at h
          split at h
          · split_ifs at h
            rw [← Option.some.inj h]
            exact ⟨rfl, rfl, rfl⟩
          · rw [← Option.some.inj h]
            exact ⟨rfl, rfl, rfl⟩
          · rw [← Option.some.inj h]
            exact ⟨rfl, rfl, rfl⟩
          · rw [← Option.some.inj h]
            exact ⟨rfl, rfl, rfl⟩
          · cases h
      | performer =>
          rw [step, proceedPerformer] at h
          split at h
          · rw [← Option.some.inj h]
            exact ⟨rfl, rfl, rfl⟩
          · rw [← Option.some.inj h]
            exact ⟨rfl, rfl, rfl⟩
          · rw [← Option.some.inj h]
            exact ⟨rfl, rfl, rfl⟩
          · cases h

/-- What a step counts and copies. -/
theorem step_counters {action : ExecutionAction} (hreporting : e.request.Reporting)
    (h : e.step args action = some e') :
    e'.request.requestBytesUploaded
        ≡ e.request.requestBytesUploaded + e.uploadedBy action [MOD word] ∧
      e'.request.responseBytesDownloaded
        ≡ e.request.responseBytesDownloaded + e.downloadedBy action [MOD word] ∧
      (e.EndsHeaders action → e'.request.responseCallback
        = .response e.request.requestBytesUploaded e.request.responseBytesDownloaded) ∧
      (¬ e.EndsHeaders action → e'.request.responseCallback = e.request.responseCallback) := by
  by_cases hinvoke : ∃ party invocation, action = .invoke party invocation
  · obtain ⟨party, invocation, rfl⟩ := hinvoke
    rw [step] at h
    split_ifs at h
    obtain ⟨response, hcall, rfl⟩ := Option.map_eq_some_iff.mp h
    exact Invocation.call_counters hreporting hcall
  · have hother : ∀ party invocation, action ≠ .invoke party invocation :=
      fun party invocation haction => hinvoke ⟨party, invocation, haction⟩
    obtain ⟨hup, hdown, hcallback⟩ := step_sameCounters hother h
    rw [hup, hdown]
    cases action with
    | invoke party invocation => exact absurd rfl (hother party invocation)
    | enter | setup | threadCreate | finish | proceed =>
        exact ⟨rfl, rfl, False.elim, fun _ => hcallback⟩

/-- The client's argument stays where it is. -/
theorem step_reporting {action : ExecutionAction} (hreporting : e.request.Reporting)
    (h : e.step args action = some e') : e'.request.Reporting := by
  obtain ⟨-, -, hcopy, hkeep⟩ := step_counters hreporting h
  by_cases hends : e.EndsHeaders action
  · exact ⟨_, _, hcopy hends⟩
  · rw [Request.Reporting, hkeep hends]
    exact hreporting

end Execution

/-! ### Whole runs -/

namespace RequestArgs

/-- The sum of the byte counts that `globus_i_dsi_rest_read_data` returned. -/
def uploaded (args : RequestArgs) (actions : List ExecutionAction) : ℕ :=
  Guarded.total (Execution.step args) Execution.uploadedBy (.start args) actions

/-- The sum of the lengths that were delivered to `globus_i_dsi_rest_write_data`. -/
def downloaded (args : RequestArgs) (actions : List ExecutionAction) : ℕ :=
  Guarded.total (Execution.step args) Execution.downloadedBy (.start args) actions

/-- The headers of some response end, and from there on nothing is counted. -/
def Settled (args : RequestArgs) (actions : List ExecutionAction) : Prop :=
  ∃ before action after e, actions = before ++ action :: after ∧
    Guarded.run (Execution.step args) (.start args) before = some e ∧ e.EndsHeaders action ∧
    Guarded.total (Execution.step args) Execution.uploadedBy e (action :: after) = 0 ∧
    Guarded.total (Execution.step args) Execution.downloadedBy e (action :: after) = 0

/-- The headers of no response end. -/
def Headless (args : RequestArgs) (actions : List ExecutionAction) : Prop :=
  Guarded.Along (Execution.step args) (fun e action => ¬ e.EndsHeaders action) (.start args) actions

/-- A request as `globus_dsi_rest_request` sets it up: nothing is counted yet. -/
structure Uncounted (args : RequestArgs) : Prop where
  uploaded : args.request.requestBytesUploaded = 0
  downloaded : args.request.responseBytesDownloaded = 0
  reporting : args.request.Reporting

end RequestArgs

/-- A counter that holds a part of a sum up to its modulus is read as the sum if the part is all
of it and the sum is less than half the modulus. -/
theorem bmod_eq_natCast_iff {m n part sum : ℕ} (hm : 0 < m) (h : n ≡ part [MOD m])
    (hle : part ≤ sum) : (n : ℤ).bmod m = sum ↔ part = sum ∧ 2 * sum < m := by
  have hpart : (n : ℤ).bmod m = (part : ℤ).bmod m := by
    rw [← Int.emod_bmod (n : ℤ), ← Int.emod_bmod (part : ℤ), ← Int.natCast_mod,
      ← Int.natCast_mod, h]
  rw [hpart, Int.bmod_eq_iff hm]
  constructor
  · rintro ⟨-, hsum, hdvd⟩
    rw [← Nat.cast_sub hle, Int.natCast_dvd_natCast] at hdvd
    have hzero := Nat.eq_zero_of_dvd_of_lt hdvd (by omega)
    omega
  · rintro ⟨rfl, hsum⟩
    refine ⟨by omega, by omega, ?_⟩
    rw [Int.sub_self]
    exact Int.dvd_zero _

/-- The same for `off_t`. -/
theorem offT_eq_iff {n part sum : ℕ} (h : n ≡ part [MOD word]) (hle : part ≤ sum) :
    offT n = sum ↔ part = sum ∧ sum < 2 ^ 63 := by
  have hhalf : 2 * sum < word ↔ sum < 2 ^ 63 := by
    rw [word]
    omega
  exact (bmod_eq_natCast_iff (Nat.two_pow_pos 64) h hle).trans (and_congr_right fun _ => hhalf)

/-- The counters of the request after a run. -/
theorem Execution.counters_eq {args : RequestArgs} (h : args.Uncounted)
    {actions : List ExecutionAction} {e : Execution}
    (hrun : Guarded.run (Execution.step args) (.start args) actions = some e) :
    e.request.requestBytesUploaded ≡ args.uploaded actions [MOD word] ∧
      e.request.responseBytesDownloaded ≡ args.downloaded actions [MOD word] := by
  have hkeep : ∀ (e : Execution) (action : ExecutionAction) (e' : Execution),
      e.request.Reporting → e.step args action = some e' → e'.request.Reporting :=
    fun _ _ _ => Execution.step_reporting
  constructor
  · have hcount := @Guarded.modEq_total _ _ _ (fun e : Execution => e.request.Reporting)
      (fun e => e.request.requestBytesUploaded) Execution.uploadedBy word hkeep
      (fun _ _ _ hreporting hstep => (Execution.step_counters hreporting hstep).1) _ _ _
      h.reporting hrun
    rwa [show (Execution.start args).request.requestBytesUploaded = 0 from h.uploaded,
      Nat.zero_add] at hcount
  · have hcount := @Guarded.modEq_total _ _ _ (fun e : Execution => e.request.Reporting)
      (fun e => e.request.responseBytesDownloaded) Execution.downloadedBy word hkeep
      (fun _ _ _ hreporting hstep => (Execution.step_counters hreporting hstep).2.1) _ _ _
      h.reporting hrun
    rwa [show (Execution.start args).request.responseBytesDownloaded = 0 from h.downloaded,
      Nat.zero_add] at hcount

/-- The two sums, cut in front of a step. -/
theorem RequestArgs.sums_append {args : RequestArgs} {before : List ExecutionAction}
    {e : Execution} (hrun : Guarded.run (Execution.step args) (.start args) before = some e)
    (after : List ExecutionAction) :
    args.uploaded (before ++ after) = args.uploaded before
        + Guarded.total (Execution.step args) Execution.uploadedBy e after ∧
      args.downloaded (before ++ after) = args.downloaded before
        + Guarded.total (Execution.step args) Execution.downloadedBy e after :=
  ⟨Guarded.total_append hrun, Guarded.total_append hrun⟩

/-- **The client's argument after a run** is as it was if the headers of no response ended, and
otherwise has the counters of the last time that they did. -/
theorem Execution.responseCallback_eq {args : RequestArgs} (h : args.Uncounted)
    {actions : List ExecutionAction} {e : Execution}
    (hrun : Guarded.run (Execution.step args) (.start args) actions = some e) :
    (args.Headless actions ∧ e.request.responseCallback = args.request.responseCallback) ∨
    ∃ before action after t, actions = before ++ action :: after ∧
      Guarded.run (Execution.step args) (.start args) before = some t ∧ t.EndsHeaders action ∧
      e.request.responseCallback
        = .response t.request.requestBytesUploaded t.request.responseBytesDownloaded ∧
      ∀ before' action' after' t', actions = before' ++ action' :: after' →
        Guarded.run (Execution.step args) (.start args) before' = some t' →
        t'.EndsHeaders action' → before' <+: before :=
  @Guarded.register _ _ _ (fun e : Execution => e.request.Reporting) _
    (fun e : Execution => e.request.responseCallback)
    (fun e : Execution => .response e.request.requestBytesUploaded e.request.responseBytesDownloaded)
    Execution.EndsHeaders (fun _ _ _ => step_reporting)
    (fun _ _ _ hreporting hstep => (step_counters hreporting hstep).2.2.1)
    (fun _ _ _ hreporting hstep => (step_counters hreporting hstep).2.2.2) _ _ _ h.reporting hrun

/-- **When the client finds what was transferred.** In every run of a request whose response
callback is `globus_dsi_rest_response`: the client finds the sums of what was sent and received
if and only if the headers of some response ended and nothing was sent or received afterwards,
and the sums fit an `off_t`; or the headers of no response ended, and the argument had the sums
from the start. -/
theorem counters_reported_iff {args : RequestArgs} (h : args.Uncounted)
    {actions : List ExecutionAction} {e : Execution}
    (hrun : Guarded.run (Execution.step args) (.start args) actions = some e) :
    e.Reports (args.uploaded actions) (args.downloaded actions) ↔
      (args.Settled actions ∧ args.uploaded actions < 2 ^ 63 ∧ args.downloaded actions < 2 ^ 63) ∨
      (args.Headless actions ∧
        (Execution.start args).Reports (args.uploaded actions) (args.downloaded actions)) := by
  rcases Execution.responseCallback_eq h hrun with ⟨hheadless, hcallback⟩ |
    ⟨before, action, after, t, hsplit, ht, hends, hcallback, hlast⟩
  · have hreports : e.Reports (args.uploaded actions) (args.downloaded actions) ↔
        (Execution.start args).Reports (args.uploaded actions) (args.downloaded actions) := by
      rw [Execution.Reports, hcallback]
      rfl
    rw [hreports]
    constructor
    · exact fun hfound => Or.inr ⟨hheadless, hfound⟩
    · rintro (⟨⟨before, action, after, t, rfl, ht, hends, -⟩, -⟩ | ⟨-, hfound⟩)
      · exact absurd hends (hheadless.at ht)
      · exact hfound
  · obtain ⟨hup, hdown⟩ := Execution.counters_eq h ht
    obtain ⟨hupSum, hdownSum⟩ := RequestArgs.sums_append ht (action :: after)
    rw [← hsplit] at hupSum hdownSum
    have hreports : e.Reports (args.uploaded actions) (args.downloaded actions) ↔
        (args.uploaded before = args.uploaded actions ∧ args.uploaded actions < 2 ^ 63) ∧
          (args.downloaded before = args.downloaded actions ∧
            args.downloaded actions < 2 ^ 63) := by
      rw [← offT_eq_iff hup (by omega), ← offT_eq_iff hdown (by omega), Execution.Reports, hcallback]
      constructor
      · rintro ⟨u, d, hsame, hu, hd⟩
        obtain ⟨rfl, rfl⟩ := ResponseCallback.response.inj hsame
        exact ⟨hu, hd⟩
      · exact fun hfound => ⟨_, _, rfl, hfound.1, hfound.2⟩
    rw [hreports]
    constructor
    · rintro ⟨⟨hupAll, hupFits⟩, hdownAll, hdownFits⟩
      refine Or.inl ⟨⟨before, action, after, t, hsplit, ht, hends, ?_, ?_⟩, hupFits, hdownFits⟩
      · omega
      · omega
    · rintro (⟨⟨before', action', after', t', hsplit', ht', hends', hupRest, hdownRest⟩,
        hupFits, hdownFits⟩ | ⟨hheadless, -⟩)
      · -- nothing is counted from an earlier copy on, hence nothing from the last one on
        obtain ⟨between, rfl⟩ := hlast before' action' after' t' hsplit' ht' hends'
        obtain ⟨hupSum', hdownSum'⟩ := RequestArgs.sums_append ht' (action' :: after')
        obtain ⟨hupBetween, hdownBetween⟩ := RequestArgs.sums_append ht' between
        rw [← hsplit'] at hupSum' hdownSum'
        refine ⟨⟨?_, hupFits⟩, ?_, hdownFits⟩
        · omega
        · omega
      · rw [hsplit] at hheadless
        exact absurd hends (hheadless.at ht)

/-! ### A response with a body -/

/-- A request that reads a response and has `globus_dsi_rest_response` for its headers. -/
def fetchArgs : RequestArgs :=
  ⟨some (bytes "GET"), some (bytes "u"), [], false, false,
    ⟨.success, 0, [], 0, 0, false, .client, HeaderList.empty, .response 0 0, false⟩⟩

/-- Its run, with what libcurl calls behind the headers. -/
def fetch (body : List Invocation) : List ExecutionAction :=
  .enter true :: List.replicate 7 (.setup .success) ++
    [.proceed .caller,
      .invoke .caller (.header (bytes "HTTP/1.1 200 OK\r\n") 1 17 .success),
      .invoke .caller (.header (bytes "\r\n") 1 2 .success)] ++
    body.map (.invoke .caller) ++
    [.finish .caller 0 .success, .proceed .caller, .proceed .caller, .proceed .caller]

theorem fetchArgs_uncounted : fetchArgs.Uncounted :=
  ⟨rfl, rfl, 0, 0, rfl⟩

/-- A request that sends a body, and has `globus_dsi_rest_response` for its headers. -/
def sendArgs : RequestArgs :=
  ⟨some (bytes "PUT"), some (bytes "u"), [], true, false,
    ⟨.success, 0, [], 0, 0, true, .client, HeaderList.empty, .response 0 0, false⟩⟩

/-- Its run up to the empty line behind the headers: it sends three bytes. -/
def sendBefore : List ExecutionAction :=
  .enter true :: List.replicate 7 (.setup .success) ++
    [.proceed .caller, .invoke .caller (.readData [] 1 16 .success 3),
      .invoke .caller (.header (bytes "HTTP/1.1 200 OK\r\n") 1 17 .success)]

/-- The rest of its run. -/
def sendAfter : List ExecutionAction :=
  [.finish .caller 0 .success, .proceed .caller, .proceed .caller, .proceed .caller]

instance (request : Request) (invocation : Invocation) :
    Decidable (invocation.EndsHeaders request) :=
  match invocation with
  | .header _ _ _ _ => inferInstanceAs (Decidable (_ ∧ _ ∧ _ ∧ _))
  | .writeData _ _ _ _ | .readData _ _ _ _ _ | .xferinfo _ | .progress _ => isFalse id

/-- The case of a response without a body: the client finds the three bytes. -/
theorem counters_reported_iff_fetch :
    let blank : Invocation := .header (bytes "\r\n") 1 2 .success
    let actions := sendBefore ++ .invoke .caller blank :: sendAfter
    ∃ e, Guarded.run (Execution.step sendArgs) (.start sendArgs) actions = some e ∧
      e.Reports 3 0 := by
  intro blank actions
  have hdefined : (Guarded.run (Execution.step sendArgs) (.start sendArgs) actions).isSome = true := by
    decide +kernel
  have hblank : (Guarded.run (Execution.step sendArgs) (.start sendArgs) sendBefore).map (fun e =>
      decide (blank.EndsHeaders e.request ∧
        Guarded.total (Execution.step sendArgs) Execution.uploadedBy e
          (.invoke .caller blank :: sendAfter) = 0 ∧
        Guarded.total (Execution.step sendArgs) Execution.downloadedBy e
          (.invoke .caller blank :: sendAfter) = 0)) = some true := by
    decide +kernel
  have hsums : (sendArgs.uploaded actions, sendArgs.downloaded actions) = (3, 0) := by
    decide +kernel
  obtain ⟨hup, hdown⟩ := Prod.mk.inj hsums
  obtain ⟨e, hrun⟩ := Option.isSome_iff_exists.mp hdefined
  obtain ⟨t, ht, hends⟩ := Option.map_eq_some_iff.mp hblank
  obtain ⟨hends, hzero⟩ := of_decide_eq_true hends
  have huncounted : sendArgs.Uncounted := ⟨rfl, rfl, 0, 0, rfl⟩
  have hreports := (counters_reported_iff huncounted hrun).mpr
    (.inl ⟨⟨sendBefore, _, sendAfter, t, rfl, ht, hends, hzero⟩, by omega, by omega⟩)
  rw [hup, hdown] at hreports
  exact ⟨e, hrun, hreports⟩

/-- A body of one byte is received, and the client finds that none was. -/
theorem counters_unreported :
    ¬ ∀ (args : RequestArgs) (actions : List ExecutionAction) (e : Execution), args.Uncounted →
      Guarded.run (Execution.step args) (.start args) actions = some e → e.Finished →
      e.caller = .returned .success →
      e.Reports (args.uploaded actions) (args.downloaded actions) := by
  intro h
  have hend : (Guarded.run (Execution.step fetchArgs) (.start fetchArgs)
      (fetch [.writeData (bytes "x") 1 1 .success])).map (fun e => (e.caller, e.performer))
        = some (.returned .success, .absent) := by
    decide +kernel
  have hfound : (Guarded.run (Execution.step fetchArgs) (.start fetchArgs)
      (fetch [.writeData (bytes "x") 1 1 .success])).map (fun e => e.request.responseCallback)
        = some (.response 0 0) := rfl
  have hsum : fetchArgs.downloaded (fetch [.writeData (bytes "x") 1 1 .success]) = 1 := by
    decide +kernel
  obtain ⟨e, hrun, he⟩ := Option.map_eq_some_iff.mp hend
  obtain ⟨hcaller, hperformer⟩ := Prod.mk.inj he
  obtain ⟨u, d, hcallback, -, hd⟩ :=
    h _ _ e fetchArgs_uncounted hrun ⟨⟨_, hcaller⟩, .inl hperformer⟩ hcaller
  rw [hrun, Option.map_some, hcallback] at hfound
  obtain ⟨-, rfl⟩ : u = 0 ∧ d = 0 := by simpa using hfound
  rw [hsum] at hd
  exact absurd hd (by decide)

end DsiRest
