import DsiRest.HandleCache
import DsiRest.Lib.Simulation
import DsiRest.RequestHeaders

/-!
# What Is Set on a Handle

`globus_i_dsi_rest_set_request` sets the method, the URI and the headers of a request on its handle,
behind the options that `globus_i_dsi_rest_handle_get` set. Handles are used again: what is set on a
handle stays there until `globus_i_dsi_rest_handle_release` calls `curl_easy_reset`, which keeps the
share of a handle at most (`KeepsShares`), and the cache knows nothing of it.

`SettingsState` is the state of the cache and of the requests with what is set on every handle, in
the order in which it was set since the handle was created or reset. `SettingsState.step` takes one
call of libcurl of one request at a time. A step of the cache is one of `HandleState.step`
(`SettingsState.simulates`).

## Main results

* `SettingsState.Kept.step` — a handle has the settings of the request that has it, and of no other.
* `transfer_isolated` — every transfer is made with the settings of its own request.
* `transfer_method` — the method of a transfer is the one that the client asked for.
-/

namespace DsiRest

/-! ### The settings of a request -/

/-- What is set on a handle: the options of `globus_i_dsi_rest_handle_get`, and those of
`globus_i_dsi_rest_set_request`. -/
inductive Setting
  | option (option : CurlOption)
  | customRequest (method : Option Bytes)
  | noBody
  | httpGet
  | upload
  | post
  | url (uri : Bytes)
  | httpHeader (headers : List Bytes)
  deriving DecidableEq, Repr

/-- The arguments of `globus_i_dsi_rest_set_request`; of the callbacks, whether there are any for
data that is read and written. -/
structure SetRequestArgs where
  method : Bytes
  uri : Bytes
  headers : List Bytes
  dataRead : Bool
  dataWrite : Bool
  deriving DecidableEq, Repr

namespace SetRequestArgs

/-- What is set for the method. -/
def methodSettings (args : SetRequestArgs) : List Setting :=
  if args.method = bytes "HEAD" then [.noBody]
  else if args.method = bytes "GET" then [.httpGet]
  else if args.method = bytes "PUT" then [.upload]
  else if args.method = bytes "POST" then [.post]
  else if args.method = bytes "DELETE" then [.noBody, .customRequest (some args.method)]
  else if args.dataRead && args.dataWrite then [.post, .customRequest (some args.method)]
  else if args.dataRead then [.httpGet, .customRequest (some args.method)]
  else if args.dataWrite then [.upload, .customRequest (some args.method)]
  else [.noBody, .customRequest (some args.method)]

/-- What `globus_i_dsi_rest_set_request` sets behind the first option. Where one of these cannot be
set, nothing is set any more. -/
def settings (args : SetRequestArgs) : List Setting :=
  args.methodSettings ++ [.url args.uri, .httpHeader args.headers]

end SetRequestArgs

/-- What the first call of `globus_i_dsi_rest_set_request` may leave: it removes a custom method,
and whether that succeeds is not looked at. -/
def CustomCleared (first : List Setting) : Prop :=
  first = [] ∨ first = [.customRequest none]

/-- What `globus_i_dsi_rest_handle_get` sets for a request. -/
def baseSettings (build : CurlBuild) (i : ℕ) : List Setting :=
  (handleOptions build i).map .option

/-- Nothing is set but the share. All handles have the same one, which is never set to another. -/
def OnlyShares (settings : List Setting) : Prop :=
  ∀ setting ∈ settings, setting = .option .share

/-- What libcurl says of `curl_easy_reset`: it sets all options to their defaults, and keeps the
share. -/
def KeepsShares (reset : List Setting → List Setting) : Prop :=
  ∀ settings, OnlyShares (reset settings)

/-- What is set on a handle when `globus_i_dsi_rest_handle_get` returns it. -/
def Based (build : CurlBuild) (i : ℕ) (base : List Setting) : Prop :=
  ∃ kept, OnlyShares kept ∧ base = kept ++ baseSettings build i

/-! ### Transfers -/

/-- Where a request is that has a handle: in front of `globus_i_dsi_rest_set_request`; in it, with
settings to be made, or behind a failure; behind it; in `curl_easy_perform`; or behind that. -/
inductive TransferPhase
  | idle
  | setting (left : List Setting)
  | refused (rc : ℕ)
  | set
  | performing
  | performed
  deriving DecidableEq, Repr

/-- The cleanup of the request can be reached. -/
def TransferPhase.releases : TransferPhase → Bool
  | idle | refused _ | set | performed => true
  | setting _ | performing => false

/-- A transfer that was started: the number of its request, its handle, and what was set on it. -/
structure Transferred (H : Type*) where
  request : ℕ
  handle : H
  settings : List Setting
  deriving DecidableEq

/-- The cache and the requests, what is set on the handles, the arguments of the requests and where
they are, and the transfers that were started. -/
structure SettingsState (H : Type*) where
  handles : HandleState H
  settings : H → List Setting
  args : List SetRequestArgs
  transfers : List TransferPhase
  started : List (Transferred H)

/-- What happens next: a request with these arguments starts; a step of the cache; a call of
`curl_easy_setopt` in `globus_i_dsi_rest_set_request`, or the start or the end of a transfer. -/
inductive SettingsAction (H : Type*)
  | start (args : SetRequestArgs)
  | handle (action : HandleAction H)
  | setRequest (request : ℕ) (rc : ℕ)
  | perform (request : ℕ)
  | finish (request : ℕ)

namespace SettingsState

variable {H : Type*} [DecidableEq H]

/-- Before the first request. -/
def start : SettingsState H :=
  ⟨.start, fun _ => [], [], [], []⟩

/-- The settings of a handle change. -/
def withSettings (s : SettingsState H) (curl : H) (settings : List Setting) : SettingsState H :=
  { s with settings := fun h => if h = curl then settings else s.settings h }

/-- What a step of the cache does to the settings: `curl_easy_init` returns a handle without any,
`curl_easy_setopt` may add one, and `globus_i_dsi_rest_handle_release` calls `curl_easy_reset`,
which is `reset`. -/
def handled (reset : List Setting → List Setting) (s : SettingsState H) :
    HandleAction H → SettingsState H
  | .init _ (some curl) => s.withSettings curl []
  | .setopt i rc =>
    match s.handles.requests[i]? with
    | some (.setting curl (option :: _)) =>
      if rc = 0 then s.withSettings curl (s.settings curl ++ [.option option]) else s
    | _ => s
  | .release i =>
    match s.handles.requests[i]? with
    | some (.got _ (some curl)) => s.withSettings curl (reset (s.settings curl))
    | _ => s
  | _ => s

/-- A step of the cache is not the start of a request, and a request is not cleaned up in the
middle of `globus_i_dsi_rest_set_request` or of its transfer. -/
def allows (s : SettingsState H) : HandleAction H → Bool
  | .start => false
  | .release i => (s.transfers[i]?).any TransferPhase.releases
  | _ => true

/-- A request comes to another place in its transfer. -/
def setTransfer (s : SettingsState H) (i : ℕ) (transfer : TransferPhase) : SettingsState H :=
  { s with transfers := s.transfers.set i transfer }

/-- The next state. -/
def step (build : CurlBuild) (reset : List Setting → List Setting) (s : SettingsState H) :
    SettingsAction H → Option (SettingsState H)
  | .start args => (s.handles.step build .start).map fun handles => { s with
      handles := handles, args := s.args ++ [args], transfers := s.transfers ++ [.idle] }
  | .handle action =>
    if s.allows action then
      (s.handles.step build action).map fun handles =>
        { s.handled reset action with handles := handles }
    else none
  | .setRequest i rc =>
    match s.handles.requests[i]?, s.args[i]?, s.transfers[i]? with
    | some (.got .success (some curl)), some args, some .idle =>
      let s := s.setTransfer i (.setting args.settings)
      if rc = 0 then some (s.withSettings curl (s.settings curl ++ [.customRequest none]))
      else some s
    | some (.got .success (some curl)), _, some (.setting (setting :: left)) =>
      if rc = 0 then
        some ((s.setTransfer i (if left = [] then .set else .setting left)).withSettings curl
          (s.settings curl ++ [setting]))
      else some (s.setTransfer i (.refused rc))
    | _, _, _ => none
  | .perform i =>
    match s.handles.requests[i]?, s.transfers[i]? with
    | some (.got .success (some curl)), some .set =>
      some { s.setTransfer i .performing with
        started := s.started ++ [⟨i, curl, s.settings curl⟩] }
    | _, _ => none
  | .finish i =>
    match s.transfers[i]? with
    | some .performing => some (s.setTransfer i .performed)
    | _ => none

/-- `curl_easy_init` returns a fresh handle or `NULL`. -/
def Fresh (s : SettingsState H) : SettingsAction H → Prop
  | .handle action => s.handles.Fresh action
  | _ => True

/-- The step of the cache that an action is. -/
def handleActions (_ : SettingsState H) : SettingsAction H → List (HandleAction H)
  | .start _ => [.start]
  | .handle action => [action]
  | .setRequest _ _ | .perform _ | .finish _ => []

end SettingsState

/-! ### What a step of the cache does to its request -/

section Cache

variable {H : Type*} {build : CurlBuild}

/-- Where a step of the cache takes the request with a number from and to. -/
inductive Goes (build : CurlBuild) (i : ℕ) : HandleAction H → Holder H → Holder H → Prop
  | missing : Goes build i (.get i) .fresh .initialising
  | taken (curl : H) : Goes build i (.get i) .fresh (.setting curl (handleOptions build i))
  | noHandle : Goes build i (.init i none) .initialising
      (.got (.error (.curl curlOutOfMemory)) none)
  | created (curl : H) : Goes build i (.init i (some curl)) .initialising
      (.setting curl (handleOptions build i))
  | option (curl : H) (option : CurlOption) (options : List CurlOption) :
      Goes build i (.setopt i 0) (.setting curl (option :: options)) (.afterOption curl options)
  | refused (curl : H) (option : CurlOption) (options : List CurlOption) (rc : ℕ) (h : rc ≠ 0) :
      Goes build i (.setopt i rc) (.setting curl (option :: options)) (.failing curl rc)
  | cleanedUp (curl : H) (rc : ℕ) : Goes build i (.cleanup i) (.failing curl rc)
      (.got (.error (.curl rc)) none)
  | unused : Goes build i (.release i) .fresh (.releasing none)
  | released (result : Result) (handle : Option H) :
      Goes build i (.release i) (.got result handle) (.releasing handle)
  | stored (handle : Option H) : Goes build i (.store i) (.releasing handle) .done
  | full (curl : H) : Goes build i (.store i) (.releasing (some curl)) (.destroying curl)
  | destroyed (curl : H) : Goes build i (.destroy i) (.destroying curl) .done

variable [DecidableEq H] {s s' : HandleState H} {i : ℕ} {r : Holder H} {curl : H}

/-- The handle of a request is not in the cache, and no other request has it. -/
structure HandleState.Alone (s : HandleState H) (i : ℕ) (curl : H) : Prop where
  cached : curl ∉ s.live
  held : ∀ (j : ℕ) (r : Holder H), j ≠ i → s.requests[j]? = some r → r.handle ≠ some curl

/-- A request that has a handle is alone with it. -/
theorem HandleState.Kept.alone (h : s.Kept) (hr : s.requests[i]? = some r)
    (hcurl : r.handle = some curl) : s.Alone i curl := by
  obtain ⟨hkept, -, -⟩ := List.nodup_append.mp h.accounted.places_nodup
  obtain ⟨-, hinUse, hapart⟩ := List.nodup_append.mp hkept
  have hmem : curl ∈ s.inUse := Custody.mem_held.mpr ⟨i, r, hr, hcurl⟩
  exact ⟨fun hlive => hapart curl hlive curl hmem rfl,
    fun j r' hne hr' hcurl' => hne (Custody.cell_unique hinUse hr' hr hcurl' hcurl)⟩

/-- A handle that was not created yet is nowhere. -/
theorem HandleState.Kept.alone_fresh (h : s.Kept) (hfresh : curl ∉ s.created) : s.Alone i curl := by
  have hplaces : curl ∉ s.live ++ s.inUse ++ s.destroyed := by
    rw [← List.count_eq_zero, h.accounted.balanced, List.count_eq_zero]
    exact hfresh
  simp only [List.mem_append, not_or] at hplaces
  exact ⟨hplaces.1.1, fun j r' _ hr' hcurl => hplaces.1.2 (Custody.mem_held.mpr ⟨j, r', hr', hcurl⟩)⟩

/-- **What a step of the cache does**: one request goes on, and all that may come into the cache is
the handle that it releases; what it takes from there was in it. -/
theorem HandleState.Kept.step_goes (h : s.Kept) {action : HandleAction H}
    (hstart : action ≠ .start) (hstep : s.step build action = some s') :
    ∃ i r r', s.requests[i]? = some r ∧ s'.requests = s.requests.set i r' ∧
      Goes build i action r r' ∧ (∀ curl ∈ s'.live, curl ∈ s.live ∨ r = .releasing (some curl)) ∧
      ∀ curl, action = .get i → r'.handle = some curl → curl ∈ s.live := by
  cases action with
  | start => exact absurd rfl hstart
  | get i =>
      rw [HandleState.step] at hstep
      split at hstep
      · rename_i hr
        rcases h.pop with ⟨-, hpop⟩ | ⟨curl, hpop, htake⟩
        · rw [hpop] at hstep
          obtain rfl := Option.some.inj hstep
          exact ⟨i, _, _, hr, rfl, .missing, fun _ hlive => .inl hlive, fun _ _ hnone => by cases hnone⟩
        · rw [hpop] at hstep
          obtain rfl := Option.some.inj hstep
          have hlive : s.live = Custody.held id (s.slots.take (s.index - 1)) ++ [curl] := by
            rw [HandleState.live, htake, Custody.held_append_singleton]
            rfl
          refine ⟨i, _, _, hr, rfl, .taken curl, fun x hx => .inl ?_, fun x _ hx => ?_⟩
          · rw [hlive]
            exact List.mem_append_left _ hx
          · obtain rfl := Option.some.inj hx
            rw [hlive]
            exact List.mem_append_right _ (List.mem_singleton_self _)
      · cases hstep
  | init i curl =>
      rw [HandleState.step.eq_def] at hstep
      simp only at hstep
      split at hstep
      · rename_i hr
        cases curl with
        | none =>
            obtain rfl := Option.some.inj hstep
            exact ⟨i, _, _, hr, rfl, .noHandle, fun _ hlive => .inl hlive, fun _ hget => by cases hget⟩
        | some curl =>
            obtain rfl := Option.some.inj hstep
            exact ⟨i, _, _, hr, rfl, .created curl, fun _ hlive => .inl hlive,
              fun _ hget => by cases hget⟩
      · cases hstep
  | setopt i rc =>
      rw [HandleState.step] at hstep
      split at hstep
      · rename_i curl option options hr
        split_ifs at hstep with hrc
        · obtain rfl := Option.some.inj hstep
          obtain rfl := hrc
          exact ⟨i, _, _, hr, rfl, .option curl option options, fun _ hlive => .inl hlive,
            fun _ hget => by cases hget⟩
        · obtain rfl := Option.some.inj hstep
          exact ⟨i, _, _, hr, rfl, .refused curl option options rc hrc, fun _ hlive => .inl hlive,
            fun _ hget => by cases hget⟩
      · cases hstep
  | cleanup i =>
      rw [HandleState.step] at hstep
      split at hstep
      · rename_i curl rc hr
        obtain rfl := Option.some.inj hstep
        exact ⟨i, _, _, hr, rfl, .cleanedUp curl rc, fun _ hlive => .inl hlive,
          fun _ hget => by cases hget⟩
      · cases hstep
  | release i =>
      rw [HandleState.step] at hstep
      split at hstep
      · rename_i hr
        obtain rfl := Option.some.inj hstep
        exact ⟨i, _, _, hr, rfl, .unused, fun _ hlive => .inl hlive, fun _ hget => by cases hget⟩
      · rename_i result handle hr
        obtain rfl := Option.some.inj hstep
        exact ⟨i, _, _, hr, rfl, .released result handle, fun _ hlive => .inl hlive,
          fun _ hget => by cases hget⟩
      · cases hstep
  | store i =>
      rw [HandleState.step] at hstep
      split at hstep
      · rename_i handle hr
        cases handle with
        | none =>
            have hpush : s.push none = some (none, s) := by
              rw [HandleState.push]
              split <;> rfl
            rw [hpush] at hstep
            obtain rfl := Option.some.inj hstep
            exact ⟨i, _, _, hr, rfl, .stored none, fun _ hlive => .inl hlive,
              fun _ hget => by cases hget⟩
        | some curl =>
            rcases h.push curl with ⟨-, hpush⟩ | ⟨-, hpush, htake⟩
            · rw [hpush] at hstep
              obtain rfl := Option.some.inj hstep
              exact ⟨i, _, _, hr, rfl, .full curl, fun _ hlive => .inl hlive,
                fun _ hget => by cases hget⟩
            · rw [hpush] at hstep
              obtain rfl := Option.some.inj hstep
              refine ⟨i, _, _, hr, rfl, .stored (some curl), fun x hx => ?_,
                fun _ hget => by cases hget⟩
              have hlive : x ∈ Custody.held id ((s.slots.set s.index (some curl)).take (s.index + 1)) :=
                hx
              rw [htake, Custody.held_append_singleton] at hlive
              rcases List.mem_append.mp hlive with hold | hnew
              · exact .inl hold
              · obtain rfl := List.mem_singleton.mp hnew
                exact .inr rfl
      · cases hstep
  | destroy i =>
      rw [HandleState.step] at hstep
      split at hstep
      · rename_i curl hr
        obtain rfl := Option.some.inj hstep
        exact ⟨i, _, _, hr, rfl, .destroyed curl, fun _ hlive => .inl hlive,
          fun _ hget => by cases hget⟩
      · cases hstep

end Cache

/-! ### What is set where -/

/-- What is set on the handle of a request suits the place where the request is. -/
inductive Suits {H : Type*} (build : CurlBuild) (i : ℕ) (args : SetRequestArgs)
    (settings : H → List Setting) : Holder H → TransferPhase → Prop
  | fresh : Suits build i args settings .fresh .idle
  | initialising : Suits build i args settings .initialising .idle
  | preparing {curl : H} {base : List Setting} {options : List CurlOption}
      (hbase : Based build i base) (h : settings curl ++ options.map .option = base) :
      Suits build i args settings (.setting curl options) .idle
  | failing {curl : H} {rc : ℕ} {base : List Setting} (hbase : Based build i base)
      (h : settings curl <+: base) :
      Suits build i args settings (.failing curl rc) .idle
  | noHandle (e : GlobusError) : Suits build i args settings (.got (.error e) none) .idle
  | prepared {curl : H} (h : Based build i (settings curl)) :
      Suits build i args settings (.got .success (some curl)) .idle
  | setting {curl : H} {base first left : List Setting} (hbase : Based build i base)
      (hfirst : CustomCleared first) (h : settings curl ++ left = base ++ first ++ args.settings) :
      Suits build i args settings (.got .success (some curl)) (.setting left)
  | refused {curl : H} {rc : ℕ} {base first : List Setting} (hbase : Based build i base)
      (hfirst : CustomCleared first) (h : settings curl <+: base ++ first ++ args.settings) :
      Suits build i args settings (.got .success (some curl)) (.refused rc)
  | complete {curl : H} {phase : TransferPhase} {base first : List Setting}
      (hphase : phase = .set ∨ phase = .performing ∨ phase = .performed)
      (hbase : Based build i base) (hfirst : CustomCleared first)
      (h : settings curl = base ++ first ++ args.settings) :
      Suits build i args settings (.got .success (some curl)) phase
  | released (phase : TransferPhase) : Suits build i args settings (.releasing none) phase
  | reset {curl : H} (phase : TransferPhase) (h : OnlyShares (settings curl)) :
      Suits build i args settings (.releasing (some curl)) phase
  | destroying {curl : H} (phase : TransferPhase) (h : OnlyShares (settings curl)) :
      Suits build i args settings (.destroying curl) phase
  | done (phase : TransferPhase) : Suits build i args settings .done phase

/-- Only the handle of the request matters. -/
theorem Suits.congr {H : Type*} {build : CurlBuild} {i : ℕ} {args : SetRequestArgs}
    {settings settings' : H → List Setting} {r : Holder H} {phase : TransferPhase}
    (h : Suits build i args settings r phase)
    (hsame : ∀ curl, r.handle = some curl → settings' curl = settings curl) :
    Suits build i args settings' r phase := by
  cases h with
  | fresh => exact .fresh
  | initialising => exact .initialising
  | preparing hbase h => exact .preparing hbase (by rwa [hsame _ rfl])
  | failing hbase h => exact .failing hbase (by rwa [hsame _ rfl])
  | noHandle e => exact .noHandle e
  | prepared h => exact .prepared (by rwa [hsame _ rfl])
  | setting hbase hfirst h => exact .setting hbase hfirst (by rwa [hsame _ rfl])
  | refused hbase hfirst h => exact .refused hbase hfirst (by rwa [hsame _ rfl])
  | complete hphase hbase hfirst h => exact .complete hphase hbase hfirst (by rwa [hsame _ rfl])
  | released phase => exact .released phase
  | reset phase h => exact .reset phase (by rwa [hsame _ rfl])
  | destroying phase h => exact .destroying phase (by rwa [hsame _ rfl])
  | done phase => exact .done phase

namespace SettingsState

variable {H : Type*} [DecidableEq H]

/-- The transfer was made with the settings of its request. -/
def Own (build : CurlBuild) (args : List SetRequestArgs) (t : Transferred H) : Prop :=
  ∃ own base first, args[t.request]? = some own ∧ Based build t.request base ∧
    CustomCleared first ∧ t.settings = base ++ first ++ own.settings

/-- The invariant: nothing but the share is set on a handle in the cache, a handle has the settings
of its request, and so had those of the transfers. -/
structure Kept (build : CurlBuild) (s : SettingsState H) : Prop where
  handles : s.handles.Kept
  numArgs : s.args.length = s.handles.requests.length
  numTransfers : s.transfers.length = s.handles.requests.length
  cached : ∀ curl ∈ s.handles.live, OnlyShares (s.settings curl)
  suits : ∀ i r args phase, s.handles.requests[i]? = some r → s.args[i]? = some args →
    s.transfers[i]? = some phase → Suits build i args s.settings r phase
  started : ∀ t ∈ s.started, Own build s.args t

variable {build : CurlBuild} {s s' : SettingsState H} {i : ℕ} {r r' : Holder H} {curl : H}
  {args : SetRequestArgs} {phase phase' : TransferPhase} {reset : List Setting → List Setting}

/-- The invariant holds before the first request. -/
theorem Kept.start : (start : SettingsState H).Kept build where
  handles := .start
  numArgs := rfl
  numTransfers := rfl
  cached := fun _ hlive => absurd hlive List.not_mem_nil
  suits := fun _ _ _ _ hr => by cases hr
  started := fun _ ht => absurd ht List.not_mem_nil

/-- A request has arguments and a place in its transfer. -/
theorem Kept.exists_args (h : s.Kept build) (hr : s.handles.requests[i]? = some r) :
    ∃ args phase, s.args[i]? = some args ∧ s.transfers[i]? = some phase := by
  obtain ⟨hlt, -⟩ := List.getElem?_eq_some_iff.mp hr
  exact ⟨_, _, List.getElem?_eq_getElem (h.numArgs ▸ hlt),
    List.getElem?_eq_getElem (h.numTransfers ▸ hlt)⟩

/-- **A request goes on.** Settings change at most on a handle that nobody else has, and on no
handle that is in the cache afterwards. -/
theorem Kept.goOn (h : s.Kept build) (hr : s.handles.requests[i]? = some r)
    (hargs : s.args[i]? = some args) (hphase : s.transfers[i]? = some phase)
    (hkept : s'.handles.Kept) (hrequests : s'.handles.requests = s.handles.requests.set i r')
    (hsame : s'.args = s.args) (htransfers : s'.transfers = s.transfers.set i phase')
    (hcached : ∀ curl ∈ s'.handles.live, OnlyShares (s'.settings curl))
    (hothers : ∀ j r'' curl, j ≠ i → s.handles.requests[j]? = some r'' → r''.handle = some curl →
      s'.settings curl = s.settings curl)
    (hsuits : Suits build i args s'.settings r' phase')
    (hstarted : ∀ t ∈ s'.started, Own build s.args t) : s'.Kept build where
  handles := hkept
  numArgs := by rw [hsame, hrequests, List.length_set, h.numArgs]
  numTransfers := by rw [htransfers, hrequests, List.length_set, List.length_set, h.numTransfers]
  cached := hcached
  suits := by
    intro j r'' args' phase'' hr'' hargs' hphase''
    rw [hsame] at hargs'
    by_cases hj : j = i
    · subst hj
      obtain ⟨hlt, -⟩ := List.getElem?_eq_some_iff.mp hr
      rw [hrequests, List.getElem?_set_self hlt] at hr''
      rw [htransfers, List.getElem?_set_self (h.numTransfers ▸ hlt)] at hphase''
      obtain rfl := Option.some.inj (hargs.symm.trans hargs')
      rw [← Option.some.inj hr'', ← Option.some.inj hphase'']
      exact hsuits
    · rw [hrequests, List.getElem?_set_ne (Ne.symm hj)] at hr''
      rw [htransfers, List.getElem?_set_ne (Ne.symm hj)] at hphase''
      exact (h.suits j r'' args' phase'' hr'' hargs' hphase'').congr
        fun curl hcurl => hothers j r'' curl hj hr'' hcurl
  started := by
    rw [hsame]
    exact hstarted

/-- A step of the cache changes settings at most. -/
theorem handled_eq (s : SettingsState H) (action : HandleAction H) :
    s.handled reset action = { s with settings := (s.handled reset action).settings } := by
  cases action with
  | init i curl => cases curl <;> rfl
  | setopt i rc =>
      rw [handled]
      split
      · split <;> rfl
      · rfl
  | release i =>
      rw [handled]
      split <;> rfl
  | start | get | cleanup | store | destroy => rfl

/-- The settings of the handles that nobody else has are the same after a change on one handle. -/
theorem withSettings_of_ne (settings : List Setting) {x : H} (hne : x ≠ curl) :
    (s.withSettings curl settings).settings x = s.settings x :=
  if_neg hne

@[simp] theorem withSettings_self (curl : H) (settings : List Setting) :
    (s.withSettings curl settings).settings curl = settings :=
  if_pos rfl

/-- A step of the cache that changes no settings. -/
theorem Kept.handle_same (h : s.Kept build) {action : HandleAction H} {handles : HandleState H}
    (hr : s.handles.requests[i]? = some r) (hargs : s.args[i]? = some args)
    (hphase : s.transfers[i]? = some phase) (hkept : handles.Kept)
    (hrequests : handles.requests = s.handles.requests.set i r')
    (hlive : ∀ curl ∈ handles.live, curl ∈ s.handles.live ∨ r = .releasing (some curl))
    (hsettings : (s.handled reset action).settings = s.settings)
    (hsuits : Suits build i args s.settings r' phase) :
    Kept build { s.handled reset action with handles := handles } := by
  rw [handled_eq, hsettings]
  refine h.goOn hr hargs hphase hkept hrequests rfl ?_ (fun curl hcurl => ?_)
    (fun _ _ _ _ _ _ => rfl) hsuits h.started
  · obtain ⟨hlt, rfl⟩ := List.getElem?_eq_some_iff.mp hphase
    exact (List.set_getElem_self hlt).symm
  · rcases hlive curl hcurl with hold | rfl
    · exact h.cached curl hold
    · cases h.suits i _ args phase hr hargs hphase with
      | reset _ hshares => exact hshares

/-- A step of the cache that changes the settings of a handle that nobody else has. -/
theorem Kept.handle_change (h : s.Kept build) {action : HandleAction H} {handles : HandleState H}
    {settings : List Setting} (hr : s.handles.requests[i]? = some r)
    (hargs : s.args[i]? = some args) (hphase : s.transfers[i]? = some phase)
    (hkept : handles.Kept) (hrequests : handles.requests = s.handles.requests.set i r')
    (hlive : ∀ curl ∈ handles.live, curl ∈ s.handles.live ∨ r = .releasing (some curl))
    (hnot : ∀ curl, r ≠ .releasing (some curl)) (halone : s.handles.Alone i curl)
    (hsettings : (s.handled reset action).settings = (s.withSettings curl settings).settings)
    (hsuits : Suits build i args (s.withSettings curl settings).settings r' phase) :
    Kept build { s.handled reset action with handles := handles } := by
  rw [handled_eq, hsettings]
  refine h.goOn hr hargs hphase hkept hrequests rfl ?_ (fun x hx => ?_)
    (fun j r'' x hj hr'' hx => ?_) hsuits h.started
  · obtain ⟨hlt, rfl⟩ := List.getElem?_eq_some_iff.mp hphase
    exact (List.set_getElem_self hlt).symm
  · rcases hlive x hx with hold | hreleased
    · have hne : x ≠ curl := fun heq => halone.cached (heq ▸ hold)
      exact (withSettings_of_ne settings hne).symm ▸ h.cached x hold
    · exact absurd hreleased (hnot x)
  · have hne : x ≠ curl := fun heq => halone.held j r'' hj hr'' (heq ▸ hx)
    exact withSettings_of_ne settings hne

/-- **A step of the cache** keeps the settings where they belong. -/
theorem Kept.handle (h : s.Kept build) (hreset : KeepsShares reset) {action : HandleAction H}
    {handles : HandleState H} (hallows : s.allows action = true) (hfresh : s.handles.Fresh action)
    (hstep : s.handles.step build action = some handles) :
    Kept build { s.handled reset action with handles := handles } := by
  have hkept := h.handles.step hfresh hstep
  obtain ⟨i, r, r', hr, hrequests, hgoes, hlive, htaken⟩ :=
    h.handles.step_goes (by rintro rfl; cases hallows) hstep
  obtain ⟨args, phase, hargs, hphase⟩ := h.exists_args hr
  have hold := h.suits i r args phase hr hargs hphase
  cases hgoes with
  | missing =>
      cases hold
      exact h.handle_same hr hargs hphase hkept hrequests hlive rfl .initialising
  | taken curl =>
      cases hold
      have hclean := h.cached curl (htaken curl rfl rfl)
      exact h.handle_same hr hargs hphase hkept hrequests hlive rfl
        (.preparing ⟨_, hclean, rfl⟩ rfl)
  | noHandle =>
      cases hold
      exact h.handle_same hr hargs hphase hkept hrequests hlive rfl (.noHandle _)
  | created curl =>
      cases hold
      exact h.handle_change hr hargs hphase hkept hrequests hlive (fun _ hnot => by cases hnot)
        (h.handles.alone_fresh hfresh) rfl
        (.preparing ⟨[], fun _ hnone => absurd hnone List.not_mem_nil, rfl⟩
          (by rw [withSettings_self]; rfl))
  | option curl option options =>
      cases hold with
      | preparing hbase hset =>
          have hsettings : (s.handled reset (.setopt i 0)).settings
              = (s.withSettings curl (s.settings curl ++ [.option option])).settings := by
            rw [handled, hr]
            rfl
          rw [List.map_cons, ← List.singleton_append, ← List.append_assoc] at hset
          refine h.handle_change hr hargs hphase hkept hrequests hlive
            (fun _ hnot => by cases hnot) (h.handles.alone hr rfl) hsettings ?_
          cases options with
          | nil =>
              refine .prepared ?_
              rw [List.map_nil, List.append_nil] at hset
              rwa [withSettings_self, hset]
          | cons later options =>
              refine .preparing hbase ?_
              rwa [withSettings_self]
  | refused curl option options rc hrc =>
      cases hold with
      | preparing hbase hset =>
          have hsettings : (s.handled reset (.setopt i rc)).settings = s.settings := by
            rw [handled, hr]
            simp only [if_neg hrc]
          exact h.handle_same hr hargs hphase hkept hrequests hlive hsettings
            (.failing hbase ⟨_, hset⟩)
  | cleanedUp curl rc =>
      cases hold
      exact h.handle_same hr hargs hphase hkept hrequests hlive rfl (.noHandle _)
  | unused =>
      cases hold
      have hsettings : (s.handled reset (.release i)).settings = s.settings := by
        rw [handled, hr]
      exact h.handle_same hr hargs hphase hkept hrequests hlive hsettings (.released _)
  | released result handle =>
      cases handle with
      | none =>
          have hsettings : (s.handled reset (.release i)).settings = s.settings := by
            rw [handled, hr]
          exact h.handle_same hr hargs hphase hkept hrequests hlive hsettings (.released _)
      | some curl =>
          have hsettings : (s.handled reset (.release i)).settings
              = (s.withSettings curl (reset (s.settings curl))).settings := by
            rw [handled, hr]
          exact h.handle_change hr hargs hphase hkept hrequests hlive
            (fun _ hnot => by cases hnot) (h.handles.alone hr rfl) hsettings
            (.reset _ (by rw [withSettings_self]; exact hreset _))
  | stored handle =>
      exact h.handle_same hr hargs hphase hkept hrequests hlive rfl (.done _)
  | full curl =>
      cases hold with
      | reset _ hshares =>
          exact h.handle_same hr hargs hphase hkept hrequests hlive rfl (.destroying _ hshares)
  | destroyed curl =>
      exact h.handle_same hr hargs hphase hkept hrequests hlive rfl (.done _)

/-- A call of `globus_i_dsi_rest_set_request`, which may set something. -/
theorem Kept.setRequest (h : s.Kept build) {settings : List Setting}
    (hr : s.handles.requests[i]? = some (.got .success (some curl)))
    (hargs : s.args[i]? = some args) (hphase : s.transfers[i]? = some phase)
    (hsuits : Suits build i args (s.withSettings curl settings).settings
      (.got .success (some curl)) phase') :
    ((s.setTransfer i phase').withSettings curl settings).Kept build := by
  have halone := h.handles.alone hr rfl
  obtain ⟨hlt, hself⟩ := List.getElem?_eq_some_iff.mp hr
  have hrequests : s.handles.requests
      = s.handles.requests.set i (.got .success (some curl)) := by
    rw [← hself, List.set_getElem_self]
  refine h.goOn hr hargs hphase h.handles hrequests rfl rfl (fun x hx => ?_)
    (fun j r'' x hj hr'' hx => ?_) hsuits h.started
  · have hne : x ≠ curl := fun heq => halone.cached (heq ▸ hx)
    rw [withSettings_of_ne settings hne]
    exact h.cached x hx
  · have hne : x ≠ curl := fun heq => halone.held j r'' hj hr'' (heq ▸ hx)
    exact withSettings_of_ne settings hne

/-- A request comes to another place in its transfer, without any change of settings. -/
theorem Kept.setTransfer (h : s.Kept build) {started : List (Transferred H)}
    (hr : s.handles.requests[i]? = some r) (hargs : s.args[i]? = some args)
    (hphase : s.transfers[i]? = some phase)
    (hsuits : Suits build i args s.settings r phase')
    (hstarted : ∀ t ∈ started, Own build s.args t) :
    Kept build { s.setTransfer i phase' with started := started } := by
  obtain ⟨hlt, hself⟩ := List.getElem?_eq_some_iff.mp hr
  have hrequests : s.handles.requests = s.handles.requests.set i r := by
    rw [← hself, List.set_getElem_self]
  exact h.goOn hr hargs hphase h.handles hrequests rfl rfl h.cached (fun _ _ _ _ _ _ => rfl)
    hsuits hstarted

/-- A request starts. -/
theorem Kept.begin (h : s.Kept build) {handles : HandleState H} (args : SetRequestArgs)
    (hstep : s.handles.step build .start = some handles) :
    Kept build { s with
      handles := handles, args := s.args ++ [args], transfers := s.transfers ++ [.idle] } where
  handles := by
    have hfresh : s.handles.Fresh .start := trivial
    exact h.handles.step hfresh hstep
  numArgs := by
    obtain rfl := Option.some.inj hstep
    simp [h.numArgs]
  numTransfers := by
    obtain rfl := Option.some.inj hstep
    simp [h.numTransfers]
  cached := by
    obtain rfl := Option.some.inj hstep
    exact h.cached
  suits := by
    obtain rfl := Option.some.inj hstep
    intro j r args' phase hr hargs hphase
    rcases Nat.lt_or_ge j s.handles.requests.length with hlt | hge
    · simp only at hr hargs hphase
      rw [List.getElem?_append_left hlt] at hr
      rw [List.getElem?_append_left (h.numArgs ▸ hlt)] at hargs
      rw [List.getElem?_append_left (h.numTransfers ▸ hlt)] at hphase
      exact h.suits j r args' phase hr hargs hphase
    · simp only at hr hphase
      rw [List.getElem?_append_right hge] at hr
      rw [List.getElem?_append_right (h.numTransfers ▸ hge)] at hphase
      obtain rfl := List.mem_singleton.mp (List.mem_of_getElem? hr)
      obtain rfl := List.mem_singleton.mp (List.mem_of_getElem? hphase)
      exact .fresh
  started := by
    obtain rfl := Option.some.inj hstep
    intro t ht
    obtain ⟨own, base, first, hown, hrest⟩ := h.started t ht
    obtain ⟨hlt, -⟩ := List.getElem?_eq_some_iff.mp hown
    exact ⟨own, base, first, (List.getElem?_append_left hlt).trans hown, hrest⟩

/-- **Every step** keeps the settings where they belong. -/
theorem Kept.step (h : s.Kept build) (hreset : KeepsShares reset) {action : SettingsAction H}
    (hfresh : s.Fresh action) (hstep : s.step build reset action = some s') : s'.Kept build := by
  cases action with
  | start args =>
      rw [SettingsState.step] at hstep
      obtain ⟨handles, hhandles, rfl⟩ := Option.map_eq_some_iff.mp hstep
      exact h.begin args hhandles
  | handle action =>
      rw [SettingsState.step] at hstep
      split_ifs at hstep with hallows
      obtain ⟨handles, hhandles, rfl⟩ := Option.map_eq_some_iff.mp hstep
      exact h.handle hreset hallows hfresh hhandles
  | setRequest i rc =>
      rw [SettingsState.step] at hstep
      split at hstep
      case h_1 curl args hr hargs hphase =>
        cases h.suits i _ args _ hr hargs hphase with
        | prepared hbase =>
            simp only at hstep
            split_ifs at hstep
            · obtain rfl := Option.some.inj hstep
              refine h.setRequest hr hargs hphase (.setting hbase (.inr rfl) ?_)
              rw [withSettings_self]
              rfl
            · obtain rfl := Option.some.inj hstep
              refine h.setTransfer hr hargs hphase (.setting hbase (.inl rfl) ?_) h.started
              rw [List.append_nil]
        | complete hphase => simp at hphase
      case h_2 curl setting left hr hphase =>
        obtain ⟨args, -, hargs, -⟩ := h.exists_args hr
        cases h.suits i _ args _ hr hargs hphase with
        | setting hbase hfirst hset =>
            rw [← List.singleton_append, ← List.append_assoc] at hset
            split_ifs at hstep with hrc hleft
            · obtain rfl := Option.some.inj hstep
              refine h.setRequest hr hargs hphase (.complete (.inl rfl) hbase hfirst ?_)
              rw [hleft, List.append_nil] at hset
              rwa [withSettings_self]
            · obtain rfl := Option.some.inj hstep
              refine h.setRequest hr hargs hphase (.setting hbase hfirst ?_)
              rwa [withSettings_self]
            · obtain rfl := Option.some.inj hstep
              refine h.setTransfer hr hargs hphase (.refused hbase hfirst ?_) h.started
              exact ⟨_, (List.append_assoc ..).symm.trans hset⟩
        | complete hphase => simp at hphase
      case h_3 => cases hstep
  | perform i =>
      rw [SettingsState.step] at hstep
      split at hstep
      · rename_i curl hr hphase
        obtain rfl := Option.some.inj hstep
        obtain ⟨args, -, hargs, -⟩ := h.exists_args hr
        cases h.suits i _ args _ hr hargs hphase with
        | complete _ hbase hfirst hset =>
            refine h.setTransfer hr hargs hphase (.complete (.inr (.inl rfl)) hbase hfirst hset) ?_
            intro t ht
            rcases List.mem_append.mp ht with hold | hnew
            · exact h.started t hold
            · obtain rfl := List.mem_singleton.mp hnew
              exact ⟨args, _, _, hargs, hbase, hfirst, hset⟩
      · cases hstep
  | finish i =>
      rw [SettingsState.step] at hstep
      split at hstep
      · rename_i hphase
        obtain rfl := Option.some.inj hstep
        obtain ⟨hlt, -⟩ := List.getElem?_eq_some_iff.mp hphase
        obtain ⟨r, hr⟩ : ∃ r, s.handles.requests[i]? = some r :=
          ⟨_, List.getElem?_eq_getElem (h.numTransfers ▸ hlt)⟩
        obtain ⟨args, -, hargs, -⟩ := h.exists_args hr
        have hold := h.suits i _ args _ hr hargs hphase
        refine h.setTransfer hr hargs hphase ?_ h.started
        cases hold with
        | complete _ hbase hfirst hset => exact .complete (.inr (.inr rfl)) hbase hfirst hset
        | released => exact .released _
        | reset _ hshares => exact .reset _ hshares
        | destroying _ hshares => exact .destroying _ hshares
        | done => exact .done _
      · cases hstep

end SettingsState

/-! ### Whole runs -/

/-- What is set on the handle of a request is a part of its own settings. -/
theorem Suits.own {H : Type*} {build : CurlBuild} {i : ℕ} {args : SetRequestArgs}
    {settings : H → List Setting} {r : Holder H} {phase : TransferPhase} {curl : H}
    (h : Suits build i args settings r phase) (hcurl : r.handle = some curl) :
    ∃ base first, Based build i base ∧ CustomCleared first ∧
      settings curl <+: base ++ first ++ args.settings := by
  have hwhole : ∀ {base : List Setting}, base <+: base ++ [] ++ args.settings := by
    intro base
    rw [List.append_nil]
    exact List.prefix_append _ _
  cases h with
  | fresh | initialising | noHandle | released | done => cases hcurl
  | preparing hbase h =>
      obtain rfl := Option.some.inj hcurl
      exact ⟨_, [], hbase, .inl rfl, List.IsPrefix.trans ⟨_, h⟩ hwhole⟩
  | failing hbase h =>
      obtain rfl := Option.some.inj hcurl
      exact ⟨_, [], hbase, .inl rfl, h.trans hwhole⟩
  | prepared h =>
      obtain rfl := Option.some.inj hcurl
      exact ⟨_, [], h, .inl rfl, hwhole⟩
  | setting hbase hfirst h =>
      obtain rfl := Option.some.inj hcurl
      exact ⟨_, _, hbase, hfirst, _, h⟩
  | refused hbase hfirst h =>
      obtain rfl := Option.some.inj hcurl
      exact ⟨_, _, hbase, hfirst, h⟩
  | complete _ hbase hfirst h =>
      obtain rfl := Option.some.inj hcurl
      exact ⟨_, _, hbase, hfirst, h ▸ List.prefix_rfl⟩
  | reset _ h | destroying _ h =>
      obtain rfl := Option.some.inj hcurl
      refine ⟨_, [], ⟨_, h, rfl⟩, .inl rfl, List.IsPrefix.trans ?_ hwhole⟩
      exact List.prefix_append _ _

namespace SettingsState

variable {H : Type*} [DecidableEq H] {build : CurlBuild} {reset : List Setting → List Setting}

instance (s : SettingsState H) (action : SettingsAction H) : Decidable (s.Fresh action) :=
  match action with
  | .handle action => inferInstanceAs (Decidable (s.handles.Fresh action))
  | .start _ | .setRequest _ _ | .perform _ | .finish _ => isTrue trivial

/-- The invariant holds in every run. -/
theorem kept_run {actions : List (SettingsAction H)} {s : SettingsState H}
    (hreset : KeepsShares reset)
    (hfresh : Guarded.Along (SettingsState.step build reset) SettingsState.Fresh .start actions)
    (hrun : Guarded.run (SettingsState.step build reset) .start actions = some s) : s.Kept build :=
  Guarded.invariant (fun _ _ _ hkept hfresh hstep => hkept.step hreset hfresh hstep) Kept.start
    hfresh hrun

/-- **The cache does not see the settings**: it takes its own steps, and settings are made
between them. -/
theorem simulates : Guarded.Simulates (SettingsState.step build reset) (HandleState.step build)
    SettingsState.handles (handleActions (H := H)) (fun _ => True) fun _ _ => True where
  inv := fun _ _ _ _ _ _ => trivial
  matched := by
    intro s action t _ _ hstep
    cases action with
    | start args =>
        rw [SettingsState.step] at hstep
        obtain ⟨handles, hhandles, rfl⟩ := Option.map_eq_some_iff.mp hstep
        exact Guarded.run_cons.mpr ⟨handles, hhandles, rfl⟩
    | handle action =>
        rw [SettingsState.step] at hstep
        split_ifs at hstep
        obtain ⟨handles, hhandles, rfl⟩ := Option.map_eq_some_iff.mp hstep
        exact Guarded.run_cons.mpr ⟨handles, hhandles, rfl⟩
    | setRequest i rc =>
        rw [SettingsState.step] at hstep
        split at hstep
        · simp only at hstep
          split_ifs at hstep <;> exact Option.some.inj hstep ▸ rfl
        · split_ifs at hstep <;> exact Option.some.inj hstep ▸ rfl
        · cases hstep
    | perform i =>
        rw [SettingsState.step] at hstep
        split at hstep
        · exact Option.some.inj hstep ▸ rfl
        · cases hstep
    | finish i =>
        rw [SettingsState.step] at hstep
        split at hstep
        · exact Option.some.inj hstep ▸ rfl
        · cases hstep

end SettingsState

/-- Nothing but the share is set on a handle in the cache; what is set on the handle of a request is
a part of its own settings, in their order, behind nothing but the share; and every transfer was
made with all of its own settings, behind nothing but the share and the removal of a custom
method. -/
structure SettingsState.Isolated {H : Type*} (build : CurlBuild) (s : SettingsState H) : Prop where
  cached : ∀ curl ∈ s.handles.live, OnlyShares (s.settings curl)
  held : ∀ i r curl args, s.handles.requests[i]? = some r → r.handle = some curl →
    s.args[i]? = some args → ∃ base first, Based build i base ∧ CustomCleared first ∧
      s.settings curl <+: base ++ first ++ args.settings
  started : ∀ t ∈ s.started, ∃ args base first, s.args[t.request]? = some args ∧
    Based build t.request base ∧ CustomCleared first ∧ t.settings = base ++ first ++ args.settings

/-- **No request is made with the settings of another one**, in every run of any number of
requests, whatever the order of their steps and whatever cannot be set. -/
theorem transfer_isolated {H : Type*} [DecidableEq H] {build : CurlBuild}
    {reset : List Setting → List Setting} {actions : List (SettingsAction H)} {s : SettingsState H}
    (hreset : KeepsShares reset)
    (hfresh : Guarded.Along (SettingsState.step build reset) SettingsState.Fresh .start actions)
    (hrun : Guarded.run (SettingsState.step build reset) .start actions = some s) :
    s.Isolated build := by
  have h := SettingsState.kept_run hreset hfresh hrun
  refine ⟨h.cached, fun i r curl args hr hcurl hargs => ?_, h.started⟩
  obtain ⟨args', phase, hargs', hphase⟩ := h.exists_args hr
  obtain rfl := Option.some.inj (hargs.symm.trans hargs')
  exact (h.suits i r args phase hr hargs hphase).own hcurl

/-! ### The request that is sent -/

/-- What libcurl sends for a transfer with the options that are set: the method in the request
line, and whether it asks `globus_i_dsi_rest_read_data` for a body. -/
structure Libcurl where
  method : List Setting → Bytes
  asksBody : List Setting → Bool

/-- The kind of request that an option makes, by its method, and whether such a request has a
body. -/
def Setting.kind : Setting → Option (Bytes × Bool)
  | .noBody => some (bytes "HEAD", false)
  | .httpGet => some (bytes "GET", false)
  | .upload => some (bytes "PUT", true)
  | .post => some (bytes "POST", true)
  | .option _ | .customRequest _ | .url _ | .httpHeader _ => none

/-- No kind of request is set yet, and no custom method. -/
def Unspecified (settings : List Setting) : Prop :=
  ∀ setting ∈ settings, setting = .customRequest none ∨ ∃ option, setting = .option option

/-- What libcurl says of the options: where no kind of request was set before, the first one makes
it, with its method; a custom method stands in for that, and changes nothing else; and the URI and
the headers change neither. -/
structure Libcurl.Documented (curl : Libcurl) : Prop where
  kind : ∀ settings setting method body, Unspecified settings →
    setting.kind = some (method, body) →
      curl.method (settings ++ [setting]) = method ∧ curl.asksBody (settings ++ [setting]) = body
  custom : ∀ settings method,
    curl.method (settings ++ [.customRequest (some method)]) = method ∧
      curl.asksBody (settings ++ [.customRequest (some method)]) = curl.asksBody settings
  other : ∀ settings uri headers,
    curl.method (settings ++ [.url uri, .httpHeader headers]) = curl.method settings ∧
      curl.asksBody (settings ++ [.url uri, .httpHeader headers]) = curl.asksBody settings

/-- On the handle of a request nothing is specified in front of its own settings. -/
theorem unspecified_base {build : CurlBuild} {i : ℕ} {base first : List Setting}
    (hbase : Based build i base) (hfirst : CustomCleared first) : Unspecified (base ++ first) := by
  obtain ⟨kept, hkept, rfl⟩ := hbase
  intro setting hsetting
  simp only [List.mem_append, baseSettings, List.mem_map] at hsetting
  rcases hsetting with (hshare | ⟨option, -, rfl⟩) | hcustom
  · exact .inr ⟨_, hkept setting hshare⟩
  · exact .inr ⟨option, rfl⟩
  · rcases hfirst with rfl | rfl
    · exact absurd hcustom List.not_mem_nil
    · exact .inl (List.mem_singleton.mp hcustom)

namespace SetRequestArgs

/-- The methods for which libcurl does not ask for a body, whatever the callbacks. -/
def Bodyless (args : SetRequestArgs) : Prop :=
  args.method = bytes "HEAD" ∨ args.method = bytes "GET" ∨ args.method = bytes "DELETE"

/-- The methods for which libcurl asks for a body, whatever the callbacks. -/
def Bodied (args : SetRequestArgs) : Prop :=
  args.method = bytes "PUT" ∨ args.method = bytes "POST"

/-- **The settings of a request** keep its method, and ask for a body where the method has one, or
where there is a write callback and the method does not rule it out. -/
theorem settings_spec {curl : Libcurl} (hcurl : curl.Documented) {before : List Setting}
    (hbefore : Unspecified before) (args : SetRequestArgs) :
    curl.method (before ++ args.settings) = args.method ∧
      (curl.asksBody (before ++ args.settings) = true ↔
        args.Bodied ∨ args.dataWrite = true ∧ ¬ args.Bodyless) := by
  obtain ⟨hmethod, hbody⟩ := hcurl.other (before ++ args.methodSettings) args.uri args.headers
  rw [settings, ← List.append_assoc, hmethod, hbody]
  -- a kind of request alone, or with a custom method behind it
  have halone : ∀ {setting : Setting} {method : Bytes} {body : Bool},
      setting.kind = some (method, body) → curl.method (before ++ [setting]) = method ∧
        curl.asksBody (before ++ [setting]) = body :=
    fun hkind => hcurl.kind _ _ _ _ hbefore hkind
  have hcustom : ∀ {setting : Setting} {method : Bytes} {body : Bool} (custom : Bytes),
      setting.kind = some (method, body) →
        curl.method (before ++ [setting, .customRequest (some custom)]) = custom ∧
          curl.asksBody (before ++ [setting, .customRequest (some custom)]) = body := by
    intro setting method body custom hkind
    obtain ⟨hmethod, hbody⟩ := hcurl.custom (before ++ [setting]) custom
    rw [List.append_assoc] at hmethod hbody
    exact ⟨hmethod, hbody.trans (halone hkind).2⟩
  obtain ⟨method, uri, headers, dataRead, dataWrite⟩ := args
  simp only [methodSettings, Bodied, Bodyless]
  split_ifs with hhead hget hput hpost hdelete hboth hread hwrite
  · subst hhead
    refine ⟨(halone rfl).1, ?_⟩
    rw [(halone rfl).2]
    cases dataWrite <;> decide
  · subst hget
    refine ⟨(halone rfl).1, ?_⟩
    rw [(halone rfl).2]
    cases dataWrite <;> decide
  · subst hput
    exact ⟨(halone rfl).1, iff_of_true (halone rfl).2 (.inl (.inl rfl))⟩
  · subst hpost
    exact ⟨(halone rfl).1, iff_of_true (halone rfl).2 (.inl (.inr rfl))⟩
  · subst hdelete
    refine ⟨(hcustom _ rfl).1, ?_⟩
    rw [(hcustom _ rfl).2]
    cases dataWrite <;> decide
  · obtain ⟨-, rfl⟩ := Bool.and_eq_true_iff.mp hboth
    exact ⟨(hcustom _ rfl).1,
      iff_of_true (hcustom _ rfl).2 (.inr ⟨rfl, by simp [hhead, hget, hdelete]⟩)⟩
  · obtain rfl : dataWrite = false := by simpa [hread] using hboth
    refine ⟨(hcustom _ rfl).1, ?_⟩
    rw [(hcustom _ rfl).2]
    exact iff_of_false Bool.false_ne_true (by simp [hput, hpost])
  · subst hwrite
    exact ⟨(hcustom _ rfl).1,
      iff_of_true (hcustom _ rfl).2 (.inr ⟨rfl, by simp [hhead, hget, hdelete]⟩)⟩
  · obtain rfl : dataWrite = false := by simpa using hwrite
    refine ⟨(hcustom _ rfl).1, ?_⟩
    rw [(hcustom _ rfl).2]
    exact iff_of_false Bool.false_ne_true (by simp [hput, hpost])

/-- The requests whose headers announce a body. -/
theorem mayHaveBody_eq_true (args : SetRequestArgs) :
    mayHaveBody args.method args.dataWrite = true ↔
      args.Bodied ∨ args.method = bytes "PATCH" ∨ args.dataWrite = true := by
  simp only [mayHaveBody, Bodied, Bool.or_eq_true, beq_iff_eq]
  tauto

/-- The headers announce a body for the same requests, but for `PATCH` without a write callback,
and for a write callback with a method that rules a body out. -/
theorem mayHaveBody_iff (args : SetRequestArgs) :
    (mayHaveBody args.method args.dataWrite = true ↔
        args.Bodied ∨ args.dataWrite = true ∧ ¬ args.Bodyless) ↔
      ¬ (args.dataWrite = true ∧ args.Bodyless) ∧
        ¬ (args.dataWrite = false ∧ args.method = bytes "PATCH") := by
  have hpatch : args.method = bytes "PATCH" → ¬ args.Bodied ∧ ¬ args.Bodyless := by
    intro hmethod
    simp only [Bodied, Bodyless, hmethod]
    decide
  have hbodied : args.Bodied → ¬ args.Bodyless := by
    rintro (hmethod | hmethod)
    · simp only [Bodyless, hmethod]
      decide
    · simp only [Bodyless, hmethod]
      decide
  rw [mayHaveBody_eq_true]
  cases hwrite : args.dataWrite with
  | false =>
      simp only [Bool.false_eq_true, false_and, or_false, not_false_eq_true, true_and]
      constructor
      · exact fun h hmethod => (hpatch hmethod).1 (h.mp (.inr hmethod))
      · exact fun h => ⟨fun hor => hor.resolve_right h, .inl⟩
  | true =>
      simp only [or_true, true_and, true_iff, Bool.true_eq_false, false_and, not_false_eq_true,
        and_true]
      constructor
      · rintro (hmethod | hnot)
        · exact hbodied hmethod
        · exact hnot
      · exact .inr

end SetRequestArgs

/-- What libcurl sends in the transfers, by the options that were set for them, relates to the
arguments of their requests. -/
def SettingsState.Sends {H : Type*} (s : SettingsState H)
    (P : SetRequestArgs → List Setting → Prop) : Prop :=
  ∀ t ∈ s.started, ∃ args, s.args[t.request]? = some args ∧ P args t.settings

/-- **Every transfer is made with the method of its own request.** libcurl asks for a body exactly
where the method is `PUT` or `POST`, or where there is a write callback and the method is none of
`HEAD`, `GET` and `DELETE`. -/
theorem transfer_method {H : Type*} [DecidableEq H] {build : CurlBuild}
    {reset : List Setting → List Setting} {curl : Libcurl} {actions : List (SettingsAction H)}
    {s : SettingsState H} (hreset : KeepsShares reset) (hcurl : curl.Documented)
    (hfresh : Guarded.Along (SettingsState.step build reset) SettingsState.Fresh .start actions)
    (hrun : Guarded.run (SettingsState.step build reset) .start actions = some s) :
    s.Sends fun args settings => curl.method settings = args.method ∧
      (curl.asksBody settings = true ↔ args.Bodied ∨ args.dataWrite = true ∧ ¬ args.Bodyless) := by
  intro t ht
  obtain ⟨args, base, first, hargs, hbase, hfirst, hsettings⟩ :=
    (SettingsState.kept_run hreset hfresh hrun).started t ht
  rw [hsettings]
  exact ⟨args, hargs, args.settings_spec hcurl (unspecified_base hbase hfirst)⟩

/-- **When the headers announce the body that is sent.** Where a body is sent, the headers announce
one. They announce none that is not sent exactly if there is no write callback with one of the
methods `HEAD`, `GET` and `DELETE`, and no `PATCH` without one. -/
theorem transfer_announced_iff {H : Type*} [DecidableEq H] {build : CurlBuild}
    {reset : List Setting → List Setting} {curl : Libcurl} {actions : List (SettingsAction H)}
    {s : SettingsState H} (hreset : KeepsShares reset) (hcurl : curl.Documented)
    (hfresh : Guarded.Along (SettingsState.step build reset) SettingsState.Fresh .start actions)
    (hrun : Guarded.run (SettingsState.step build reset) .start actions = some s) :
    s.Sends fun args settings =>
      (curl.asksBody settings = true → mayHaveBody args.method args.dataWrite = true) ∧
        (mayHaveBody args.method args.dataWrite = curl.asksBody settings ↔
          ¬ (args.dataWrite = true ∧ args.Bodyless) ∧
            ¬ (args.dataWrite = false ∧ args.method = bytes "PATCH")) := by
  intro t ht
  obtain ⟨args, base, first, hargs, hbase, hfirst, hsettings⟩ :=
    (SettingsState.kept_run hreset hfresh hrun).started t ht
  have hbody := (args.settings_spec hcurl (unspecified_base hbase hfirst)).2
  rw [← hsettings] at hbody
  refine ⟨args, hargs, ?_, ?_⟩
  · rw [hbody, args.mayHaveBody_eq_true]
    rintro (hbodied | ⟨hwrite, -⟩)
    · exact .inl hbodied
    · exact .inr (.inr hwrite)
  · rw [← args.mayHaveBody_iff, ← hbody, Bool.eq_iff_iff]

/-- A reset that keeps the share. -/
def keepShare (settings : List Setting) : List Setting :=
  settings.filter (· = .option .share)

theorem keepsShares_keepShare : KeepsShares keepShare :=
  fun _ _ hsetting => of_decide_eq_true (List.mem_filter.mp hsetting).2

/-- The custom method that an option sets or removes. -/
def Setting.custom : Setting → Option (Option Bytes)
  | .customRequest method => some method
  | _ => none

/-- A libcurl in which the last custom method stands in for that of the last kind of request. -/
def lastOptions : Libcurl where
  method settings := ((settings.reverse.findSome? Setting.custom).getD none).getD
    (((settings.reverse.findSome? Setting.kind).map Prod.fst).getD (bytes "GET"))
  asksBody settings := ((settings.reverse.findSome? Setting.kind).map Prod.snd).getD false

theorem documented_lastOptions : lastOptions.Documented where
  kind := by
    intro settings setting method body hsettings hkind
    have hcustom : (settings.reverse.findSome? Setting.custom).getD none = none := by
      cases hfound : settings.reverse.findSome? Setting.custom with
      | none => rfl
      | some custom =>
          obtain ⟨setting, hmem, hsetting⟩ := List.exists_of_findSome?_eq_some hfound
          rcases hsettings setting (List.mem_reverse.mp hmem) with rfl | ⟨option, rfl⟩
          · exact (Option.some.inj hsetting).symm
          · cases hsetting
    have hnone : setting.custom = none := by
      cases setting with
      | customRequest => cases hkind
      | _ => rfl
    simp [lastOptions, hnone, hkind, hcustom]
  custom := by
    intro settings method
    simp [lastOptions, List.findSome?_cons, Setting.kind, Setting.custom]
  other := by
    intro settings uri headers
    simp [lastOptions, List.findSome?_cons, Setting.kind, Setting.custom]

/-- The options of a request are set. -/
def setOptions (i : ℕ) : List (SettingsAction ℕ) :=
  List.replicate 15 (.handle (.setopt i 0))

/-- Two requests one after the other, with the same handle: a `PATCH` without a write callback that
is refused the removal of a custom method, and a `GET` with one. -/
def reusedHandle : List (SettingsAction ℕ) :=
  .start ⟨bytes "PATCH", bytes "u", [], true, false⟩ :: .handle (.get 0) ::
    .handle (.init 0 (some 7)) :: setOptions 0 ++
  .setRequest 0 48 :: List.replicate 4 (.setRequest 0 0) ++
  .perform 0 :: .finish 0 :: .handle (.release 0) :: .handle (.store 0) ::
    .start ⟨bytes "GET", bytes "v", [], true, true⟩ :: .handle (.get 1) :: setOptions 1 ++
  List.replicate 4 (.setRequest 1 0) ++ [.perform 1]

/-- The run of the two requests. -/
theorem reusedHandle_run :
    Guarded.Along (SettingsState.step ⟨true, true⟩ keepShare) SettingsState.Fresh .start
        reusedHandle ∧
      ∃ s, Guarded.run (SettingsState.step ⟨true, true⟩ keepShare) .start reusedHandle = some s ∧
        s.started.map (fun t => (t.request, t.handle)) = [(0, 7), (1, 7)] := by
  have hend : (Guarded.run (SettingsState.step ⟨true, true⟩ keepShare) .start reusedHandle).map
      (fun s => s.started.map fun t => (t.request, t.handle)) = some [(0, 7), (1, 7)] := by
    decide +kernel
  exact ⟨by decide +kernel, Option.map_eq_some_iff.mp hend⟩

/-- Nothing of the first of these requests is left on the handle of the second. -/
theorem transfer_isolated_reused :
    ∃ s, Guarded.run (SettingsState.step ⟨true, true⟩ keepShare) .start reusedHandle = some s ∧
      s.Isolated ⟨true, true⟩ := by
  obtain ⟨hfresh, s, hrun, -⟩ := reusedHandle_run
  exact ⟨s, hrun, transfer_isolated keepsShares_keepShare hfresh hrun⟩

/-- The methods of these requests. -/
theorem transfer_method_reused :
    ∃ s, Guarded.run (SettingsState.step ⟨true, true⟩ keepShare) .start reusedHandle = some s ∧
      s.Sends fun args settings => lastOptions.method settings = args.method ∧
        (lastOptions.asksBody settings = true ↔
          args.Bodied ∨ args.dataWrite = true ∧ ¬ args.Bodyless) := by
  obtain ⟨hfresh, s, hrun, -⟩ := reusedHandle_run
  exact ⟨s, hrun, transfer_method keepsShares_keepShare documented_lastOptions hfresh hrun⟩

/-- The bodies of these requests. -/
theorem transfer_announced_iff_reused :
    ∃ s, Guarded.run (SettingsState.step ⟨true, true⟩ keepShare) .start reusedHandle = some s ∧
      s.Sends fun args settings =>
        (lastOptions.asksBody settings = true → mayHaveBody args.method args.dataWrite = true) ∧
          (mayHaveBody args.method args.dataWrite = lastOptions.asksBody settings ↔
            ¬ (args.dataWrite = true ∧ args.Bodyless) ∧
              ¬ (args.dataWrite = false ∧ args.method = bytes "PATCH")) := by
  obtain ⟨hfresh, s, hrun, -⟩ := reusedHandle_run
  exact ⟨s, hrun, transfer_announced_iff keepsShares_keepShare documented_lastOptions hfresh hrun⟩

end DsiRest
