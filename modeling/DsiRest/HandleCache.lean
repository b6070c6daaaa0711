import DsiRest.Basic
import DsiRest.Lib.Custody
import DsiRest.Lib.Guarded

/-!
# The Cache of Handles

`globus_i_dsi_rest_handle_get` takes a libcurl handle from a cache, or creates one, and sets its
options; `globus_i_dsi_rest_handle_release` puts it back, or destroys it where the cache is full.
The cache is an array that is used as a stack. A mutex protects it, and is not held while a handle
is created, set up or destroyed.

`HandleState.step` takes one step of one request at a time, in any order: a request starts, its
handle is taken from the cache or created, an option is set or cannot be set, and so on to the
release of the handle in the cleanup of the request. The slot that a handle was taken from keeps
its pointer. An access outside the array is undefined: `none`.

## Main results

* `HandleState.Kept.step` — every handle is in the cache, with one request, or destroyed.
* `handles_exclusive` — no handle is shared or lost, whatever the order of the steps.
-/

namespace DsiRest

/-- `GLOBUS_I_DSI_REST_HANDLE_CACHE_SIZE`. -/
def handleCacheSize : ℕ := 16

/-- `CURLE_OUT_OF_MEMORY`. -/
def curlOutOfMemory : ℕ := 27

/-- The options that `globus_i_dsi_rest_handle_get` sets, with the values that are not functions
of the library; those behind `callbackArg` get the request. -/
inductive CurlOption
  | share
  | header (on : ℕ)
  | noProgress (off : ℕ)
  | followLocation (on : ℕ)
  | noSignal (on : ℕ)
  | maxRedirs (limit : ℕ)
  | httpVersion (version : ℕ)
  | redirProtocols (mask : ℕ)
  | protocols (mask : ℕ)
  | xferinfoFunction
  | progressFunction
  | headerFunction
  | writeFunction
  | readFunction
  | xferinfoData (callbackArg : ℕ)
  | progressData (callbackArg : ℕ)
  | headerData (callbackArg : ℕ)
  | writeData (callbackArg : ℕ)
  | readData (callbackArg : ℕ)
  deriving DecidableEq, Repr

/-- How the library was built: with `LIBCURL_NO_CURLPROTO`, and with a libcurl that has
`CURLOPT_XFERINFOFUNCTION`. -/
structure CurlBuild where
  noCurlProto : Bool
  xferinfo : Bool

/-- The options in the order in which they are set. `CURL_HTTP_VERSION_1_1` is 2, and
`CURLPROTO_HTTPS | CURLPROTO_HTTP` is 3. -/
def handleOptions (build : CurlBuild) (callbackArg : ℕ) : List CurlOption :=
  [.share, .header 0, .noProgress 0, .followLocation 0, .noSignal 1, .maxRedirs 5,
      .httpVersion 2] ++
    (if build.noCurlProto then [] else [.redirProtocols 3, .protocols 3]) ++
    [if build.xferinfo then .xferinfoFunction else .progressFunction,
      .headerFunction, .writeFunction, .readFunction,
      if build.xferinfo then .xferinfoData callbackArg else .progressData callbackArg,
      .headerData callbackArg, .writeData callbackArg, .readData callbackArg]

/-- Where a request is: in front of `globus_i_dsi_rest_handle_get`; in it, with no handle from the
cache, with options to be set, or with an option that could not be set; behind it, with its result
and `request->handle`; in `globus_i_dsi_rest_handle_release`, in front of the mutex or with a handle
that did not fit; or behind that. -/
inductive Holder (H : Type*)
  | fresh
  | initialising
  | setting (curl : H) (options : List CurlOption)
  | failing (curl : H) (rc : ℕ)
  | got (result : Result) (handle : Option H)
  | releasing (handle : Option H)
  | destroying (handle : H)
  | done
  deriving DecidableEq, Repr

/-- The handle that a request has. -/
def Holder.handle {H : Type*} : Holder H → Option H
  | fresh | initialising | done => none
  | setting curl _ | failing curl _ | destroying curl => some curl
  | got _ handle | releasing handle => handle

/-- Where a request is when some options are still to be set. -/
def Holder.afterOption {H : Type*} (curl : H) : List CurlOption → Holder H
  | [] => .got .success (some curl)
  | options => .setting curl options

@[simp] theorem Holder.handle_afterOption {H : Type*} (curl : H) (options : List CurlOption) :
    (afterOption curl options).handle = some curl := by
  cases options <;> rfl

/-- The cache, the requests, and the handles that `curl_easy_init` returned and that
`curl_easy_cleanup` was called with. -/
structure HandleState (H : Type*) where
  slots : List (Option H)
  index : ℕ
  requests : List (Holder H)
  created : List H
  destroyed : List H

/-- What happens next: a request starts, or the request with a number goes on. What libcurl
returns is part of the action. -/
inductive HandleAction (H : Type*)
  | start
  | get (request : ℕ)
  | init (request : ℕ) (curl : Option H)
  | setopt (request : ℕ) (rc : ℕ)
  | cleanup (request : ℕ)
  | release (request : ℕ)
  | store (request : ℕ)
  | destroy (request : ℕ)

namespace HandleState

variable {H : Type*}

/-- Before the first request. -/
def start : HandleState H :=
  ⟨List.replicate handleCacheSize none, 0, [], [], []⟩

/-- A request comes to another place. -/
def setRequest (s : HandleState H) (i : ℕ) (r : Holder H) : HandleState H :=
  { s with requests := s.requests.set i r }

/-- The handle on top of the cache, under the mutex of `globus_i_dsi_rest_handle_get`. -/
def pop (s : HandleState H) : Option (Option H × HandleState H) :=
  if 0 < s.index then
    (s.slots[s.index - 1]?).map fun curl => (curl, { s with index := s.index - 1 })
  else some (none, s)

/-- A handle on top of the cache, under the mutex of `globus_i_dsi_rest_handle_release`; what is
left is destroyed. -/
def push (s : HandleState H) (handle : Option H) : Option (Option H × HandleState H) :=
  if s.index < handleCacheSize then
    match handle with
    | none => some (none, s)
    | some curl =>
      if s.index < s.slots.length then
        some (none, { s with slots := s.slots.set s.index (some curl), index := s.index + 1 })
      else none
  else some (handle, s)

/-- The next state. -/
def step (build : CurlBuild) (s : HandleState H) : HandleAction H → Option (HandleState H)
  | .start => some { s with requests := s.requests ++ [.fresh] }
  | .get i =>
    match s.requests[i]? with
    | some .fresh => do
      let (curl, s) ← s.pop
      match curl with
      | none => some (s.setRequest i .initialising)
      | some curl => some (s.setRequest i (.setting curl (handleOptions build i)))
    | _ => none
  | .init i curl =>
    match s.requests[i]? with
    | some .initialising =>
      match curl with
      | none => some (s.setRequest i (.got (.error (.curl curlOutOfMemory)) none))
      | some curl =>
        some { s.setRequest i (.setting curl (handleOptions build i)) with
          created := curl :: s.created }
    | _ => none
  | .setopt i rc =>
    match s.requests[i]? with
    | some (.setting curl (_ :: options)) =>
      if rc = 0 then some (s.setRequest i (.afterOption curl options))
      else some (s.setRequest i (.failing curl rc))
    | _ => none
  | .cleanup i =>
    match s.requests[i]? with
    | some (.failing curl rc) =>
      some { s.setRequest i (.got (.error (.curl rc)) none) with destroyed := curl :: s.destroyed }
    | _ => none
  | .release i =>
    match s.requests[i]? with
    | some .fresh => some (s.setRequest i (.releasing none))
    | some (.got _ handle) => some (s.setRequest i (.releasing handle))
    | _ => none
  | .store i =>
    match s.requests[i]? with
    | some (.releasing handle) => do
      let (left, s) ← s.push handle
      match left with
      | none => some (s.setRequest i .done)
      | some curl => some (s.setRequest i (.destroying curl))
    | _ => none
  | .destroy i =>
    match s.requests[i]? with
    | some (.destroying curl) =>
      some { s.setRequest i .done with destroyed := curl :: s.destroyed }
    | _ => none

/-- `curl_easy_init` returns a fresh handle or `NULL`. -/
def Fresh (s : HandleState H) : HandleAction H → Prop
  | .init _ (some curl) => curl ∉ s.created
  | _ => True

/-- The handles in the live part of the cache. -/
def live (s : HandleState H) : List H :=
  Custody.held id (s.slots.take s.index)

/-- A request has a handle. -/
def Has (s : HandleState H) (i : ℕ) (curl : H) : Prop :=
  ∃ r : Holder H, s.requests[i]? = some r ∧ r.handle = some curl

/-- The handles of the requests. -/
def inUse (s : HandleState H) : List H :=
  Custody.held Holder.handle s.requests

/-! ### Where the handles are -/

variable [DecidableEq H]

/-- The invariant: the live part of the cache is in the array and has no `NULL`, and every handle
that was created is there, with a request, or destroyed. -/
structure Kept (s : HandleState H) : Prop where
  length : s.slots.length = handleCacheSize
  bound : s.index ≤ handleCacheSize
  handles : none ∉ s.slots.take s.index
  accounted : Custody.Accounted s.created (s.live ++ s.inUse ++ s.destroyed)

variable {s s' : HandleState H} {i : ℕ} {r r' : Holder H} {curl : H}

/-- The invariant holds before the first request. -/
theorem Kept.start : (start : HandleState H).Kept where
  length := List.length_replicate
  bound := Nat.zero_le _
  handles := List.not_mem_nil
  accounted := ⟨List.nodup_nil, fun _ => rfl⟩

/-- What a request has when it goes on. -/
theorem count_inUse_setRequest (hr : s.requests[i]? = some r) (r' : Holder H) (x : H) :
    (s.setRequest i r').inUse.count x + r.handle.toList.count x
      = s.inUse.count x + r'.handle.toList.count x :=
  Custody.count_held_set hr r' x

/-- A request gets a handle. -/
theorem count_inUse_gain (hr : s.requests[i]? = some r) (hbefore : r.handle = none)
    (hafter : r'.handle = some curl) (x : H) :
    (s.setRequest i r').inUse.count x = s.inUse.count x + [curl].count x := by
  have hcount := count_inUse_setRequest hr r' x
  rwa [hbefore, hafter, Option.toList_none, List.count_nil, Nat.add_zero, Option.toList_some]
    at hcount

/-- A request parts with its handle. -/
theorem count_inUse_loss (hr : s.requests[i]? = some r) (hbefore : r.handle = some curl)
    (hafter : r'.handle = none) (x : H) :
    (s.setRequest i r').inUse.count x + [curl].count x = s.inUse.count x := by
  have hcount := count_inUse_setRequest hr r' x
  rwa [hbefore, hafter, Option.toList_none, List.count_nil, Nat.add_zero, Option.toList_some]
    at hcount

/-- A request goes on with the handle that it has. -/
theorem Kept.setRequest (h : s.Kept) (hr : s.requests[i]? = some r)
    (hsame : r'.handle = r.handle) : (s.setRequest i r').Kept where
  length := h.length
  bound := h.bound
  handles := h.handles
  accounted := h.accounted.move fun x => by
    have hcount := count_inUse_setRequest hr r' x
    rw [hsame] at hcount
    simp only [List.count_append]
    have hlive : (s.setRequest i r').live = s.live := rfl
    rw [hlive]
    show _ + s.destroyed.count x = _
    omega

/-- **The top of the cache** is a handle, unless the cache is empty. -/
theorem Kept.pop (h : s.Kept) :
    (s.index = 0 ∧ s.pop = some (none, s)) ∨
    ∃ curl, s.pop = some (some curl, { s with index := s.index - 1 }) ∧
      s.slots.take s.index = s.slots.take (s.index - 1) ++ [some curl] := by
  rcases Nat.eq_zero_or_pos s.index with hempty | hpos
  · exact Or.inl ⟨hempty, by rw [HandleState.pop, if_neg (by omega)]⟩
  · have hlength := h.length
    have hbound := h.bound
    obtain ⟨slot, hslot⟩ : ∃ slot, s.slots[s.index - 1]? = some slot :=
      ⟨_, List.getElem?_eq_getElem (by omega)⟩
    have htake : s.slots.take s.index = s.slots.take (s.index - 1) ++ [slot] := by
      have hsucc := @List.take_add_one _ s.slots (s.index - 1)
      rwa [Nat.sub_add_cancel hpos, hslot, Option.toList_some] at hsucc
    cases slot with
    | none => exact absurd (htake ▸ List.mem_append_right _ (List.mem_singleton_self _)) h.handles
    | some curl =>
        refine Or.inr ⟨curl, ?_, htake⟩
        rw [HandleState.pop, if_pos hpos, hslot, Option.map_some]

/-- **A handle is put on top of the cache**, unless the cache is full. -/
theorem Kept.push (h : s.Kept) (curl : H) :
    (s.index = handleCacheSize ∧ s.push (some curl) = some (some curl, s)) ∨
    (s.index < handleCacheSize ∧ s.push (some curl) = some (none, { s with
        slots := s.slots.set s.index (some curl), index := s.index + 1 }) ∧
      (s.slots.set s.index (some curl)).take (s.index + 1)
        = s.slots.take s.index ++ [some curl]) := by
  have hlength := h.length
  have hbound := h.bound
  rcases Nat.lt_or_ge s.index handleCacheSize with hroom | hfull
  · refine Or.inr ⟨hroom, ?_, ?_⟩
    · rw [HandleState.push, if_pos hroom, if_pos (by omega)]
    · rw [List.take_add_one, List.take_set_of_le (Nat.le_refl _), List.getElem?_set_self (by omega),
        Option.toList_some]
  · exact Or.inl ⟨by omega, by rw [HandleState.push, if_neg (by omega)]⟩

/-- A request starts. -/
theorem Kept.begin (h : s.Kept) : Kept { s with requests := s.requests ++ [.fresh] } where
  length := h.length
  bound := h.bound
  handles := h.handles
  accounted := h.accounted.move fun x => by
    have hinUse : inUse { s with requests := s.requests ++ [.fresh] } = s.inUse :=
      (Custody.held_append_singleton ..).trans (List.append_nil _)
    rw [hinUse]
    rfl

/-- A handle goes from the cache to a request. -/
theorem Kept.take (h : s.Kept) (hr : s.requests[i]? = some r) (hbefore : r.handle = none)
    (hafter : r'.handle = some curl)
    (htake : s.slots.take s.index = s.slots.take (s.index - 1) ++ [some curl]) :
    (HandleState.setRequest { s with index := s.index - 1 } i r').Kept where
  length := h.length
  bound := (Nat.sub_le _ _).trans h.bound
  handles := fun hnone => h.handles (htake ▸ List.mem_append_left _ hnone)
  accounted := h.accounted.move fun x => by
    have hcount := count_inUse_gain hr hbefore hafter x
    have hlive : s.live = live { s with index := s.index - 1 } ++ [curl] := by
      rw [live, htake, Custody.held_append_singleton]
      rfl
    rw [hlive]
    simp only [List.count_append]
    show List.count x (live { s with index := s.index - 1 }) + (s.setRequest i r').inUse.count x
      + s.destroyed.count x = _
    omega

/-- A handle goes from a request to the cache. -/
theorem Kept.store (h : s.Kept) (hr : s.requests[i]? = some r) (hbefore : r.handle = some curl)
    (hafter : r'.handle = none) (hroom : s.index < handleCacheSize)
    (htake : (s.slots.set s.index (some curl)).take (s.index + 1)
      = s.slots.take s.index ++ [some curl]) :
    (HandleState.setRequest { s with
      slots := s.slots.set s.index (some curl), index := s.index + 1 } i r').Kept where
  length := (List.length_set ..).trans h.length
  bound := hroom
  handles := fun hnone => by
    have hmem : none ∈ s.slots.take s.index ++ [some curl] := htake ▸ hnone
    rcases List.mem_append.mp hmem with hlive | hnew
    · exact h.handles hlive
    · cases List.mem_singleton.mp hnew
  accounted := h.accounted.move fun x => by
    have hcount := count_inUse_loss hr hbefore hafter x
    have hlive : live { s with
        slots := s.slots.set s.index (some curl), index := s.index + 1 } = s.live ++ [curl] := by
      rw [live, htake, Custody.held_append_singleton]
      rfl
    simp only [List.count_append]
    show List.count x (live { s with
      slots := s.slots.set s.index (some curl), index := s.index + 1 })
        + (s.setRequest i r').inUse.count x + s.destroyed.count x = _
    rw [hlive, List.count_append]
    omega

/-- `curl_easy_init` returns a fresh handle. -/
theorem Kept.create (h : s.Kept) (hr : s.requests[i]? = some r) (hbefore : r.handle = none)
    (hafter : r'.handle = some curl) (hfresh : curl ∉ s.created) :
    Kept { s.setRequest i r' with created := curl :: s.created } where
  length := h.length
  bound := h.bound
  handles := h.handles
  accounted := h.accounted.create hfresh fun x => by
    have hcount := count_inUse_gain hr hbefore hafter x
    simp only [List.count_append]
    show s.live.count x + (s.setRequest i r').inUse.count x + s.destroyed.count x = _
    omega

/-- `curl_easy_cleanup` destroys the handle of a request. -/
theorem Kept.destroy (h : s.Kept) (hr : s.requests[i]? = some r) (hbefore : r.handle = some curl)
    (hafter : r'.handle = none) :
    Kept { s.setRequest i r' with destroyed := curl :: s.destroyed } where
  length := h.length
  bound := h.bound
  handles := h.handles
  accounted := h.accounted.move fun x => by
    have hcount := count_inUse_loss hr hbefore hafter x
    simp only [List.count_append]
    show s.live.count x + (s.setRequest i r').inUse.count x + (curl :: s.destroyed).count x = _
    rw [← List.singleton_append, List.count_append]
    omega

/-- **Every step** keeps every handle in one place. -/
theorem Kept.step {build : CurlBuild} (h : s.Kept) {action : HandleAction H}
    (hfresh : s.Fresh action) (hstep : s.step build action = some s') : s'.Kept := by
  cases action with
  | start =>
      obtain rfl := Option.some.inj hstep
      exact h.begin
  | get i =>
      rw [HandleState.step] at hstep
      split at hstep
      · rename_i hr
        rcases h.pop with ⟨-, hpop⟩ | ⟨curl, hpop, htake⟩
        · rw [hpop] at hstep
          obtain rfl := Option.some.inj hstep
          exact h.setRequest hr rfl
        · rw [hpop] at hstep
          obtain rfl := Option.some.inj hstep
          exact h.take hr rfl rfl htake
      · cases hstep
  | init i curl =>
      rw [HandleState.step.eq_def] at hstep
      simp only at hstep
      split at hstep
      · rename_i hr
        cases curl with
        | none =>
            obtain rfl := Option.some.inj hstep
            exact h.setRequest hr rfl
        | some curl =>
            obtain rfl := Option.some.inj hstep
            exact h.create hr rfl rfl hfresh
      · cases hstep
  | setopt i rc =>
      rw [HandleState.step] at hstep
      split at hstep
      · rename_i curl option options hr
        split_ifs at hstep
        · obtain rfl := Option.some.inj hstep
          exact h.setRequest hr (Holder.handle_afterOption curl options)
        · obtain rfl := Option.some.inj hstep
          exact h.setRequest hr rfl
      · cases hstep
  | cleanup i =>
      rw [HandleState.step] at hstep
      split at hstep
      · rename_i hr
        obtain rfl := Option.some.inj hstep
        exact h.destroy hr rfl rfl
      · cases hstep
  | release i =>
      rw [HandleState.step] at hstep
      split at hstep
      · rename_i hr
        obtain rfl := Option.some.inj hstep
        exact h.setRequest hr rfl
      · rename_i hr
        obtain rfl := Option.some.inj hstep
        exact h.setRequest hr rfl
      · cases hstep
  | store i =>
      rw [HandleState.step] at hstep
      split at hstep
      · rename_i handle hr
        cases handle with
        | none =>
            have hpush : s.push none = some (none, s) := by
              rw [HandleState.push]
              split <;> rfl
            rw [hpush] at hstep
            obtain rfl := Option.some.inj hstep
            exact h.setRequest hr rfl
        | some curl =>
            rcases h.push curl with ⟨-, hpush⟩ | ⟨hroom, hpush, htake⟩
            · rw [hpush] at hstep
              obtain rfl := Option.some.inj hstep
              exact h.setRequest hr rfl
            · rw [hpush] at hstep
              obtain rfl := Option.some.inj hstep
              exact h.store hr rfl rfl hroom htake
      · cases hstep
  | destroy i =>
      rw [HandleState.step] at hstep
      split at hstep
      · rename_i hr
        obtain rfl := Option.some.inj hstep
        exact h.destroy hr rfl rfl
      · cases hstep

/-! ### Whole runs -/

instance (s : HandleState H) (action : HandleAction H) : Decidable (s.Fresh action) :=
  match action with
  | .init _ (some curl) => inferInstanceAs (Decidable (curl ∉ s.created))
  | .init _ none => isTrue trivial
  | .start | .get _ | .setopt _ _ | .cleanup _ | .release _ | .store _ | .destroy _ => isTrue trivial

/-- The live part of the cache is its handles. -/
theorem Kept.slots_eq (h : s.Kept) : s.slots.take s.index = s.live.map some := by
  have hall : ∀ slots : List (Option H), none ∉ slots →
      slots = (Custody.held id slots).map some := by
    intro slots
    induction slots with
    | nil => exact fun _ => rfl
    | cons slot slots ih =>
        intro hnone
        cases slot with
        | none => exact absurd List.mem_cons_self hnone
        | some curl =>
            have hrest := ih fun hmem => hnone (List.mem_cons_of_mem _ hmem)
            exact congrArg (some curl :: ·) hrest
  exact hall _ h.handles

end HandleState

/-- **No handle is shared or lost.** In every run of any number of requests, whatever the order of
their steps, wherever setting an option fails and whenever `curl_easy_init` returns `NULL`, if it
never returns a handle twice: the index of the cache is within the array, the slots below it are
different handles, none of which a request has, no two requests have the same handle, and every
handle that was created is in the cache, with a request, or destroyed, and so exactly once. -/
theorem handles_exclusive {H : Type*} [DecidableEq H] {build : CurlBuild}
    {actions : List (HandleAction H)} {s : HandleState H}
    (hfresh : Guarded.Along (HandleState.step build) HandleState.Fresh .start actions)
    (hrun : Guarded.run (HandleState.step build) .start actions = some s) :
    s.index ≤ handleCacheSize ∧ s.slots.take s.index = s.live.map some ∧ s.live.Nodup ∧
      (∀ i curl, s.Has i curl → curl ∉ s.live) ∧
      (∀ i j curl, s.Has i curl → s.Has j curl → i = j) ∧
      ∀ curl ∈ s.created,
        s.live.count curl + s.inUse.count curl + s.destroyed.count curl = 1 := by
  have h : s.Kept := Guarded.invariant (fun _ _ _ hkept hfresh hstep => hkept.step hfresh hstep)
    HandleState.Kept.start hfresh hrun
  have hnodup := h.accounted.places_nodup
  obtain ⟨hkeptNodup, -, -⟩ := List.nodup_append.mp hnodup
  obtain ⟨hlive, hinUse, hapart⟩ := List.nodup_append.mp hkeptNodup
  refine ⟨h.bound, h.slots_eq, hlive, ?_, ?_, ?_⟩
  · rintro i curl ⟨r, hr, hcurl⟩ hmem
    exact hapart curl hmem curl (Custody.mem_held.mpr ⟨i, r, hr, hcurl⟩) rfl
  · rintro i j curl ⟨r, hr, hcurl⟩ ⟨r', hr', hcurl'⟩
    exact Custody.cell_unique hinUse hr hr' hcurl hcurl'
  · intro curl hcurl
    rw [← List.count_append, ← List.count_append, h.accounted.balanced]
    exact List.count_eq_one_of_mem h.accounted.nodup hcurl

/-- The case of two requests at the same time, of which one fails, and of a third one that gets the
handle of the other. -/
theorem handles_exclusive_reuse :
    ∃ s : HandleState ℕ, s.live = [] ∧ s.inUse = [7] ∧ s.destroyed = [8] ∧
      s.index ≤ handleCacheSize ∧ s.slots.take s.index = s.live.map some ∧ s.live.Nodup ∧
      (∀ i curl, s.Has i curl → curl ∉ s.live) ∧
      (∀ i j curl, s.Has i curl → s.Has j curl → i = j) ∧
      ∀ curl ∈ s.created,
        s.live.count curl + s.inUse.count curl + s.destroyed.count curl = 1 := by
  let build : CurlBuild := ⟨true, true⟩
  let both : List (HandleAction ℕ) :=
    [.start, .start, .get 0, .get 1, .init 0 (some 7), .init 1 (some 8), .setopt 1 48, .cleanup 1]
  let later : List (HandleAction ℕ) :=
    [.release 1, .release 0, .store 1, .store 0, .start, .get 2]
  let actions := both ++ List.replicate 15 (.setopt 0 0) ++ later
  have hend : (Guarded.run (HandleState.step build) .start actions).map
      (fun s => (s.live, s.inUse, s.destroyed)) = some ([], [7], [8]) := by
    decide +kernel
  obtain ⟨s, hrun, hs⟩ := Option.map_eq_some_iff.mp hend
  obtain ⟨hlive, hrest⟩ := Prod.mk.inj hs
  obtain ⟨hinUse, hdestroyed⟩ := Prod.mk.inj hrest
  exact ⟨s, hlive, hinUse, hdestroyed, handles_exclusive (by decide +kernel) hrun⟩

end DsiRest
