import DsiRest.HandleCache
import DsiRest.Lib.Unwind
import DsiRest.ShareLocks

/-!
# The Activation of the Module

The activation function initialises libcurl, the common module, the mutex of the handle cache,
the locks of the share and the share, one after the other. Where one of these fails, it jumps to a
label and destroys what it had initialised, except for the initialisation of libcurl itself. The
deactivation function destroys the handles in the cache, and then everything.

## Main results

* `replay_activate` — what an activation leaves behind, successful or not.
* `HandleState.Kept.cleanupAll` — the cache is emptied, each handle once.
* `module_balanced` — over any number of activations and deactivations nothing is lost but an
  initialisation of libcurl for each activation that failed later.
-/

namespace DsiRest

/-! ### The functions -/

/-- What the module initialises and destroys. -/
inductive ModuleResource
  | curlGlobal
  | commonModule
  | handleCacheMutex
  | shareLock (data : LockData)
  | share
  deriving DecidableEq, Repr

/-- The options that are set for the share: `CURLSHOPT_SHARE` for some kinds of data. -/
inductive ShareOption
  | lockFunc
  | unlockFunc
  | userData
  | share (data : LockData)
  deriving DecidableEq, Repr

/-- The calls of `globus_l_dsi_rest_activate` that can fail. -/
inductive ActivationStep
  | curlGlobalInit
  | moduleActivate
  | mutexInit
  | rwMutexInit (data : LockData)
  | shareInit
  | shareSetopt (option : ShareOption)
  deriving DecidableEq, Repr

namespace ActivationStep

/-- What is initialised when the call succeeds. -/
def acquires : ActivationStep → Option ModuleResource
  | curlGlobalInit => some .curlGlobal
  | moduleActivate => some .commonModule
  | mutexInit => some .handleCacheMutex
  | rwMutexInit data => some (.shareLock data)
  | shareInit => some .share
  | shareSetopt _ => none

/-- What is destroyed from `mutex_init_fail` on. -/
def mutexInitFail : List ModuleResource := [.commonModule]

/-- What is destroyed from `share_share_lock_init_fail` on. -/
def shareShareLockInitFail : List ModuleResource := .handleCacheMutex :: mutexInitFail

/-- What is destroyed from `share_cookie_lock_init_fail` on. -/
def shareCookieLockInitFail : List ModuleResource := .shareLock .share :: shareShareLockInitFail

/-- What is destroyed from `share_dns_lock_init_fail` on. -/
def shareDnsLockInitFail : List ModuleResource := .shareLock .cookie :: shareCookieLockInitFail

/-- What is destroyed from `share_ssl_lock_init_fail` on. -/
def shareSslLockInitFail : List ModuleResource := .shareLock .dns :: shareDnsLockInitFail

/-- What is destroyed from `share_init_fail` on. -/
def shareInitFail : List ModuleResource := .shareLock .sslSession :: shareSslLockInitFail

/-- What is destroyed from `share_setopt_fail` on. -/
def shareSetoptFail : List ModuleResource := .share :: shareInitFail

/-- The label that a call jumps to when it fails; nothing is behind `fail` and
`activate_fail`. -/
def label : ActivationStep → List ModuleResource
  | curlGlobalInit | moduleActivate => []
  | mutexInit => mutexInitFail
  | rwMutexInit .share => shareShareLockInitFail
  | rwMutexInit .cookie => shareCookieLockInitFail
  | rwMutexInit .dns => shareDnsLockInitFail
  | rwMutexInit .sslSession => shareSslLockInitFail
  | shareInit => shareInitFail
  | shareSetopt _ => shareSetoptFail

/-- The test of what the call returns; `CURLSHE_BAD_OPTION` is 1, and `NULL` counts as nonzero. -/
def fails : ActivationStep → ℤ → Bool
  | shareSetopt _, rc => rc ≠ 0 && rc ≠ 1
  | _, rc => rc ≠ 0

/-- The `rc` that is returned after the call failed; `GLOBUS_FAILURE` is -1. -/
def code : ActivationStep → ℤ → ℤ
  | shareInit, _ => -1
  | _, rc => rc

end ActivationStep

/-- The calls in their order. -/
def activationSteps : List ActivationStep :=
  [.curlGlobalInit, .moduleActivate, .mutexInit,
    .rwMutexInit .share, .rwMutexInit .cookie, .rwMutexInit .dns, .rwMutexInit .sslSession,
    .shareInit,
    .shareSetopt .lockFunc, .shareSetopt .unlockFunc, .shareSetopt .userData,
    .shareSetopt (.share .cookie), .shareSetopt (.share .dns), .shareSetopt (.share .sslSession)]

/-- `globus_l_dsi_rest_activate`: the step that fails, if one does, and what is initialised and
destroyed. `outcome` is what the calls return. -/
def activate (outcome : ActivationStep → ℤ) :
    Option ActivationStep × List (Unwind.Event ModuleResource) :=
  Unwind.stages ActivationStep.acquires ActivationStep.label (fun s => s.fails (outcome s))
    activationSteps

/-- What `globus_l_dsi_rest_activate` returns. -/
def activateResult (outcome : ActivationStep → ℤ) : ℤ :=
  (activate outcome).1.elim 0 fun s => s.code (outcome s)

/-- What `globus_l_dsi_rest_deactivate` destroys behind the handles. -/
def deactivateEvents : List (Unwind.Event ModuleResource) :=
  [.release .share, .release (.shareLock .sslSession), .release (.shareLock .dns),
    .release (.shareLock .cookie), .release (.shareLock .share), .release .handleCacheMutex,
    .release .commonModule, .release .curlGlobal]

/-- The loop of `globus_l_dsi_rest_deactivate` over the cache. -/
def HandleState.cleanupAll {H : Type*} : ℕ → HandleState H → Option (HandleState H)
  | 0, s => some s
  | turns + 1, s => do
    if 0 < s.index then
      let (curl, s) ← s.pop
      cleanupAll turns { s with destroyed := curl.toList ++ s.destroyed }
    else some s

/-! ### Activations -/

/-- What a failing call leaves behind: the initialisation of libcurl, if that was done. -/
def ActivationStep.left : ActivationStep → List ModuleResource
  | curlGlobalInit => []
  | _ => [.curlGlobal]

/-- What is held while the module is active, what was initialised last in front. -/
def moduleResources : List ModuleResource :=
  [.share, .shareLock .sslSession, .shareLock .dns, .shareLock .cookie, .shareLock .share,
    .handleCacheMutex, .commonModule, .curlGlobal]

/-- The labels list what was initialised. -/
theorem activationSteps_unwinds :
    Unwind.Unwinds ActivationStep.acquires ActivationStep.label ActivationStep.left []
      activationSteps := by
  repeat' apply And.intro
  all_goals first | rfl | trivial

/-- **An activation** leaves everything held if it succeeds, and otherwise nothing but the
initialisation of libcurl. -/
theorem replay_activate (outcome : ActivationStep → ℤ) (held : List ModuleResource) :
    Unwind.replay held (activate outcome).2
      = some ((activate outcome).1.elim moduleResources ActivationStep.left ++ held) :=
  Unwind.replay_stages activationSteps_unwinds held

/-- An activation succeeds exactly if it returns zero. -/
theorem activateResult_eq_zero (outcome : ActivationStep → ℤ) :
    activateResult outcome = 0 ↔ (activate outcome).1 = none := by
  rw [activateResult]
  cases hfailing : (activate outcome).1 with
  | none => simp
  | some s =>
      obtain ⟨-, hfails⟩ := Unwind.fails_of_stages hfailing
      simp only [Option.elim_some, reduceCtorEq, iff_false]
      cases s <;> simp_all [ActivationStep.fails, ActivationStep.code]

/-- Everything is destroyed that an active module holds. -/
theorem replay_deactivate (held : List ModuleResource) :
    Unwind.replay (moduleResources ++ held) deactivateEvents = some held :=
  Unwind.replay_release moduleResources held

/-! ### The handles in the cache -/

namespace HandleState

variable {H : Type*} [DecidableEq H] {s : HandleState H}

/-- The handle on top of the cache is destroyed. -/
theorem Kept.cleanup (h : s.Kept) {curl : H}
    (htake : s.slots.take s.index = s.slots.take (s.index - 1) ++ [some curl]) :
    Kept { s with index := s.index - 1, destroyed := curl :: s.destroyed } where
  length := h.length
  bound := (Nat.sub_le _ _).trans h.bound
  handles := fun hnone => h.handles (htake ▸ List.mem_append_left _ hnone)
  accounted := h.accounted.move fun x => by
    have hlive : s.live = live { s with index := s.index - 1, destroyed := curl :: s.destroyed }
        ++ [curl] := by
      rw [live, htake, Custody.held_append_singleton]
      rfl
    have hinUse : inUse { s with index := s.index - 1, destroyed := curl :: s.destroyed }
        = s.inUse := rfl
    have hcons : (curl :: s.destroyed).count x = [curl].count x + s.destroyed.count x := by
      rw [← List.count_append, List.singleton_append]
    rw [hlive, hinUse]
    simp only [List.count_append]
    omega

/-- **The cache is emptied**, each handle in it once. -/
theorem Kept.cleanupAll (h : s.Kept) :
    ∃ s', s.cleanupAll s.index = some s' ∧ s'.Kept ∧ s'.index = 0 ∧ s'.requests = s.requests ∧
      s'.created = s.created := by
  obtain ⟨n, hn⟩ : ∃ n, s.index = n := ⟨_, rfl⟩
  rw [hn]
  induction n generalizing s with
  | zero => exact ⟨s, rfl, h, hn, rfl, rfl⟩
  | succ n ih =>
      rcases h.pop with ⟨hempty, -⟩ | ⟨curl, hpop, htake⟩
      · omega
      · obtain ⟨s', hclean, hkept, hindex, hrequests, hcreated⟩ :=
          ih (h.cleanup htake) (by rw [hn]; rfl)
        refine ⟨s', ?_, hkept, hindex, hrequests, hcreated⟩
        rw [HandleState.cleanupAll, if_pos (by omega), hpop]
        exact hclean

/-- The requests are through with their handles. -/
def Quiet (s : HandleState H) : Prop :=
  ∀ r ∈ s.requests, r.handle = none

/-- **With an empty cache and no request under way** every handle was destroyed, once. -/
theorem Kept.destroyed_perm (h : s.Kept) (hindex : s.index = 0) (hquiet : s.Quiet) :
    s.destroyed.Perm s.created := by
  have hlive : s.live = [] := by
    rw [live, hindex, List.take_zero]
    rfl
  have hinUse : s.inUse = [] := List.filterMap_eq_nil_iff.mpr hquiet
  refine List.perm_iff_count.mpr fun x => ?_
  have hcount := h.accounted.balanced x
  rwa [hlive, hinUse, List.nil_append, List.nil_append] at hcount

end HandleState

/-! ### The module over time -/

/-- The module: whether it is active, what it initialised, its handles, and the number of
activations that failed behind the initialisation of libcurl. -/
structure ModuleState (H : Type*) where
  active : Bool
  held : List ModuleResource
  handles : HandleState H
  failures : ℕ

/-- The module is activated, it is used by requests, or it is deactivated. -/
inductive ModuleAction (H : Type*)
  | activate (outcome : ActivationStep → ℤ)
  | use (action : HandleAction H)
  | deactivate

namespace ModuleState

variable {H : Type*}

/-- Before the first activation. -/
def start : ModuleState H :=
  ⟨false, [], .start, 0⟩

/-- The next state. The common module calls the activation function only while the module is not
active, and the deactivation function only while it is. -/
def step (build : CurlBuild) (s : ModuleState H) : ModuleAction H → Option (ModuleState H)
  | .activate outcome =>
    if s.active then none
    else (Unwind.replay s.held (DsiRest.activate outcome).2).map fun held =>
      if activateResult outcome = 0 then
        { s with active := true, held := held, handles := { s.handles with index := 0 } }
      else { s with
        held := held
        failures := s.failures + ((DsiRest.activate outcome).1.elim 0 fun step =>
          step.left.length) }
  | .use action =>
    if s.active then (s.handles.step build action).map fun handles => { s with handles := handles }
    else none
  | .deactivate =>
    if s.active then
      (s.handles.cleanupAll s.handles.index).bind fun handles =>
        (Unwind.replay s.held deactivateEvents).map fun held =>
          { s with active := false, held := held, handles := handles }
    else none

variable [DecidableEq H]

/-- What is assumed of the surroundings: `curl_easy_init` returns a fresh handle or `NULL`, and
the module is deactivated only when no request is under way. -/
def Orderly (s : ModuleState H) : ModuleAction H → Prop
  | .activate _ => True
  | .use action => s.handles.Fresh action
  | .deactivate => s.handles.Quiet

instance (s : ModuleState H) : ∀ action, Decidable (s.Orderly action)
  | .activate _ => isTrue trivial
  | .use action => inferInstanceAs (Decidable (s.handles.Fresh action))
  | .deactivate => inferInstanceAs (Decidable (∀ r ∈ s.handles.requests, r.handle = none))

/-- The invariant. -/
structure Balanced (s : ModuleState H) : Prop where
  handles : s.handles.Kept
  active : s.active = true → s.held = moduleResources ++ List.replicate s.failures .curlGlobal
  inactive : s.active = false → s.held = List.replicate s.failures .curlGlobal ∧
    s.handles.index = 0 ∧ s.handles.Quiet

/-- Nothing is held at first. -/
theorem Balanced.start : (start : ModuleState H).Balanced where
  handles := .start
  active := fun h => by cases h
  inactive := fun _ => ⟨rfl, rfl, fun _ hr => absurd hr List.not_mem_nil⟩

variable {build : CurlBuild} {s s' : ModuleState H}

/-- A failing call leaves some initialisations of libcurl. -/
theorem left_eq_replicate (step : ActivationStep) :
    step.left = List.replicate step.left.length .curlGlobal := by
  cases step <;> rfl

/-- **One step keeps the balance.** -/
theorem Balanced.step {action : ModuleAction H} (h : s.Balanced) (horderly : s.Orderly action)
    (hstep : s.step build action = some s') : s'.Balanced := by
  cases action with
  | activate outcome =>
      by_cases hactive : s.active = true
      · rw [ModuleState.step, if_pos hactive] at hstep
        cases hstep
      rw [ModuleState.step, if_neg hactive] at hstep
      obtain ⟨hheld, hindex, hquiet⟩ := h.inactive (Bool.eq_false_of_not_eq_true hactive)
      have hsame : { s.handles with index := 0 } = s.handles := by rw [← hindex]
      rw [replay_activate, Option.map_some] at hstep
      obtain rfl := Option.some.inj hstep
      rw [hsame]
      split_ifs with hzero
      · rw [(activateResult_eq_zero outcome).mp hzero]
        refine ⟨h.handles, fun _ => ?_, fun hinactive => absurd hinactive (by simp)⟩
        exact congrArg (moduleResources ++ ·) hheld
      · obtain ⟨failing, hfailing⟩ := Option.ne_none_iff_exists'.mp
          fun hnone => hzero ((activateResult_eq_zero outcome).mpr hnone)
        refine ⟨h.handles, fun hnow => absurd hnow hactive, fun _ => ⟨?_, hindex, hquiet⟩⟩
        simp only [hfailing, Option.elim_some]
        rw [hheld, left_eq_replicate failing, List.replicate_append_replicate, Nat.add_comm,
          List.length_replicate]
  | use action =>
      rw [ModuleState.step] at hstep
      split_ifs at hstep with hactive
      obtain ⟨handles, hhandles, rfl⟩ := Option.map_eq_some_iff.mp hstep
      exact ⟨h.handles.step horderly hhandles, h.active,
        fun hinactive => absurd (hactive.symm.trans hinactive) (by simp)⟩
  | deactivate =>
      rw [ModuleState.step] at hstep
      split_ifs at hstep with hactive
      obtain ⟨handles, hclean, hstep⟩ := Option.bind_eq_some_iff.mp hstep
      obtain ⟨held, hheld, rfl⟩ := Option.map_eq_some_iff.mp hstep
      obtain ⟨handles', hclean', hkept, hindex, hrequests, -⟩ := h.handles.cleanupAll
      obtain rfl := Option.some.inj (hclean.symm.trans hclean')
      rw [h.active hactive, replay_deactivate] at hheld
      refine ⟨hkept, fun hnow => absurd hnow (by simp),
        fun _ => ⟨(Option.some.inj hheld).symm, hindex, ?_⟩⟩
      rw [HandleState.Quiet, hrequests]
      exact horderly

end ModuleState

/-- **Nothing is lost over the life of the process** but an initialisation of libcurl for each
activation that failed behind it. In every run of activations that may fail anywhere, uses of
handles in any order, and deactivations while no request is under way: the functions never
destroy what is not there, an active module holds each of its resources, and while it is not
active, nothing else is held and every handle was destroyed, exactly once. -/
theorem module_balanced {H : Type*} [DecidableEq H] {build : CurlBuild}
    {actions : List (ModuleAction H)} {s : ModuleState H}
    (horderly : Guarded.Along (ModuleState.step build) ModuleState.Orderly .start actions)
    (hrun : Guarded.run (ModuleState.step build) .start actions = some s) :
    (s.active = true → s.held = moduleResources ++ List.replicate s.failures .curlGlobal ∧
      (s.step build .deactivate).isSome) ∧
    (s.active = false → s.held = List.replicate s.failures .curlGlobal ∧
      s.handles.destroyed.Perm s.handles.created ∧ s.handles.created.Nodup ∧
      ∀ outcome, (s.step build (.activate outcome)).isSome) := by
  have h : s.Balanced := Guarded.invariant (fun _ _ _ hs hP hstep => hs.step hP hstep)
    ModuleState.Balanced.start horderly hrun
  constructor
  · intro hactive
    refine ⟨h.active hactive, ?_⟩
    obtain ⟨handles, hclean, -⟩ := h.handles.cleanupAll
    rw [ModuleState.step, if_pos hactive, hclean, h.active hactive, replay_deactivate]
    rfl
  · intro hinactive
    obtain ⟨hheld, hindex, hquiet⟩ := h.inactive hinactive
    refine ⟨hheld, h.handles.destroyed_perm hindex hquiet, h.handles.accounted.nodup,
      fun outcome => ?_⟩
    rw [ModuleState.step, if_neg (by simp [hinactive]), replay_activate]
    rfl

/-- The case of an activation that fails at a lock, another one, a request that leaves its handle in
the cache, and a deactivation. -/
theorem module_balanced_oneFailure :
    let build : CurlBuild := ⟨true, true⟩
    let actions : List (ModuleAction ℕ) :=
      [.activate fun s => if s = .rwMutexInit .dns then 12 else 0, .activate fun _ => 0,
          .use .start, .use (.get 0), .use (.init 0 (some 7))] ++
        List.replicate (handleOptions build 0).length (.use (.setopt 0 0)) ++
        [.use (.release 0), .use (.store 0), .deactivate]
    ∃ s, Guarded.run (ModuleState.step build) .start actions = some s ∧
      s.held = [.curlGlobal] ∧ s.handles.created = [7] ∧
      s.handles.destroyed.Perm s.handles.created := by
  intro build actions
  have horderly : Guarded.Along (ModuleState.step build) ModuleState.Orderly .start actions := by
    decide +kernel
  have hend : (Guarded.run (ModuleState.step build) .start actions).map
      (fun s => (s.active, s.failures, s.handles.created)) = some (false, 1, [7]) := by
    decide +kernel
  obtain ⟨s, hrun, hs⟩ := Option.map_eq_some_iff.mp hend
  obtain ⟨hactive, hmore⟩ := Prod.mk.inj hs
  obtain ⟨hfailures, hcreated⟩ := Prod.mk.inj hmore
  obtain ⟨-, hinactive⟩ := module_balanced horderly hrun
  obtain ⟨hheld, hdestroyed, -⟩ := hinactive hactive
  exact ⟨s, hrun, hheld.trans (by rw [hfailures]; rfl), hcreated, hdestroyed⟩

end DsiRest
