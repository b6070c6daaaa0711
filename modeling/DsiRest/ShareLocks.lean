import DsiRest.Lib.Guarded
import DsiRest.Lib.RwLock
import Mathlib.Data.ZMod.Defs

/-!
# The Locks of Shared Data

libcurl shares cookies, addresses and TLS sessions between handles, and calls
`globus_l_dsi_rest_share_lock` and `globus_l_dsi_rest_share_unlock` around every access to them. A
lock call says whether it wants shared or single access, and takes a read-write lock accordingly;
an unlock call does not say how the lock was taken. It finds out from the owner of the lock, where
a lock call for single access leaves the identifier of its thread.

`ShareState.step` takes one step of one thread at a time: a call starts, waits for the read-write
lock, records or compares or clears the owner, or releases the read-write lock. A thread is its
identifier; the identifier zero stands for no owner.

## Main results

* `ShareState.Kept.step` — what the owner of a lock says about the threads.
* `share_unlock_mode` — a lock is released in the mode in which it was taken.
-/

namespace DsiRest

/-- The kinds of data that are shared, `curl_lock_data`. -/
inductive LockData
  | share
  | cookie
  | dns
  | sslSession
  deriving DecidableEq, Repr

/-- `curl_lock_access`: `CURL_LOCK_ACCESS_SHARED` or `CURL_LOCK_ACCESS_SINGLE`. -/
abbrev LockAccess := RwLock.Access

/-- Where a thread is: outside, or in front of some step of a lock call or an unlock call. -/
inductive ShareCall
  | outside
  | locking (data : LockData) (access : LockAccess)
  | recording (data : LockData)
  | comparing (data : LockData)
  | clearing (data : LockData)
  | writeUnlocking (data : LockData)
  | readUnlocking (data : LockData)
  deriving DecidableEq, Repr

/-- The read-write locks and their owners, where the threads are, and how they took the locks. -/
structure ShareState (T : Type*) where
  mutex : LockData → RwLock T
  owner : LockData → T
  call : T → ShareCall
  taken : LockData → T → Option LockAccess

/-- What a thread does next: libcurl calls, or a call goes on. -/
inductive ShareAction (T : Type*)
  | lock (thread : T) (data : LockData) (access : LockAccess)
  | unlock (thread : T) (data : LockData)
  | proceed (thread : T)

/-- The thread of an action. -/
def ShareAction.thread {T : Type*} : ShareAction T → T
  | lock thread _ _ | unlock thread _ | proceed thread => thread

namespace ShareState

variable {T : Type*} [DecidableEq T]

/-- A thread comes to another place. -/
def goTo (s : ShareState T) (t : T) (call : ShareCall) : ShareState T :=
  { s with call := Function.update s.call t call }

/-- A thread takes or releases a lock. -/
def setMutex (s : ShareState T) (t : T) (data : LockData) (access : Option LockAccess)
    (l : RwLock T) : ShareState T :=
  { s with
    mutex := Function.update s.mutex data l
    taken := Function.update s.taken data (Function.update (s.taken data) t access) }

/-- Set the owner of a lock. -/
def setOwner (s : ShareState T) (data : LockData) (t : T) : ShareState T :=
  { s with owner := Function.update s.owner data t }

@[simp] theorem goTo_mutex (s : ShareState T) (t : T) (call : ShareCall) :
    (s.goTo t call).mutex = s.mutex := rfl

@[simp] theorem goTo_owner (s : ShareState T) (t : T) (call : ShareCall) :
    (s.goTo t call).owner = s.owner := rfl

@[simp] theorem goTo_taken (s : ShareState T) (t : T) (call : ShareCall) :
    (s.goTo t call).taken = s.taken := rfl

@[simp] theorem goTo_call_self (s : ShareState T) (t : T) (call : ShareCall) :
    (s.goTo t call).call t = call :=
  Function.update_self ..

theorem goTo_call_of_ne (s : ShareState T) {t u : T} (h : u ≠ t) (call : ShareCall) :
    (s.goTo t call).call u = s.call u :=
  Function.update_of_ne h ..

variable [Zero T]

/-- Before the first call. -/
def start : ShareState T :=
  ⟨fun _ => RwLock.free, fun _ => 0, fun _ => .outside, fun _ _ => none⟩

/-- The next step of a call; a thread waits in front of a lock that it cannot take. -/
def proceed (s : ShareState T) (t : T) : Option (ShareState T) :=
  match s.call t with
  | .outside => none
  | .locking data .shared =>
    ((s.mutex data).readLock t).map fun l => (s.setMutex t data (some .shared) l).goTo t .outside
  | .locking data .single =>
    ((s.mutex data).writeLock t).map fun l =>
      (s.setMutex t data (some .single) l).goTo t (.recording data)
  | .recording data => some ((s.setOwner data t).goTo t .outside)
  | .comparing data =>
    some (s.goTo t (if s.owner data = t then .clearing data else .readUnlocking data))
  | .clearing data => some ((s.setOwner data 0).goTo t (.writeUnlocking data))
  | .writeUnlocking data =>
    ((s.mutex data).writeUnlock t).map fun l => (s.setMutex t data none l).goTo t .outside
  | .readUnlocking data =>
    ((s.mutex data).readUnlock t).map fun l => (s.setMutex t data none l).goTo t .outside

/-- The next state. -/
def step (s : ShareState T) : ShareAction T → Option (ShareState T)
  | .lock t data access =>
    if s.call t = .outside then some (s.goTo t (.locking data access)) else none
  | .unlock t data => if s.call t = .outside then some (s.goTo t (.comparing data)) else none
  | .proceed t => s.proceed t

/-- The calls are bracketed: a thread does not lock what it has locked, and unlocks only that. -/
def Bracketed (s : ShareState T) (action : ShareAction T) : Prop :=
  action.thread ≠ 0 ∧
    match action with
    | .lock t data _ => s.taken data t = none
    | .unlock t data => s.taken data t ≠ none
    | .proceed _ => True

instance (s : ShareState T) (action : ShareAction T) : Decidable (s.Bracketed action) :=
  match action with
  | .lock t data _ => inferInstanceAs (Decidable (t ≠ 0 ∧ s.taken data t = none))
  | .unlock t data => inferInstanceAs (Decidable (t ≠ 0 ∧ s.taken data t ≠ none))
  | .proceed t => inferInstanceAs (Decidable (t ≠ 0 ∧ True))

end ShareState

/-! ### The owner of a lock -/

/-- The kind of data that a call is about. -/
def ShareCall.data : ShareCall → Option LockData
  | outside => none
  | locking data _ | recording data | comparing data | clearing data | writeUnlocking data
  | readUnlocking data => some data

/-- How a thread may have taken the lock that its call is about. -/
def ShareCall.Suits : ShareCall → Option LockAccess → Prop
  | outside, _ => True
  | locking _ _, taken => taken = none
  | comparing _, taken => taken ≠ none
  | recording _, taken | clearing _, taken | writeUnlocking _, taken => taken = some .single
  | readUnlocking _, taken => taken = some .shared

namespace ShareState

variable {T : Type*} [DecidableEq T] [Zero T] {s s' : ShareState T} {data : LockData} {t : T}

/-- A thread has the lock for single access, and its identifier is recorded. -/
def Owns (s : ShareState T) (data : LockData) (t : T) : Prop :=
  s.taken data t = some .single ∧ s.call t ≠ .recording data ∧ s.call t ≠ .writeUnlocking data

/-- The invariant of one lock. -/
structure Kept (s : ShareState T) (data : LockData) : Prop where
  held : (s.mutex data).HeldBy (s.taken data)
  known : ∀ t, s.taken data t ≠ none → t ≠ 0
  calls : ∀ t, (s.call t).data = some data → (s.call t).Suits (s.taken data t)
  owner : ∀ t, t ≠ 0 → (s.owner data = t ↔ s.Owns data t)

/-- The invariant holds before the first call. -/
theorem Kept.start (data : LockData) : Kept (start : ShareState T) data where
  held := RwLock.HeldBy.free
  known := fun _ h => absurd rfl h
  calls := fun _ h => by cases h
  owner := fun t ht => iff_of_false (Ne.symm ht) fun h => by cases h.1

/-- A thread comes to another place that suits it, and owns what it owned. -/
theorem Kept.goTo (h : s.Kept data) {call : ShareCall}
    (hsuits : call.data = some data → call.Suits (s.taken data t))
    (howns : (s.goTo t call).Owns data t ↔ s.Owns data t) : (s.goTo t call).Kept data where
  held := h.held
  known := h.known
  calls := fun u hu => by
    by_cases hut : u = t
    · subst hut
      rw [goTo_call_self] at hu ⊢
      exact hsuits hu
    · rw [goTo_call_of_ne s hut] at hu ⊢
      exact h.calls u hu
  owner := fun u hu => by
    refine (h.owner u hu).trans ?_
    by_cases hut : u = t
    · rw [hut]
      exact howns.symm
    · rw [Owns, Owns, goTo_call_of_ne s hut]
      rfl

/-- The invariant looks at one lock only. -/
theorem Kept.congr (h : s.Kept data) (hmutex : s'.mutex data = s.mutex data)
    (howner : s'.owner data = s.owner data) (htaken : s'.taken data = s.taken data)
    (hcall : s'.call = s.call) : s'.Kept data where
  held := by
    rw [hmutex, htaken]
    exact h.held
  known := by
    rw [htaken]
    exact h.known
  calls := by
    rw [hcall, htaken]
    exact h.calls
  owner := fun t ht => by
    rw [howner, Owns, hcall, htaken]
    exact h.owner t ht

/-- A thread goes on with a call about other data. -/
theorem Kept.goTo_other (h : s.Kept data) {data' : LockData} (hother : data ≠ data')
    (hbefore : (s.call t).data = some data') {call : ShareCall}
    (hafter : ∀ d ∈ call.data, d = data') : (s.goTo t call).Kept data := by
  have hplace : ∀ c : ShareCall, (∀ d ∈ c.data, d = data') →
      c ≠ .recording data ∧ c ≠ .writeUnlocking data := by
    intro c hc
    constructor <;> rintro rfl <;> exact hother (hc data rfl)
  refine h.goTo (fun hdata => absurd (hafter data hdata) hother) ?_
  rw [Owns, Owns, goTo_call_self, goTo_taken]
  refine and_congr_right fun _ => iff_of_true (hplace call hafter) (hplace _ fun d hd => ?_)
  exact Option.some.inj (Eq.symm hd |>.trans hbefore)

/-- A thread goes on without a change of the locks and owners. -/
theorem Kept.goTo_plain (h : s.Kept data) {call : ShareCall}
    (hbefore : s.call t ≠ .recording data ∧ s.call t ≠ .writeUnlocking data)
    (hafter : call ≠ .recording data ∧ call ≠ .writeUnlocking data)
    (hsuits : call.data = some data → call.Suits (s.taken data t)) : (s.goTo t call).Kept data := by
  refine h.goTo hsuits ?_
  rw [Owns, Owns, goTo_call_self]
  exact and_congr_right fun _ => iff_of_true hafter hbefore

/-- How a thread has taken the lock that its call is about. -/
theorem Kept.suits (h : s.Kept data) {call : ShareCall} (hcall : s.call t = call)
    (hdata : call.data = some data) : call.Suits (s.taken data t) := by
  subst hcall
  exact h.calls t hdata

/-- A thread takes or releases the lock, which it does not own before or afterwards. -/
theorem Kept.setMutex (h : s.Kept data) (ht : t ≠ 0) {access : Option LockAccess} {l : RwLock T}
    {call : ShareCall} (hheld : l.HeldBy (Function.update (s.taken data) t access))
    (hsuits : call.data = some data → call.Suits access) (hbefore : ¬ s.Owns data t)
    (hafter : access = some .single → call = .recording data) :
    ((s.setMutex t data access l).goTo t call).Kept data := by
  have hmutex : (s.setMutex t data access l).mutex data = l := Function.update_self ..
  have htaken : (s.setMutex t data access l).taken data = Function.update (s.taken data) t access :=
    Function.update_self ..
  refine ⟨?_, fun u hu => ?_, fun u hu => ?_, fun u hu => ?_⟩
  · rw [goTo_mutex, goTo_taken, hmutex, htaken]
    exact hheld
  · rw [goTo_taken, htaken] at hu
    by_cases hut : u = t
    · exact hut ▸ ht
    · rw [Function.update_of_ne hut] at hu
      exact h.known u hu
  · rw [goTo_taken, htaken]
    by_cases hut : u = t
    · subst hut
      rw [goTo_call_self] at hu ⊢
      rw [Function.update_self]
      exact hsuits hu
    · rw [goTo_call_of_ne _ hut] at hu ⊢
      rw [Function.update_of_ne hut]
      exact h.calls u hu
  · refine (h.owner u hu).trans ?_
    rw [Owns, Owns, goTo_taken, htaken]
    by_cases hut : u = t
    · subst hut
      rw [Function.update_self, goTo_call_self]
      exact iff_of_false hbefore fun hafter' => hafter'.2.1 (hafter hafter'.1)
    · rw [Function.update_of_ne hut, goTo_call_of_ne _ hut]
      rfl

/-- A thread with single access sets the owner, to itself or to nobody. -/
theorem Kept.setOwner (h : s.Kept data) (ht : s.taken data t = some .single) {owner : T}
    {call : ShareCall} (hsuits : call.data = some data → call.Suits (some .single))
    (howner : owner = t ∧ call = .outside ∨ owner = 0 ∧ call = .writeUnlocking data) :
    ((s.setOwner data owner).goTo t call).Kept data := by
  have hset : (s.setOwner data owner).owner data = owner := Function.update_self ..
  refine ⟨h.held, h.known, fun u hu => ?_, fun u hu => ?_⟩
  · by_cases hut : u = t
    · subst hut
      rw [goTo_call_self] at hu ⊢
      rw [goTo_taken, show (s.setOwner data owner).taken = s.taken from rfl, ht]
      exact hsuits hu
    · rw [goTo_call_of_ne _ hut] at hu ⊢
      exact h.calls u hu
  · rw [goTo_owner, hset, Owns, goTo_taken]
    by_cases hut : u = t
    · subst hut
      rw [goTo_call_self]
      rcases howner with ⟨rfl, rfl⟩ | ⟨rfl, rfl⟩
      · exact iff_of_true rfl ⟨ht, by simp, by simp⟩
      · exact iff_of_false (Ne.symm hu) fun howns => howns.2.2 rfl
    · -- another thread cannot have the lock
      refine iff_of_false ?_ fun howns => hut <|
        h.held.eq_of_single ht (by rw [show s.taken data u = some .single from howns.1]; simp)
      rcases howner with ⟨rfl, -⟩ | ⟨rfl, -⟩
      · exact Ne.symm hut
      · exact Ne.symm hu

/-- A step of a call that takes or releases a lock keeps the invariants of all locks. -/
theorem kept_setMutex (h : ∀ data, s.Kept data) (ht : t ≠ 0) (hdata : (s.call t).data = some data)
    {access : Option LockAccess} {l : RwLock T} {call : ShareCall}
    (hheld : l.HeldBy (Function.update (s.taken data) t access))
    (hcall : call = .outside ∧ access ≠ some .single ∨
      call = .recording data ∧ access = some .single)
    (hbefore : ¬ s.Owns data t) (data' : LockData) :
    ((s.setMutex t data access l).goTo t call).Kept data' := by
  by_cases hother : data' = data
  · subst hother
    refine (h data').setMutex ht hheld ?_ hbefore ?_
    · rcases hcall with ⟨rfl, -⟩ | ⟨rfl, rfl⟩
      · exact fun hnone => by cases hnone
      · exact fun _ => rfl
    · rcases hcall with ⟨-, hne⟩ | ⟨hcall, -⟩
      · exact fun haccess => absurd haccess hne
      · exact fun _ => hcall
  · have hmoved : (s.goTo t call).Kept data' := by
      refine (h data').goTo_other hother hdata fun d hd => ?_
      rcases hcall with ⟨rfl, -⟩ | ⟨rfl, -⟩
      · cases hd
      · exact (Option.some.inj hd).symm
    exact hmoved.congr (Function.update_of_ne hother ..) rfl (Function.update_of_ne hother ..) rfl

/-- So does one that sets the owner. -/
theorem kept_setOwner (h : ∀ data, s.Kept data) (hdata : (s.call t).data = some data)
    (ht : s.taken data t = some .single) {owner : T} {call : ShareCall}
    (howner : owner = t ∧ call = .outside ∨ owner = 0 ∧ call = .writeUnlocking data)
    (data' : LockData) : ((s.setOwner data owner).goTo t call).Kept data' := by
  by_cases hother : data' = data
  · subst hother
    refine (h data').setOwner ht ?_ howner
    rcases howner with ⟨-, rfl⟩ | ⟨-, rfl⟩
    · exact fun hnone => by cases hnone
    · exact fun _ => rfl
  · have hmoved : (s.goTo t call).Kept data' := by
      refine (h data').goTo_other hother hdata fun d hd => ?_
      rcases howner with ⟨-, rfl⟩ | ⟨-, rfl⟩
      · cases hd
      · exact (Option.some.inj hd).symm
    exact hmoved.congr rfl (Function.update_of_ne hother ..) rfl rfl

/-- So does the comparison, which tells how the thread has taken the lock. -/
theorem kept_compare (h : ∀ data, s.Kept data) (ht : t ≠ 0) (hcall : s.call t = .comparing data)
    (data' : LockData) :
    (s.goTo t (if s.owner data = t then .clearing data else .readUnlocking data)).Kept data' := by
  have htaken : s.taken data t ≠ none := (h data).suits hcall rfl
  have howns : s.owner data = t ↔ s.taken data t = some .single := by
    refine ((h data).owner t ht).trans ⟨fun howns => howns.1, fun hsingle => ⟨hsingle, ?_⟩⟩
    rw [hcall]
    simp
  refine (h data').goTo_plain (by rw [hcall]; simp) (by split <;> simp) fun hdata => ?_
  split
  · rename_i howner
    rw [if_pos howner] at hdata
    obtain rfl := Option.some.inj hdata
    exact howns.mp howner
  · rename_i howner
    rw [if_neg howner] at hdata
    obtain rfl := Option.some.inj hdata
    obtain ⟨access, haccess⟩ := Option.ne_none_iff_exists'.mp htaken
    cases access with
    | shared => exact haccess
    | single => exact absurd (howns.mpr haccess) howner

/-- The next step of a call keeps the invariants of all locks. -/
theorem kept_proceed (h : ∀ data, s.Kept data) (ht : t ≠ 0) (hstep : s.proceed t = some s')
    (data : LockData) : s'.Kept data := by
  rw [proceed] at hstep
  split at hstep
  case h_1 => cases hstep
  case h_2 data' hcall =>
    have hnone : s.taken data' t = none := (h data').suits hcall rfl
    obtain ⟨l, hlock, rfl⟩ := Option.map_eq_some_iff.mp hstep
    exact kept_setMutex h ht (by rw [hcall]; rfl) ((h data').held.readLock hnone hlock)
      (.inl ⟨rfl, by simp⟩) (fun howns => absurd (hnone.symm.trans howns.1) (by simp)) data
  case h_3 data' hcall =>
    have hnone : s.taken data' t = none := (h data').suits hcall rfl
    obtain ⟨l, hlock, rfl⟩ := Option.map_eq_some_iff.mp hstep
    exact kept_setMutex h ht (by rw [hcall]; rfl) ((h data').held.writeLock hlock)
      (.inr ⟨rfl, rfl⟩) (fun howns => absurd (hnone.symm.trans howns.1) (by simp)) data
  case h_4 data' hcall =>
    have hsingle : s.taken data' t = some .single := (h data').suits hcall rfl
    obtain rfl := Option.some.inj hstep
    exact kept_setOwner h (by rw [hcall]; rfl) hsingle (.inl ⟨rfl, rfl⟩) data
  case h_5 data' hcall =>
    obtain rfl := Option.some.inj hstep
    exact kept_compare h ht hcall data
  case h_6 data' hcall =>
    have hsingle : s.taken data' t = some .single := (h data').suits hcall rfl
    obtain rfl := Option.some.inj hstep
    exact kept_setOwner h (by rw [hcall]; rfl) hsingle (.inr ⟨rfl, rfl⟩) data
  case h_7 data' hcall =>
    have hsingle : s.taken data' t = some .single := (h data').suits hcall rfl
    obtain ⟨l, hunlock, hheld⟩ := (h data').held.writeUnlock hsingle
    rw [hunlock] at hstep
    obtain rfl := Option.some.inj hstep
    exact kept_setMutex h ht (by rw [hcall]; rfl) hheld (.inl ⟨rfl, by simp⟩)
      (fun howns => howns.2.2 hcall) data
  case h_8 data' hcall =>
    have hshared : s.taken data' t = some .shared := (h data').suits hcall rfl
    obtain ⟨l, hunlock, hheld⟩ := (h data').held.readUnlock hshared
    rw [hunlock] at hstep
    obtain rfl := Option.some.inj hstep
    exact kept_setMutex h ht (by rw [hcall]; rfl) hheld (.inl ⟨rfl, by simp⟩)
      (fun howns => absurd (hshared.symm.trans howns.1) (by simp)) data

/-- **Every step** of a bracketed run keeps the invariants of all locks. -/
theorem kept_step (h : ∀ data, s.Kept data) {action : ShareAction T}
    (hbracketed : s.Bracketed action) (hstep : s.step action = some s') (data : LockData) :
    s'.Kept data := by
  obtain ⟨ht, hbracketed⟩ := hbracketed
  cases action with
  | lock t data' access =>
      rw [step] at hstep
      split_ifs at hstep with hcall
      obtain rfl := Option.some.inj hstep
      refine (h data).goTo_plain (by rw [hcall]; simp) (by simp) fun hdata => ?_
      obtain rfl := Option.some.inj hdata
      exact hbracketed
  | unlock t data' =>
      rw [step] at hstep
      split_ifs at hstep with hcall
      obtain rfl := Option.some.inj hstep
      refine (h data).goTo_plain (by rw [hcall]; simp) (by simp) fun hdata => ?_
      obtain rfl := Option.some.inj hdata
      exact hbracketed
  | proceed t => exact kept_proceed h ht hstep data

/-! ### Whole runs -/

/-- A lock is settled: no call is between taking it for single access and recording the owner, or
between clearing the owner and releasing it. -/
def Settled (s : ShareState T) (data : LockData) : Prop :=
  ∀ t, s.call t ≠ .recording data ∧ s.call t ≠ .writeUnlocking data

/-- The owner of a settled lock is the thread that has it for single access, if there is one. -/
theorem Kept.owner_eq (h : s.Kept data) (hsettled : s.Settled data) :
    (s.owner data ≠ 0 ↔ ∃ t, (s.mutex data).writer = some t) ∧
      ∀ t, (s.mutex data).writer = some t → s.owner data = t := by
  have hnamed : ∀ t, (s.mutex data).writer = some t → s.owner data = t := by
    intro t hwriter
    have hsingle := (h.held.single t).mp hwriter
    exact (h.owner t (h.known t (by rw [hsingle]; simp))).mpr ⟨hsingle, hsettled t⟩
  refine ⟨⟨fun howner => ⟨s.owner data, ?_⟩, fun ⟨t, hwriter⟩ => ?_⟩, hnamed⟩
  · exact (h.held.single _).mpr ((h.owner _ howner).mp rfl).1
  · rw [hnamed t hwriter]
    exact h.known t (by rw [(h.held.single t).mp hwriter]; simp)

/-- The invariants hold in every bracketed run. -/
theorem kept_run {actions : List (ShareAction T)}
    (hbracketed : Guarded.Along step Bracketed ShareState.start actions)
    (hrun : Guarded.run step ShareState.start actions = some s) (data : LockData) : s.Kept data :=
  @Guarded.invariant _ _ step Bracketed (fun s => ∀ data, s.Kept data)
    (fun _ _ _ h hb hs => kept_step h hb hs) _ _ _ Kept.start hbracketed hrun data

end ShareState

/-- **A lock is released in the mode in which it was taken.** In every run of any number of
threads whose calls are bracketed, whatever the order of their steps: a thread that is about to
release a lock from single access took it for single access and has it, and one that is about to
release a lock from shared access took it for shared access and has it. The owner of a lock is not
zero exactly if a thread holds it for writing, and names that thread, except where a lock call has
not recorded it yet or an unlock call has cleared it already. -/
theorem share_unlock_mode {T : Type*} [DecidableEq T] [Zero T] {actions : List (ShareAction T)}
    {s : ShareState T}
    (hbracketed : Guarded.Along ShareState.step ShareState.Bracketed ShareState.start actions)
    (hrun : Guarded.run ShareState.step ShareState.start actions = some s) :
    (∀ t data, s.call t = .writeUnlocking data →
      s.taken data t = some .single ∧ ∃ l, (s.mutex data).writeUnlock t = some l) ∧
    (∀ t data, s.call t = .readUnlocking data →
      s.taken data t = some .shared ∧ ∃ l, (s.mutex data).readUnlock t = some l) ∧
    ∀ data, s.Settled data → (s.owner data ≠ 0 ↔ ∃ t, (s.mutex data).writer = some t) ∧
      ∀ t, (s.mutex data).writer = some t → s.owner data = t := by
  have h := ShareState.kept_run hbracketed hrun
  refine ⟨fun t data hcall => ?_, fun t data hcall => ?_, fun data => (h data).owner_eq⟩
  · have hsingle : s.taken data t = some .single := (h data).suits hcall rfl
    obtain ⟨l, hunlock, -⟩ := (h data).held.writeUnlock hsingle
    exact ⟨hsingle, l, hunlock⟩
  · have hshared : s.taken data t = some .shared := (h data).suits hcall rfl
    obtain ⟨l, hunlock, -⟩ := (h data).held.readUnlock hshared
    exact ⟨hshared, l, hunlock⟩

/-- A thread that has read the cookies writes them. -/
def cookieWriter : List (ShareAction (Fin 2)) :=
  [.lock 1 .cookie .shared, .proceed 1, .unlock 1 .cookie, .proceed 1, .proceed 1,
    .lock 1 .cookie .single, .proceed 1, .proceed 1, .unlock 1 .cookie, .proceed 1, .proceed 1]

/-- Two threads read the cookies at the same time. Then one of them writes them, up to the release
of the lock, while the other one waits for it. -/
def cookieThreads : List (ShareAction (Fin 3)) :=
  [.lock 1 .cookie .shared, .lock 2 .cookie .shared, .proceed 1, .proceed 2, .unlock 2 .cookie,
    .unlock 1 .cookie, .proceed 1, .proceed 2, .proceed 2, .proceed 1, .lock 1 .cookie .single,
    .proceed 1, .proceed 1, .lock 2 .cookie .shared, .unlock 1 .cookie, .proceed 1, .proceed 1]

/-- The case of these threads. -/
theorem share_unlock_mode_cookies :
    ∃ s, Guarded.run ShareState.step ShareState.start cookieThreads = some s ∧
      (∀ t data, s.call t = .writeUnlocking data →
        s.taken data t = some .single ∧ ∃ l, (s.mutex data).writeUnlock t = some l) ∧
      (∀ t data, s.call t = .readUnlocking data →
        s.taken data t = some .shared ∧ ∃ l, (s.mutex data).readUnlock t = some l) ∧
      ∀ data, s.Settled data → (s.owner data ≠ 0 ↔ ∃ t, (s.mutex data).writer = some t) ∧
        ∀ t, (s.mutex data).writer = some t → s.owner data = t := by
  have hdefined : (Guarded.run ShareState.step ShareState.start cookieThreads).isSome = true := by
    decide +kernel
  obtain ⟨s, hrun⟩ := Option.isSome_iff_exists.mp hdefined
  exact ⟨s, hrun, share_unlock_mode (by decide +kernel) hrun⟩

/-- While the unlock call of the writer is about to release the lock, it has no owner. -/
theorem owner_cleared :
    ¬ ∀ (actions : List (ShareAction (Fin 2))) (s : ShareState (Fin 2)),
      Guarded.Along ShareState.step ShareState.Bracketed ShareState.start actions →
      Guarded.run ShareState.step ShareState.start actions = some s →
      ∀ data, (∀ t, s.call t ≠ .recording data) →
        (s.owner data ≠ 0 ↔ ∃ t, (s.mutex data).writer = some t) := by
  intro h
  have hend : (Guarded.run ShareState.step ShareState.start cookieWriter).map
      (fun s => (s.owner .cookie, decide (∀ t, s.call t ≠ .recording .cookie),
        (s.mutex .cookie).writer)) = some (0, true, some 1) := by
    decide +kernel
  obtain ⟨s, hrun, hs⟩ := Option.map_eq_some_iff.mp hend
  obtain ⟨howner, hrest⟩ := Prod.mk.inj hs
  obtain ⟨hcall, hwriter⟩ := Prod.mk.inj hrest
  exact (h cookieWriter s (by decide +kernel) hrun .cookie (of_decide_eq_true hcall)).mpr
    ⟨1, hwriter⟩ howner

end DsiRest
