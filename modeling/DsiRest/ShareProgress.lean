import DsiRest.ShareLocks
import Mathlib.Algebra.Order.BigOperators.Group.Finset
import Mathlib.Data.Finset.Max

/-!
# No Lock is Left Behind

A call of `globus_l_dsi_rest_share_lock` may have to wait for another thread, which may be waiting
itself. If the threads take several locks only in some order of the kinds of data, as they do if
each of them takes one lock at a time, then some thread can always go on; and without new lock calls
each of them has only so many steps left. In the end every lock is free, and has no owner: an unlock
call that took a lock for one that is held in the other mode would leave it locked forever.

## Main results

* `ShareState.proceed_work` — each step of a call brings the end nearer.
* `ShareState.exists_step` — some thread can go on, unless all are through.
* `share_drains` — threads that take no more locks release those that they have.
-/

namespace DsiRest

/-- The kinds of data. -/
def lockKinds : List LockData :=
  [.share, .cookie, .dns, .sslSession]

/-- There is no other kind. -/
theorem mem_lockKinds (data : LockData) : data ∈ lockKinds := by
  cases data <;> simp [lockKinds]

/-- A lock call starts. -/
def ShareAction.startsLock {T : Type*} : ShareAction T → Bool
  | lock _ _ _ => true
  | unlock _ _ | proceed _ => false

/-- How many more steps a call may take, and an unlock call at its start; a lock that is held counts
for five more. -/
def ShareCall.work : ShareCall → ℕ
  | locking _ _ => 11
  | recording _ => 5
  | outside => 4
  | comparing _ => 3
  | clearing _ => 2
  | writeUnlocking _ | readUnlocking _ => 1

namespace ShareState

section Work

variable {T : Type*}

/-- How many locks a thread has. -/
def heldCount (s : ShareState T) (t : T) : ℕ :=
  lockKinds.countP fun data => (s.taken data t).isSome

/-- How many more steps a thread may take. -/
def work (s : ShareState T) (t : T) : ℕ :=
  (s.call t).work + 5 * s.heldCount t

/-- All threads are outside, and none has a lock. -/
def Through (s : ShareState T) : Prop :=
  ∀ t, s.call t = .outside ∧ ∀ data, s.taken data t = none

/-- There are four kinds of locks. -/
theorem heldCount_le (s : ShareState T) (t : T) : s.heldCount t ≤ 4 :=
  List.countP_le_length

/-- No thread has more steps left than this. -/
theorem work_le (s : ShareState T) (t : T) : s.work t ≤ 31 := by
  have hheld := s.heldCount_le t
  have hcall : (s.call t).work ≤ 11 := by
    cases s.call t <;> simp [ShareCall.work]
  rw [work]
  omega

/-- A thread at the same place with the same locks has as many steps left. -/
theorem work_congr {s s' : ShareState T} {u : T} (hcall : s'.call u = s.call u)
    (htaken : ∀ data, s'.taken data u = s.taken data u) : s'.work u = s.work u := by
  simp only [work, heldCount, hcall, htaken]

variable [DecidableEq T]

/-- A thread takes a lock. -/
theorem heldCount_take {s : ShareState T} {t : T} {data : LockData} (hnone : s.taken data t = none)
    (access : LockAccess) (l : RwLock T) :
    (s.setMutex t data (some access) l).heldCount t = s.heldCount t + 1 := by
  cases data <;> simp [heldCount, lockKinds, setMutex, List.countP_cons, hnone] <;> omega

/-- A thread releases a lock. -/
theorem heldCount_release {s : ShareState T} {t : T} {data : LockData}
    (htaken : s.taken data t ≠ none) (l : RwLock T) :
    (s.setMutex t data none l).heldCount t + 1 = s.heldCount t := by
  have hsome := Option.isSome_iff_ne_none.mpr htaken
  cases data <;> simp [heldCount, lockKinds, setMutex, List.countP_cons, hsome] <;> omega

/-- A thread that has come to another place. -/
theorem work_goTo (s : ShareState T) (t : T) (call : ShareCall) :
    (s.goTo t call).work t = call.work + 5 * s.heldCount t := by
  rw [work, goTo_call_self]
  rfl

/-- Only the locks of one thread change. -/
theorem setMutex_taken_of_ne (s : ShareState T) {t u : T} (hu : u ≠ t) (data : LockData)
    (access : Option LockAccess) (l : RwLock T) (data' : LockData) :
    (s.setMutex t data access l).taken data' u = s.taken data' u := by
  by_cases hdata : data' = data
  · subst hdata
    simp only [setMutex, Function.update_self, Function.update_of_ne hu]
  · simp only [setMutex, Function.update_of_ne hdata]

end Work

variable {T : Type*} [DecidableEq T] [Zero T] {s s' : ShareState T} {t : T}

/-! ### Steps -/

/-- **A step of a call** brings its thread nearer to the end. -/
theorem proceed_work (h : ∀ data, s.Kept data) (hstep : s.proceed t = some s') :
    s'.work t < s.work t := by
  rw [proceed] at hstep
  split at hstep
  case h_1 => cases hstep
  case h_2 data hcall =>
    have hnone : s.taken data t = none := (h data).suits hcall rfl
    obtain ⟨l, -, rfl⟩ := Option.map_eq_some_iff.mp hstep
    rw [work_goTo, heldCount_take hnone, work, hcall, ShareCall.work, ShareCall.work]
    omega
  case h_3 data hcall =>
    have hnone : s.taken data t = none := (h data).suits hcall rfl
    obtain ⟨l, -, rfl⟩ := Option.map_eq_some_iff.mp hstep
    rw [work_goTo, heldCount_take hnone, work, hcall, ShareCall.work, ShareCall.work]
    omega
  case h_4 data hcall =>
    obtain rfl := Option.some.inj hstep
    rw [work_goTo, work, hcall, ShareCall.work, ShareCall.work]
    exact Nat.add_lt_add_right (by omega) _
  case h_5 data hcall =>
    obtain rfl := Option.some.inj hstep
    rw [work_goTo, work, hcall]
    refine Nat.add_lt_add_right ?_ _
    split_ifs <;> simp [ShareCall.work]
  case h_6 data hcall =>
    obtain rfl := Option.some.inj hstep
    rw [work_goTo, work, hcall, ShareCall.work, ShareCall.work]
    exact Nat.add_lt_add_right (by omega) _
  case h_7 data hcall =>
    have hsingle : s.taken data t = some .single := (h data).suits hcall rfl
    obtain ⟨l, -, rfl⟩ := Option.map_eq_some_iff.mp hstep
    have hcount := heldCount_release (by rw [hsingle]; simp) l
    rw [work_goTo, work, hcall, ShareCall.work, ShareCall.work]
    omega
  case h_8 data hcall =>
    have hshared : s.taken data t = some .shared := (h data).suits hcall rfl
    obtain ⟨l, -, rfl⟩ := Option.map_eq_some_iff.mp hstep
    have hcount := heldCount_release (by rw [hshared]; simp) l
    rw [work_goTo, work, hcall, ShareCall.work, ShareCall.work]
    omega

/-- **A step** takes its thread to another place, to a lock call only where one starts, and leaves
the places and the locks of the other threads alone. -/
theorem step_cases {action : ShareAction T} (hstep : s.step action = some s') :
    ∃ base call, s' = base.goTo action.thread call ∧ base.call = s.call ∧
      (∀ u, u ≠ action.thread → ∀ data, base.taken data u = s.taken data u) ∧
      ∀ data access, call = .locking data access →
        action = .lock action.thread data access ∧ base = s := by
  cases action with
  | lock t data access =>
      rw [step] at hstep
      split_ifs at hstep
      refine ⟨s, _, (Option.some.inj hstep).symm, rfl, fun _ _ _ => rfl, fun data' access' h => ?_⟩
      obtain ⟨rfl, rfl⟩ := ShareCall.locking.inj h
      exact ⟨rfl, rfl⟩
  | unlock t data =>
      rw [step] at hstep
      split_ifs at hstep
      exact ⟨s, _, (Option.some.inj hstep).symm, rfl, fun _ _ _ => rfl, fun _ _ h => by cases h⟩
  | proceed t =>
      rw [step, proceed] at hstep
      split at hstep
      case h_1 => cases hstep
      case h_2 data _ | h_3 data _ | h_7 data _ | h_8 data _ =>
        obtain ⟨l, -, rfl⟩ := Option.map_eq_some_iff.mp hstep
        exact ⟨_, _, rfl, rfl, fun u hu => s.setMutex_taken_of_ne hu data _ l,
          fun _ _ h => by cases h⟩
      case h_4 | h_6 =>
        obtain rfl := Option.some.inj hstep
        exact ⟨_, _, rfl, rfl, fun _ _ _ => rfl, fun _ _ h => by cases h⟩
      case h_5 data _ =>
        obtain rfl := Option.some.inj hstep
        refine ⟨s, _, rfl, rfl, fun _ _ _ => rfl, fun _ _ h => ?_⟩
        split_ifs at h

/-! ### Threads that go on -/

/-- A thread takes several locks only in an order of the kinds of data, and only some threads do
anything. -/
def InOrder (rank : LockData → ℕ) (threads : Finset T) (s : ShareState T)
    (action : ShareAction T) : Prop :=
  s.Bracketed action ∧ action.thread ∈ threads ∧
    match action with
    | .lock t data _ => ∀ data', s.taken data' t ≠ none → rank data' < rank data
    | .unlock _ _ | .proceed _ => True

/-- No lock call starts. -/
def Drains (rank : LockData → ℕ) (threads : Finset T) (s : ShareState T)
    (action : ShareAction T) : Prop :=
  s.InOrder rank threads action ∧ action.startsLock = false

instance (rank : LockData → ℕ) (threads : Finset T) (s : ShareState T) (action : ShareAction T) :
    Decidable (s.InOrder rank threads action) :=
  match action with
  | .lock t data access =>
    have : Decidable (∀ data', s.taken data' t ≠ none → rank data' < rank data) :=
      decidable_of_iff (∀ data' ∈ lockKinds, s.taken data' t ≠ none → rank data' < rank data)
        ⟨fun h data' => h data' (mem_lockKinds data'), fun h data' _ => h data'⟩
    inferInstanceAs (Decidable (s.Bracketed (.lock t data access) ∧ t ∈ threads ∧
      ∀ data', s.taken data' t ≠ none → rank data' < rank data))
  | .unlock t data =>
    inferInstanceAs (Decidable (s.Bracketed (.unlock t data) ∧ t ∈ threads ∧ True))
  | .proceed t => inferInstanceAs (Decidable (s.Bracketed (.proceed t) ∧ t ∈ threads ∧ True))

instance (rank : LockData → ℕ) (threads : Finset T) (s : ShareState T) (action : ShareAction T) :
    Decidable (s.Drains rank threads action) :=
  inferInstanceAs (Decidable (s.InOrder rank threads action ∧ action.startsLock = false))

instance (rank : LockData → ℕ) (threads : Finset T) (s : ShareState T) (action : ShareAction T) :
    Decidable (s.Drains rank threads action) :=
  inferInstanceAs (Decidable (_ ∧ _))

/-- The invariant. -/
structure Ordered (rank : LockData → ℕ) (threads : Finset T) (s : ShareState T) : Prop where
  kept : ∀ data, s.Kept data
  waits : ∀ t data access, s.call t = .locking data access →
    ∀ data', s.taken data' t ≠ none → rank data' < rank data
  member : ∀ t, ¬ (t ∈ threads ∧ t ≠ 0) → s.call t = .outside ∧ ∀ data, s.taken data t = none

variable {rank : LockData → ℕ} {threads : Finset T} {data : LockData}

/-- The invariant holds before the first call. -/
theorem Ordered.start : (start : ShareState T).Ordered rank threads where
  kept := Kept.start
  waits := fun _ _ _ h => by cases h
  member := fun _ _ => ⟨rfl, fun _ => rfl⟩

/-- **Every step** keeps the order. -/
theorem Ordered.step (h : s.Ordered rank threads) {action : ShareAction T}
    (horder : s.InOrder rank threads action) (hstep : s.step action = some s') :
    s'.Ordered rank threads := by
  obtain ⟨hbracketed, hmem, hrank⟩ := horder
  obtain ⟨base, call, rfl, hcall, htaken, hlocking⟩ := step_cases hstep
  refine ⟨kept_step h.kept hbracketed hstep, fun t data access ht => ?_, fun t ht => ?_⟩
  · by_cases hthread : t = action.thread
    · subst hthread
      rw [goTo_call_self] at ht
      obtain ⟨haction, rfl⟩ := hlocking data access ht
      rw [haction] at hrank
      exact hrank
    · rw [goTo_call_of_ne _ hthread, hcall] at ht
      intro data' hdata'
      rw [goTo_taken, htaken t hthread] at hdata'
      exact h.waits t data access ht data' hdata'
  · have hthread : t ≠ action.thread := fun heq => ht (heq ▸ ⟨hmem, hbracketed.1⟩)
    obtain ⟨houtside, hnone⟩ := h.member t ht
    rw [goTo_call_of_ne _ hthread, hcall, goTo_taken]
    exact ⟨houtside, fun data => (htaken t hthread data).trans (hnone data)⟩

/-- The guard may be used in every reachable state. -/
theorem ordered_run {actions : List (ShareAction T)}
    (horder : Guarded.Along ShareState.step (InOrder rank threads) ShareState.start actions)
    (hrun : Guarded.run ShareState.step ShareState.start actions = some s) :
    s.Ordered rank threads :=
  Guarded.invariant (fun _ _ _ h ho hs => h.step ho hs) Ordered.start horder hrun

/-- **Every step but the start of a lock call** brings the end nearer. -/
theorem Ordered.work_lt (h : s.Ordered rank threads) {action : ShareAction T}
    (hdrains : s.Drains rank threads action) (hstep : s.step action = some s') :
    ∑ t ∈ threads, s'.work t < ∑ t ∈ threads, s.work t := by
  obtain ⟨⟨hbracketed, hmem, -⟩, hnot⟩ := hdrains
  have hothers : ∀ u, u ≠ action.thread → s'.work u = s.work u := by
    obtain ⟨base, call, rfl, hcall, htaken, -⟩ := step_cases hstep
    intro u hu
    refine work_congr ?_ fun data => ?_
    · rw [goTo_call_of_ne _ hu, hcall]
    · rw [goTo_taken, htaken u hu]
  have hthis : s'.work action.thread < s.work action.thread := by
    cases action with
    | lock t data access => cases hnot
    | unlock t data =>
        rw [ShareState.step] at hstep
        split_ifs at hstep with houtside
        obtain rfl := Option.some.inj hstep
        rw [ShareAction.thread, work_goTo, work, houtside, ShareCall.work, ShareCall.work]
        exact Nat.add_lt_add_right (by omega) _
    | proceed t => exact proceed_work h.kept hstep
  refine Finset.sum_lt_sum (fun u _ => ?_) ⟨action.thread, hmem, hthis⟩
  by_cases hu : u = action.thread
  · exact hu ▸ hthis.le
  · exact (hothers u hu).le

/-- A lock that nobody has is free. -/
theorem Kept.free (h : s.Kept data) (hnone : ∀ t, s.taken data t = none) :
    s.mutex data = RwLock.free := by
  have hreaders : (s.mutex data).readers = [] := by
    refine List.eq_nil_iff_forall_not_mem.mpr fun t ht => ?_
    rw [h.held.mem_readers, hnone] at ht
    cases ht
  have hwriter : (s.mutex data).writer = none := by
    refine Option.eq_none_iff_forall_ne_some.mpr fun t ht => ?_
    rw [h.held.single, hnone] at ht
    cases ht
  cases hmutex : s.mutex data with
  | mk readers writer excludes =>
      rw [hmutex] at hreaders hwriter
      subst hreaders hwriter
      rfl

/-- A call that has the lock, or is about to release it, does not wait. -/
theorem Kept.exists_proceed (h : ∀ data, s.Kept data) (hcall : s.call t ≠ .outside)
    (hlocking : ∀ data access, s.call t ≠ .locking data access) : ∃ s', s.proceed t = some s' := by
  rw [proceed]
  cases hplace : s.call t with
  | outside => exact absurd hplace hcall
  | locking data access => exact absurd hplace (hlocking data access)
  | recording data | comparing data | clearing data => exact ⟨_, rfl⟩
  | writeUnlocking data =>
      have hsingle : s.taken data t = some .single := (h data).suits hplace rfl
      obtain ⟨l, hunlock, -⟩ := (h data).held.writeUnlock hsingle
      exact ⟨_, congrArg (Option.map _) hunlock⟩
  | readUnlocking data =>
      have hshared : s.taken data t = some .shared := (h data).suits hplace rfl
      obtain ⟨l, hunlock, -⟩ := (h data).held.readUnlock hshared
      exact ⟨_, congrArg (Option.map _) hunlock⟩

/-- A free lock is taken at once. -/
theorem exists_proceed_of_free {access : LockAccess} (hcall : s.call t = .locking data access)
    (hfree : s.mutex data = RwLock.free) : ∃ s', s.proceed t = some s' := by
  rw [proceed, hcall]
  cases access with
  | shared =>
      obtain ⟨l, hlock⟩ : ∃ l, (s.mutex data).readLock t = some l := by
        rw [hfree]
        exact ⟨_, rfl⟩
      exact ⟨_, congrArg (Option.map _) hlock⟩
  | single =>
      obtain ⟨l, hlock⟩ : ∃ l, (s.mutex data).writeLock t = some l := by
        rw [hfree]
        exact ⟨_, rfl⟩
      exact ⟨_, congrArg (Option.map _) hlock⟩

/-- **Some thread can go on**, unless all are through. -/
theorem Ordered.exists_step (h : s.Ordered rank threads) (hleft : ¬ s.Through) :
    ∃ action s', s.Drains rank threads action ∧ s.step action = some s' := by
  by_contra hstuck
  have hmember : ∀ t, s.call t ≠ .outside ∨ (∃ data, s.taken data t ≠ none) →
      t ∈ threads ∧ t ≠ 0 := by
    intro t ht
    by_contra hnot
    obtain ⟨houtside, hnone⟩ := h.member t hnot
    rcases ht with hcall | ⟨data, htaken⟩
    · exact hcall houtside
    · exact htaken (hnone data)
  have hproceed : ∀ t, s.call t ≠ .outside → ∀ s', s.proceed t ≠ some s' := by
    intro t hcall s' hs'
    obtain ⟨hmem, hne⟩ := hmember t (.inl hcall)
    exact hstuck ⟨.proceed t, s', ⟨⟨⟨hne, trivial⟩, hmem, trivial⟩, rfl⟩, hs'⟩
  have hlocking : ∀ t, s.call t ≠ .outside → ∃ data access, s.call t = .locking data access := by
    intro t hcall
    by_contra hnot
    push Not at hnot
    obtain ⟨s', hs'⟩ := Kept.exists_proceed h.kept hcall hnot
    exact hproceed t hcall s' hs'
  have houtside : ∀ t, s.call t = .outside → ∀ data, s.taken data t = none := by
    intro t hcall data
    by_contra htaken
    obtain ⟨hmem, hne⟩ := hmember t (.inr ⟨data, htaken⟩)
    exact hstuck ⟨.unlock t data, _, ⟨⟨⟨hne, htaken⟩, hmem, trivial⟩, rfl⟩, if_pos hcall⟩
  obtain ⟨waiting, hwaiting⟩ : ∃ t, s.call t ≠ .outside := by
    by_contra hnone
    push Not at hnone
    exact hleft fun t => ⟨hnone t, houtside t (hnone t)⟩
  -- of the threads that wait, one for the last kind of data cannot wait for another thread
  obtain ⟨t, ht, hlast⟩ := Finset.exists_max_image (threads.filter fun t => s.call t ≠ .outside)
    (fun t => (s.call t).data.elim 0 rank)
    ⟨waiting, Finset.mem_filter.mpr ⟨(hmember waiting (.inl hwaiting)).1, hwaiting⟩⟩
  obtain ⟨-, hcall⟩ := Finset.mem_filter.mp ht
  obtain ⟨data, access, hdata⟩ := hlocking t hcall
  have hnone : ∀ u, s.taken data u = none := by
    intro u
    by_contra htaken
    have hu : s.call u ≠ .outside := fun h => htaken (houtside u h data)
    obtain ⟨data', access', hdata'⟩ := hlocking u hu
    have hless := h.waits u data' access' hdata' data htaken
    have hmore := hlast u (Finset.mem_filter.mpr ⟨(hmember u (.inl hu)).1, hu⟩)
    rw [hdata, hdata'] at hmore
    exact absurd hless (Nat.not_lt.mpr hmore)
  obtain ⟨s', hs'⟩ := exists_proceed_of_free hdata ((h.kept data).free hnone)
  exact hproceed t hcall s' hs'

end ShareState

/-- **No lock is left behind.** Any number of threads may have taken and released locks in any order
of their steps, as long as each of them takes several locks only in some order of the kinds of data.
From then on, if no lock call starts: whatever the order of the steps, there are at most 31 for each
thread; where no thread can take another step, all are through, every lock is free, and none has an
owner; and until then some thread can. -/
theorem share_drains {T : Type*} [DecidableEq T] [Zero T] {rank : LockData → ℕ}
    {threads : Finset T} {actions later : List (ShareAction T)} {s s' : ShareState T}
    (horder : Guarded.Along ShareState.step (ShareState.InOrder rank threads) .start actions)
    (hrun : Guarded.run ShareState.step .start actions = some s)
    (hdrains : Guarded.Along ShareState.step (ShareState.Drains rank threads) s later)
    (hlater : Guarded.run ShareState.step s later = some s') :
    later.length ≤ 31 * threads.card ∧
      ((∃ action next, s'.Drains rank threads action ∧ s'.step action = some next) ∨
        s'.Through ∧ ∀ data, s'.mutex data = RwLock.free ∧ s'.owner data = 0) := by
  have h := ShareState.ordered_run horder hrun
  have hkeeps : ∀ (s : ShareState T) action s', s.Ordered rank threads →
      s.Drains rank threads action → s.step action = some s' → s'.Ordered rank threads :=
    fun _ _ _ h hd hs => h.step hd.1 hs
  have h' := Guarded.invariant hkeeps h hdrains hlater
  constructor
  · have hwork := Guarded.length_add_rank_le hkeeps
      (fun _ _ _ h hd hs => h.work_lt hd hs) h hdrains hlater
    have htotal : ∑ t ∈ threads, s.work t ≤ threads.card * 31 :=
      (Finset.sum_le_sum fun t _ => s.work_le t).trans_eq (Finset.sum_const_nat fun _ _ => rfl)
    omega
  · by_cases hthrough : s'.Through
    · refine .inr ⟨hthrough, fun data => ⟨(h'.kept data).free fun t => (hthrough t).2 data, ?_⟩⟩
      by_contra howner
      have hsingle := (((h'.kept data).owner _ howner).mp rfl).1
      rw [(hthrough _).2 data] at hsingle
      cases hsingle
    · exact .inl (h'.exists_step hthrough)

/-- The case of a thread that has the cookies to itself, while another one waits for them: the
first one releases them, and the other one takes them. -/
theorem share_drains_cookies :
    let actions : List (ShareAction (Fin 3)) :=
      [.lock 1 .cookie .single, .lock 2 .cookie .shared, .proceed 1, .proceed 1]
    let later : List (ShareAction (Fin 3)) :=
      [.unlock 1 .cookie, .proceed 1, .proceed 1, .proceed 1, .proceed 2]
    ∃ s s', Guarded.run ShareState.step .start actions = some s ∧
      Guarded.run ShareState.step s later = some s' ∧ later.length ≤ 31 * 2 ∧
      ((∃ action next, s'.Drains (fun _ => 0) {1, 2} action ∧ s'.step action = some next) ∨
        s'.Through ∧ ∀ data, s'.mutex data = RwLock.free ∧ s'.owner data = 0) := by
  intro actions later
  have hdefined : ((Guarded.run ShareState.step .start actions).bind fun s =>
      (Guarded.run ShareState.step s later).map fun _ => decide (Guarded.Along ShareState.step
        (ShareState.Drains (fun _ => 0) {1, 2}) s later)) = some true := by
    decide +kernel
  have horder : Guarded.Along ShareState.step (ShareState.InOrder (fun _ => 0) {1, 2}) .start
      actions := by
    decide +kernel
  obtain ⟨s, hrun, hlater⟩ := Option.bind_eq_some_iff.mp hdefined
  obtain ⟨s', hlater, hdrains⟩ := Option.map_eq_some_iff.mp hlater
  exact ⟨s, s', hrun, hlater, share_drains horder hrun (of_decide_eq_true hdrains) hlater⟩

end DsiRest
