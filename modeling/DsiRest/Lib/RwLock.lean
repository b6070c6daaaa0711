import Mathlib.Logic.Function.Basic
import Mathlib.Tactic.SplitIfs

/-!
# Read-Write Locks

A lock that any number of threads can hold for shared access, or one thread for single access.
`RwLock` carries the fact that these exclude each other, so that a lock held in both ways cannot
be built. A thread that takes the lock waits, and one that releases it must hold it: the four
operations are `none` where they cannot happen.

`HeldBy l taken` says that the threads hold the lock as `taken` says. Each operation changes
`taken` for the thread that takes it, and nobody else's.
-/

/-- A lock with the threads that hold it. -/
structure RwLock (τ : Type*) where
  readers : List τ
  writer : Option τ
  excludes : writer = none ∨ readers = []

namespace RwLock

/-- The two ways to hold a lock. -/
inductive Access
  | shared
  | single
  deriving DecidableEq, Repr

variable {τ : Type*}

/-- A lock that nobody holds. -/
def free : RwLock τ :=
  ⟨[], none, Or.inl rfl⟩

variable [DecidableEq τ]

/-- Take the lock for shared access. -/
def readLock (l : RwLock τ) (t : τ) : Option (RwLock τ) :=
  if h : l.writer = none then some ⟨t :: l.readers, l.writer, Or.inl h⟩ else none

/-- Take the lock for single access. -/
def writeLock (l : RwLock τ) (t : τ) : Option (RwLock τ) :=
  if l.writer = none ∧ l.readers = [] then some ⟨[], some t, Or.inr rfl⟩ else none

/-- Release the lock from shared access. -/
def readUnlock (l : RwLock τ) (t : τ) : Option (RwLock τ) :=
  if t ∈ l.readers then
    some ⟨l.readers.erase t, l.writer, l.excludes.imp_right fun h => by rw [h, List.erase_nil]⟩
  else none

/-- Release the lock from single access. -/
def writeUnlock (l : RwLock τ) (t : τ) : Option (RwLock τ) :=
  if l.writer = some t then some ⟨l.readers, none, Or.inl rfl⟩ else none

/-- The threads hold the lock as `taken` says, each of them once. -/
structure HeldBy (l : RwLock τ) (taken : τ → Option Access) : Prop where
  shared : ∀ t, l.readers.count t = if taken t = some .shared then 1 else 0
  single : ∀ t, l.writer = some t ↔ taken t = some .single

namespace HeldBy

variable {l l' : RwLock τ} {taken : τ → Option Access} {t u : τ}

/-- Nobody holds a free lock. -/
theorem free : HeldBy (RwLock.free : RwLock τ) fun _ => none :=
  ⟨fun _ => rfl, fun _ => iff_of_false (Option.some_ne_none _).symm (Option.some_ne_none _).symm⟩

/-- A thread with shared access is one of the readers. -/
theorem mem_readers (h : l.HeldBy taken) : t ∈ l.readers ↔ taken t = some .shared := by
  rw [← List.one_le_count_iff, h.shared]
  split <;> simp_all

/-- **Single access excludes all other access.** -/
theorem eq_of_single (h : l.HeldBy taken) (ht : taken t = some .single) (hu : taken u ≠ none) :
    u = t := by
  have hwriter := (h.single t).mpr ht
  obtain ⟨access, haccess⟩ := Option.ne_none_iff_exists'.mp hu
  cases access with
  | shared =>
      have hreader := h.mem_readers.mpr haccess
      rcases l.excludes with hnone | hempty
      · rw [hnone] at hwriter
        cases hwriter
      · rw [hempty] at hreader
        cases hreader
  | single => exact Option.some.inj (((h.single u).mpr haccess).symm.trans hwriter)

/-- Shared access is taken. -/
theorem readLock (h : l.HeldBy taken) (hnone : taken t = none) (hlock : l.readLock t = some l') :
    l'.HeldBy (Function.update taken t (some .shared)) := by
  rw [RwLock.readLock] at hlock
  split_ifs at hlock
  obtain rfl := Option.some.inj hlock
  refine ⟨fun u => ?_, fun u => ?_⟩
  · by_cases hu : u = t
    · subst hu
      rw [Function.update_self, if_pos rfl, List.count_cons_self, h.shared, hnone, if_neg (by simp)]
    · rw [Function.update_of_ne hu, List.count_cons_of_ne (Ne.symm hu), h.shared]
  · by_cases hu : u = t
    · subst hu
      rw [Function.update_self]
      refine iff_of_false (fun hwriter => ?_) (by simp)
      rw [h.single, hnone] at hwriter
      cases hwriter
    · rw [Function.update_of_ne hu, h.single]

/-- Single access is taken. -/
theorem writeLock (h : l.HeldBy taken) (hlock : l.writeLock t = some l') :
    l'.HeldBy (Function.update taken t (some .single)) := by
  rw [RwLock.writeLock] at hlock
  split_ifs at hlock with hidle
  obtain rfl := Option.some.inj hlock
  have hother : ∀ u, taken u = none := by
    intro u
    have hshared := h.shared u
    have hsingle := h.single u
    rw [hidle.2, List.count_nil] at hshared
    rw [hidle.1] at hsingle
    rcases hu : taken u with _ | access
    · rfl
    · cases access <;> simp_all
  refine ⟨fun u => ?_, fun u => ?_⟩
  · by_cases hu : u = t
    · subst hu
      rw [Function.update_self, if_neg (by simp), List.count_nil]
    · rw [Function.update_of_ne hu, hother, if_neg (by simp), List.count_nil]
  · by_cases hu : u = t
    · subst hu
      rw [Function.update_self]
      exact iff_of_true rfl rfl
    · rw [Function.update_of_ne hu, hother]
      exact iff_of_false (fun hsame => hu (Option.some.inj hsame).symm) (by simp)

/-- Shared access is released by a thread that has it. -/
theorem readUnlock (h : l.HeldBy taken) (ht : taken t = some .shared) :
    ∃ l', l.readUnlock t = some l' ∧ l'.HeldBy (Function.update taken t none) := by
  have hmem := h.mem_readers.mpr ht
  rw [RwLock.readUnlock, if_pos hmem]
  refine ⟨_, rfl, fun u => ?_, fun u => ?_⟩
  · by_cases hu : u = t
    · subst hu
      rw [Function.update_self, if_neg (by simp), List.count_erase_self, h.shared, if_pos ht]
    · rw [Function.update_of_ne hu, List.count_erase_of_ne hu, h.shared]
  · by_cases hu : u = t
    · subst hu
      rw [Function.update_self, h.single, ht]
      exact iff_of_false (by simp) (by simp)
    · rw [Function.update_of_ne hu, h.single]

/-- Single access is released by the thread that has it. -/
theorem writeUnlock (h : l.HeldBy taken) (ht : taken t = some .single) :
    ∃ l', l.writeUnlock t = some l' ∧ l'.HeldBy (Function.update taken t none) := by
  rw [RwLock.writeUnlock, if_pos ((h.single t).mpr ht)]
  refine ⟨_, rfl, fun u => ?_, fun u => ?_⟩
  · by_cases hu : u = t
    · subst hu
      rw [Function.update_self, h.shared, ht]
      rfl
    · rw [Function.update_of_ne hu, h.shared]
  · by_cases hu : u = t
    · subst hu
      rw [Function.update_self]
      exact iff_of_false (by simp) (by simp)
    · rw [Function.update_of_ne hu]
      exact iff_of_false (by simp) fun hsingle =>
        hu (h.eq_of_single ht (by rw [hsingle]; simp))

end HeldBy

end RwLock
