import Mathlib.Data.List.Basic
import Mathlib.Data.List.Induction

/-!
# Watchdogs

A watchdog is shown a value from time to time. It remembers the value that it saw last and when
that value appeared, and raises an alarm when it appeared too long ago. Time is an input here; when
something that appeared at one time is overdue at another one is a parameter, `overdue`, and so is
the order of the clock.

On a clock that does not run backwards the alarm at a sight is raised exactly if the value was the
same at some earlier sight and ever since, and is overdue since that one (`alarms_iff`).
-/

namespace Watchdog

variable {T V : Type*}

/-- A value with the time at which it is seen; also what a watchdog remembers. -/
structure Sight (T V : Type*) where
  time : T
  value : V

variable [DecidableEq V]

/-- What a watchdog remembers after another sight. -/
def look (memory sight : Sight T V) : Sight T V :=
  if sight.value = memory.value then memory else sight

/-- What a watchdog remembers after some sights. -/
def watch (memory : Sight T V) (sights : List (Sight T V)) : Sight T V :=
  sights.foldl look memory

/-- There is an alarm at a sight. -/
def Alarms (overdue : T → T → Prop) (memory sight : Sight T V) : Prop :=
  overdue (look memory sight).time sight.time

/-- The value of a sight was seen before, is the same ever since, and overdue. -/
def Stalls (overdue : T → T → Prop) (earlier : List (Sight T V)) (sight : Sight T V) : Prop :=
  ∃ before first quiet, earlier = before ++ first :: quiet ∧
    (∀ s ∈ first :: quiet, s.value = sight.value) ∧ overdue first.time sight.time

theorem watch_append_singleton (memory : Sight T V) (sights : List (Sight T V))
    (sight : Sight T V) : watch memory (sights ++ [sight]) = look (watch memory sights) sight := by
  rw [watch, List.foldl_append]
  rfl

/-- What is remembered was seen. -/
theorem watch_mem (memory : Sight T V) (sights : List (Sight T V)) :
    watch memory sights ∈ memory :: sights := by
  induction sights generalizing memory with
  | nil => exact List.mem_cons_self
  | cons sight sights ih =>
      rcases List.mem_cons.mp (ih (look memory sight)) with h | h
      · have hlook : look memory sight = memory ∨ look memory sight = sight := ite_eq_or_eq ..
        rw [watch, List.foldl_cons]
        rcases hlook with hlook | hlook
        · exact List.mem_cons.mpr (.inl (h.trans hlook))
        · exact List.mem_cons_of_mem _ (List.mem_cons.mpr (.inl (h.trans hlook)))
      · exact List.mem_cons_of_mem _ (List.mem_cons_of_mem _ h)

/-- The value that is remembered is the one that was seen last. -/
theorem look_value (memory sight : Sight T V) : (look memory sight).value = sight.value := by
  rw [look]
  split_ifs with h
  · exact h.symm
  · rfl

/-- There is no alarm where the value is new. -/
theorem not_alarms_of_ne {overdue : T → T → Prop} (hnow : ∀ t, ¬ overdue t t)
    {memory sight : Sight T V} (hne : sight.value ≠ memory.value) :
    ¬ Alarms overdue memory sight := by
  rw [Alarms, look, if_neg hne]
  exact hnow _

/-- Where the value is not new, there is an alarm if what is remembered is overdue. -/
theorem alarms_of_eq {overdue : T → T → Prop} {memory sight : Sight T V}
    (heq : memory.value = sight.value) :
    Alarms overdue memory sight ↔ overdue memory.time sight.time := by
  rw [Alarms, look, if_pos heq.symm]

omit [DecidableEq V] in
/-- A value stalls from the latest sight, or from an earlier one. -/
theorem stalls_append_singleton {overdue : T → T → Prop} {earlier : List (Sight T V)}
    {latest sight : Sight T V} :
    Stalls overdue (earlier ++ [latest]) sight ↔ latest.value = sight.value ∧
      (overdue latest.time sight.time ∨ Stalls overdue earlier sight) := by
  constructor
  · rintro ⟨before, first, quiet, heq, hquiet, hoverdue⟩
    rcases List.eq_nil_or_concat' quiet with rfl | ⟨quiet, last, rfl⟩
    · obtain ⟨-, hlatest⟩ := List.append_inj' heq rfl
      obtain rfl := List.singleton_inj.mp hlatest
      exact ⟨hquiet _ List.mem_cons_self, .inl hoverdue⟩
    · rw [← List.cons_append, ← List.append_assoc] at heq
      obtain ⟨hearlier, hlatest⟩ := List.append_inj' heq rfl
      obtain rfl := List.singleton_inj.mp hlatest
      rw [← List.cons_append] at hquiet
      exact ⟨hquiet _ (List.mem_append_right _ List.mem_cons_self), .inr ⟨before, first, quiet,
        hearlier, fun s hs => hquiet s (List.mem_append_left _ hs), hoverdue⟩⟩
  · rintro ⟨hvalue, hoverdue | ⟨before, first, quiet, rfl, hquiet, hoverdue⟩⟩
    · exact ⟨earlier, latest, [], rfl, by simpa using hvalue, hoverdue⟩
    · refine ⟨before, first, quiet ++ [latest], by rw [List.append_assoc, List.cons_append], ?_,
        hoverdue⟩
      rw [← List.cons_append]
      intro s hs
      rcases List.mem_append.mp hs with hs | hs
      · exact hquiet s hs
      · rw [List.mem_singleton.mp hs]
        exact hvalue

/-- **The alarm rule.** On a clock that does not run backwards there is an alarm at a sight exactly
if the value stalls there. -/
theorem alarms_iff {before overdue : T → T → Prop} (hnow : ∀ t, ¬ overdue t t)
    (hbefore : ∀ s s' t, before s s' → overdue s' t → overdue s t) {memory : Sight T V}
    {sights : List (Sight T V)}
    (hclock : (memory :: sights).Pairwise fun s s' => before s.time s'.time) (sight : Sight T V) :
    Alarms overdue (watch memory sights) sight ↔ Stalls overdue (memory :: sights) sight := by
  induction sights using List.reverseRecOn with
  | nil =>
      have hnone : ¬ Stalls overdue [] sight := by
        rintro ⟨before, first, quiet, heq, -⟩
        exact absurd heq (by simp)
      rw [← List.nil_append [memory], stalls_append_singleton, or_iff_left hnone]
      by_cases hsame : memory.value = sight.value
      · exact (alarms_of_eq hsame).trans (iff_of_eq (by simp [hsame]))
      · exact iff_of_false (not_alarms_of_ne hnow (Ne.symm hsame)) fun h => hsame h.1
  | append_singleton sights latest ih =>
      rw [← List.cons_append] at hclock ⊢
      obtain ⟨hearlier, -, hlatest⟩ := List.pairwise_append.mp hclock
      have ih := ih hearlier
      rw [stalls_append_singleton, watch_append_singleton, ← ih]
      by_cases hsame : latest.value = sight.value
      · have hlook := look_value (watch memory sights) latest
        rw [alarms_of_eq (hlook.trans hsame), and_iff_right hsame]
        by_cases hnew : latest.value = (watch memory sights).value
        · -- the value was there before, and is overdue since then
          rw [look, if_pos hnew, alarms_of_eq (hnew.symm.trans hsame), or_iff_right_of_imp]
          exact hbefore _ _ _ (hlatest _ (watch_mem memory sights) _ List.mem_cons_self)
        · rw [look, if_neg hnew, or_iff_left]
          exact not_alarms_of_ne hnow fun h => hnew (hsame.trans h)
      · refine iff_of_false (not_alarms_of_ne hnow ?_) fun h => hsame h.1
        rw [look_value]
        exact fun h => hsame h.symm

end Watchdog
