import Mathlib.Data.List.Basic

/-!
# Stages and their Unwinding

A routine goes through stages, each of which may acquire a resource. Where a stage fails, it
jumps to the label of that stage and releases what is listed there. `replay` does acquisitions
and releases on the resources that are held, and is undefined where something is released that
is not held.

If every label lists what was acquired before its stage, last first, but for what is left out
in front (`Unwinds`), a run that fails leaves exactly that behind (`replay_stages`).
-/

namespace Unwind

variable {σ ρ : Type*}

/-- A resource is acquired or released. -/
inductive Event (ρ : Type*)
  | acquire (r : ρ)
  | release (r : ρ)

/-- The resources that are held after some events. -/
def replay [DecidableEq ρ] : List ρ → List (Event ρ) → Option (List ρ)
  | held, [] => some held
  | held, .acquire r :: events => replay (r :: held) events
  | held, .release r :: events => if r ∈ held then replay (held.erase r) events else none

/-- The stages in turn, where `fails` says at which one the routine stops: the failing stage, if
there is one, and the events. -/
def stages (acquires : σ → Option ρ) (label : σ → List ρ) (fails : σ → Bool) :
    List σ → Option σ × List (Event ρ)
  | [] => (none, [])
  | s :: later =>
    if fails s then (some s, (label s).map .release)
    else
      let (failing, events) := stages acquires label fails later
      (failing, (acquires s).toList.map .acquire ++ events)

/-- The label of each stage lists what was acquired before it, but for `left`; `before` was
acquired by earlier stages. -/
def Unwinds (acquires : σ → Option ρ) (label : σ → List ρ) (left : σ → List ρ) :
    List ρ → List σ → Prop
  | _, [] => True
  | before, s :: later =>
    before = label s ++ left s ∧
      Unwinds acquires label left ((acquires s).toList ++ before) later

/-- The failing stage is one of the stages, and fails. -/
theorem fails_of_stages {acquires : σ → Option ρ} {label : σ → List ρ} {fails : σ → Bool}
    {steps : List σ} {s : σ} (h : (stages acquires label fails steps).1 = some s) :
    s ∈ steps ∧ fails s = true := by
  induction steps with
  | nil => cases h
  | cons first later ih =>
      rw [stages] at h
      split_ifs at h with hfails
      · obtain rfl := Option.some.inj h
        exact ⟨List.mem_cons_self, hfails⟩
      · obtain ⟨hs, hfails⟩ := ih h
        exact ⟨List.mem_cons_of_mem _ hs, hfails⟩

variable [DecidableEq ρ]

/-- What is on top is released. -/
theorem replay_release (rs held : List ρ) :
    replay (rs ++ held) (rs.map .release) = some held := by
  induction rs with
  | nil => rfl
  | cons r rs ih =>
      rw [List.map_cons, List.cons_append, replay, if_pos List.mem_cons_self,
        List.erase_cons_head]
      exact ih

/-- **The unwinding rule.** A run over all stages leaves everything held that a stage acquires;
one that fails leaves what the label of the failing stage left out. -/
theorem replay_stages {acquires : σ → Option ρ} {label left : σ → List ρ} {fails : σ → Bool}
    {before : List ρ} {steps : List σ} (h : Unwinds acquires label left before steps)
    (held : List ρ) :
    replay (before ++ held) (stages acquires label fails steps).2
      = some (((stages acquires label fails steps).1.elim
          ((steps.filterMap acquires).reverse ++ before) left) ++ held) := by
  induction steps generalizing before with
  | nil => rfl
  | cons s later ih =>
      obtain ⟨hbefore, hlater⟩ := h
      rw [stages]
      split_ifs with hfails
      · rw [hbefore, List.append_assoc]
        exact replay_release (label s) (left s ++ held)
      · have hrest := ih hlater
        cases hs : acquires s with
        | none =>
            rw [hs] at hrest
            rw [List.filterMap_cons_none hs]
            exact hrest
        | some r =>
            rw [hs] at hrest
            rw [List.filterMap_cons_some hs, List.reverse_cons, List.append_assoc]
            exact hrest

end Unwind
