import Mathlib.Logic.Relation

/-!
# Iteration

A deterministic system: `next s` is the state after `s`, or `none` where the system stops.
`Reaches next s t` says that iterating leads from `s` to `t`, and `Always next Q s` that `Q`
holds in every state that is reached. An invariant of `next` holds in every state that is
reached (`Reaches.invariant`), and `Always` unfolds by one iteration (`always_iff`).
-/

namespace Iteration

variable {σ : Type*}

/-- Iterating leads from one state to the other. -/
def Reaches (next : σ → Option σ) : σ → σ → Prop :=
  Relation.ReflTransGen fun s t => next s = some t

/-- Every state that is reached meets `Q`. -/
def Always (next : σ → Option σ) (Q : σ → Prop) (s : σ) : Prop :=
  ∀ t, Reaches next s t → Q t

variable {next : σ → Option σ} {Q I : σ → Prop} {s t : σ}

/-- A state reaches itself. -/
theorem Reaches.refl (s : σ) : Reaches next s s := Relation.ReflTransGen.refl

/-- One iteration. -/
theorem Reaches.single (h : next s = some t) : Reaches next s t :=
  Relation.ReflTransGen.single h

/-- What one iteration preserves holds of every state that is reached. -/
theorem Reaches.invariant (hstep : ∀ s t, I s → next s = some t → I t)
    (hreach : Reaches next s t) (hs : I s) : I t := by
  induction hreach with
  | refl => exact hs
  | tail _ hnext ih => exact hstep _ _ ih hnext

/-- This state and those that follow it. -/
theorem always_iff :
    Always next Q s ↔ Q s ∧ ∀ t, next s = some t → Always next Q t := by
  constructor
  · intro hall
    exact ⟨hall s Relation.ReflTransGen.refl,
      fun t hnext u hreach => hall u (Relation.ReflTransGen.head hnext hreach)⟩
  · rintro ⟨hfirst, hrest⟩ u hreach
    rcases Relation.ReflTransGen.cases_head hreach with rfl | ⟨t, hnext, hreach⟩
    · exact hfirst
    · exact hrest t hnext u hreach

/-- A state that is followed by another one. -/
theorem always_of_next (h : next s = some t) : Always next Q s ↔ Q s ∧ Always next Q t := by
  rw [always_iff, h]
  simp

/-- A state in which the system stops. -/
theorem always_of_stop (h : next s = none) : Always next Q s ↔ Q s := by
  rw [always_iff, h]
  simp

end Iteration
