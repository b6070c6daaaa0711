import DsiRest.Lib.Guarded

/-!
# Simulations

A system may be a finer view of another one: `view s` is what the other system sees of a state, and
`labels s a` are the actions that it sees in an action, often none or one. `Simulates` says that
these actions lead from view to view, in the states of an invariant and under a guard.

The actions that the other system sees in a run (`translate`) lead from the view of its first state
to that of its last (`Simulates.run`), and they meet every guard that each action translates to
(`Simulates.along`). What holds of the runs of the other system thus holds of the views.
-/

namespace Guarded

variable {σ τ α β : Type*}

/-- The actions that another system sees in a run. -/
def translate (step : σ → α → Option σ) (labels : σ → α → List β) : σ → List α → List β
  | _, [] => []
  | s, a :: as => labels s a ++ (step s a).elim [] fun t => translate step labels t as

/-- Every step from a state of the invariant that meets the guard keeps the invariant, and is what
the other system does in the actions that it sees. -/
structure Simulates (step : σ → α → Option σ) (step' : τ → β → Option τ) (view : σ → τ)
    (labels : σ → α → List β) (I : σ → Prop) (P : σ → α → Prop) : Prop where
  inv : ∀ s a t, I s → P s a → step s a = some t → I t
  matched : ∀ s a t, I s → P s a → step s a = some t →
    run step' (view s) (labels s a) = some (view t)

variable {step : σ → α → Option σ} {step' : τ → β → Option τ} {view : σ → τ}
  {labels : σ → α → List β} {I : σ → Prop} {P : σ → α → Prop}

/-- The actions that are seen in a run with a known first step. -/
theorem translate_cons {s t : σ} {a : α} {as : List α} (h : step s a = some t) :
    translate step labels s (a :: as) = labels s a ++ translate step labels t as := by
  rw [translate, h, Option.elim_some]

/-- A run in two parts. -/
theorem run_append {s t : τ} {as bs : List β} (hfirst : run step' s as = some t) :
    run step' s (as ++ bs) = run step' t bs := by
  induction as generalizing s with
  | nil =>
      obtain rfl := Option.some.inj hfirst
      rfl
  | cons a as ih =>
      obtain ⟨r, hr, hfirst⟩ := run_cons.mp hfirst
      rw [List.cons_append, run, hr, Option.bind_some, ih hfirst]

/-- A run in two parts passes through a state between them. -/
theorem run_append_iff {s u : τ} {as bs : List β} :
    run step' s (as ++ bs) = some u ↔ ∃ t, run step' s as = some t ∧ run step' t bs = some u := by
  induction as generalizing s with
  | nil => exact ⟨fun h => ⟨s, rfl, h⟩, fun ⟨t, hfirst, h⟩ => Option.some.inj hfirst ▸ h⟩
  | cons a as ih =>
      rw [List.cons_append, run_cons]
      constructor
      · rintro ⟨r, hr, hrest⟩
        obtain ⟨t, hfirst, hlast⟩ := ih.mp hrest
        exact ⟨t, run_cons.mpr ⟨r, hr, hfirst⟩, hlast⟩
      · rintro ⟨t, hfirst, hlast⟩
        obtain ⟨r, hr, hrest⟩ := run_cons.mp hfirst
        exact ⟨r, hr, ih.mpr ⟨t, hrest, hlast⟩⟩

/-- The first part of a guarded run is guarded. -/
theorem Along.left {Q : τ → β → Prop} {s : τ} {as bs : List β}
    (h : Along step' Q s (as ++ bs)) : Along step' Q s as := by
  induction as generalizing s with
  | nil => trivial
  | cons a as ih => exact ⟨h.1, fun t ht => ih (h.2 t ht)⟩

/-- A guarded run in two parts. -/
theorem along_append {Q : τ → β → Prop} {s t : τ} {as bs : List β}
    (hrun : run step' s as = some t) (hfirst : Along step' Q s as) (hrest : Along step' Q t bs) :
    Along step' Q s (as ++ bs) := by
  induction as generalizing s with
  | nil =>
      obtain rfl := Option.some.inj hrun
      exact hrest
  | cons a as ih =>
      obtain ⟨r, hr, hrun⟩ := run_cons.mp hrun
      exact along_cons hfirst.1 hr (ih hrun (hfirst.2 r hr))

namespace Simulates

/-- **The simulation rule.** What is seen of a run leads from view to view. -/
theorem run (h : Simulates step step' view labels I P) {s t : σ} {as : List α} (hs : I s)
    (hal : Along step P s as) (hrun : run step s as = some t) :
    Guarded.run step' (view s) (translate step labels s as) = some (view t) := by
  induction as generalizing s with
  | nil =>
      obtain rfl := Option.some.inj hrun
      rfl
  | cons a as ih =>
      obtain ⟨r, hr, hrun⟩ := run_cons.mp hrun
      rw [translate_cons hr, run_append (h.matched s a r hs hal.1 hr)]
      exact ih (h.inv s a r hs hal.1 hr) (hal.2 r hr) hrun

/-- What is seen of a run meets the guards that its actions translate to. -/
theorem along (h : Simulates step step' view labels I P) {Q : τ → β → Prop}
    (hguard : ∀ s a t, I s → P s a → step s a = some t → Along step' Q (view s) (labels s a))
    {s t : σ} {as : List α} (hs : I s) (hal : Along step P s as)
    (hrun : Guarded.run step s as = some t) :
    Along step' Q (view s) (translate step labels s as) := by
  induction as generalizing s with
  | nil => trivial
  | cons a as ih =>
      obtain ⟨r, hr, hrun⟩ := run_cons.mp hrun
      rw [translate_cons hr]
      exact along_append (h.matched s a r hs hal.1 hr) (hguard s a r hs hal.1 hr)
        (ih (h.inv s a r hs hal.1 hr) (hal.2 r hr) hrun)

end Simulates

end Guarded
