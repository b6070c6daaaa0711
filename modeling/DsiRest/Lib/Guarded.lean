import Mathlib.Data.List.Basic
import Mathlib.Data.Nat.ModEq

/-!
# Guarded Runs

A system takes one action at a time: `step s a` is the state after action `a`, or `none`
where `a` cannot happen. `run` takes a list of actions, and `Along step P s as` says that
every action of `as` meets `P` in the state in which it is taken, which is how the
assumptions about an environment enter.

An invariant of the guarded steps holds in the last state of a guarded run (`invariant`).
`total step weight s as` is what the actions of a run weigh together; a rank that grows by the
weight of each step has grown by that in the end (`rank_eq_total`), and a counter that wraps
around has up to its modulus (`modEq_total`). Where each step pays its weight from a rank and from
what it earns, so does a run (`total_add_rank_le`).

A register that some steps overwrite with a copy and the others leave alone holds the copy made
last (`register`). A call that is pending is ended at most once before the next one is made
(`returns_once`).

`Throughout step Q s as` says that `Q` holds in every state that the run reaches; where each
step establishes `Q` exactly if it meets `P`, this is `Along step P s as` (`throughout_iff`).
-/

namespace Guarded

variable {σ α : Type*}

/-- Take the actions one after the other. -/
def run (step : σ → α → Option σ) : σ → List α → Option σ
  | s, [] => some s
  | s, a :: as => (step s a).bind fun t => run step t as

/-- Every action of a run meets `P` in the state in which it is taken. -/
def Along (step : σ → α → Option σ) (P : σ → α → Prop) : σ → List α → Prop
  | _, [] => True
  | s, a :: as => P s a ∧ ∀ t, step s a = some t → Along step P t as

/-- Every state that a run reaches meets `Q`. -/
def Throughout (step : σ → α → Option σ) (Q : σ → Prop) : σ → List α → Prop
  | s, [] => Q s
  | s, a :: as => Q s ∧ ∀ t, step s a = some t → Throughout step Q t as

/-- What the actions of a run weigh together, each in the state in which it is taken. -/
def total (step : σ → α → Option σ) (weight : σ → α → ℕ) : σ → List α → ℕ
  | _, [] => 0
  | s, a :: as => weight s a + (step s a).elim 0 fun t => total step weight t as

variable {step : σ → α → Option σ} {P Q : σ → α → Prop} {I : σ → Prop}

@[simp] theorem run_nil (s : σ) : run step s [] = some s := rfl

/-- A run with a first action takes it and goes on. -/
theorem run_cons {s u : σ} {a : α} {as : List α} :
    run step s (a :: as) = some u ↔ ∃ t, step s a = some t ∧ run step t as = some u := by
  rw [run, Option.bind_eq_some_iff]

/-- A run of one action. -/
theorem run_singleton {s t : σ} {a : α} (h : step s a = some t) : run step s [a] = some t :=
  run_cons.mpr ⟨t, h, rfl⟩

@[simp] theorem along_nil (s : σ) : Along step P s [] := trivial

/-- The first action of a guarded run, where it leads to a known state. -/
theorem along_cons {s t : σ} {a : α} {as : List α} (hP : P s a) (hstep : step s a = some t)
    (hal : Along step P t as) : Along step P s (a :: as) := by
  refine ⟨hP, fun t' ht' => ?_⟩
  obtain rfl := Option.some.inj (hstep.symm.trans ht')
  exact hal

/-- Whether the actions of a run meet a guard can be computed. -/
instance Along.decidable [∀ s a, Decidable (P s a)] :
    ∀ (as : List α) (s : σ), Decidable (Along step P s as)
  | [], _ => isTrue trivial
  | a :: as, s =>
    match h : step s a with
    | none => decidable_of_iff (P s a)
        ⟨fun hP => ⟨hP, fun _ ht => absurd (h.symm.trans ht) (by simp)⟩, And.left⟩
    | some t =>
      have := Along.decidable as t
      decidable_of_iff (P s a ∧ Along step P t as)
        ⟨fun hal => along_cons hal.1 h hal.2, fun hal => ⟨hal.1, hal.2 t h⟩⟩

/-- A guard that every action meets. -/
theorem Along.of_forall (h : ∀ s a, P s a) (s : σ) (as : List α) : Along step P s as := by
  induction as generalizing s with
  | nil => trivial
  | cons a as ih => exact ⟨h s a, fun t _ => ih t⟩

/-- A guard that the actions of a run meet in any state. -/
theorem Along.of_forall_mem {as : List α} (h : ∀ a ∈ as, ∀ s, P s a) (s : σ) :
    Along step P s as := by
  induction as generalizing s with
  | nil => trivial
  | cons a as ih =>
      obtain ⟨ha, has⟩ := List.forall_mem_cons.mp h
      exact ⟨ha s, fun t _ => ih has t⟩

/-- A guard gives way to a weaker one. -/
theorem Along.mono (h : ∀ s a, P s a → Q s a) {s : σ} {as : List α} (hP : Along step P s as) :
    Along step Q s as := by
  induction as generalizing s with
  | nil => trivial
  | cons a as ih => exact ⟨h s a hP.1, fun t ht => ih (hP.2 t ht)⟩

/-- Two guards together. -/
theorem Along.and {s : σ} {as : List α} (hP : Along step P s as) (hQ : Along step Q s as) :
    Along step (fun s a => P s a ∧ Q s a) s as := by
  induction as generalizing s with
  | nil => trivial
  | cons a as ih => exact ⟨⟨hP.1, hQ.1⟩, fun t ht => ih (hP.2 t ht) (hQ.2 t ht)⟩

/-- A guard gives way to another one that follows from it in the states of an invariant. -/
theorem Along.imp {G : σ → α → Prop} (hI : ∀ s a t, I s → G s a → step s a = some t → I t)
    (himp : ∀ s a t, I s → G s a → step s a = some t → P s a → Q s a) {s t : σ} {as : List α}
    (hs : I s) (hG : Along step G s as) (hrun : run step s as = some t)
    (hP : Along step P s as) : Along step Q s as := by
  induction as generalizing s with
  | nil => trivial
  | cons a as ih =>
      obtain ⟨r, hr, hrun⟩ := run_cons.mp hrun
      exact along_cons (himp s a r hs hG.1 hr hP.1) hr
        (ih (hI s a r hs hG.1 hr) (hG.2 r hr) hrun (hP.2 r hr))

/-- Any action of a guarded run meets the guard. -/
theorem Along.at {s t : σ} {a : α} {before after : List α}
    (hP : Along step P s (before ++ a :: after)) (hrun : run step s before = some t) : P t a := by
  induction before generalizing s with
  | nil =>
      obtain rfl := Option.some.inj hrun
      exact hP.1
  | cons b before ih =>
      obtain ⟨r, hr, hrun⟩ := run_cons.mp hrun
      exact ih (hP.2 r hr) hrun

/-- The last action of a guarded run meets the guard. -/
theorem Along.last {s t : σ} {a : α} {as : List α} (hP : Along step P s (as ++ [a]))
    (hrun : run step s as = some t) : P t a := by
  induction as generalizing s with
  | nil =>
      obtain rfl := Option.some.inj hrun
      exact hP.1
  | cons b as ih =>
      obtain ⟨r, hr, hrun⟩ := run_cons.mp hrun
      exact ih (hP.2 r hr) hrun

/-- **The invariant rule.** What the guarded steps preserve holds at the end of a guarded
run. -/
theorem invariant (hstep : ∀ s a t, I s → P s a → step s a = some t → I t) {s t : σ}
    {as : List α} (hs : I s) (hal : Along step P s as) (hrun : run step s as = some t) :
    I t := by
  induction as generalizing s with
  | nil =>
      obtain rfl := Option.some.inj hrun
      exact hs
  | cons a as ih =>
      obtain ⟨r, hr, hrun⟩ := run_cons.mp hrun
      exact ih (hstep s a r hs hal.1 hr) (hal.2 r hr) hrun

/-- **The rank rule.** If no step raises the rank and a counted step lowers it, a run takes
at most as many counted steps as the rank went down. -/
theorem countP_add_rank_le {counted : α → Bool} {rank : σ → ℕ}
    (hcounted : ∀ s a t, step s a = some t → counted a = true → rank t < rank s)
    (hother : ∀ s a t, step s a = some t → counted a = false → rank t ≤ rank s) {s t : σ}
    {as : List α} (hrun : run step s as = some t) : as.countP counted + rank t ≤ rank s := by
  induction as generalizing s with
  | nil =>
      obtain rfl := Option.some.inj hrun
      exact Nat.le_of_eq (Nat.zero_add _)
  | cons a as ih =>
      obtain ⟨r, hr, hrun⟩ := run_cons.mp hrun
      have hrest := ih hrun
      cases ha : counted a with
      | true =>
          have hlower := hcounted s a r hr ha
          rw [List.countP_cons_of_pos ha]
          omega
      | false =>
          have hkeep := hother s a r hr ha
          rw [List.countP_cons_of_neg (by rw [ha]; exact Bool.false_ne_true)]
          omega

/-- **The descent rule.** If every guarded step from a state of the invariant lowers the rank, a
guarded run takes at most as many steps as the rank went down. -/
theorem length_add_rank_le {rank : σ → ℕ} (hI : ∀ s a t, I s → P s a → step s a = some t → I t)
    (hlower : ∀ s a t, I s → P s a → step s a = some t → rank t < rank s) {s t : σ} {as : List α}
    (hs : I s) (hal : Along step P s as) (hrun : run step s as = some t) :
    as.length + rank t ≤ rank s := by
  induction as generalizing s with
  | nil =>
      obtain rfl := Option.some.inj hrun
      exact Nat.le_of_eq (Nat.zero_add _)
  | cons a as ih =>
      obtain ⟨r, hr, hrun⟩ := run_cons.mp hrun
      have hrest := ih (hI s a r hs hal.1 hr) (hal.2 r hr) hrun
      have hfirst := hlower s a r hs hal.1 hr
      rw [List.length_cons]
      omega

/-- **The budget rule.** If every guarded step from a state of the invariant pays the weight of its
action from what the rank goes down and what it earns, a guarded run pays for all of its actions in
this way. -/
theorem total_add_rank_le {rank earned : σ → ℕ} {weight : σ → α → ℕ}
    (hI : ∀ s a t, I s → P s a → step s a = some t → I t)
    (hpays : ∀ s a t, I s → P s a → step s a = some t →
      weight s a + rank t + earned s ≤ rank s + earned t) {s t : σ} {as : List α} (hs : I s)
    (hal : Along step P s as) (hrun : run step s as = some t) :
    total step weight s as + rank t + earned s ≤ rank s + earned t := by
  induction as generalizing s with
  | nil =>
      obtain rfl := Option.some.inj hrun
      rw [total, Nat.zero_add]
  | cons a as ih =>
      obtain ⟨r, hr, hrun⟩ := run_cons.mp hrun
      have hrest := ih (hI s a r hs hal.1 hr) (hal.2 r hr) hrun
      have hfirst := hpays s a r hs hal.1 hr
      rw [total, hr, Option.elim_some]
      omega

/-- **The ledger rule.** If every step from a state of the invariant raises the rank by the
weight of its action, a run raises it by what its actions weigh together. -/
theorem rank_eq_total {rank : σ → ℕ} {weight : σ → α → ℕ}
    (hI : ∀ s a t, I s → step s a = some t → I t)
    (hrank : ∀ s a t, I s → step s a = some t → rank t = rank s + weight s a) {s t : σ}
    {as : List α} (hs : I s) (hrun : run step s as = some t) :
    rank t = rank s + total step weight s as := by
  induction as generalizing s with
  | nil =>
      obtain rfl := Option.some.inj hrun
      rfl
  | cons a as ih =>
      obtain ⟨r, hr, hrun⟩ := run_cons.mp hrun
      rw [ih (hI s a r hs hr) hrun, hrank s a r hs hr, total, hr, Option.elim_some, Nat.add_assoc]

/-- The total of a run in two parts. -/
theorem total_append {weight : σ → α → ℕ} {s t : σ} {before after : List α}
    (hrun : run step s before = some t) :
    total step weight s (before ++ after)
      = total step weight s before + total step weight t after := by
  induction before generalizing s with
  | nil =>
      obtain rfl := Option.some.inj hrun
      exact (Nat.zero_add _).symm
  | cons a before ih =>
      obtain ⟨r, hr, hrun⟩ := run_cons.mp hrun
      rw [List.cons_append, total, total, hr, Option.elim_some, Option.elim_some, ih hrun,
        Nat.add_assoc]

/-- **The counter rule.** If every step from a state of the invariant counts the weight of its
action, up to a modulus, a run counts what its actions weigh together. -/
theorem modEq_total {count : σ → ℕ} {weight : σ → α → ℕ} {m : ℕ}
    (hI : ∀ s a t, I s → step s a = some t → I t)
    (hcount : ∀ s a t, I s → step s a = some t → count t ≡ count s + weight s a [MOD m]) {s t : σ}
    {as : List α} (hs : I s) (hrun : run step s as = some t) :
    count t ≡ count s + total step weight s as [MOD m] := by
  induction as generalizing s with
  | nil =>
      obtain rfl := Option.some.inj hrun
      rfl
  | cons a as ih =>
      obtain ⟨r, hr, hrun⟩ := run_cons.mp hrun
      rw [total, hr, Option.elim_some, ← Nat.add_assoc]
      exact (ih (hI s a r hs hr) hrun).trans ((hcount s a r hs hr).add_right _)

/-- **The register rule.** A register that some actions overwrite with a copy and the others
leave alone holds its first value if there was no such action, and what the last of them
copied if there was one. -/
theorem register {β : Type*} {reg copied : σ → β} {U : σ → α → Prop}
    (hI : ∀ s a t, I s → step s a = some t → I t)
    (hcopy : ∀ s a t, I s → step s a = some t → U s a → reg t = copied s)
    (hkeep : ∀ s a t, I s → step s a = some t → ¬ U s a → reg t = reg s) {s u : σ}
    {as : List α} (hs : I s) (hrun : run step s as = some u) :
    (Along step (fun s a => ¬ U s a) s as ∧ reg u = reg s) ∨
    ∃ before a after t, as = before ++ a :: after ∧ run step s before = some t ∧ U t a ∧
      reg u = copied t ∧
      ∀ before' a' after' t', as = before' ++ a' :: after' → run step s before' = some t' →
        U t' a' → before' <+: before := by
  induction as generalizing s with
  | nil =>
      obtain rfl := Option.some.inj hrun
      exact Or.inl ⟨trivial, rfl⟩
  | cons a as ih =>
      obtain ⟨r, hr, hrun⟩ := run_cons.mp hrun
      rcases ih (hI s a r hs hr) hrun with ⟨hnone, hreg⟩ | ⟨before, b, after, t, rfl, ht, hU, hreg,
        hlast⟩
      · by_cases hU : U s a
        · refine Or.inr ⟨[], a, as, s, rfl, rfl, hU, hreg.trans (hcopy s a r hs hr hU), ?_⟩
          intro before' a' after' t' hsplit ht' hU'
          cases before' with
          | nil => exact List.prefix_rfl
          | cons c before' =>
              obtain ⟨rfl, rfl⟩ := List.cons.inj hsplit
              obtain ⟨r', hr', ht'⟩ := run_cons.mp ht'
              obtain rfl := Option.some.inj (hr.symm.trans hr')
              exact absurd hU' (hnone.at ht')
        · exact Or.inl ⟨along_cons hU hr hnone, hreg.trans (hkeep s a r hs hr hU)⟩
      · refine Or.inr ⟨a :: before, b, after, t, rfl, run_cons.mpr ⟨r, hr, ht⟩, hU, hreg, ?_⟩
        intro before' a' after' t' hsplit ht' hU'
        cases before' with
        | nil => exact List.nil_prefix
        | cons c before' =>
            obtain ⟨rfl, htail⟩ := List.cons.inj hsplit
            obtain ⟨r', hr', ht'⟩ := run_cons.mp ht'
            obtain rfl := Option.some.inj (hr.symm.trans hr')
            exact List.prefix_cons_inj a |>.mpr (hlast before' a' after' t' htail ht' hU')

/-- **The return rule.** Where an action either leaves a pending call and the record of calls alone,
or ends the pending call and records it, a run without new calls does one or the other too. -/
theorem returns_once {κ ρ : Type*} {pending : σ → Option κ} {record : σ → List ρ}
    {R : κ → ρ → Prop} (hI : ∀ s a t, I s → P s a → step s a = some t → I t)
    (hstep : ∀ s a t, I s → P s a → step s a = some t →
      (pending t = pending s ∧ record t = record s) ∨
      ∃ k c, pending s = some k ∧ pending t = none ∧ record t = record s ++ [c] ∧ R k c)
    {s t : σ} {as : List α} (hs : I s) (hal : Along step P s as) (hrun : run step s as = some t) :
    (pending t = pending s ∧ record t = record s) ∨
      ∃ k c, pending s = some k ∧ pending t = none ∧ record t = record s ++ [c] ∧ R k c := by
  induction as generalizing s with
  | nil =>
      obtain rfl := Option.some.inj hrun
      exact Or.inl ⟨rfl, rfl⟩
  | cons a as ih =>
      obtain ⟨r, hr, hrun⟩ := run_cons.mp hrun
      have hrest := ih (hI s a r hs hal.1 hr) (hal.2 r hr) hrun
      rcases hstep s a r hs hal.1 hr with ⟨hp, hc⟩ | ⟨k, c, hk, hp, hc, hR⟩
      · rw [← hp, ← hc]
        exact hrest
      · rcases hrest with ⟨hp', hc'⟩ | ⟨k', c', hk', -⟩
        · exact Or.inr ⟨k, c, hk, hp'.trans hp, hc'.trans hc, hR⟩
        · rw [hp] at hk'
          cases hk'

/-- What holds throughout a run holds where it starts. -/
theorem Throughout.first {s : σ} {as : List α} (h : Throughout step I s as) : I s := by
  cases as with
  | nil => exact h
  | cons a as => exact h.1

/-- **The invariant rule for every state.** What the guarded steps preserve, and what follows
from it, holds throughout a guarded run. -/
theorem Along.throughout {J : σ → Prop} (hI : ∀ s a t, I s → P s a → step s a = some t → I t)
    (hJ : ∀ s, I s → J s) {s : σ} {as : List α} (hs : I s) (hP : Along step P s as) :
    Throughout step J s as := by
  induction as generalizing s with
  | nil => exact hJ s hs
  | cons a as ih => exact ⟨hJ s hs, fun t ht => ih (hI s a t hs hP.1 ht) (hP.2 t ht)⟩

/-- **The exactness rule.** If every step from a state of the invariant `I` that meets `J`
leads to a state of `J` exactly if it meets `P`, then `J` holds throughout a run exactly if
every step meets `P`. -/
theorem throughout_iff {G : σ → α → Prop} {J : σ → Prop}
    (hI : ∀ s a t, I s → G s a → step s a = some t → J t → I t)
    (hJ : ∀ s a t, I s → J s → G s a → step s a = some t → (J t ↔ P s a)) {s t : σ} {as : List α}
    (hs : I s) (hfirst : J s) (hG : Along step G s as) (hrun : run step s as = some t) :
    Throughout step J s as ↔ Along step P s as := by
  induction as generalizing s with
  | nil => exact ⟨fun _ => trivial, fun _ => hfirst⟩
  | cons a as ih =>
      obtain ⟨r, hr, hrun⟩ := run_cons.mp hrun
      have hiff := hJ s a r hs hfirst hG.1 hr
      have hrest := fun hr' : J r => ih (hI s a r hs hG.1 hr hr') hr' (hG.2 r hr) hrun
      constructor
      · intro h
        have hlater := h.2 r hr
        exact along_cons (hiff.mp hlater.first) hr ((hrest hlater.first).mp hlater)
      · intro h
        refine ⟨hfirst, fun t' ht' => ?_⟩
        obtain rfl := Option.some.inj (hr.symm.trans ht')
        exact (hrest (hiff.mpr h.1)).mpr (h.2 r hr)

end Guarded
