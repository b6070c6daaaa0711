import Mathlib.Data.List.Nodup

/-!
# Tokens in Custody

Tokens are created one after the other, and each of them is in one of several places at any time:
in a cell, of which each holds at most one token, or in a list. `held hold cells` are the tokens in
a row of cells, where `hold` says what a cell holds; setting a cell changes the number of times
that a token is held by what the cell held before and holds afterwards (`count_held_set`).

`Accounted created places` says that no token was created twice and that the tokens in all places
together are those that were created. Then no token is in two places (`Accounted.places_nodup`) or
in two cells (`cell_unique`).
-/

namespace Custody

variable {τ β : Type*}

/-- The tokens in a row of cells. -/
def held (hold : β → Option τ) (cells : List β) : List τ :=
  cells.filterMap hold

/-- A cell behind the others. -/
theorem held_append_singleton (hold : β → Option τ) (cells : List β) (b : β) :
    held hold (cells ++ [b]) = held hold cells ++ (hold b).toList := by
  rw [held, held, List.filterMap_append]
  cases h : hold b <;> simp [h]

/-- What a cell holds is held. -/
theorem mem_held {hold : β → Option τ} {cells : List β} {x : τ} :
    x ∈ held hold cells ↔ ∃ (i : ℕ) (b : β), cells[i]? = some b ∧ hold b = some x := by
  rw [held, List.mem_filterMap]
  constructor
  · rintro ⟨b, hb, hx⟩
    obtain ⟨i, hi⟩ := List.mem_iff_getElem?.mp hb
    exact ⟨i, b, hi, hx⟩
  · rintro ⟨i, b, hi, hx⟩
    exact ⟨b, List.mem_iff_getElem?.mpr ⟨i, hi⟩, hx⟩

/-- **Cells hold different tokens** if no token is held twice. -/
theorem cell_unique {hold : β → Option τ} {cells : List β} (hnodup : (held hold cells).Nodup)
    {i j : ℕ} {b c : β} {x : τ} (hi : cells[i]? = some b) (hj : cells[j]? = some c)
    (hb : hold b = some x) (hc : hold c = some x) : i = j := by
  have hapart := List.pairwise_iff_getElem.mp (List.pairwise_filterMap.mp hnodup)
  obtain ⟨hilt, rfl⟩ := List.getElem?_eq_some_iff.mp hi
  obtain ⟨hjlt, rfl⟩ := List.getElem?_eq_some_iff.mp hj
  rcases Nat.lt_trichotomy i j with hlt | heq | hgt
  · exact absurd rfl (hapart i j hilt hjlt hlt x hb x hc)
  · exact heq
  · exact absurd rfl (hapart j i hjlt hilt hgt x hc x hb)

variable [DecidableEq τ]

/-- **Setting a cell.** -/
theorem count_held_set {hold : β → Option τ} {cells : List β} {i : ℕ} {b : β}
    (h : cells[i]? = some b) (c : β) (x : τ) :
    (held hold (cells.set i c)).count x + (hold b).toList.count x
      = (held hold cells).count x + (hold c).toList.count x := by
  have hcons : ∀ (d : β) (rest : List β), (held hold (d :: rest)).count x
      = (hold d).toList.count x + (held hold rest).count x := by
    intro d rest
    rw [held, held]
    cases hd : hold d with
    | none => rw [List.filterMap_cons_none hd, Option.toList_none, List.count_nil, Nat.zero_add]
    | some y =>
        rw [List.filterMap_cons_some hd, Option.toList_some, ← List.singleton_append,
          List.count_append]
  induction cells generalizing i with
  | nil => cases h
  | cons d rest ih =>
      cases i with
      | zero =>
          obtain rfl := Option.some.inj h
          rw [List.set_cons_zero, hcons, hcons]
          omega
      | succ i =>
          have hrest := ih h
          rw [List.set_cons_succ, hcons, hcons]
          omega

/-- The tokens in all places are those that were created, each of them once. -/
structure Accounted (created places : List τ) : Prop where
  nodup : created.Nodup
  balanced : ∀ x, places.count x = created.count x

namespace Accounted

variable {created places places' : List τ}

/-- No token is in two places, or twice in one. -/
theorem places_nodup (h : Accounted created places) : places.Nodup := by
  rw [List.nodup_iff_count_le_one]
  intro x
  rw [h.balanced]
  exact List.nodup_iff_count_le_one.mp h.nodup x

/-- Tokens are moved. -/
theorem move (h : Accounted created places) (hmove : ∀ x, places'.count x = places.count x) :
    Accounted created places' :=
  ⟨h.nodup, fun x => (hmove x).trans (h.balanced x)⟩

/-- A fresh token is created. -/
theorem create (h : Accounted created places) {y : τ} (hfresh : y ∉ created)
    (hcreate : ∀ x, places'.count x = places.count x + [y].count x) :
    Accounted (y :: created) places' where
  nodup := List.nodup_cons.mpr ⟨hfresh, h.nodup⟩
  balanced := fun x => by
    rw [hcreate, h.balanced, Nat.add_comm, ← List.count_append, List.singleton_append]

end Accounted

end Custody
