import Mathlib.Data.List.Basic

/-!
# Blocks of Memory

A block of memory is a list of cells, each of which holds a value or is not initialised. A block is
resized as `realloc` does it, which keeps the cells that still fit; values are stored into it and
loaded from it, which is undefined, `none`, outside of the block or where nothing was stored.

`Cells.Holds cells data` says that the front of the block holds the data. It holds no data at first,
and a block that is made large enough and then appended to holds what it held with the new data
behind it (`Holds.resize`, `Holds.store`); what it holds is what is loaded (`Holds.load`).
-/

namespace Cells

variable {α : Type*}

/-- `realloc`: the block with another size. -/
def resize (cells : List (Option α)) (size : ℕ) : List (Option α) :=
  cells.take size ++ List.replicate (size - cells.length) none

/-- `memcpy` into the block from index `start` on. -/
def store (cells : List (Option α)) (start : ℕ) (data : List α) : Option (List (Option α)) :=
  if cells.length < start + data.length then none
  else some (cells.take start ++ data.map some ++ cells.drop (start + data.length))

/-- The first `n` values of the block. -/
def load (cells : List (Option α)) (n : ℕ) : Option (List α) :=
  if cells.length < n then none else (cells.take n).mapM id

/-- The front of the block holds the data. -/
def Holds (cells : List (Option α)) (data : List α) : Prop :=
  data.map some <+: cells

variable {cells : List (Option α)} {data more : List α}

@[simp] theorem length_resize (cells : List (Option α)) (size : ℕ) :
    (resize cells size).length = size := by
  rw [resize, List.length_append, List.length_take, List.length_replicate]
  omega

/-- Any block holds no data. -/
theorem Holds.nil (cells : List (Option α)) : Holds cells [] :=
  List.nil_prefix

/-- Data that is held fits into the block. -/
theorem Holds.length_le (h : Holds cells data) : data.length ≤ cells.length := by
  have hlength := List.IsPrefix.length_le h
  rwa [List.length_map] at hlength

/-- A block that is still large enough holds the data that it held. -/
theorem Holds.resize {size : ℕ} (h : Holds cells data) (hsize : data.length ≤ size) :
    Holds (resize cells size) data := by
  have hfront : data.map some <+: cells.take size :=
    List.prefix_take_iff.mpr ⟨h, by rwa [List.length_map]⟩
  exact hfront.trans (List.prefix_append _ _)

/-- Data is appended where there is room for it. -/
theorem Holds.store (h : Holds cells data) (hroom : data.length + more.length ≤ cells.length) :
    ∃ cells', Cells.store cells data.length more = some cells' ∧ Holds cells' (data ++ more) ∧
      cells'.length = cells.length := by
  refine ⟨_, if_neg (Nat.not_lt.mpr hroom), ?_, ?_⟩
  · have hfront : cells.take data.length = data.map some := by
      rw [List.prefix_iff_eq_take.mp h, List.length_map]
    rw [Holds, hfront, List.map_append]
    exact List.prefix_append _ _
  · rw [List.length_append, List.length_append, List.length_take, List.length_map,
      List.length_drop]
    omega

/-- What is held is what is loaded. -/
theorem Holds.load (h : Holds cells data) : Cells.load cells data.length = some data := by
  have hfront : cells.take data.length = data.map some := by
    rw [List.prefix_iff_eq_take.mp h, List.length_map]
  rw [Cells.load, if_neg (Nat.not_lt.mpr h.length_le), hfront, List.mapM_map]
  show data.mapM (fun a => (pure a : Option α)) = some data
  rw [List.mapM_pure, List.map_id']
  rfl

/-- Data in front of other data is held with it. -/
theorem Holds.left (h : Holds cells (data ++ more)) : Holds cells data := by
  rw [Holds, List.map_append] at h
  exact (List.prefix_append _ _).trans h

end Cells
