import Mathlib.Algebra.GroupWithZero.Nat
import Mathlib.Data.List.Basic
import Mathlib.Data.List.Pairwise
import Mathlib.Order.Interval.Finset.Nat

/-!
# Reassembling a Stream from Blocks

A receiver of a stream gets blocks of it in any order. It keeps a position `next`, up to
which everything was passed on, and a queue of the blocks behind, sorted by position.
`place` puts a new block in its place, and blocks leave the queue from its front, as a
whole or in part, when they start at `next`.

`Assembled s next queue delivered` relates the position and the queue to the blocks
delivered so far: together they hold the delivered positions, without overlap. So a
receiver whose first block does not start at `next` holds nothing back exactly if the
delivered positions have no hole (`Assembled.queue_eq_nil_iff_seamless`), and has passed on
all of a range that was delivered (`Assembled.complete`).

`missing` counts the positions of a range that no block has brought yet, and each new block
lowers it (`missing_lt`).

`Contiguous` is the stronger invariant of blocks that come in order: the queue is then one
piece that starts at `next`.
-/

namespace Reassembly

/-! ### Extents -/

/-- The positions of a block. -/
structure Extent where
  start : ℕ
  length : ℕ
  deriving DecidableEq, Repr

namespace Extent

/-- The position behind a block. -/
def stop (e : Extent) : ℕ :=
  e.start + e.length

/-- A position lies in a block. -/
def Contains (e : Extent) (p : ℕ) : Prop :=
  e.start ≤ p ∧ p < e.stop

/-- Two blocks have no position in common. -/
def Apart (e f : Extent) : Prop :=
  ∀ p, e.Contains p → ¬f.Contains p

instance (e f : Extent) : Decidable (e.Apart f) :=
  decidable_of_iff (e.length = 0 ∨ f.length = 0 ∨ e.stop ≤ f.start ∨ f.stop ≤ e.start) <| by
    constructor
    · intro h p he hf
      simp only [Contains, stop] at he hf h
      omega
    · intro h
      have hfirst := h e.start
      have hsecond := h f.start
      simp only [Contains, stop] at hfirst hsecond ⊢
      omega

/-- A block contains its first position, unless it is empty. -/
theorem contains_start {e : Extent} (h : 0 < e.length) : e.Contains e.start :=
  ⟨Nat.le_refl _, Nat.lt_add_of_pos_right h⟩

/-- Of two blocks without a common position one ends before the other starts. -/
theorem Apart.stop_le {e f : Extent} (h : e.Apart f) (he : 0 < e.length) (hf : 0 < f.length) :
    e.stop ≤ f.start ∨ f.stop ≤ e.start := by
  have hes := h e.start (contains_start he)
  have hfs : ¬e.Contains f.start := fun hc => h f.start hc (contains_start hf)
  simp only [Contains, stop] at *
  omega

end Extent

/-- A position lies in one of the blocks. -/
def Covered (es : List Extent) (p : ℕ) : Prop :=
  ∃ e ∈ es, e.Contains p

@[simp] theorem not_covered_nil (p : ℕ) : ¬Covered [] p := by
  simp [Covered]

@[simp] theorem covered_cons (e : Extent) (es : List Extent) (p : ℕ) :
    Covered (e :: es) p ↔ e.Contains p ∨ Covered es p := by
  simp [Covered]

@[simp] theorem covered_append (es fs : List Extent) (p : ℕ) :
    Covered (es ++ fs) p ↔ Covered es p ∨ Covered fs p := by
  simp only [Covered, List.mem_append, or_and_right, exists_or]

/-! ### What is missing -/

instance (e : Extent) (p : ℕ) : Decidable (e.Contains p) :=
  inferInstanceAs (Decidable (_ ∧ _))

instance (es : List Extent) (p : ℕ) : Decidable (Covered es p) :=
  inferInstanceAs (Decidable (∃ e ∈ es, e.Contains p))

/-- How many of the positions from `s` to `s + n` lie in none of the blocks. -/
def missing (s n : ℕ) (es : List Extent) : ℕ :=
  ((Finset.Ico s (s + n)).filter fun p => ¬Covered es p).card

/-- There are `n` positions. -/
@[simp] theorem missing_nil (s n : ℕ) : missing s n [] = n := by
  simp [missing]

/-- **A new block** that starts at one of the positions leaves fewer of them missing. -/
theorem missing_lt {s n : ℕ} {es : List Extent} {x : Extent} (hx : 0 < x.length)
    (hstart : s ≤ x.start) (hstop : x.start < s + n) (hapart : ∀ e ∈ es, e.Apart x) :
    missing s n (es ++ [x]) < missing s n es := by
  refine Finset.card_lt_card (Finset.ssubset_iff_of_subset ?_ |>.mpr ⟨x.start, ?_, ?_⟩)
  · intro p hp
    rw [Finset.mem_filter, covered_append] at hp
    exact Finset.mem_filter.mpr ⟨hp.1, fun hcovered => hp.2 (.inl hcovered)⟩
  · refine Finset.mem_filter.mpr ⟨Finset.mem_Ico.mpr ⟨hstart, hstop⟩, ?_⟩
    rintro ⟨e, he, hcontains⟩
    exact hapart e he x.start hcontains (Extent.contains_start hx)
  · intro hp
    rw [Finset.mem_filter, covered_append] at hp
    exact hp.2 (.inr ⟨x, List.mem_singleton_self x, Extent.contains_start hx⟩)

/-! ### The queue -/

/-- Put a block in front of the first block of the queue that does not end before it. -/
def place (x : Extent) (queue : List Extent) : List Extent :=
  queue.takeWhile (fun e => decide (e.stop ≤ x.start)) ++
    x :: queue.dropWhile (fun e => decide (e.stop ≤ x.start))

/-- The blocks of the queue with the new one. -/
theorem mem_place {x e : Extent} {queue : List Extent} :
    e ∈ place x queue ↔ e = x ∨ e ∈ queue := by
  conv_rhs => rw [← List.takeWhile_append_dropWhile
    (p := fun e => decide (e.stop ≤ x.start)) (l := queue)]
  simp only [place, List.mem_append, List.mem_cons]
  exact or_left_comm

/-- The queue covers the new block and what it covered before. -/
theorem covered_place (x : Extent) (queue : List Extent) (p : ℕ) :
    Covered (place x queue) p ↔ Covered queue p ∨ x.Contains p := by
  simp only [Covered, mem_place]
  constructor
  · rintro ⟨e, rfl | he, hp⟩
    · exact .inr hp
    · exact .inl ⟨e, he, hp⟩
  · rintro (⟨e, he, hp⟩ | hp)
    · exact ⟨e, .inr he, hp⟩
    · exact ⟨x, .inl rfl, hp⟩

/-- Blocks in order of position, each ending before the next one starts. -/
def Sorted (queue : List Extent) : Prop :=
  queue.Pairwise fun e f => e.stop ≤ f.start

/-- The queue stays sorted when a block apart from all of its blocks comes in. -/
theorem Sorted.place {x : Extent} {queue : List Extent} (h : Sorted queue)
    (hpos : ∀ e ∈ queue, 0 < e.length) (hx : 0 < x.length)
    (hapart : ∀ e ∈ queue, e.Apart x) : Sorted (place x queue) := by
  induction queue with
  | nil => exact List.pairwise_singleton _ x
  | cons e queue ih =>
      obtain ⟨hfirst, hrest⟩ := List.pairwise_cons.mp h
      obtain ⟨hepos, hpos⟩ := List.forall_mem_cons.mp hpos
      obtain ⟨heapart, hapart⟩ := List.forall_mem_cons.mp hapart
      by_cases hle : e.stop ≤ x.start
      · have hplace : Reassembly.place x (e :: queue) = e :: Reassembly.place x queue := by
          simp [Reassembly.place, hle]
        rw [hplace]
        refine List.pairwise_cons.mpr ⟨fun f hf => ?_, ih hrest hpos hapart⟩
        rcases mem_place.mp hf with rfl | hf
        · exact hle
        · exact hfirst f hf
      · have hplace : Reassembly.place x (e :: queue) = x :: e :: queue := by
          simp [Reassembly.place, hle]
        have hxe : x.stop ≤ e.start := (heapart.stop_le hepos hx).resolve_left hle
        rw [hplace]
        refine List.pairwise_cons.mpr ⟨fun f hf => ?_, h⟩
        rcases List.mem_cons.mp hf with rfl | hf
        · exact hxe
        · have hef := hfirst f hf
          simp only [Extent.stop] at *
          omega

/-! ### The invariant -/

/-- What was passed on, from `s` up to `next`, and what is queued are together the delivered
positions, without overlap. -/
structure Assembled (s next : ℕ) (queue delivered : List Extent) : Prop where
  le : s ≤ next
  nonempty : ∀ e ∈ queue, 0 < e.length
  sorted : Sorted queue
  covered : ∀ p, Covered delivered p ↔ (s ≤ p ∧ p < next) ∨ Covered queue p
  fresh : ∀ p, Covered queue p → ¬(s ≤ p ∧ p < next)

/-- The positions from `s` up to a covered one are covered too, and none before `s` is. -/
def Seamless (s : ℕ) (es : List Extent) : Prop :=
  ∀ p, Covered es p → s ≤ p ∧ ∀ q, s ≤ q → q ≤ p → Covered es q

namespace Assembled

variable {s next : ℕ} {queue delivered : List Extent}

/-- Nothing was delivered yet. -/
theorem start (s : ℕ) : Assembled s s [] [] where
  le := Nat.le_refl s
  nonempty := by simp
  sorted := List.Pairwise.nil
  covered p := by simp
  fresh p := by simp

/-- A block apart from all that was delivered comes in. -/
theorem place (h : Assembled s next queue delivered) {x : Extent} (hx : 0 < x.length)
    (hapart : ∀ e ∈ delivered, e.Apart x) :
    Assembled s next (place x queue) (delivered ++ [x]) := by
  -- a position of the new block was not delivered before, so it is neither queued nor passed on
  have hnew : ∀ p, x.Contains p → ¬Covered delivered p := by
    rintro p hp ⟨e, he, hep⟩
    exact hapart e he p hep hp
  refine ⟨h.le, ?_, ?_, fun p => ?_, fun p hp => ?_⟩
  · intro e he
    rcases mem_place.mp he with rfl | he
    · exact hx
    · exact h.nonempty e he
  · refine h.sorted.place h.nonempty hx fun e he p hep hp => hnew p hp ?_
    exact (h.covered p).mpr (.inr ⟨e, he, hep⟩)
  · rw [covered_append, covered_place, h.covered p, covered_cons, or_assoc]
    simp
  · rcases (covered_place x queue p).mp hp with hp | hp
    · exact h.fresh p hp
    · exact fun hpassed => hnew p hp ((h.covered p).mpr (.inl hpassed))

/-- An empty block comes in, which is not queued. -/
theorem deliverEmpty (h : Assembled s next queue delivered) {x : Extent} (hx : x.length = 0) :
    Assembled s next queue (delivered ++ [x]) := by
  refine ⟨h.le, h.nonempty, h.sorted, fun p => ?_, h.fresh⟩
  have hnot : ¬x.Contains p := by
    simp only [Extent.Contains, Extent.stop]
    omega
  rw [covered_append, covered_cons, ← h.covered p]
  simp [hnot]

/-- The first block starts at `next` and is passed on as a whole. -/
theorem pass {e : Extent} (h : Assembled s next (e :: queue) delivered) (he : e.start = next) :
    Assembled s e.stop queue delivered := by
  have hle := h.le
  have hpos := h.nonempty e List.mem_cons_self
  obtain ⟨hfirst, hrest⟩ := List.pairwise_cons.mp h.sorted
  refine ⟨by simp only [Extent.stop]; omega, fun f hf => h.nonempty f (List.mem_cons_of_mem e hf),
    hrest, fun p => ?_, fun p hp => ?_⟩
  · rw [h.covered p, covered_cons, ← or_assoc]
    refine or_congr_left ?_
    simp only [Extent.Contains, Extent.stop]
    omega
  · obtain ⟨f, hf, hpf⟩ := hp
    have hef := hfirst f hf
    have hsp := hpf.1
    omega

/-- The first block starts at `next` and is passed on in part. -/
theorem passPart {e : Extent} {k : ℕ} (h : Assembled s next (e :: queue) delivered)
    (he : e.start = next) (hk : k < e.length) :
    Assembled s (next + k) (⟨next + k, e.length - k⟩ :: queue) delivered := by
  have hle := h.le
  have hstop : (⟨next + k, e.length - k⟩ : Extent).stop = e.stop := by
    simp only [Extent.stop]
    omega
  obtain ⟨hfirst, hrest⟩ := List.pairwise_cons.mp h.sorted
  refine ⟨by omega, ?_, ?_, fun p => ?_, fun p hp => ?_⟩
  · intro f hf
    rcases List.mem_cons.mp hf with rfl | hf
    · exact Nat.sub_pos_of_lt hk
    · exact h.nonempty f (List.mem_cons_of_mem e hf)
  · exact List.pairwise_cons.mpr ⟨fun f hf => hstop ▸ hfirst f hf, hrest⟩
  · rw [h.covered p, covered_cons, covered_cons, ← or_assoc, ← or_assoc]
    refine or_congr_left ?_
    simp only [Extent.Contains, hstop]
    simp only [Extent.stop]
    omega
  · rw [covered_cons] at hp
    rcases hp with hp | ⟨f, hf, hpf⟩
    · have hsp := hp.1
      simp only at hsp
      omega
    · have hef := hfirst f hf
      have hsp := hpf.1
      simp only [Extent.stop] at hef
      omega

/-- The blocks of the queue end where delivered blocks do, at the latest. -/
theorem stop_lt {bound : ℕ} (h : Assembled s next queue delivered)
    (hbound : ∀ e ∈ delivered, e.stop < bound) : ∀ e ∈ queue, e.stop < bound := by
  intro e he
  have hpos := h.nonempty e he
  have hlast : Covered queue (e.stop - 1) := by
    refine ⟨e, he, ?_⟩
    simp only [Extent.Contains, Extent.stop]
    omega
  obtain ⟨d, hd, -, hlt⟩ := (h.covered _).mpr (.inr hlast)
  have hstop := hbound d hd
  omega

/-- Nothing is passed on beyond the positions that were delivered. -/
theorem next_le {n : ℕ} (h : Assembled s next queue delivered)
    (hall : ∀ p, Covered delivered p → p < s + n) : next ≤ s + n := by
  by_contra hlt
  have hle := h.le
  have hlast := hall (next - 1) ((h.covered (next - 1)).mpr (.inl (by omega)))
  omega

/-- The queue is empty exactly if all delivered positions were passed on. -/
theorem queue_eq_nil_iff (h : Assembled s next queue delivered) :
    queue = [] ↔ ∀ p, Covered delivered p → s ≤ p ∧ p < next := by
  constructor
  · rintro rfl p hp
    exact ((h.covered p).mp hp).resolve_right (not_covered_nil p)
  · intro hpassed
    refine List.eq_nil_iff_forall_not_mem.mpr fun e he => ?_
    have hstart : Covered queue e.start := ⟨e, he, e.contains_start (h.nonempty e he)⟩
    exact h.fresh e.start hstart (hpassed e.start ((h.covered e.start).mpr (.inr hstart)))

/-- **Nothing is held back without a hole.** If the first block of the queue does not start
at `next`, the queue is empty exactly if the delivered positions have no hole. -/
theorem queue_eq_nil_iff_seamless (h : Assembled s next queue delivered)
    (hfirst : ∀ e ∈ queue.head?, e.start ≠ next) : queue = [] ↔ Seamless s delivered := by
  constructor
  · intro hnil p hp
    have hpassed := h.queue_eq_nil_iff.mp hnil p hp
    exact ⟨hpassed.1, fun q hq hqp => (h.covered q).mpr (.inl ⟨hq, by omega⟩)⟩
  · intro hseamless
    rcases queue with _ | ⟨first, later⟩
    · rfl
    have hstart : Covered (first :: later) first.start :=
      ⟨first, List.mem_cons_self, first.contains_start (h.nonempty first List.mem_cons_self)⟩
    obtain ⟨hs, hbefore⟩ := hseamless first.start ((h.covered _).mpr (.inr hstart))
    have hfresh := h.fresh first.start hstart
    have hne := hfirst first rfl
    have hle := h.le
    -- the position `next` lies before the first block, so no block of the queue contains it
    rcases (h.covered next).mp (hbefore next hle (by omega)) with hp | ⟨e, he, hep⟩
    · omega
    · have hfirstStop : first.start ≤ e.start := by
        rcases List.mem_cons.mp he with rfl | he
        · exact Nat.le_refl _
        · have hsorted := (List.pairwise_cons.mp h.sorted).1 e he
          simp only [Extent.stop] at hsorted
          omega
      have hestart := hep.1
      omega

/-- **Nothing is missing.** If exactly the positions from `s` to `s + n` were delivered and
the first block of the queue does not start at `next`, then all of them were passed on. -/
theorem complete {n : ℕ} (h : Assembled s next queue delivered)
    (hfirst : ∀ e ∈ queue.head?, e.start ≠ next)
    (hall : ∀ p, Covered delivered p ↔ s ≤ p ∧ p < s + n) : next = s + n ∧ queue = [] := by
  have hseamless : Seamless s delivered := fun p hp =>
    ⟨((hall p).mp hp).1, fun q hq hqp => (hall q).mpr ⟨hq, by have := (hall p).mp hp; omega⟩⟩
  have hnil := (h.queue_eq_nil_iff_seamless hfirst).mpr hseamless
  refine ⟨Nat.le_antisymm (h.next_le fun p hp => ((hall p).mp hp).2) ?_, hnil⟩
  by_contra hlt
  have hpassed := h.queue_eq_nil_iff.mp hnil next ((hall next).mpr ⟨h.le, by omega⟩)
  omega

end Assembled

/-! ### Blocks in order -/

/-- The queue is one piece that starts at `next`. -/
def Contiguous : ℕ → List Extent → Prop
  | _, [] => True
  | next, e :: queue => e.start = next ∧ 0 < e.length ∧ Contiguous e.stop queue

/-- The number of positions in a queue. -/
def total (queue : List Extent) : ℕ :=
  (queue.map Extent.length).sum

@[simp] theorem total_nil : total [] = 0 := rfl

@[simp] theorem total_cons (e : Extent) (queue : List Extent) :
    total (e :: queue) = e.length + total queue := rfl

@[simp] theorem total_append (queue later : List Extent) :
    total (queue ++ later) = total queue + total later := by
  simp [total]

/-- No block of the queue reaches beyond its end. -/
theorem Contiguous.stop_le {next : ℕ} {queue : List Extent} (h : Contiguous next queue) :
    ∀ e ∈ queue, e.stop ≤ next + total queue := by
  induction queue generalizing next with
  | nil => simp
  | cons e queue ih =>
      obtain ⟨he, -, hrest⟩ := h
      intro f hf
      rw [total_cons]
      rcases List.mem_cons.mp hf with rfl | hf
      · simp only [Extent.stop]
        omega
      · have hle := ih hrest f hf
        simp only [Extent.stop] at *
        omega

/-- A block that starts where the queue ends is placed at its end. -/
theorem Contiguous.place {next : ℕ} {queue : List Extent} {x : Extent}
    (h : Contiguous next queue) (hx : x.start = next + total queue) :
    place x queue = queue ++ [x] := by
  induction queue generalizing next with
  | nil => rfl
  | cons e queue ih =>
      obtain ⟨he, -, hrest⟩ := h
      rw [total_cons] at hx
      have hle : e.stop ≤ x.start := by
        simp only [Extent.stop]
        omega
      have htail := ih hrest (by simp only [Extent.stop]; omega)
      simp only [Reassembly.place] at htail ⊢
      simp [hle, htail]

/-- The queue stays one piece when a block is appended. -/
theorem Contiguous.append {next : ℕ} {queue : List Extent} {x : Extent}
    (h : Contiguous next queue) (hx : x.start = next + total queue) (hpos : 0 < x.length) :
    Contiguous next (queue ++ [x]) := by
  induction queue generalizing next with
  | nil => exact ⟨hx, hpos, trivial⟩
  | cons e queue ih =>
      obtain ⟨he, hepos, hrest⟩ := h
      rw [total_cons] at hx
      exact ⟨he, hepos, ih hrest (by simp only [Extent.stop]; omega)⟩

/-! ### Slices -/

variable {α : Type*}

/-- The `n` items of a stream from position `p` on. -/
def slice (F : ℕ → α) (p n : ℕ) : List α :=
  (List.range n).map fun i => F (p + i)

@[simp] theorem length_slice (F : ℕ → α) (p n : ℕ) : (slice F p n).length = n := by
  simp [slice]

@[simp] theorem slice_zero (F : ℕ → α) (p : ℕ) : slice F p 0 = [] := rfl

/-- Two adjacent slices are one. -/
theorem slice_add (F : ℕ → α) (p m n : ℕ) :
    slice F p (m + n) = slice F p m ++ slice F (p + m) n := by
  simp only [slice, List.range_add, List.map_append, List.map_map]
  congr 1
  refine List.map_congr_left fun i _ => ?_
  simp [Nat.add_assoc]

/-- The front of a slice. -/
theorem take_slice (F : ℕ → α) {p k n : ℕ} (h : k ≤ n) : (slice F p n).take k = slice F p k := by
  obtain ⟨m, rfl⟩ := Nat.exists_eq_add_of_le h
  rw [slice_add, List.take_left' (length_slice F p k)]

/-- The rest of a slice. -/
theorem drop_slice (F : ℕ → α) {p k n : ℕ} (h : k ≤ n) :
    (slice F p n).drop k = slice F (p + k) (n - k) := by
  obtain ⟨m, rfl⟩ := Nat.exists_eq_add_of_le h
  rw [slice_add, List.drop_left' (length_slice F p k), Nat.add_sub_cancel_left]

end Reassembly
