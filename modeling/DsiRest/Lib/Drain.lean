import Mathlib.Data.List.Infix
import Mathlib.Data.List.Forall2

/-!
# Draining a Finite Stream by Bounded Reads

A source of items is read with a sequence of buffer sizes. `Drain.Reads` is such a
sequence of reads, `Drain.Exact` is the contract of one read: it returns, it hands out at
most as many items as asked for, what it hands out is the front of what the source has
left, and it hands out nothing only when nothing is left.

From the contract of one read follow the properties of every sequence of reads: the
concatenated output is a prefix of the stream (`Exact.flatten_append`), an empty read
means that all of the stream was handed out (`Exact.eq_nil_iff`), and enough reads hand
out all of it (`Exact.flatten_eq`).
-/

namespace Drain

variable {σ α : Type*}

/-- A sequence of reads with the given sizes, with what each of them handed out. -/
inductive Reads (read : σ → ℕ → List α → σ → Prop) : σ → List ℕ → List (List α) → σ → Prop
  | nil (s : σ) : Reads read s [] [] s
  | cons {s t u : σ} {n : ℕ} {out : List α} {ns : List ℕ} {outs : List (List α)} :
      read s n out t → Reads read t ns outs u → Reads read s (n :: ns) (out :: outs) u

/-- Successive outputs take a stream apart from the front, and are empty only when nothing
of it is left. -/
def Peels : List α → List (List α) → Prop
  | _, [] => True
  | stream, out :: outs => ∃ left, stream = out ++ left ∧ (out = [] → stream = []) ∧ Peels left outs

/-- The contract of one read from a state satisfying `Inv`, where `rest s` is what the
source has left in state `s`. -/
structure Exact (read : σ → ℕ → List α → σ → Prop) (Inv : σ → Prop) (rest : σ → List α) :
    Prop where
  returns : ∀ s n, Inv s → 0 < n → ∃ out t, read s n out t
  inv : ∀ s n out t, Inv s → 0 < n → read s n out t → Inv t
  rest_eq : ∀ s n out t, Inv s → 0 < n → read s n out t → rest s = out ++ rest t
  length_le : ∀ s n out t, Inv s → 0 < n → read s n out t → out.length ≤ n
  exhausted : ∀ s n t, Inv s → 0 < n → read s n [] t → rest s = []

namespace Exact

variable {read : σ → ℕ → List α → σ → Prop} {Inv : σ → Prop} {rest : σ → List α}

/-- Every sequence of positive sizes can be read. -/
theorem exists_reads (h : Exact read Inv rest) {ns : List ℕ} :
    ∀ {s : σ}, Inv s → (∀ n ∈ ns, 0 < n) → ∃ outs t, Reads read s ns outs t := by
  induction ns with
  | nil => exact fun {s} _ _ => ⟨[], s, .nil s⟩
  | cons n ns ih =>
      intro s hs hpos
      obtain ⟨hn, hns⟩ := List.forall_mem_cons.mp hpos
      obtain ⟨out, t, hr⟩ := h.returns s n hs hn
      obtain ⟨outs, u, hu⟩ := ih (h.inv s n out t hs hn hr) hns
      exact ⟨out :: outs, u, .cons hr hu⟩

/-- The invariant survives a sequence of reads. -/
theorem inv_reads (h : Exact read Inv rest) {s t : σ} {ns : List ℕ} {outs : List (List α)}
    (hr : Reads read s ns outs t) (hs : Inv s) (hpos : ∀ n ∈ ns, 0 < n) : Inv t := by
  induction hr with
  | nil => exact hs
  | cons hread _ ih =>
      obtain ⟨hn, hns⟩ := List.forall_mem_cons.mp hpos
      exact ih (h.inv _ _ _ _ hs hn hread) hns

/-- **The output is a prefix of the stream**, followed by what the source has left. -/
theorem flatten_append (h : Exact read Inv rest) {s t : σ} {ns : List ℕ}
    {outs : List (List α)} (hr : Reads read s ns outs t) (hs : Inv s)
    (hpos : ∀ n ∈ ns, 0 < n) : rest s = outs.flatten ++ rest t := by
  induction hr with
  | nil => rfl
  | cons hread _ ih =>
      obtain ⟨hn, hns⟩ := List.forall_mem_cons.mp hpos
      rw [h.rest_eq _ _ _ _ hs hn hread, ih (h.inv _ _ _ _ hs hn hread) hns,
        List.flatten_cons, List.append_assoc]

/-- No read of a sequence exceeds its size. -/
theorem forall_length_le (h : Exact read Inv rest) {s t : σ} {ns : List ℕ}
    {outs : List (List α)} (hr : Reads read s ns outs t) (hs : Inv s)
    (hpos : ∀ n ∈ ns, 0 < n) : List.Forall₂ (fun n out => out.length ≤ n) ns outs := by
  induction hr with
  | nil => exact .nil
  | cons hread _ ih =>
      obtain ⟨hn, hns⟩ := List.forall_mem_cons.mp hpos
      exact .cons (h.length_le _ _ _ _ hs hn hread) (ih (h.inv _ _ _ _ hs hn hread) hns)

/-- **A read is empty exactly when everything was handed out before it.** -/
theorem eq_nil_iff (h : Exact read Inv rest) {s t u : σ} {ns : List ℕ} {n : ℕ}
    {outs : List (List α)} {out : List α} (hr : Reads read s ns outs t) (hs : Inv s)
    (hpos : ∀ n ∈ ns, 0 < n) (hn : 0 < n) (hread : read t n out u) :
    out = [] ↔ outs.flatten = rest s := by
  have ht := h.inv_reads hr hs hpos
  rw [h.flatten_append hr hs hpos, List.self_eq_append_right]
  constructor
  · rintro rfl
    exact h.exhausted t n u ht hn hread
  · intro hnil
    have hsplit := h.rest_eq t n out u ht hn hread
    rw [hnil] at hsplit
    exact (List.append_eq_nil_iff.mp hsplit.symm).1

/-- **If any read handed out nothing, the whole stream was handed out.** -/
theorem flatten_eq_of_nil_mem (h : Exact read Inv rest) {s t : σ} {ns : List ℕ}
    {outs : List (List α)} (hr : Reads read s ns outs t) (hs : Inv s) (hpos : ∀ n ∈ ns, 0 < n)
    (hnil : [] ∈ outs) : outs.flatten = rest s := by
  induction hr with
  | nil => exact absurd hnil List.not_mem_nil
  | @cons s t u n out ns outs hread hreads ih =>
      obtain ⟨hn, hns⟩ := List.forall_mem_cons.mp hpos
      have ht := h.inv _ _ _ _ hs hn hread
      rcases List.mem_cons.mp hnil with rfl | hlater
      · have hs0 := h.exhausted s n t hs hn hread
        have hall := h.flatten_append (.cons hread hreads) hs hpos
        rw [hs0] at hall ⊢
        exact (List.append_eq_nil_iff.mp hall.symm).1
      · rw [List.flatten_cons, ih ht hns hlater, h.rest_eq _ _ _ _ hs hn hread]

/-- Every read of a sequence makes progress until the stream is exhausted. -/
theorem length_le_or_exhausted (h : Exact read Inv rest) {s t : σ} {ns : List ℕ}
    {outs : List (List α)} (hr : Reads read s ns outs t) (hs : Inv s)
    (hpos : ∀ n ∈ ns, 0 < n) : ns.length ≤ outs.flatten.length ∨ rest t = [] := by
  induction hr with
  | nil => exact Or.inl (Nat.zero_le _)
  | @cons s t u n out ns outs hread hreads ih =>
      obtain ⟨hn, hns⟩ := List.forall_mem_cons.mp hpos
      have ht := h.inv _ _ _ _ hs hn hread
      rcases ih ht hns with hle | hnil
      · rcases Nat.eq_zero_or_pos out.length with h0 | hpos'
        · right
          rw [List.length_eq_zero_iff] at h0
          subst h0
          have hs0 := h.exhausted s n t hs hn hread
          have hsplit := h.rest_eq s n [] t hs hn hread
          have htail := h.flatten_append hreads ht hns
          rw [hs0, List.nil_append] at hsplit
          rw [← hsplit] at htail
          exact (List.append_eq_nil_iff.mp htail.symm).2
        · left
          simp only [List.length_cons, List.flatten_cons, List.length_append]
          omega
      · exact Or.inr hnil

/-- **Enough reads hand out the whole stream**: as many as it has items suffice. -/
theorem flatten_eq (h : Exact read Inv rest) {s t : σ} {ns : List ℕ} {outs : List (List α)}
    (hr : Reads read s ns outs t) (hs : Inv s) (hpos : ∀ n ∈ ns, 0 < n)
    (henough : (rest s).length ≤ ns.length) : outs.flatten = rest s := by
  have hsplit := h.flatten_append hr hs hpos
  rcases h.length_le_or_exhausted hr hs hpos with hle | hnil
  · have hlen := congrArg List.length hsplit
    rw [List.length_append] at hlen
    have h0 : rest t = [] := List.length_eq_zero_iff.mp (by omega)
    rw [hsplit, h0, List.append_nil]
  · rw [hsplit, hnil, List.append_nil]

/-- After enough reads there is one that hands out nothing. -/
theorem exists_drained (h : Exact read Inv rest) {s : σ} (hs : Inv s) {ns : List ℕ} {n : ℕ}
    (hpos : ∀ n ∈ ns, 0 < n) (henough : (rest s).length ≤ ns.length) (hn : 0 < n) :
    ∃ outs t u, Reads read s ns outs t ∧ read t n [] u := by
  obtain ⟨outs, t, hr⟩ := h.exists_reads hs hpos
  obtain ⟨out, u, hread⟩ := h.returns t n (h.inv_reads hr hs hpos) hn
  obtain rfl := (h.eq_nil_iff hr hs hpos hn hread).mpr (h.flatten_eq hr hs hpos henough)
  exact ⟨outs, t, u, hr, hread⟩

end Exact

end Drain
