import DsiRest.DownloadStored
import DsiRest.UploadCleanup

/-!
# The Lists of the Buffers

The buffers of a GridFTP operation wander between four places: the current buffer, and the
pending, registered and free buffers. `GridftpOpArg.Linked` says that each buffer that was
allocated is in exactly one of them, and there once, and that `pendingBuffersLast` stands for
the `next` pointer of the last pending buffer. All operations of both directions keep it,
also where an allocation, a registration or a transfer fails.

An upload also keeps its pending buffers sorted, as long as the GridFTP server delivers
disjoint blocks. A read that is outstanding finds its buffer among the registered ones.

## Main results

* `Upload.Listed.step`, `Download.step_linked` — one step keeps the lists in order.
* `bufferLists_partition` — in every interleaving of both directions the lists are in order.
-/

namespace DsiRest

open Reassembly

/-! ### Where the buffers are -/

namespace GridftpOpArg

/-- How often an address occurs. -/
theorem count_addresses (arg : GridftpOpArg) (a : ℕ) :
    arg.addresses.count a = (arg.currentBuffer.toList.map Buffer.id).count a
      + (arg.pendingBuffers.map Buffer.id).count a
      + (arg.registeredBuffers.map Buffer.id).count a
      + (arg.freeBuffers.map Buffer.id).count a := by
  simp only [addresses, buffers, List.map_append, List.count_append, Nat.add_assoc]

/-- Every buffer that was allocated is in exactly one place, and `pending_buffers_last` is
the address of the `next` pointer of the last pending buffer, or that of the list head. -/
structure Linked (arg : GridftpOpArg) : Prop where
  partition : arg.addresses.Perm (List.range arg.allocated)
  last : arg.pendingBuffersLast = arg.pendingBuffers.getLast?.map Buffer.id

/-- The pending buffers are strictly sorted by `transfer_offset`, and their ranges do not
overlap. -/
def PendingSorted (arg : GridftpOpArg) : Prop :=
  arg.pendingBuffers.Pairwise fun b c =>
    b.transferOffset < c.transferOffset ∧ b.transferOffset + b.bufferUsed ≤ c.transferOffset

namespace Linked

variable {arg arg' : GridftpOpArg}

/-- Nothing is allocated at first. -/
theorem prepare (offset endOffset : ℕ) (eof : Bool) : Linked (.prepare offset endOffset eof) :=
  ⟨.refl _, rfl⟩

/-- No buffer is in two places. -/
theorem nodup (h : Linked arg) : arg.addresses.Nodup :=
  h.partition.nodup_iff.mpr List.nodup_range

/-- **The rule for the operations.** Each address occurs as often as before, or once more if
it is that of a new buffer. -/
theorem of_count (h : Linked arg)
    (hcount : ∀ a, arg'.addresses.count a + (List.range arg.allocated).count a
      = arg.addresses.count a + (List.range arg'.allocated).count a)
    (hlast : arg'.pendingBuffersLast = arg'.pendingBuffers.getLast?.map Buffer.id) :
    Linked arg' := by
  refine ⟨List.perm_iff_count.mpr fun a => ?_, hlast⟩
  have hbefore := h.partition.count_eq a
  have hafter := hcount a
  omega

/-- Only the result and the flags change. -/
theorem congr (h : Linked arg) (haddresses : arg'.addresses = arg.addresses)
    (hallocated : arg'.allocated = arg.allocated)
    (hlast : arg'.pendingBuffersLast = arg.pendingBuffersLast)
    (hpending : arg'.pendingBuffers = arg.pendingBuffers) : Linked arg' :=
  ⟨by rw [haddresses, hallocated]; exact h.partition, by rw [hlast, hpending]; exact h.last⟩

end Linked

/-- A buffer that is supplied was free, or it is new. -/
theorem Supplies.count {arg : GridftpOpArg} {size n : ℕ} {b : Buffer} {free : List Buffer}
    (h : arg.Supplies size b free n) (a : ℕ) :
    (b.id :: free.map Buffer.id).count a + (List.range arg.allocated).count a
      = (arg.freeBuffers.map Buffer.id).count a + (List.range n).count a := by
  cases h with
  | reused b free hfree => rw [hfree, List.map_cons]
  | fresh hfree =>
      rw [hfree, List.range_succ, List.count_append]
      simp only [List.map_nil, List.count_nil, Nat.zero_add]
      exact Nat.add_comm _ _

end GridftpOpArg

open GridftpOpArg

/-! ### Registering reads -/

/-- The buffers of the reads that are registered come from the free ones, or are new. -/
theorem Registers.linked {server : ReadServer} {turns i bytesRegistered : ℕ} {arg : GridftpOpArg}
    {reads : List Read} {r : Registering}
    (h : Registers server turns i arg reads bytesRegistered r) (hlinked : Linked arg) :
    Linked r.arg := by
  induction h with
  | done | usedUp | noMemory => exact hlinked
  | refused turns i arg reads bytesRegistered b free n e hb hrefused =>
      refine hlinked.of_count (fun a => ?_) hlinked.last
      have hsupplied := hb.count a
      simp only [count_addresses, withBuffers, Buffer.registered, List.map_cons] at hsupplied ⊢
      omega
  | registered turns i arg reads bytesRegistered b free n thisRead later hb _ _ _ _ ih =>
      refine ih (hlinked.of_count (fun a => ?_) hlinked.last)
      have hsupplied := hb.count a
      simp only [count_addresses, withBuffers, Buffer.registered, List.map_cons,
        List.count_cons] at hsupplied ⊢
      omega

/-- Registering reads keeps the lists. -/
theorem RegistersReads.linked {server : ReadServer} {arg : GridftpOpArg} {reads : List Read}
    {r : Registering} (h : RegistersReads server arg reads r) (hlinked : Linked arg) :
    Linked (r.arg.record r.result) := by
  have hr : Linked r.arg := by
    cases h with
    | useless => exact hlinked
    | useful r _ _ h => exact h.linked hlinked
  exact hr.congr rfl rfl rfl rfl

/-! ### Copying from the pending buffers -/

/-- The last pending buffer stays the last one when the first one is copied as a whole, and
none is left after it was the only one. -/
theorem getLast?_whole {b : Buffer} {later : List Buffer} {last : Option ℕ}
    (h : last = (b :: later).getLast?.map Buffer.id) :
    (if later = [] then none else last) = later.getLast?.map Buffer.id := by
  split
  · rename_i hnil
    rw [hnil]
    rfl
  · rename_i hne
    obtain ⟨c, rest, rfl⟩ := List.exists_cons_of_ne_nil hne
    rw [h, List.getLast?_cons_cons]

/-- Copying keeps the lists. -/
theorem Copies.linked {bufferLength : ℕ} {arg last : GridftpOpArg} {filled all : Bytes}
    (h : Copies bufferLength arg filled all last) (hlinked : Linked arg) : Linked last := by
  induction h with
  | done => exact hlinked
  | part arg filled b later k all last hpending _ _ _ _ _ ih =>
      refine ih (hlinked.of_count (fun a => ?_) ?_)
      · simp only [count_addresses, copyPart, hpending, List.map_cons, Buffer.consumed,
          Buffer.store_id]
      · have hlast := hlinked.last
        rw [hpending] at hlast
        rw [copyPart, hlast]
        cases later with
        | nil => rfl
        | cons c rest => simp only [List.getLast?_cons_cons]
  | whole arg filled b later all last hpending _ _ _ _ ih =>
      refine ih (hlinked.of_count (fun a => ?_) ?_)
      · simp only [count_addresses, copyWhole, hpending, List.map_cons, Buffer.emptied,
          List.count_cons]
        omega
      · exact getLast?_whole (hpending ▸ hlinked.last)

/-! ### The completion of a read -/

/-- A buffer that is added to the pending ones. -/
theorem addPending_last {arg : GridftpOpArg} {b : Buffer}
    (h : arg.pendingBuffersLast = arg.pendingBuffers.getLast?.map Buffer.id) :
    (arg.addPending b).pendingBuffersLast
      = (arg.addPending b).pendingBuffers.getLast?.map Buffer.id := by
  have hsplit := List.takeWhile_append_dropWhile
    (p := fun tmp : Buffer => decide (tmp.transferEnd ≤ b.transferOffset))
    (l := arg.pendingBuffers)
  simp only [addPending, h]
  set before := arg.pendingBuffers.takeWhile
    fun tmp => decide (tmp.transferEnd ≤ b.transferOffset)
  set after := arg.pendingBuffers.dropWhile
    fun tmp => decide (tmp.transferEnd ≤ b.transferOffset)
  split
  · rename_i hnil
    rw [hnil, List.getLast?_concat]
    rfl
  · rename_i hne
    obtain ⟨c, rest, heq⟩ := List.exists_cons_of_ne_nil hne
    rw [← hsplit, heq, List.getLast?_append_cons, List.getLast?_append_cons,
      List.getLast?_cons_cons]

/-- The read callback takes its buffer from the registered ones and puts it into one of the
other lists. -/
theorem linked_readCallback {arg arg' : GridftpOpArg} {result : Result} {id : ℕ} {data : Bytes}
    {offset : ℕ} {eof signal : Bool} (hlinked : Linked arg)
    (h : gridftpReadCallback arg result id data offset eof = some (arg', signal)) :
    Linked arg' := by
  rw [gridftpReadCallback] at h
  simp only at h
  split at h
  case h_1 => cases h
  case h_2 b left hremove =>
    have hremoved : ∀ a, (b.id :: left.map Buffer.id).count a
        = (arg.registeredBuffers.map Buffer.id).count a :=
      fun a => ((removeBuffer_perm hremove).map Buffer.id).count_eq a
    split_ifs at h with hfailed hempty
    · obtain ⟨rfl, -⟩ := Prod.mk.inj (Option.some.inj h)
      refine hlinked.of_count (fun a => ?_) hlinked.last
      have hcount := hremoved a
      simp only [count_addresses, note, List.map_cons, List.count_cons, Buffer.store_id]
        at hcount ⊢
      omega
    · obtain ⟨rfl, -⟩ := Prod.mk.inj (Option.some.inj h)
      refine hlinked.of_count (fun a => ?_) hlinked.last
      have hcount := hremoved a
      simp only [count_addresses, note, List.map_cons, List.count_cons, Buffer.store_id]
        at hcount ⊢
      omega
    · obtain ⟨rfl, -⟩ := Prod.mk.inj (Option.some.inj h)
      refine hlinked.of_count (fun a => ?_) (addPending_last hlinked.last)
      have hcount := hremoved a
      have hpending := congrArg (fun l => (l.map Buffer.id).count a)
        (List.takeWhile_append_dropWhile
          (p := fun tmp : Buffer => decide (tmp.transferEnd ≤ offset)) (l := arg.pendingBuffers))
      simp only [count_addresses, addPending, note, List.map_append, List.map_cons,
        List.count_append, List.count_cons, Buffer.store_id] at hcount hpending ⊢
      omega

/-- With its buffer among the registered ones the read callback comes back. -/
theorem isSome_readCallback {arg : GridftpOpArg} {result : Result} {id : ℕ} {data : Bytes}
    {offset : ℕ} {eof : Bool} {b : Buffer} {left : List Buffer}
    (hremove : removeBuffer id arg.registeredBuffers = some (b, left)) :
    (gridftpReadCallback arg result id data offset eof).isSome := by
  rw [gridftpReadCallback]
  have hnote : removeBuffer id (arg.note result eof (arg.ends offset data.length)).registeredBuffers
      = some (b, left) := hremove
  simp only [hnote]
  split_ifs <;> rfl

/-! ### The order of the pending buffers -/

/-- The pending buffers are sorted, not empty, and hold delivered blocks. -/
structure Queued (arg : GridftpOpArg) (blocks : List Extent) : Prop where
  sorted : Sorted (arg.pendingBuffers.map Buffer.extent)
  bounded : ∀ b ∈ arg.pendingBuffers, 0 < b.bufferUsed ∧ b.extent.stop < word
  delivered : ∀ p, Covered (arg.pendingBuffers.map Buffer.extent) p → Covered blocks p

namespace Queued

variable {arg arg' : GridftpOpArg} {blocks : List Extent}

/-- Nothing is pending at first. -/
theorem prepare (offset endOffset : ℕ) (eof : Bool) :
    Queued (.prepare offset endOffset eof) [] :=
  ⟨.nil, by simp [GridftpOpArg.prepare], by simp [GridftpOpArg.prepare]⟩

/-- The other buffers do not matter, and more blocks may be delivered. -/
theorem congr (h : Queued arg blocks) (hpending : arg'.pendingBuffers = arg.pendingBuffers)
    (more : List Extent) : Queued arg' (blocks ++ more) := by
  refine ⟨by rw [hpending]; exact h.sorted, by rw [hpending]; exact h.bounded, fun p hp => ?_⟩
  rw [hpending] at hp
  exact (covered_append blocks more p).mpr (.inl (h.delivered p hp))

/-- The first pending buffer is copied in part. -/
theorem copyPart {b : Buffer} {later : List Buffer} {k : ℕ} (h : Queued arg blocks)
    (hpending : arg.pendingBuffers = b :: later) (hk : k < b.bufferUsed) :
    Queued (arg.copyPart b later k) blocks := by
  obtain ⟨hsorted, hbounded, hdelivered⟩ := h
  rw [hpending] at hsorted hbounded hdelivered
  obtain ⟨⟨hpos, hstop⟩, hlater⟩ := List.forall_mem_cons.mp hbounded
  obtain ⟨hfirst, hrest⟩ := List.pairwise_cons.mp hsorted
  simp only [Extent.stop, Buffer.extent] at hstop
  have hoffset : add64 b.transferOffset k = b.transferOffset + k := add64_eq (by omega)
  have hextent : (b.consumed k).extent = ⟨b.transferOffset + k, b.bufferUsed - k⟩ := by
    rw [Buffer.extent, Buffer.consumed]
    simp only [hoffset]
  have hend : (b.consumed k).extent.stop = b.extent.stop := by
    rw [hextent]
    simp only [Extent.stop, Buffer.extent]
    omega
  refine ⟨List.pairwise_cons.mpr ⟨fun e he => hend ▸ hfirst e he, hrest⟩,
    List.forall_mem_cons.mpr ⟨⟨Nat.sub_pos_of_lt hk, ?_⟩, hlater⟩, fun p hp => ?_⟩
  · rw [hend]
    exact hstop
  · refine hdelivered p ?_
    simp only [GridftpOpArg.copyPart, List.map_cons, covered_cons] at hp ⊢
    refine hp.imp_left fun hcontains => ?_
    rw [hextent] at hcontains
    simp only [Extent.Contains, Extent.stop, Buffer.extent] at hcontains ⊢
    omega

/-- The first pending buffer is copied as a whole. -/
theorem copyWhole {b : Buffer} {later : List Buffer} (h : Queued arg blocks)
    (hpending : arg.pendingBuffers = b :: later) : Queued (arg.copyWhole b later) blocks := by
  obtain ⟨hsorted, hbounded, hdelivered⟩ := h
  rw [hpending] at hsorted hbounded hdelivered
  refine ⟨(List.pairwise_cons.mp hsorted).2, (List.forall_mem_cons.mp hbounded).2,
    fun p hp => hdelivered p ?_⟩
  rw [List.map_cons, covered_cons]
  exact .inr hp

/-- A block apart from those delivered before is added. -/
theorem addPending {b : Buffer} (h : Queued arg blocks) (hpos : 0 < b.bufferUsed)
    (hstop : b.extent.stop < word) (hapart : ∀ e ∈ blocks, e.Apart b.extent) :
    Queued (arg.addPending b) (blocks ++ [b.extent]) := by
  have hextents : (arg.addPending b).pendingBuffers.map Buffer.extent
      = place b.extent (arg.pendingBuffers.map Buffer.extent) :=
    extents_addPending fun c hc => (h.bounded c hc).2
  refine ⟨?_, fun c hc => ?_, fun p hp => ?_⟩
  · rw [hextents]
    refine h.sorted.place (fun e he => ?_) hpos fun e he p hp hb => ?_
    · obtain ⟨c, hc, rfl⟩ := List.mem_map.mp he
      exact (h.bounded c hc).1
    · obtain ⟨f, hf, hpf⟩ := h.delivered p ⟨e, he, hp⟩
      exact hapart f hf p hpf hb
  · rcases mem_addPending.mp hc with rfl | hc
    · exact ⟨hpos, hstop⟩
    · exact h.bounded c hc
  · rw [hextents, covered_place] at hp
    rw [covered_append, covered_cons]
    exact hp.imp (h.delivered p) .inl

/-- Then the pending buffers are strictly sorted. -/
theorem pendingSorted (h : Queued arg blocks) : arg.PendingSorted := by
  refine (List.pairwise_map.mp h.sorted).imp_of_mem fun {b c} hb _ hbc => ?_
  have hpos := (h.bounded b hb).1
  simp only [Extent.stop, Buffer.extent] at hbc
  exact ⟨by omega, hbc⟩

end Queued

/-- Copying keeps the pending buffers sorted. -/
theorem Copies.queued {bufferLength : ℕ} {arg last : GridftpOpArg} {filled all : Bytes}
    {blocks : List Extent} (h : Copies bufferLength arg filled all last)
    (hqueued : Queued arg blocks) : Queued last blocks := by
  induction h with
  | done => exact hqueued
  | part arg filled b later k all last hpending _ _ _ hk _ ih =>
      exact ih (hqueued.copyPart hpending hk)
  | whole arg filled b later all last hpending _ _ _ _ ih =>
      exact ih (hqueued.copyWhole hpending)

/-! ### Uploads -/

namespace Upload

/-- The blocks that were delivered so far. -/
def blocks (u : Upload) : List Extent :=
  (u.completions.filter (·.result = .success)).map Completion.extent

/-- A read that does not fail delivers a block apart from the blocks before; the server's
offsets and lengths do not leave the range of `uint64_t`. -/
def DeliversApart (u : Upload) : UploadAction → Prop
  | .complete _ c => c.result = .success →
    c.extent.stop < word ∧ ∀ e ∈ u.blocks, e.Apart c.extent
  | _ => True

/-- The invariant of the lists of an upload. -/
structure Listed (u : Upload) : Prop where
  tracked : Tracked u
  linked : Linked u.arg
  queued : Queued u.arg u.blocks

/-- An upload starts without buffers. -/
theorem Listed.start (offset length : ℕ) (eof : Bool) :
    Listed (start (prepareWriteGridftpOp offset length eof)) :=
  ⟨Tracked.start offset length eof, Linked.prepare _ _ _, Queued.prepare _ _ _⟩

/-- The blocks do not change in a section of a call. -/
@[simp] theorem after_blocks (u : Upload) (bufferLength : ℕ) (ws : WriteSection) :
    (u.after bufferLength ws).blocks = u.blocks := by
  rw [after]
  split <;> rfl

/-- The argument after a section of a call is that of the section. -/
@[simp] theorem after_arg (u : Upload) (bufferLength : ℕ) (ws : WriteSection) :
    (u.after bufferLength ws).arg = ws.arg := by
  rw [after]
  split <;> rfl

/-- A section of a call keeps the partition. -/
theorem linked_section {u : Upload} {server : ReadServer} {bufferLength : ℕ} {result : Result}
    {ws : WriteSection} (h : Linked u.arg)
    (hws : Sections server bufferLength result u.arg u.reads ws) : Linked ws.arg := by
  cases hws with
  | failed => exact h
  | copied _ _ all last hcopies => exact hcopies.linked h
  | gaveUp _ r hr | waits _ r hr => exact hr.linked h

/-- **One step keeps the partition**, whatever fails in it. -/
theorem step_linked {u u' : Upload} {action : UploadAction} (htracked : Tracked u)
    (h : Linked u.arg) (hstep : u.step action = some u') : Linked u'.arg := by
  cases steps_of_step htracked.current htracked.full hstep with
  | ended server bufferLength _ =>
      rw [after_arg]
      exact h.congr rfl rfl rfl rfl
  | call server bufferLength ws _ hws | wake server bufferLength result ws _ hws =>
      rw [after_arg]
      exact linked_section h hws
  | complete id c arg' hcompletes =>
      rw [Upload.step] at hstep
      split_ifs at hstep
      obtain ⟨⟨arg'', signal⟩, hcallback, heq⟩ := Option.map_eq_some_iff.mp hstep
      have harg : arg'' = arg' := congrArg Upload.arg heq
      exact harg ▸ linked_readCallback h hcallback

/-- A section of a call keeps the pending buffers sorted. -/
theorem Listed.section {u : Upload} {server : ReadServer} {bufferLength : ℕ} {result : Result}
    {ws : WriteSection} (h : Listed u)
    (hws : Sections server bufferLength result u.arg u.reads ws) : Queued ws.arg u.blocks := by
  have hsame : ∀ {arg : GridftpOpArg}, arg.pendingBuffers = u.arg.pendingBuffers →
      Queued arg u.blocks := by
    intro arg hpending
    have hqueued := h.queued.congr hpending []
    rwa [List.append_nil] at hqueued
  cases hws with
  | failed => exact h.queued
  | copied _ _ all last hcopies => exact hcopies.queued h.queued
  | gaveUp _ r hr | waits _ r hr =>
      refine hsame ?_
      rw [hr.recorded]
      rfl

/-- The blocks after one more completion. -/
theorem blocks_concat (u : Upload) (arg : GridftpOpArg) (reads : List Read) (c : Completion) :
    ({ u with arg := arg, reads := reads, completions := u.completions ++ [c] } : Upload).blocks
      = u.blocks ++ if c.result = .success then [c.extent] else [] := by
  simp only [blocks, List.filter_append, List.map_append]
  congr 1
  by_cases hc : c.result = .success <;> simp [hc]

/-- The completion of a read keeps the pending buffers sorted. -/
theorem Listed.complete {u : Upload} {id : ℕ} {c : Completion} {arg' : GridftpOpArg}
    (h : Listed u) (happly : u.DeliversApart (.complete id c))
    (hcompletes : Completes u.arg id c arg') :
    Queued arg' (u.blocks ++ if c.result = .success then [c.extent] else []) := by
  cases hcompletes with
  | bad | empty =>
      refine h.queued.congr ?_ _
      rfl
  | added b registered hremove hresult hdata =>
      have hsuccess : c.result = .success := (Result.latch_eq_success.mp hresult).2
      obtain ⟨hstop, hapart⟩ := happly hsuccess
      have hnote : Queued ((u.arg.note c.result c.eof (u.arg.ends c.offset c.data.length)).withBuffers
          registered u.arg.freeBuffers u.arg.allocated) (u.blocks ++ []) := by
        refine h.queued.congr ?_ _
        rfl
      rw [List.append_nil] at hnote
      rw [if_pos hsuccess]
      exact hnote.addPending (List.length_pos_of_ne_nil hdata) hstop hapart

/-- **One step keeps the lists**, whatever fails in it. -/
theorem Listed.step {u u' : Upload} {action : UploadAction} (h : Listed u)
    (happly : u.DeliversApart action) (hstep : u.step action = some u') : Listed u' := by
  refine ⟨h.tracked.step hstep, step_linked h.tracked h.linked hstep, ?_⟩
  cases steps_of_step h.tracked.current h.tracked.full hstep with
  | ended server bufferLength _ =>
      rw [after_arg, after_blocks, ← List.append_nil u.blocks]
      refine h.queued.congr ?_ _
      rfl
  | call server bufferLength ws _ hws | wake server bufferLength result ws _ hws =>
      rw [after_arg, after_blocks]
      exact h.section hws
  | complete id c arg' hcompletes =>
      rw [blocks_concat]
      exact h.complete happly hcompletes

/-- **An outstanding read finds its buffer**: its completion does not run into the assertion. -/
theorem Listed.finds {u : Upload} (h : Listed u) {r : Read} (hr : r ∈ u.reads) :
    (removeBuffer r.id u.arg.registeredBuffers).isSome ∧
      ∀ c, (u.step (.complete r.id c)).isSome := by
  have hany : u.reads.any (·.id = r.id) = true :=
    List.any_eq_true.mpr ⟨r, hr, by simp⟩
  rcases removeBuffer_matched Read.id (fun _ _ hR => hR.1) h.tracked.matched r.id with
    ⟨-, hnone⟩ | ⟨b, left, -, hremove, -⟩
  · exact absurd (List.find?_eq_none.mp hnone r hr) (by simp)
  · refine ⟨by rw [hremove]; rfl, fun c => ?_⟩
    rw [Upload.step, if_pos hany, Option.isSome_map]
    exact isSome_readCallback hremove

end Upload

/-! ### Downloads -/

section Download

variable {arg arg' : GridftpOpArg}

/-- Getting a buffer keeps the lists. -/
theorem linked_bufferGet {size optimalBlocksize : ℕ} {malloc : Bool} {buffer : Option Buffer}
    (h : Linked arg) (hget : bufferGet arg size optimalBlocksize malloc = (buffer, arg')) :
    Linked arg' ∧ (∀ b, buffer = some b → arg'.currentBuffer = some b) := by
  rcases hcurrent : arg.currentBuffer with _ | b
  · rcases bufferGet_spec hcurrent hget with ⟨rfl, rfl, -⟩ | ⟨b, free, n, rfl, hb, rfl⟩
    · exact ⟨h, fun b hb => by cases hb⟩
    · refine ⟨h.of_count (fun a => ?_) h.last, fun b' hb' => hb'⟩
      have hsupplied := hb.count a
      simp only [count_addresses, withBuffers, hcurrent, Option.toList_none, Option.toList_some,
        List.map_cons, List.map_nil, List.count_cons, List.count_nil] at hsupplied ⊢
      omega
  · rw [bufferGet, hcurrent] at hget
    obtain ⟨rfl, rfl⟩ := Prod.mk.inj hget
    exact ⟨h, fun b' hb' => hcurrent.trans hb'⟩

/-- Copying into the current buffer keeps the lists. -/
theorem linked_fillCurrent {b : Buffer} {data rest : Bytes} (h : Linked arg)
    (hcurrent : arg.currentBuffer = some b)
    (hfill : arg.fillCurrent b data = some (arg', rest)) : Linked arg' := by
  rw [GridftpOpArg.fillCurrent] at hfill
  simp only at hfill
  split_ifs at hfill
  · obtain ⟨rfl, -⟩ := Prod.mk.inj (Option.some.inj hfill)
    refine h.of_count (fun a => ?_) h.last
    simp [count_addresses, hcurrent]
  · obtain ⟨rfl, -⟩ := Prod.mk.inj (Option.some.inj hfill)
    refine h.of_count (fun a => ?_) h.last
    simp [count_addresses, hcurrent]

/-- Enqueueing the current buffer through `pending_buffers_last` keeps the lists. -/
theorem linked_enqueueCurrent {eof : Bool} (h : Linked arg)
    (henqueue : arg.enqueueCurrent eof = some arg') : Linked arg' := by
  rw [GridftpOpArg.enqueueCurrent] at henqueue
  rcases hcurrent : arg.currentBuffer with _ | b
  · rw [hcurrent] at henqueue
    obtain rfl := Option.some.inj henqueue
    exact h
  · rw [hcurrent] at henqueue
    simp only at henqueue
    split_ifs at henqueue
    · rw [linkPending_of_last h.nodup h.last b] at henqueue
      obtain rfl := Option.some.inj henqueue
      refine h.of_count (fun a => ?_) (by simp)
      simp only [count_addresses, hcurrent, Option.toList_none, Option.toList_some, List.map_append,
        List.map_cons, List.map_nil, List.count_append, List.count_nil]
      omega
    · obtain rfl := Option.some.inj henqueue
      exact h

/-- Sending the pending buffers keeps the lists. -/
theorem Sends.linked {registerWrite : ℕ → Result} {i : ℕ} {last : GridftpOpArg} {result : Result}
    {sent : List Write} (h : Sends registerWrite i arg result last sent) (hlinked : Linked arg) :
    Linked last := by
  induction h with
  | done => exact hlinked
  | refused => exact hlinked.congr rfl rfl rfl rfl
  | sent i arg b later result last writes hpending _ ih =>
      refine ih (hlinked.of_count (fun a => ?_) (getLast?_whole (hpending ▸ hlinked.last)))
      simp only [count_addresses, GridftpOpArg.sendFirst, hpending, List.map_cons, List.count_cons]
      omega

/-- The end of a turn keeps the lists. -/
theorem linked_sendCurrent {server : WriteServer} {eof : Bool} {result : Result}
    {sent : List Write} (h : Linked arg)
    (hsend : arg.sendCurrent server eof = some (result, arg', sent)) : Linked arg' := by
  obtain ⟨full, henqueue, hloop⟩ := Option.map_eq_some_iff.mp hsend
  have hsends : Sends server.registerWrite 0 full _ _ _ :=
    sends_of_loop server.registerWrite 0 rfl
  rw [hloop] at hsends
  exact hsends.linked (linked_enqueueCurrent h henqueue)

/-- The completion of a write keeps the lists. -/
theorem linked_writeCallback (h : Linked arg) (result : Result) (id : ℕ) :
    Linked (gridftpWriteCallback arg result id) := by
  rcases hremove : removeBuffer id arg.registeredBuffers with _ | ⟨b, left⟩
  · rw [gridftpWriteCallback, hremove]
    exact h.congr rfl rfl rfl rfl
  · rw [gridftpWriteCallback_of_remove result hremove]
    refine h.of_count (fun a => ?_) h.last
    have hcount := ((removeBuffer_perm hremove).map Buffer.id).count_eq a
    simp only [count_addresses, GridftpOpArg.release, List.map_cons, List.count_cons] at hcount ⊢
    omega

end Download

namespace Download

/-- A turn for a chunk keeps the lists. -/
theorem linked_chunkTurn {d d' : Download} {server : WriteServer} {optimalConcurrency : ℕ}
    {chunk rest : Bytes} (h : Linked d.arg)
    (hturn : d.chunkTurn server optimalConcurrency chunk rest = some d') : Linked d'.arg := by
  rw [chunkTurn] at hturn
  split_ifs at hturn
  · obtain rfl := Option.some.inj hturn
    exact h
  · rcases hget : bufferGet d.arg rest.length server.optimalBlocksize server.malloc with
      ⟨_ | b, arg₁⟩
    · rw [hget] at hturn
      obtain rfl := Option.some.inj hturn
      exact (linked_bufferGet h hget).1.congr rfl rfl rfl rfl
    · rw [hget] at hturn
      obtain ⟨hlinked, hcurrent⟩ := linked_bufferGet h hget
      obtain ⟨⟨arg₂, left⟩, hfill, hturn⟩ := Option.bind_eq_some_iff.mp hturn
      obtain ⟨⟨result, arg₃, sent⟩, hsend, hturn⟩ := Option.bind_eq_some_iff.mp hturn
      have hlast := linked_sendCurrent (linked_fillCurrent hlinked (hcurrent b rfl) hfill) hsend
      simp only at hturn
      split_ifs at hturn
      · obtain rfl := Option.some.inj hturn
        exact hlast
      · obtain rfl := Option.some.inj hturn
        exact hlast

/-- **One step keeps the lists**, whatever fails in it. -/
theorem step_linked {d d' : Download} {action : DownloadAction} (h : Linked d.arg)
    (hstep : d.step action = some d') : Linked d'.arg := by
  cases action with
  | call chunk =>
      rw [Download.step] at hstep
      split_ifs at hstep
      · obtain rfl := Option.some.inj hstep
        exact h
      · obtain rfl := Option.some.inj hstep
        exact h
  | turn server =>
      rw [Download.step] at hstep
      split at hstep
      · cases hstep
      · exact linked_chunkTurn h hstep
      · exact linked_chunkTurn h hstep
      · obtain ⟨⟨result, arg, sent⟩, hsend, rfl⟩ := Option.map_eq_some_iff.mp hstep
        exact linked_sendCurrent h hsend
      · split_ifs at hstep
        · obtain rfl := Option.some.inj hstep
          exact h
        · obtain rfl := Option.some.inj hstep
          exact h
  | complete id result =>
      rw [Download.step] at hstep
      split_ifs at hstep
      obtain ⟨w, -, rfl⟩ := Option.map_eq_some_iff.mp hstep
      exact linked_writeCallback h result id

end Download

/-! ### Both directions -/

/-- **The buffer lists form a partition.** In every interleaving of an upload whose server
delivers disjoint blocks, and in every interleaving of a download, each buffer that was
allocated is in exactly one place, and `pending_buffers_last` is the `next` pointer of the
last pending buffer. The pending buffers of the upload are strictly sorted and do not
overlap, and every outstanding read finds its buffer among the registered ones. -/
theorem bufferLists_partition (offset length : ℕ) :
    (∀ (eof : Bool) (actions : List UploadAction) (u : Upload),
      Guarded.Along Upload.step Upload.DeliversApart
        (Upload.start (prepareWriteGridftpOp offset length eof)) actions →
      Guarded.run Upload.step (Upload.start (prepareWriteGridftpOp offset length eof)) actions
        = some u →
      Linked u.arg ∧ u.arg.PendingSorted ∧
        ∀ r ∈ u.reads, (removeBuffer r.id u.arg.registeredBuffers).isSome ∧
          ∀ c, (u.step (.complete r.id c)).isSome) ∧
    (∀ (actions : List DownloadAction) (d : Download),
      Guarded.run Download.step (Download.start (prepareReadGridftpOp offset length)) actions
        = some d →
      Linked d.arg) := by
  constructor
  · intro eof actions u halong hrun
    have hlisted : u.Listed := Guarded.invariant (I := Upload.Listed)
      (fun u action u' h happly hstep => h.step happly hstep) (Upload.Listed.start _ _ _)
      halong hrun
    exact ⟨hlisted.linked, hlisted.queued.pendingSorted, fun r hr => hlisted.finds hr⟩
  · intro actions d hrun
    exact Guarded.invariant (I := fun d => Linked d.arg) (P := fun _ _ => True)
      (fun d action d' h _ hstep => Download.step_linked h hstep) (Linked.prepare _ _ _)
      (Guarded.Along.of_forall (fun _ _ => trivial) _ _) hrun

/-- The case of an upload of two blocks, of which the second one arrives first, and of a
download whose only write completed. -/
theorem bufferLists_partition_twoBlocks :
    let server : ReadServer := ⟨10, 2, fun _ => true, fun _ => .success⟩
    let actions : List UploadAction :=
      [.call server 10, .complete 0 ⟨.success, List.replicate 10 66, 10, false⟩,
        .complete 1 ⟨.success, List.replicate 10 65, 0, false⟩]
    let writer : WriteServer := ⟨2, 1, true, fun _ => .success⟩
    (∃ u, Guarded.run Upload.step (.start (prepareWriteGridftpOp 0 20 false)) actions = some u ∧
      u.arg.pendingBuffers.map Buffer.transferOffset = [0, 10] ∧ Linked u.arg ∧
        u.arg.PendingSorted) ∧
    ∃ d, Guarded.run Download.step (.start (prepareReadGridftpOp 0 20))
        [.call (bytes "ABC"), .turn writer, .complete 0 .success] = some d ∧
      d.arg.freeBuffers.map Buffer.id = [0] ∧ Linked d.arg := by
  intro server actions writer
  obtain ⟨hupload, hdownload⟩ := bufferLists_partition 0 20
  constructor
  · have halong : Guarded.Along Upload.step Upload.DeliversApart
        (.start (prepareWriteGridftpOp 0 20 false)) actions := by
      refine ⟨trivial, fun t ht => ⟨fun _ => ⟨by decide, ?_⟩, fun t' ht' => ⟨fun _ =>
        ⟨by decide, ?_⟩, fun _ _ => trivial⟩⟩⟩
      · have hblocks : (Upload.step (.start (prepareWriteGridftpOp 0 20 false))
            (.call server 10)).map Upload.blocks = some [] := by decide +kernel
        rw [ht] at hblocks
        rw [Option.some.inj hblocks]
        exact fun e he => absurd he List.not_mem_nil
      · have hblocks : (Guarded.run Upload.step (.start (prepareWriteGridftpOp 0 20 false))
            (actions.take 2)).map Upload.blocks = some [⟨10, 10⟩] := by decide +kernel
        have hrun : Guarded.run Upload.step (.start (prepareWriteGridftpOp 0 20 false))
            (actions.take 2) = some t' :=
          Guarded.run_cons.mpr ⟨t, ht, Guarded.run_cons.mpr ⟨t', ht', rfl⟩⟩
        rw [hrun] at hblocks
        rw [Option.some.inj hblocks]
        rintro e he p ⟨hp, -⟩ ⟨-, hp'⟩
        obtain rfl := List.mem_singleton.mp he
        simp only [Extent.stop, Completion.extent, List.length_replicate] at hp hp'
        omega
    have hend : (Guarded.run Upload.step (.start (prepareWriteGridftpOp 0 20 false)) actions).map
        (fun u => u.arg.pendingBuffers.map Buffer.transferOffset) = some [0, 10] := by
      decide +kernel
    obtain ⟨u, hrun, hu⟩ := Option.map_eq_some_iff.mp hend
    obtain ⟨hlinked, hsorted, -⟩ := hupload false actions u halong hrun
    exact ⟨u, hrun, hu, hlinked, hsorted⟩
  · have hend : (Guarded.run Download.step (.start (prepareReadGridftpOp 0 20))
        [.call (bytes "ABC"), .turn writer, .complete 0 .success]).map
        (fun d => d.arg.freeBuffers.map Buffer.id) = some [0] := by decide +kernel
    obtain ⟨d, hrun, hd⟩ := Option.map_eq_some_iff.mp hend
    exact ⟨d, hrun, hd, hdownload _ d hrun⟩

end DsiRest
