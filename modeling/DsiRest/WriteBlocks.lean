import DsiRest.Prepare

/-!
# Bodies in Several Blocks

`globus_dsi_rest_write_blocks` is meant to send the concatenation of its blocks, as
`globus_dsi_rest_write_block` would send it from one block. A call copies block after
block while it has copied less than the buffer holds, but limits each copy by the length
of the buffer instead of by what is left of it. So a call is right as long as it either
stays inside one block, ends where a block ends, or reaches the end of the last one; a
call that passes the end of a block and ends inside a later one runs over the buffer.

## Main results

* `writeBlocksLoop_eq` — the exact condition for one call to copy what belongs into the
  buffer, with what it leaves for the next call.
* `length_lt_of_writeBlocksLoop` — every other call writes behind the buffer.
* `writesConcatenation_iff` — over any sequence of calls, the exact condition on the
  lengths of the blocks and of the buffers.
-/

namespace DsiRest

/-! ### Sequences of calls -/

/-- Successive calls of a data write callback with buffers of the given lengths: what
each of them returns, with the argument as it leaves it. -/
def successiveCalls {S : Type} (write : S → ℕ → WriteOutcome × S) :
    S → List ℕ → List (WriteOutcome × S)
  | _, [] => []
  | s, n :: lengths => write s n :: successiveCalls write (write s n).2 lengths

/-- A `write_blocks` argument as the preparation of the request makes it. -/
def WriteBlocksArg.start (blocks : List Bytes) : WriteBlocksArg :=
  ⟨0, blocks.map .start⟩

/-- All blocks are exhausted: `current_block` is past the last one and every offset is at
the end of its block. -/
def WriteBlocksArg.Exhausted (arg : WriteBlocksArg) : Prop :=
  arg.currentBlock = arg.blocks.length ∧
    ∀ block ∈ arg.blocks, block.offset = block.blockData.length

/-- What `write_blocks` is for, over one sequence of calls: every call stays inside its
buffer, the calls return what `write_block` returns on the concatenation of the blocks,
and a call without output finds all blocks exhausted. -/
structure WritesConcatenation (blocks : List Bytes) (lengths : List ℕ) : Prop where
  inBuffer : List.Forall₂ (fun n call => call.1.data.length ≤ n) lengths
    (successiveCalls writeBlocks (.start blocks) lengths)
  asOneBlock : (successiveCalls writeBlocks (.start blocks) lengths).map Prod.fst
    = (successiveCalls writeBlock (.start blocks.flatten) lengths).map Prod.fst
  exhausted : ∀ call ∈ successiveCalls writeBlocks (.start blocks) lengths,
    call.1.data = [] → call.2.Exhausted

/-! ### Where blocks end -/

/-- A position in the concatenation of the blocks up to which a number of blocks reaches. -/
def IsBlockEnd (blocks : List Bytes) (position : ℕ) : Prop :=
  ∃ k, (blocks.take k).flatten.length = position

theorem isBlockEnd_zero (blocks : List Bytes) : IsBlockEnd blocks 0 :=
  ⟨0, by simp⟩

/-- No block ends behind the last one. -/
theorem IsBlockEnd.le_length {blocks : List Bytes} {position : ℕ}
    (h : IsBlockEnd blocks position) : position ≤ blocks.flatten.length := by
  obtain ⟨k, rfl⟩ := h
  conv_rhs => rw [← List.take_append_drop k blocks, List.flatten_append, List.length_append]
  exact Nat.le_add_right _ _

/-- The ends of blocks behind the first one are the ends of the later blocks. -/
theorem isBlockEnd_cons_iff {block : Bytes} {later : List Bytes} {position : ℕ}
    (h : 0 < position) :
    IsBlockEnd (block :: later) position
      ↔ ∃ e, IsBlockEnd later e ∧ block.length + e = position := by
  constructor
  · rintro ⟨k, hk⟩
    cases k with
    | zero =>
        rw [List.take_zero, List.flatten_nil, List.length_nil] at hk
        omega
    | succ k =>
        refine ⟨_, ⟨k, rfl⟩, ?_⟩
        rwa [List.take_succ_cons, List.flatten_cons, List.length_append] at hk
  · rintro ⟨e, ⟨k, hk⟩, he⟩
    refine ⟨k + 1, ?_⟩
    rw [List.take_succ_cons, List.flatten_cons, List.length_append, hk, he]

/-- **The condition on the calls**, the first of which starts at `position`: a call that
ends inside a block started in the same block, or at its beginning. -/
def EndsWithBlocks (blocks : List Bytes) : ℕ → List ℕ → Prop
  | _, [] => True
  | position, n :: lengths =>
    (position + n < blocks.flatten.length → IsBlockEnd blocks (position + n) ∨
      ∀ e, position < e → e < position + n → ¬ IsBlockEnd blocks e) ∧
    EndsWithBlocks blocks (position + n) lengths

/-! ### One call -/

/-- What is left of a block. -/
def WriteBlockArg.rest (block : WriteBlockArg) : Bytes :=
  block.blockData.drop block.offset

/-- What is left of all blocks. -/
def WriteBlocksArg.left (arg : WriteBlocksArg) : List Bytes :=
  (arg.blocks.drop arg.currentBlock).map WriteBlockArg.rest

theorem WriteBlockArg.chunk_eq (block : WriteBlockArg) (n : ℕ) :
    block.chunk n = block.rest.take n := rfl

theorem WriteBlockArg.rest_advance (block : WriteBlockArg) (n : ℕ) :
    (block.advance n).rest = block.rest.drop n := by
  simp only [WriteBlockArg.rest, WriteBlockArg.advance, WriteBlockArg.chunk, List.drop_drop,
    List.length_take, List.length_drop]
  rcases Nat.le_total n (block.blockData.length - block.offset) with h | h
  · rw [min_eq_left h]
  · rw [min_eq_right h, List.drop_eq_nil_of_le (by omega), List.drop_eq_nil_of_le (by omega)]

/-- A block is finished by a copy exactly when no more than one buffer is left of it. -/
theorem WriteBlockArg.advance_finished_iff (block : WriteBlockArg) (n : ℕ) :
    (block.advance n).offset = (block.advance n).blockData.length ↔ block.rest.length ≤ n := by
  have h := block.inBlock
  simp only [WriteBlockArg.rest, WriteBlockArg.advance, WriteBlockArg.chunk, List.length_take,
    List.length_drop]
  omega

/-- With `amtCopied` bytes stored, what the loop has still to copy is right: the room in
the buffer ends with one of the blocks left or behind them all, or nothing is stored yet
and none of them ends inside the buffer. -/
def RoomEnds (n amtCopied : ℕ) (left : List Bytes) : Prop :=
  IsBlockEnd left (n - amtCopied) ∨ left.flatten.length ≤ n - amtCopied ∨
    amtCopied = 0 ∧ ∀ e, 0 < e → e < n → ¬ IsBlockEnd left e

/-- The room that is left after a block that fits is right when the room before it was. -/
theorem roomEnds_cons_iff {n amtCopied : ℕ} {block : Bytes} {later : List Bytes}
    (hfits : amtCopied + block.length < n) :
    RoomEnds n amtCopied (block :: later) ↔ RoomEnds n (amtCopied + block.length) later := by
  have hroom : n - amtCopied = block.length + (n - (amtCopied + block.length)) := by omega
  have hends : IsBlockEnd (block :: later) (n - amtCopied)
      ↔ IsBlockEnd later (n - (amtCopied + block.length)) := by
    rw [isBlockEnd_cons_iff (by omega), hroom]
    simp
  unfold RoomEnds
  rw [hends, List.flatten_cons, List.length_append]
  refine or_congr Iff.rfl (or_congr (by omega) ?_)
  constructor
  · rintro ⟨h0, hnone⟩
    have hlen : block.length = 0 := by
      by_contra hne
      refine hnone block.length (by omega) (by omega) ?_
      exact (isBlockEnd_cons_iff (by omega)).mpr ⟨0, isBlockEnd_zero later, by omega⟩
    refine ⟨by omega, fun e he hen hend => hnone e he hen ?_⟩
    exact (isBlockEnd_cons_iff he).mpr ⟨e, hend, by omega⟩
  · rintro ⟨h0, hnone⟩
    refine ⟨by omega, fun e he hen hend => ?_⟩
    obtain ⟨e', hend', he'⟩ := (isBlockEnd_cons_iff he).mp hend
    exact hnone e' (by omega) (by omega) hend'

/-- What the loop leaves of the blocks it was given. -/
def writeBlocksLeft (n : ℕ) (blocks : List WriteBlockArg) (amtCopied : ℕ) : List Bytes :=
  let copied := writeBlocksLoop n blocks amtCopied
  (copied.2.2.drop copied.2.1).map WriteBlockArg.rest

/-- A block that fits is copied whole, and the loop goes on behind it. -/
theorem writeBlocksLoop_cons_fits {n amtCopied : ℕ} {block : WriteBlockArg}
    (later : List WriteBlockArg) (hlt : amtCopied < n) (hfits : block.rest.length ≤ n) :
    (writeBlocksLoop n (block :: later) amtCopied).1
        = block.rest ++ (writeBlocksLoop n later (amtCopied + block.rest.length)).1 ∧
      writeBlocksLeft n (block :: later) amtCopied
        = writeBlocksLeft n later (amtCopied + block.rest.length) := by
  have hchunk : block.chunk n = block.rest := List.take_of_length_le hfits
  rw [writeBlocksLeft, writeBlocksLoop, if_pos hlt,
    if_pos ((block.advance_finished_iff n).mpr hfits), hchunk]
  exact ⟨rfl, rfl⟩

/-- A block that exceeds the buffer fills it, and the loop stops in it. -/
theorem writeBlocksLoop_cons_long {n amtCopied : ℕ} {block : WriteBlockArg}
    (later : List WriteBlockArg) (hlt : amtCopied < n) (hlong : n < block.rest.length) :
    (writeBlocksLoop n (block :: later) amtCopied).1 = block.rest.take n ∧
      writeBlocksLeft n (block :: later) amtCopied
        = block.rest.drop n :: later.map WriteBlockArg.rest := by
  have hnot : ¬ (block.advance n).offset = (block.advance n).blockData.length := by
    rw [block.advance_finished_iff n]
    omega
  rw [writeBlocksLeft, writeBlocksLoop, if_pos hlt, if_neg hnot]
  exact ⟨rfl, by simp only [List.drop_zero, List.map_cons, block.rest_advance]⟩

/-- **A call with the room ending right** copies what belongs into the buffer and leaves
what follows it, cut into blocks as before. -/
theorem writeBlocksLoop_eq {n : ℕ} : ∀ (blocks : List WriteBlockArg) (amtCopied : ℕ),
    amtCopied ≤ n → RoomEnds n amtCopied (blocks.map WriteBlockArg.rest) →
    (writeBlocksLoop n blocks amtCopied).1
        = (blocks.map WriteBlockArg.rest).flatten.take (n - amtCopied) ∧
      (writeBlocksLeft n blocks amtCopied).flatten
        = (blocks.map WriteBlockArg.rest).flatten.drop (n - amtCopied) ∧
      ∀ e, 0 < e → (IsBlockEnd (writeBlocksLeft n blocks amtCopied) e
        ↔ IsBlockEnd (blocks.map WriteBlockArg.rest) (n - amtCopied + e)) := by
  intro blocks
  induction blocks with
  | nil =>
      intro amtCopied hle hroom
      have hnone : ∀ e, 0 < e → ¬ IsBlockEnd [] e := by
        intro e he hend
        have := hend.le_length
        rw [List.flatten_nil, List.length_nil] at this
        omega
      refine ⟨by simp [writeBlocksLoop], by simp [writeBlocksLeft, writeBlocksLoop],
        fun e he => ?_⟩
      exact iff_of_false (hnone e he) (hnone _ (by omega))
  | cons block later ih =>
      intro amtCopied hle hroom
      rw [List.map_cons] at hroom ⊢
      by_cases hlt : amtCopied < n
      · by_cases hfits : amtCopied + block.rest.length ≤ n
        · -- the block is copied whole; what is right for the room behind it was right before
          obtain ⟨hdata, hleft⟩ := writeBlocksLoop_cons_fits later hlt
            (show block.rest.length ≤ n by omega)
          have hlater : RoomEnds n (amtCopied + block.rest.length)
              (later.map WriteBlockArg.rest) := by
            rcases Nat.lt_or_eq_of_le hfits with hstrict | hfull
            · exact (roomEnds_cons_iff hstrict).mp hroom
            · exact Or.inl (by rw [hfull, Nat.sub_self]; exact isBlockEnd_zero _)
          obtain ⟨ihdata, ihleft, ihends⟩ := ih _ hfits hlater
          have hsub : n - amtCopied
              = block.rest.length + (n - (amtCopied + block.rest.length)) := by omega
          refine ⟨?_, ?_, fun e he => ?_⟩
          · rw [hdata, ihdata, hsub, List.flatten_cons, List.take_length_add_append]
          · rw [hleft, ihleft, hsub, List.flatten_cons, List.drop_length_add_append]
          · rw [hleft, ihends e he, isBlockEnd_cons_iff (by omega)]
            constructor
            · intro hend
              exact ⟨_, hend, by omega⟩
            · rintro ⟨e', hend, he'⟩
              rwa [show n - (amtCopied + block.rest.length) + e = e' by omega]
        · -- the block does not fit, so it is the first one and exceeds the whole buffer
          have hnot : ¬ IsBlockEnd (block.rest :: later.map WriteBlockArg.rest)
              (n - amtCopied) := by
            rw [isBlockEnd_cons_iff (by omega)]
            rintro ⟨e, -, he⟩
            omega
          rcases hroom with hend | hend | ⟨rfl, -⟩
          · exact absurd hend hnot
          · rw [List.flatten_cons, List.length_append] at hend
            omega
          · obtain ⟨hdata, hleft⟩ := writeBlocksLoop_cons_long later hlt
              (show n < block.rest.length by omega)
            refine ⟨?_, ?_, fun e he => ?_⟩
            · rw [hdata, List.flatten_cons, Nat.sub_zero, List.take_append_of_le_length (by omega)]
            · rw [hleft, List.flatten_cons, List.flatten_cons, Nat.sub_zero,
                List.drop_append_of_le_length (by omega)]
            · rw [hleft, isBlockEnd_cons_iff he, isBlockEnd_cons_iff (by omega),
                List.length_drop]
              refine exists_congr fun e' => and_congr Iff.rfl ?_
              omega
      · rw [writeBlocksLeft, writeBlocksLoop, if_neg hlt]
        simp [show n - amtCopied = 0 by omega]

/-- **Every other call writes behind the buffer.** -/
theorem length_lt_of_writeBlocksLoop {n : ℕ} : ∀ (blocks : List WriteBlockArg)
    (amtCopied : ℕ), amtCopied ≤ n → ¬ RoomEnds n amtCopied (blocks.map WriteBlockArg.rest) →
    n - amtCopied < (writeBlocksLoop n blocks amtCopied).1.length := by
  intro blocks
  induction blocks with
  | nil =>
      intro amtCopied hle hroom
      exact absurd (Or.inr (Or.inl (by simp))) hroom
  | cons block later ih =>
      intro amtCopied hle hroom
      rw [List.map_cons] at hroom
      have hlt : amtCopied < n := by
        by_contra hge
        refine hroom (Or.inl ?_)
        rw [show n - amtCopied = 0 by omega]
        exact isBlockEnd_zero _
      rcases Nat.lt_trichotomy (amtCopied + block.rest.length) n with hless | hfull | hlong
      · rw [(writeBlocksLoop_cons_fits later hlt (show block.rest.length ≤ n by omega)).1,
          List.length_append]
        have := ih _ hless.le fun hends => hroom ((roomEnds_cons_iff hless).mpr hends)
        omega
      · refine absurd (Or.inl ?_) hroom
        exact (isBlockEnd_cons_iff (by omega)).mpr ⟨0, isBlockEnd_zero _, by omega⟩
      · have hpos : amtCopied ≠ 0 := by
          rintro rfl
          refine hroom (Or.inr (Or.inr ⟨rfl, fun e he hen hend => ?_⟩))
          obtain ⟨e', -, he'⟩ := (isBlockEnd_cons_iff he).mp hend
          omega
        rcases Nat.lt_or_ge n block.rest.length with hbig | hsmall
        · rw [(writeBlocksLoop_cons_long later hlt hbig).1, List.length_take]
          omega
        · rw [(writeBlocksLoop_cons_fits later hlt hsmall).1, List.length_append]
          omega

/-- The loop keeps the blocks, and those it counts as finished are at their ends. -/
theorem writeBlocksLoop_finished {n : ℕ} : ∀ (blocks : List WriteBlockArg) (amtCopied : ℕ),
    (writeBlocksLoop n blocks amtCopied).2.2.length = blocks.length ∧
      (writeBlocksLoop n blocks amtCopied).2.1 ≤ blocks.length ∧
      ∀ block ∈ (writeBlocksLoop n blocks amtCopied).2.2.take
        (writeBlocksLoop n blocks amtCopied).2.1, block.offset = block.blockData.length := by
  intro blocks
  induction blocks with
  | nil =>
      intro amtCopied
      simp [writeBlocksLoop]
  | cons block later ih =>
      intro amtCopied
      rw [writeBlocksLoop]
      by_cases hlt : amtCopied < n
      · rw [if_pos hlt]
        by_cases hdone : (block.advance n).offset = (block.advance n).blockData.length
        · rw [if_pos hdone]
          obtain ⟨hlen, hle, hends⟩ := ih (amtCopied + (block.chunk n).length)
          refine ⟨by simp [hlen], by simpa using hle, ?_⟩
          intro b hb
          rw [List.take_succ_cons, List.mem_cons] at hb
          rcases hb with rfl | hb
          · exact hdone
          · exact hends b hb
        · simp [hdone]
      · simp [hlt]

/-- A call without output finishes all the blocks it is given. -/
theorem writeBlocksLoop_silent {n : ℕ} : ∀ (blocks : List WriteBlockArg) (amtCopied : ℕ),
    amtCopied < n → (writeBlocksLoop n blocks amtCopied).1 = [] →
    (writeBlocksLoop n blocks amtCopied).2.1 = blocks.length := by
  intro blocks
  induction blocks with
  | nil =>
      intro amtCopied hlt hsilent
      rfl
  | cons block later ih =>
      intro amtCopied hlt hsilent
      have hempty : block.chunk n = [] := by
        rw [writeBlocksLoop, if_pos hlt] at hsilent
        by_cases hdone : (block.advance n).offset = (block.advance n).blockData.length
        · rw [if_pos hdone] at hsilent
          exact (List.append_eq_nil_iff.mp hsilent).1
        · rwa [if_neg hdone] at hsilent
      have hrest : block.rest = [] := by
        rw [block.chunk_eq, List.take_eq_nil_iff] at hempty
        rcases hempty with h0 | h
        · omega
        · exact h
      have hfinished : (block.advance n).offset = (block.advance n).blockData.length := by
        rw [block.advance_finished_iff, hrest]
        exact Nat.zero_le n
      rw [writeBlocksLoop, if_pos hlt, if_pos hfinished, hempty] at hsilent ⊢
      exact congrArg (· + 1) (ih amtCopied hlt hsilent)

/-! ### Sequences of calls and the positions they reach -/

/-- A sequence of right calls has come to `position`: the blocks before the current one
are finished, and the others hold what follows the position, ending where they should. -/
structure WriteBlocksArg.Stands (blocks : List Bytes) (position : ℕ) (arg : WriteBlocksArg) :
    Prop where
  inBlocks : arg.currentBlock ≤ arg.blocks.length
  finished : ∀ block ∈ arg.blocks.take arg.currentBlock, block.offset = block.blockData.length
  left : arg.left.flatten = blocks.flatten.drop position
  ends : ∀ e, 0 < e → (IsBlockEnd arg.left e ↔ IsBlockEnd blocks (position + e))

theorem WriteBlockArg.rest_start (block : Bytes) : (WriteBlockArg.start block).rest = block := rfl

/-- The argument as it is prepared is at the start of the first block. -/
theorem WriteBlocksArg.stands_start (blocks : List Bytes) :
    (WriteBlocksArg.start blocks).Stands blocks 0 := by
  have hleft : (WriteBlocksArg.start blocks).left = blocks := by
    simp [WriteBlocksArg.left, WriteBlocksArg.start, Function.comp_def,
      WriteBlockArg.rest_start]
  constructor
  · exact Nat.zero_le _
  · intro block hblock
    exact absurd hblock (by simp [WriteBlocksArg.start])
  · rw [hleft, List.drop_zero]
  · intro e he
    rw [hleft, Nat.zero_add]

/-- What a call leaves of the blocks. -/
theorem WriteBlocksArg.left_writeBlocks {arg : WriteBlocksArg}
    (h : arg.currentBlock ≤ arg.blocks.length) (n : ℕ) :
    (writeBlocks arg n).2.left = writeBlocksLeft n (arg.blocks.drop arg.currentBlock) 0 := by
  have hlen : (arg.blocks.take arg.currentBlock).length = arg.currentBlock := by
    rw [List.length_take]
    omega
  simp only [WriteBlocksArg.left, writeBlocks, writeBlocksLeft]
  rw [← List.drop_drop, List.drop_left' hlen]

/-- The blocks before the current one stay finished, whether a call is right or not. -/
theorem WriteBlocksArg.finished_writeBlocks {arg : WriteBlocksArg}
    (hin : arg.currentBlock ≤ arg.blocks.length)
    (hfin : ∀ block ∈ arg.blocks.take arg.currentBlock,
      block.offset = block.blockData.length) (n : ℕ) :
    (writeBlocks arg n).2.currentBlock ≤ (writeBlocks arg n).2.blocks.length ∧
      ∀ block ∈ (writeBlocks arg n).2.blocks.take (writeBlocks arg n).2.currentBlock,
        block.offset = block.blockData.length := by
  obtain ⟨hlen, hle, hends⟩ :=
    writeBlocksLoop_finished (n := n) (arg.blocks.drop arg.currentBlock) 0
  have htake : (arg.blocks.take arg.currentBlock).length = arg.currentBlock := by
    rw [List.length_take]
    omega
  constructor
  · show arg.currentBlock + (writeBlocksLoop n (arg.blocks.drop arg.currentBlock) 0).2.1 ≤ _
    simp only [writeBlocks, List.length_append, htake, hlen]
    exact Nat.add_le_add_left hle _
  · intro block hblock
    simp only [writeBlocks, List.take_append, htake, List.mem_append] at hblock
    rcases hblock with hblock | hblock
    · exact hfin block (List.mem_of_mem_take hblock)
    · rw [Nat.add_sub_cancel_left] at hblock
      exact hends block hblock

/-- A call without output leaves all blocks exhausted. -/
theorem WriteBlocksArg.Stands.exhausted {blocks : List Bytes} {position n : ℕ}
    {arg : WriteBlocksArg} (h : arg.Stands blocks position) (hn : 0 < n)
    (hsilent : (writeBlocks arg n).1.data = []) : (writeBlocks arg n).2.Exhausted := by
  have hall := writeBlocksLoop_silent (arg.blocks.drop arg.currentBlock) 0 hn hsilent
  obtain ⟨hlen, -, -⟩ := writeBlocksLoop_finished (n := n) (arg.blocks.drop arg.currentBlock) 0
  obtain ⟨-, hends⟩ := WriteBlocksArg.finished_writeBlocks h.inBlocks h.finished n
  have hcurrent : (writeBlocks arg n).2.currentBlock = (writeBlocks arg n).2.blocks.length := by
    have := h.inBlocks
    simp only [writeBlocks, List.length_append, List.length_take, hlen, hall]
    omega
  rw [hcurrent, List.take_length] at hends
  exact ⟨hcurrent, hends⟩

/-- The condition on a call, in terms of what the calls before it left. -/
theorem WriteBlocksArg.Stands.roomEnds_iff {blocks : List Bytes} {position : ℕ}
    {arg : WriteBlocksArg} (h : arg.Stands blocks position) {n : ℕ} (hn : 0 < n) :
    RoomEnds n 0 arg.left ↔
      (position + n < blocks.flatten.length → IsBlockEnd blocks (position + n) ∨
        ∀ e, position < e → e < position + n → ¬ IsBlockEnd blocks e) := by
  have hinside : (∀ e, 0 < e → e < n → ¬ IsBlockEnd arg.left e)
      ↔ ∀ e, position < e → e < position + n → ¬ IsBlockEnd blocks e := by
    constructor
    · intro hnone e hlo hhi hend
      refine hnone (e - position) (by omega) (by omega) ((h.ends _ (by omega)).mpr ?_)
      rwa [Nat.add_sub_cancel' hlo.le]
    · intro hnone e hlo hhi hend
      exact hnone (position + e) (by omega) (by omega) ((h.ends e hlo).mp hend)
  have hlong : arg.left.flatten.length ≤ n ↔ ¬ position + n < blocks.flatten.length := by
    rw [h.left, List.length_drop]
    omega
  unfold RoomEnds
  rw [Nat.sub_zero, h.ends n hn, hlong, hinside]
  tauto

/-- **A right call** returns what follows the position, and moves it. -/
theorem WriteBlocksArg.Stands.writeBlocks {blocks : List Bytes} {position n : ℕ}
    {arg : WriteBlocksArg} (h : arg.Stands blocks position) (hroom : RoomEnds n 0 arg.left) :
    (writeBlocks arg n).1 = ⟨.success, (blocks.flatten.drop position).take n⟩ ∧
      (writeBlocks arg n).2.Stands blocks (position + n) := by
  obtain ⟨hdata, hleft, hends⟩ :=
    writeBlocksLoop_eq (arg.blocks.drop arg.currentBlock) 0 (Nat.zero_le n) hroom
  rw [Nat.sub_zero] at hdata hleft hends
  obtain ⟨hin, hfin⟩ := WriteBlocksArg.finished_writeBlocks h.inBlocks h.finished n
  constructor
  · show (⟨.success, _⟩ : WriteOutcome) = _
    rw [hdata, ← h.left]
    rfl
  · refine ⟨hin, hfin, ?_, fun e he => ?_⟩
    · rw [WriteBlocksArg.left_writeBlocks h.inBlocks, hleft, ← List.drop_drop, ← h.left]
      rfl
    · rw [WriteBlocksArg.left_writeBlocks h.inBlocks, hends e he, Nat.add_assoc,
        ← h.ends (n + e) (by omega)]
      rfl

/-- The sequence of calls from a position on is right exactly when each of its calls is. -/
theorem endsWithBlocks_iff_calls {blocks : List Bytes} : ∀ (lengths : List ℕ) (position : ℕ)
    (arg : WriteBlocksArg) (one : WriteBlockArg), arg.Stands blocks position →
    one.rest = blocks.flatten.drop position → (∀ n ∈ lengths, 0 < n) →
    (EndsWithBlocks blocks position lengths ↔
      List.Forall₂ (fun n call => call.1.data.length ≤ n) lengths
          (successiveCalls writeBlocks arg lengths) ∧
        (successiveCalls writeBlocks arg lengths).map Prod.fst
          = (successiveCalls writeBlock one lengths).map Prod.fst ∧
        ∀ call ∈ successiveCalls writeBlocks arg lengths,
          call.1.data = [] → call.2.Exhausted) := by
  intro lengths
  induction lengths with
  | nil =>
      intro position arg one h hone hpos
      simp [EndsWithBlocks, successiveCalls]
  | cons n lengths ih =>
      intro position arg one h hone hpos
      have hn : 0 < n := hpos n List.mem_cons_self
      rw [EndsWithBlocks, ← h.roomEnds_iff hn]
      simp only [successiveCalls, List.forall₂_cons, List.map_cons, List.cons.injEq,
        List.forall_mem_cons]
      by_cases hroom : RoomEnds n 0 arg.left
      · obtain ⟨hdata, hnext⟩ := h.writeBlocks hroom
        have hout : (writeBlock one n).1 = (writeBlocks arg n).1 := by
          rw [hdata, writeBlock, one.chunk_eq, hone]
        have hone' : (writeBlock one n).2.rest = blocks.flatten.drop (position + n) := by
          rw [writeBlock, one.rest_advance, hone, List.drop_drop]
        have hfits : (writeBlocks arg n).1.data.length ≤ n := by
          rw [hdata, List.length_take]
          exact min_le_left _ _
        have hsilent := h.exhausted hn
        rw [ih (position + n) _ _ hnext hone' fun m hm => hpos m (List.mem_cons_of_mem _ hm),
          hout]
        tauto
      · have hover := length_lt_of_writeBlocksLoop _ 0 (Nat.zero_le n) hroom
        rw [Nat.sub_zero] at hover
        have hnot : ¬ (writeBlocks arg n).1.data.length ≤ n := not_le.mpr hover
        tauto

/-- **The condition for a body in several blocks to be sent right.** Over every sequence
of positive buffer lengths, `write_blocks` stays inside the buffers and sends the
concatenation of its blocks exactly when every call that ends inside a block started in
the same block, or at its beginning. -/
theorem writesConcatenation_iff (blocks : List Bytes) (lengths : List ℕ)
    (hpos : ∀ n ∈ lengths, 0 < n) :
    WritesConcatenation blocks lengths ↔ EndsWithBlocks blocks 0 lengths := by
  rw [endsWithBlocks_iff_calls lengths 0 (.start blocks) (.start blocks.flatten)
    (WriteBlocksArg.stands_start blocks) rfl hpos]
  constructor
  · rintro ⟨hin, heq, hsilent⟩
    exact ⟨hin, heq, hsilent⟩
  · rintro ⟨hin, heq, hsilent⟩
    exact ⟨hin, heq, hsilent⟩

/-- One buffer that holds both blocks is enough. -/
theorem writesConcatenation_one_buffer :
    WritesConcatenation [bytes "a", bytes "bc"] [3, 3] :=
  (writesConcatenation_iff _ _ (by decide)).mpr
    ⟨fun h => absurd h (by decide), fun h => absurd h (by decide), trivial⟩

/-- A buffer of two bytes receives the one byte of the first block and then both bytes of
the second one. -/
theorem writesConcatenation_overrun :
    (writeBlocks (.start [bytes "a", bytes "bc"]) 2).1 = ⟨.success, bytes "abc"⟩ ∧
      ¬ WritesConcatenation [bytes "a", bytes "bc"] [2] := by
  refine ⟨by decide, ?_⟩
  rintro ⟨hin, -, -⟩
  rw [successiveCalls, List.forall₂_cons] at hin
  exact absurd hin.1 (by decide)

end DsiRest
