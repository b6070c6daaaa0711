import DsiRest.Basic

/-!
# Request Body Writers

The data write callbacks that serve a body from memory: `globus_dsi_rest_write_block`
(also behind `write_json` and `write_form`, whose preparation reduces them to one block),
`globus_dsi_rest_write_blocks`, and `globus_dsi_rest_write_multipart`, which interleaves
the output of its parts with delimiter lines and part headers. A multipart part may be
multipart itself, so `Writer`, a callback together with its argument, is a tree.

A call is handed a buffer of `n` bytes and returns a result with the bytes it stored.
The part loop of `write_multipart` has no bound of its own, so calls are fuelled:
`Writer.write fuel w n` is `none` when the call does not come back within `fuel` nested
iterations (or one of its assertions fails), and `Writer.Returns` holds of the value that
every large enough fuel gives.

## Main results

* `length_boundaryText` — the separately computed delimiter length is the length of the
  text that `sprintf` writes.
* `Writer.returns_of_write` — a call that comes back with some fuel comes back with the
  same outcome for all larger ones.
* `Writer.Returns.unique` — a call has at most one outcome.
-/

namespace DsiRest

/-! ### Delimiters -/

/-- The header line `key: value`, or nothing when either string is `NULL`. -/
def headerLine (kv : KeyValue) : Bytes :=
  match kv.key, kv.value with
  | some key, some value => key ++ bytes ": " ++ value ++ crlf
  | _, _ => []

/-- The text `sprintf` builds in `globus_i_dsi_rest_multipart_boundary_prepare`: the
delimiter line and header block that start a part, or the closing delimiter. -/
def boundaryText (delimiter : Bytes) (final : Bool) (partHeader : Option KeyArray) : Bytes :=
  if final then
    bytes "\r\n--" ++ delimiter ++ bytes "--\r\n"
  else
    bytes "\r\n--" ++ delimiter ++ bytes "\r\n" ++
      (partHeader.getD []).flatMap headerLine ++ bytes "\r\n"

/-- The contribution of one header to the computed delimiter length. -/
def headerLength (kv : KeyValue) : ℕ :=
  match kv.key, kv.value with
  | some key, some value => key.length + value.length + 4
  | _, _ => 0

/-- The length computed before the delimiter is allocated. -/
def boundaryLength (delimiter : Bytes) (final : Bool) (partHeader : Option KeyArray) : ℕ :=
  if final then 8 + delimiter.length
  else 8 + delimiter.length + ((partHeader.getD []).map headerLength).sum

/-- `globus_i_dsi_rest_multipart_boundary_prepare`: the delimiter text with its computed
length, or `none` if the text would overrun its allocation. -/
def multipartBoundaryPrepare (delimiter : Bytes) (final : Bool)
    (partHeader : Option KeyArray) : Option (Bytes × ℕ) :=
  let text := boundaryText delimiter final partHeader
  let length := boundaryLength delimiter final partHeader
  if length < text.length then none else some (text, length)

/-- `globus_l_dsi_rest_prepare_boundary` of write_multipart.c, a second copy of the same
function. -/
def prepareBoundary (delimiter : Bytes) (final : Bool) (partHeader : Option KeyArray) :
    Option (Bytes × ℕ) :=
  multipartBoundaryPrepare delimiter final partHeader

theorem length_headerLine (kv : KeyValue) : (headerLine kv).length = headerLength kv := by
  unfold headerLine headerLength
  split
  · simp only [List.length_append, show (bytes ": ").length = 2 from rfl,
      length_crlf]
    omega
  · rfl

/-- **The computed length is the length of the text.** -/
theorem length_boundaryText (delimiter : Bytes) (final : Bool) (partHeader : Option KeyArray) :
    (boundaryText delimiter final partHeader).length
      = boundaryLength delimiter final partHeader := by
  unfold boundaryText boundaryLength
  cases final with
  | true =>
      simp only [if_true, List.length_append, show (bytes "\r\n--").length = 4 from rfl,
        show (bytes "--\r\n").length = 4 from rfl]
      omega
  | false =>
      have hflat : ∀ l : KeyArray, (l.flatMap headerLine).length = (l.map headerLength).sum := by
        intro l
        simp [List.length_flatMap, length_headerLine]
      simp only [Bool.false_eq_true, if_false, List.length_append, hflat,
        show (bytes "\r\n--").length = 4 from rfl, show (bytes "\r\n").length = 2 from rfl]
      omega

/-- The allocation always suffices. -/
theorem multipartBoundaryPrepare_eq (delimiter : Bytes) (final : Bool)
    (partHeader : Option KeyArray) :
    multipartBoundaryPrepare delimiter final partHeader
      = some (boundaryText delimiter final partHeader,
          (boundaryText delimiter final partHeader).length) := by
  rw [multipartBoundaryPrepare, ← length_boundaryText]
  simp

/-- A delimiter is never empty. -/
theorem boundaryText_ne_nil (delimiter : Bytes) (final : Bool) (partHeader : Option KeyArray) :
    boundaryText delimiter final partHeader ≠ [] := by
  intro h
  have hlen := length_boundaryText delimiter final partHeader
  rw [h, boundaryLength] at hlen
  split at hlen <;> simp at hlen <;> omega

/-! ### Writers and their arguments -/

/-- What a data write callback returns: its result and the bytes it put into the buffer,
as many as it reports in `amount_copied`. -/
structure WriteOutcome where
  result : Result
  data : Bytes
  deriving DecidableEq, Repr

/-- A `globus_i_dsi_rest_write_block_arg_t`. -/
structure WriteBlockArg where
  blockData : Bytes
  offset : ℕ
  inBlock : offset ≤ blockData.length

/-- A `globus_i_dsi_rest_write_blocks_arg_t`. -/
structure WriteBlocksArg where
  currentBlock : ℕ
  blocks : List WriteBlockArg

/-- A client's data write callback that yields a fixed byte string: at least one byte of
it per call until it is exhausted, and nothing afterwards. The callback sees the lengths
of the buffers it was given before, and `left` is what it still has to yield. -/
structure FixedWriter where
  write : List ℕ → ℕ → Bytes
  left : List ℕ → Bytes
  left_eq : ∀ calls n, 0 < n → left calls = write calls n ++ left (calls ++ [n])
  length_le : ∀ calls n, (write calls n).length ≤ n
  progress : ∀ calls n, 0 < n → left calls ≠ [] → write calls n ≠ []

/-- The callback that fills every buffer as far as the bytes it has left go. -/
def FixedWriter.ofBytes (data : Bytes) : FixedWriter where
  write calls n := (data.drop calls.sum).take n
  left calls := data.drop calls.sum
  left_eq calls n _ := by
    rw [List.sum_append_nat, List.sum_singleton, ← List.drop_drop, List.take_append_drop]
  length_le calls n := List.length_take_le n _
  progress calls n hn hleft := by
    rw [← List.length_pos_iff] at hleft ⊢
    rw [List.length_take]
    exact Nat.lt_min.mpr ⟨hn, hleft⟩

example : (FixedWriter.ofBytes (bytes "abc")).write [2] 5 = bytes "c" := by decide

/-- One `globus_i_dsi_rest_write_part_t`: the part's headers, and the callback with its
argument. -/
structure WritePart (W : Type) where
  headers : KeyArray
  writer : W

/-- A `globus_i_dsi_rest_write_multipart_arg_t`; `num_parts` is the length of `parts`. -/
structure WriteMultipartArg (W : Type) where
  boundary : Option Bytes
  partIndex : ℕ
  currentBoundary : Option Bytes
  currentBoundaryOffset : ℕ
  currentBoundaryLength : ℕ
  parts : List (WritePart W)

/-- A data write callback with the argument it is called with. `block` stands for
`write_block`, `write_json` and `write_form`; `client` for any callback whatever, as a
function of the lengths of the buffers it was given so far. -/
inductive Writer
  | block (arg : WriteBlockArg)
  | blocks (arg : WriteBlocksArg)
  | fixed (callback : FixedWriter) (calls : List ℕ)
  | client (callback : List ℕ → ℕ → WriteOutcome) (calls : List ℕ)
  | multipart (arg : WriteMultipartArg Writer)

/-! ### Blocks -/

/-- The bytes `globus_l_dsi_rest_write_block` copies next. -/
def WriteBlockArg.chunk (block : WriteBlockArg) (bufferLength : ℕ) : Bytes :=
  (block.blockData.drop block.offset).take bufferLength

/-- The block after `amt` of its remaining bytes were copied. -/
def WriteBlockArg.advance (block : WriteBlockArg) (bufferLength : ℕ) : WriteBlockArg where
  blockData := block.blockData
  offset := block.offset + (block.chunk bufferLength).length
  inBlock := by
    have h := block.inBlock
    simp only [WriteBlockArg.chunk, List.length_take, List.length_drop]
    omega

/-- `globus_l_dsi_rest_write_block`. -/
def writeBlock (block : WriteBlockArg) (bufferLength : ℕ) : WriteOutcome × WriteBlockArg :=
  (⟨.success, block.chunk bufferLength⟩, block.advance bufferLength)

/-- The loop of `globus_l_dsi_rest_write_blocks` over the blocks not finished yet: the
bytes it appends to the `amtCopied` bytes already stored, and the blocks as it leaves
them. Every copy is limited by `bufferLength` alone, not by what is left of it. -/
def writeBlocksLoop (bufferLength : ℕ) : List WriteBlockArg → ℕ → Bytes × ℕ × List WriteBlockArg
  | [], _ => ([], 0, [])
  | block :: later, amtCopied =>
    if amtCopied < bufferLength then
      let data := block.chunk bufferLength
      let block' := block.advance bufferLength
      if block'.offset = block'.blockData.length then
        let (more, finished, later') := writeBlocksLoop bufferLength later (amtCopied + data.length)
        (data ++ more, finished + 1, block' :: later')
      else (data, 0, block' :: later)
    else ([], 0, block :: later)

/-- `globus_l_dsi_rest_write_blocks`. A block that is not finished by a copy has filled
the buffer, so the loop visits each block once. -/
def writeBlocks (blocks : WriteBlocksArg) (bufferLength : ℕ) : WriteOutcome × WriteBlocksArg :=
  let (data, finished, later) :=
    writeBlocksLoop bufferLength (blocks.blocks.drop blocks.currentBlock) 0
  (⟨.success, data⟩,
    ⟨blocks.currentBlock + finished, blocks.blocks.take blocks.currentBlock ++ later⟩)

/-! ### The multipart writer -/

namespace WriteMultipartArg

variable {W : Type}

/-- `globus_l_dsi_rest_write_boundary` and the bookkeeping both of its callers do: copy
what fits of a pending delimiter, and drop the delimiter once it is copied in full. -/
def sendBoundary (arg : WriteMultipartArg W) (room : ℕ) : Bytes × WriteMultipartArg W :=
  match arg.currentBoundary with
  | none => ([], arg)
  | some text =>
    let toCopy := min room (arg.currentBoundaryLength - arg.currentBoundaryOffset)
    let out := (text.drop arg.currentBoundaryOffset).take toCopy
    let offset := arg.currentBoundaryOffset + toCopy
    if offset = arg.currentBoundaryLength then
      (out, { arg with
        currentBoundary := none, currentBoundaryOffset := 0, currentBoundaryLength := 0 })
    else (out, { arg with currentBoundaryOffset := offset })

/-- The end of a part: prepare the delimiter that follows it and go on to the next part.
Without a delimiter string nothing happens here, `part_index++` included. -/
def finishPart (arg : WriteMultipartArg W) : Option (WriteMultipartArg W) :=
  match arg.boundary with
  | none => some arg
  | some delimiter =>
    let final := arg.partIndex + 1 == arg.parts.length
    let partHeader :=
      if final then none else (arg.parts[arg.partIndex + 1]?).map WritePart.headers
    (prepareBoundary delimiter final partHeader).map fun (text, length) =>
      { arg with
        currentBoundary := some text, currentBoundaryLength := length,
        partIndex := arg.partIndex + 1 }

/-- Store the state a part's callback left behind. -/
def setWriter (arg : WriteMultipartArg W) (part : WritePart W) (writer : W) :
    WriteMultipartArg W :=
  { arg with parts := arg.parts.set arg.partIndex { part with writer := writer } }

end WriteMultipartArg

mutual

/-- One call of a data write callback with a buffer of `n` bytes. -/
def Writer.write : ℕ → Writer → ℕ → Option (WriteOutcome × Writer)
  | 0, _, _ => none
  | _ + 1, .block arg, n => some ((writeBlock arg n).1, .block (writeBlock arg n).2)
  | _ + 1, .blocks arg, n => some ((writeBlocks arg n).1, .blocks (writeBlocks arg n).2)
  | _ + 1, .fixed callback calls, n =>
    some (⟨.success, callback.write calls n⟩, .fixed callback (calls ++ [n]))
  | _ + 1, .client callback calls, n =>
    some (callback calls n, .client callback (calls ++ [n]))
  | fuel + 1, .multipart arg, n =>
    let (out, arg') := arg.sendBoundary n
    (writeMultipartLoop fuel arg' out n).map fun (o, arg'') => (o, .multipart arg'')

/-- The `for` loop of `globus_l_dsi_rest_write_multipart`, with `copied` in the buffer. -/
def writeMultipartLoop : ℕ → WriteMultipartArg Writer → Bytes → ℕ →
    Option (WriteOutcome × WriteMultipartArg Writer)
  | 0, _, _, _ => none
  | fuel + 1, arg, copied, n =>
    if copied.length < n then
      match arg.parts[arg.partIndex]? with
      | none => some (⟨.success, copied⟩, arg)
      | some part => do
        let (o, writer) ← part.writer.write fuel (n - copied.length)
        let arg := arg.setWriter part writer
        match o.result with
        | .error e => some (⟨.error e, copied⟩, arg)
        | .success =>
          if n < copied.length + o.data.length then none
          else if o.data = [] then do
            let arg ← arg.finishPart
            let (out, arg) := arg.sendBoundary (n - copied.length)
            writeMultipartLoop fuel arg (copied ++ out) n
          else writeMultipartLoop fuel arg (copied ++ o.data) n
    else some (⟨.success, copied⟩, arg)

end

/-- More fuel does not change the outcome of a call, nor of the part loop. -/
theorem write_succ_fuel : ∀ fuel : ℕ,
    (∀ (w : Writer) (n : ℕ) (r : WriteOutcome × Writer),
      w.write fuel n = some r → w.write (fuel + 1) n = some r) ∧
    (∀ (arg : WriteMultipartArg Writer) (copied : Bytes) (n : ℕ)
      (r : WriteOutcome × WriteMultipartArg Writer),
      writeMultipartLoop fuel arg copied n = some r →
        writeMultipartLoop (fuel + 1) arg copied n = some r) := by
  intro fuel
  induction fuel with
  | zero =>
      constructor
      · intro w n r h
        simp [Writer.write] at h
      · intro arg copied n r h
        simp [writeMultipartLoop] at h
  | succ fuel ih =>
      obtain ⟨ihw, ihl⟩ := ih
      constructor
      · intro w n r h
        cases w with
        | block arg => exact h
        | blocks arg => exact h
        | fixed callback calls => exact h
        | client callback calls => exact h
        | multipart arg =>
            simp only [Writer.write, Option.map_eq_some_iff] at h ⊢
            obtain ⟨a, ha, rfl⟩ := h
            exact ⟨a, ihl _ _ _ _ ha, rfl⟩
      · intro arg copied n r h
        rw [writeMultipartLoop] at h ⊢
        by_cases hlt : copied.length < n
        · rw [if_pos hlt] at h ⊢
          cases hp : arg.parts[arg.partIndex]? with
          | none => simpa only [hp] using h
          | some part =>
              simp only [hp, Option.bind_eq_bind, Option.bind_eq_some_iff] at h ⊢
              obtain ⟨⟨o, w⟩, hw, h⟩ := h
              refine ⟨(o, w), ihw _ _ _ hw, ?_⟩
              cases hr : o.result with
              | error e => simpa only [hr] using h
              | success =>
                  simp only [hr] at h ⊢
                  split at h
                  · exact absurd h (by simp)
                  · rename_i hfit
                    rw [if_neg hfit]
                    split at h
                    · rename_i hnil
                      rw [if_pos hnil]
                      rw [Option.bind_eq_some_iff] at h ⊢
                      obtain ⟨arg', hfin, h⟩ := h
                      exact ⟨arg', hfin, ihl _ _ _ _ h⟩
                    · rename_i hnil
                      rw [if_neg hnil]
                      exact ihl _ _ _ _ h
        · rw [if_neg hlt] at h ⊢
          exact h

/-- A loop that comes to something with one turn more than each large amount of fuel comes
to it with each large amount. -/
theorem exists_enough {P : ℕ → Prop} (enough : ℕ) (h : ∀ fuel, enough ≤ fuel → P (fuel + 1)) :
    ∃ enough, ∀ fuel, enough ≤ fuel → P fuel := by
  refine ⟨enough + 1, fun fuel hfuel => ?_⟩
  obtain ⟨turns, rfl⟩ : ∃ turns, fuel = turns + 1 := ⟨fuel - 1, by omega⟩
  exact h turns (by omega)

/-- A call comes back: every large enough fuel gives this outcome. -/
def Writer.Returns (w : Writer) (n : ℕ) (o : WriteOutcome) (w' : Writer) : Prop :=
  ∃ enough, ∀ fuel, enough ≤ fuel → w.write fuel n = some (o, w')

/-- One sufficient amount of fuel shows that a call comes back. -/
theorem Writer.returns_of_write {w w' : Writer} {n fuel : ℕ} {o : WriteOutcome}
    (h : w.write fuel n = some (o, w')) : w.Returns n o w' := by
  refine ⟨fuel, fun more hmore => ?_⟩
  induction more, hmore using Nat.le_induction with
  | base => exact h
  | succ more _ ih => exact (write_succ_fuel more).1 w n (o, w') ih

/-- A call has at most one outcome. -/
theorem Writer.Returns.unique {w w₁ w₂ : Writer} {n : ℕ} {o₁ o₂ : WriteOutcome}
    (h₁ : w.Returns n o₁ w₁) (h₂ : w.Returns n o₂ w₂) : o₁ = o₂ ∧ w₁ = w₂ := by
  obtain ⟨k₁, h₁⟩ := h₁
  obtain ⟨k₂, h₂⟩ := h₂
  have e := (h₁ (max k₁ k₂) (le_max_left _ _)).symm.trans (h₂ _ (le_max_right _ _))
  simpa using e

end DsiRest
