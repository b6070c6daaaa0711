import DsiRest.GridftpOp

/-!
# Uploading from a GridFTP Operation

`globus_dsi_rest_write_gridftp_op` is the data write callback that sends what the data
channels of a GridFTP operation receive. It registers reads with the GridFTP server, whose
completions arrive on other threads, in any order and between any two sections in which
the caller holds the mutex: `Upload.step` takes one such section or one completion at a
time. A section ends when the call returns or waits on the condition variable, and a
waiting call may wake up at any time.

What the GridFTP server answers is part of an action. A step is undefined where an
assertion of the source fails.
-/

namespace DsiRest

/-! ### Predicates and counts -/

namespace GridftpOpArg

/-- `globus_l_dsi_rest_is_transfer_offset_ready`. -/
def isTransferOffsetReady (arg : GridftpOpArg) : Bool :=
  match arg.pendingBuffers with
  | [] => false
  | buffer :: _ => buffer.transferOffset == arg.offset

/-- `globus_l_dsi_rest_is_reading_complete`. -/
def isReadingComplete (arg : GridftpOpArg) : Bool :=
  arg.eof && arg.registeredBuffers.isEmpty

end GridftpOpArg

/-- `bytes_available` of `globus_l_dsi_rest_count_buffers`; `current` is the length of the
list. -/
def countBuffersAvailable (buffers : List Buffer) : ℕ :=
  buffers.foldl (fun available b => add64 available (sub64 b.bufferLen b.bufferUsed)) 0

/-! ### Registering reads -/

/-- What the GridFTP server and `malloc` answer while reads are registered, by the value
of the loop counter. -/
structure ReadServer where
  optimalBlocksize : ℕ
  optimalConcurrency : ℕ
  malloc : ℕ → Bool
  registerRead : ℕ → Result

/-- A read that was registered and did not complete yet: the address of its buffer and the
`length` passed to `globus_gridftp_server_register_read`. -/
structure Read where
  id : ℕ
  length : ℕ
  deriving DecidableEq, Repr

/-- A turn of the loop that registers reads: the value of `remaining`, and of `this_read`
if a read was registered. -/
structure Turn where
  remaining : ℕ
  thisRead : Option ℕ
  deriving DecidableEq, Repr

/-- What registering reads comes to: the result and the argument, the reads that are
outstanding now, and the turns of the loop. -/
structure Registering where
  result : Result
  arg : GridftpOpArg
  reads : List Read
  turns : List Turn

/-- `remaining` as computed in each turn; `-1` as `end_offset` is the end of the file. -/
def remainingLength (arg : GridftpOpArg) (optimalBlocksize bytesRegistered : ℕ) : ℕ :=
  if arg.endOffset ≠ minusOne64 then sub64 (sub64 arg.endOffset arg.offset) bytesRegistered
  else optimalBlocksize

/-- The loop of `globus_l_dsi_rest_write_register_reads` from `i` on, with the number of
turns to `optimal_concurrency`. -/
def registerReadsLoop (server : ReadServer) :
    ℕ → ℕ → GridftpOpArg → List Read → ℕ → Option Registering
  | 0, _, arg, reads, _ => some ⟨.success, arg, reads, []⟩
  | turns + 1, i, arg, reads, bytesRegistered =>
    let remaining := remainingLength arg server.optimalBlocksize bytesRegistered
    if arg.endOffset ≠ minusOne64 ∧ remaining = 0 then
      some ⟨.success, arg, reads, [⟨remaining, none⟩]⟩
    else
      match bufferGet arg server.optimalBlocksize server.optimalBlocksize (server.malloc i) with
      | (none, arg) =>
        some ⟨.error .memory, { arg with currentBuffer := none }, reads, [⟨remaining, none⟩]⟩
      | (some buffer, arg) =>
        -- `assert(buffer->buffer_used == 0)`
        if buffer.bufferUsed ≠ 0 then none
        else
          let buffer := { buffer with transferOffset := minusOne64 }
          let thisRead := if remaining < buffer.bufferLen then remaining else buffer.bufferLen
          match server.registerRead i with
          | .error e =>
            some ⟨.error e, { arg with
              currentBuffer := none, freeBuffers := buffer :: arg.freeBuffers },
              reads, [⟨remaining, none⟩]⟩
          | .success =>
            let arg := { arg with
              currentBuffer := none, registeredBuffers := buffer :: arg.registeredBuffers }
            (registerReadsLoop server turns (i + 1) arg (⟨buffer.id, thisRead⟩ :: reads)
              (add64 bytesRegistered thisRead)).map fun later =>
                { later with turns := ⟨remaining, some thisRead⟩ :: later.turns }

/-- `globus_l_dsi_rest_write_register_reads`; `reads` are the outstanding reads. -/
def writeRegisterReads (server : ReadServer) (arg : GridftpOpArg) (reads : List Read) :
    Option Registering :=
  if arg.result = .success ∧ arg.eof = false then
    let currentlyRegistered := arg.registeredBuffers.length
    registerReadsLoop server (server.optimalConcurrency - currentlyRegistered)
      currentlyRegistered arg reads (countBuffersAvailable arg.registeredBuffers)
  else some ⟨.success, arg, reads, []⟩

/-! ### The read callback -/

/-- The address a buffer ends at in the file, as the read callback computes it. -/
def Buffer.transferEnd (b : Buffer) : ℕ :=
  add64 b.transferOffset b.bufferUsed

/-- Add a buffer to the pending buffers, in order. -/
def GridftpOpArg.addPending (arg : GridftpOpArg) (buffer : Buffer) : GridftpOpArg :=
  let before := arg.pendingBuffers.takeWhile
    fun tmp => decide (tmp.transferEnd ≤ buffer.transferOffset)
  let after := arg.pendingBuffers.dropWhile
    fun tmp => decide (tmp.transferEnd ≤ buffer.transferOffset)
  { arg with
    pendingBuffers := before ++ buffer :: after
    pendingBuffersLast := if after = [] then some buffer.id else arg.pendingBuffersLast }

/-- The test whether a completion reaches the end of the range. -/
def GridftpOpArg.ends (arg : GridftpOpArg) (offset nbytes : ℕ) : Bool :=
  decide (arg.endOffset ≠ 0 ∧ add64 offset nbytes = arg.endOffset)

/-- The head of the read callback: the result and the end of the data are noted. -/
def GridftpOpArg.note (arg : GridftpOpArg) (result : Result) (eof ended : Bool) : GridftpOpArg :=
  { arg with
    eofp := arg.eofp || eof, result := arg.result.latch result, eof := arg.eof || (eof || ended) }

/-- `globus_l_dsi_rest_gridftp_read_callback` for the buffer `id`, which holds `data` of
the file from `offset` on, and whether it signals the condition variable. -/
def gridftpReadCallback (arg : GridftpOpArg) (result : Result) (id : ℕ) (data : Bytes)
    (offset : ℕ) (eof : Bool) : Option (GridftpOpArg × Bool) :=
  let nbytes := data.length
  let ended := arg.ends offset nbytes
  let arg := arg.note result eof ended
  match removeBuffer id arg.registeredBuffers with
  -- `assert(rest_buffer != NULL)`
  | none => none
  | some (restBuffer, registered) =>
    let arg := { arg with registeredBuffers := registered }
    let restBuffer := { restBuffer.store 0 data with
      transferOffset := offset, bufferUsed := nbytes }
    if arg.result ≠ .success then
      let restBuffer := { restBuffer with bufferUsed := 0, transferOffset := 0 }
      some ({ arg with eof := true, freeBuffers := restBuffer :: arg.freeBuffers }, true)
    else if nbytes = 0 then
      let restBuffer := { restBuffer with transferOffset := minusOne64, bufferUsed := minusOne64 }
      some ({ arg with freeBuffers := restBuffer :: arg.freeBuffers }, eof || ended)
    else some (arg.addPending restBuffer, true)

/-! ### The write callback -/

/-- `to_copy`: an `int`, compared with a `size_t`. -/
def toCopyLength (bufferLength bufferFilled bufferUsed : ℕ) : ℤ :=
  let toCopy := intOfSize (bufferLength - bufferFilled)
  if bufferUsed < sizeOfInt toCopy then intOfSize bufferUsed else toCopy

/-- The copying loop of `globus_l_dsi_rest_write_gridftp_op`; `filled` is in the buffer
already. Every turn copies at least one byte, so `bufferLength` turns are enough. -/
def copyPending (bufferLength : ℕ) : ℕ → GridftpOpArg → Bytes → Option (Bytes × GridftpOpArg)
  | 0, arg, filled => some (filled, arg)
  | turns + 1, arg, filled =>
    match arg.pendingBuffers with
    | [] => some (filled, arg)
    | restBuffer :: later =>
      if filled.length < bufferLength ∧ restBuffer.transferOffset = arg.offset then
        let toCopy := toCopyLength bufferLength filled.length restBuffer.bufferUsed
        -- `assert (to_copy > 0)`
        if toCopy ≤ 0 then none
        else
          let amt := sizeOfInt toCopy
          let filled := filled ++ restBuffer.buffer.take amt
          let arg := { arg with offset := add64 arg.offset amt }
          if amt < restBuffer.bufferUsed then
            let left := (restBuffer.buffer.drop amt).take (restBuffer.bufferUsed - amt)
            let restBuffer := { restBuffer.store 0 left with
              bufferUsed := restBuffer.bufferUsed - amt
              transferOffset := add64 restBuffer.transferOffset amt }
            copyPending bufferLength turns
              { arg with pendingBuffers := restBuffer :: later } filled
          else
            let restBuffer := { restBuffer with transferOffset := minusOne64, bufferUsed := 0 }
            copyPending bufferLength turns
              { arg with
                pendingBuffers := later
                pendingBuffersLast := if later = [] then none else arg.pendingBuffersLast
                freeBuffers := restBuffer :: arg.freeBuffers } filled
      else some (filled, arg)

/-- How a section of a call ends: in `globus_cond_wait`, with the local `result`, or with
the result the call returns and the bytes it copied. -/
inductive SectionEnd
  | waiting (result : Result)
  | returned (result : Result) (copied : Bytes)
  deriving DecidableEq, Repr

/-- A section of a call: how it ends, and what it leaves behind. -/
structure WriteSection where
  ended : SectionEnd
  arg : GridftpOpArg
  reads : List Read
  turns : List Turn

/-- The end of `globus_l_dsi_rest_write_gridftp_op`, behind the waiting loop. -/
def writeGridftpOpCopy (bufferLength : ℕ) (result : Result) (arg : GridftpOpArg)
    (reads : List Read) (turns : List Turn) : Option WriteSection :=
  if arg.result ≠ .success then some ⟨.returned arg.result [], arg, reads, turns⟩
  else
    (copyPending bufferLength bufferLength arg []).map fun (filled, arg) =>
      ⟨.returned result filled, arg, reads, turns⟩

/-- `globus_l_dsi_rest_write_gridftp_op` from the test of the waiting loop on. -/
def writeGridftpOpLoop (server : ReadServer) (bufferLength : ℕ) (result : Result)
    (arg : GridftpOpArg) (reads : List Read) : Option WriteSection :=
  if arg.isTransferOffsetReady || arg.isReadingComplete then
    writeGridftpOpCopy bufferLength result arg reads []
  else do
    let registering ← writeRegisterReads server arg reads
    let arg := registering.arg.record registering.result
    if arg.result ≠ .success ∧ arg.registeredBuffers = [] then
      writeGridftpOpCopy bufferLength registering.result arg registering.reads registering.turns
    else some ⟨.waiting registering.result, arg, registering.reads, registering.turns⟩

/-- `globus_l_dsi_rest_write_gridftp_op` from its start on. -/
def writeGridftpOp (server : ReadServer) (bufferLength : ℕ) (arg : GridftpOpArg)
    (reads : List Read) : Option WriteSection :=
  let arg := arg.record .success
  if arg.offset = arg.endOffset then
    some ⟨.returned .success [], { arg with eof := true }, reads, []⟩
  else writeGridftpOpLoop server bufferLength .success arg reads

/-! ### Uploads -/

/-- A completion of a read, as the read callback gets it. -/
structure Completion where
  result : Result
  data : Bytes
  offset : ℕ
  eof : Bool
  deriving DecidableEq, Repr

/-- A call that returned: its `buffer_length`, its result and the bytes it copied. -/
structure WriteCall where
  bufferLength : ℕ
  result : Result
  copied : Bytes
  deriving DecidableEq, Repr

/-- The state of an upload: the argument, the call that waits with its `buffer_length` and
local `result`, and the outstanding reads. What happened so far is kept with it: the
completions, the calls that returned, and the turns of the registering loop. -/
structure Upload where
  arg : GridftpOpArg
  waiting : Option (ℕ × Result)
  reads : List Read
  completions : List Completion
  calls : List WriteCall
  turns : List Turn

/-- What happens next: libcurl calls, the waiting call wakes up, or a read completes. -/
inductive UploadAction
  | call (server : ReadServer) (bufferLength : ℕ)
  | wake (server : ReadServer)
  | complete (id : ℕ) (completion : Completion)

namespace Upload

/-- An upload that was not called yet. -/
def start (arg : GridftpOpArg) : Upload :=
  ⟨arg, none, [], [], [], []⟩

/-- The state after a section of a call. -/
def after (u : Upload) (bufferLength : ℕ) (ws : WriteSection) : Upload :=
  match ws.ended with
  | .waiting result => { u with
      arg := ws.arg, waiting := some (bufferLength, result), reads := ws.reads
      turns := u.turns ++ ws.turns }
  | .returned result copied => { u with
      arg := ws.arg, waiting := none, reads := ws.reads
      calls := u.calls ++ [⟨bufferLength, result, copied⟩], turns := u.turns ++ ws.turns }

/-- The next state. libcurl makes one call at a time, and only outstanding reads complete. -/
def step (u : Upload) : UploadAction → Option Upload
  | .call server bufferLength =>
    match u.waiting with
    | some _ => none
    | none => (writeGridftpOp server bufferLength u.arg u.reads).map (u.after bufferLength)
  | .wake server =>
    match u.waiting with
    | none => none
    | some (bufferLength, result) =>
      (writeGridftpOpLoop server bufferLength result u.arg u.reads).map (u.after bufferLength)
  | .complete id c =>
    if u.reads.any (·.id = id) then
      (gridftpReadCallback u.arg c.result id c.data c.offset c.eof).map fun (arg, _) =>
        { u with
          arg := arg, reads := u.reads.eraseP (·.id = id), completions := u.completions ++ [c] }
    else none

/-- All bytes that were copied so far. -/
def copied (u : Upload) : Bytes :=
  u.calls.flatMap WriteCall.copied

end Upload

end DsiRest
