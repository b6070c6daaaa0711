import DsiRest.GridftpOp

/-!
# Downloading to a GridFTP Operation

`globus_dsi_rest_read_gridftp_op` is the data read callback that passes what the REST server
sends to the data channels of a GridFTP operation. It packs the chunks it is called with
into buffers, registers a write for every full buffer, and is told the end of the data by a
call without data, which registers the last buffer and waits for all writes.

The GridFTP server calls `globus_l_dsi_rest_gridftp_write_callback` for each write, in any
order and whenever the reader does not hold the mutex. `Download.step` takes one turn of
the reader's loop or one such callback at a time; `Reader` says where the reader is.

Where `malloc` fails the source jumps over the unlocking of the mutex, so that no call and
no callback gets past its locking any more: the state is `locked`.

A step is undefined where an assertion of the source fails, or where `pending_buffers_last`
points into a buffer that is not pending.
-/

namespace DsiRest

/-! ### Pending buffers -/

/-- Set the `next` pointer of the buffer with a given address to a buffer that ends the
list. -/
def linkAfter (id : ℕ) (buffer : Buffer) : List Buffer → Option (List Buffer)
  | [] => none
  | b :: bs => if b.id = id then some [b, buffer] else (linkAfter id buffer bs).map (b :: ·)

namespace GridftpOpArg

/-- The pending buffers after `*pending_buffers_last = buffer`. -/
def linkPending (arg : GridftpOpArg) (buffer : Buffer) : Option (List Buffer) :=
  match arg.pendingBuffersLast with
  | none => some [buffer]
  | some id => linkAfter id buffer arg.pendingBuffers

/-- Append the current buffer to the pending ones through `pending_buffers_last`, if it is
full, or if it is not empty at the end of the data. -/
def enqueueCurrent (arg : GridftpOpArg) (eof : Bool) : Option GridftpOpArg :=
  match arg.currentBuffer with
  | none => some arg
  | some buffer =>
    if (eof = true ∧ 0 < buffer.bufferUsed) ∨ buffer.bufferUsed = buffer.bufferLen then
      (arg.linkPending buffer).map fun pending => { arg with
        pendingBuffers := pending, pendingBuffersLast := some buffer.id, currentBuffer := none }
    else some arg

/-- Copy the front of `data` behind what the current buffer holds, and what is left. -/
def fillCurrent (arg : GridftpOpArg) (buffer : Buffer) (data : Bytes) :
    Option (GridftpOpArg × Bytes) :=
  let room := sub64 buffer.bufferLen buffer.bufferUsed
  let copySize := if room < data.length then room else data.length
  -- `assert(copy_size > 0)`
  if copySize = 0 then none
  else
    let buffer := { buffer.store buffer.bufferUsed (data.take copySize) with
      bufferUsed := add64 buffer.bufferUsed copySize }
    some ({ arg with currentBuffer := some buffer }, data.drop copySize)

/-- The first pending buffer after its write was registered. -/
def sendFirst (arg : GridftpOpArg) (buffer : Buffer) (later : List Buffer) : GridftpOpArg :=
  { arg with
    registeredBuffersCount := arg.registeredBuffersCount + 1
    offset := add64 arg.offset buffer.bufferUsed
    pendingBuffers := later
    pendingBuffersLast := if later = [] then none else arg.pendingBuffersLast
    registeredBuffers := buffer :: arg.registeredBuffers }

end GridftpOpArg

/-! ### Registering writes -/

/-- What the GridFTP server and `malloc` answer in a turn of the reader's loop;
`registerWrite` by the number of the registration in this turn. -/
structure WriteServer where
  optimalBlocksize : ℕ
  optimalConcurrency : ℕ
  malloc : Bool
  registerWrite : ℕ → Result

/-- A write that was registered: the address of its buffer, and the offset and the data it
was registered with. -/
structure Write where
  id : ℕ
  offset : ℕ
  data : Bytes
  deriving DecidableEq, Repr

/-- The loop of `globus_l_dsi_rest_send_pending` over the pending buffers, from the `i`-th
registration on, with the writes it registers. -/
def sendPending (registerWrite : ℕ → Result) :
    ℕ → List Buffer → GridftpOpArg → Result × GridftpOpArg × List Write
  | _, [], arg => (.success, arg, [])
  | i, buffer :: later, arg =>
    match registerWrite i with
    | .error e => (.error e, arg.record (.error e), [])
    | .success =>
      let (result, last, writes) :=
        sendPending registerWrite (i + 1) later (arg.sendFirst buffer later)
      (result, last, ⟨buffer.id, arg.offset, buffer.data⟩ :: writes)

/-- The end of a turn: enqueue the current buffer and send the pending ones. -/
def GridftpOpArg.sendCurrent (arg : GridftpOpArg) (server : WriteServer) (eof : Bool) :
    Option (Result × GridftpOpArg × List Write) :=
  (arg.enqueueCurrent eof).map fun arg =>
    sendPending server.registerWrite 0 arg.pendingBuffers arg

/-- `globus_l_dsi_rest_gridftp_write_callback` for the buffer `id`; its `result` is only
logged. -/
def gridftpWriteCallback (arg : GridftpOpArg) (_result : Result) (id : ℕ) : GridftpOpArg :=
  let arg := match removeBuffer id arg.registeredBuffers with
    | none => arg
    | some (buffer, registered) => { arg with
        registeredBuffers := registered
        freeBuffers := { buffer with bufferUsed := 0 } :: arg.freeBuffers }
  { arg with registeredBuffersCount := arg.registeredBuffersCount - 1 }

/-! ### Downloads -/

/-- Where `globus_l_dsi_rest_read_gridftp_op` is: not called; before a turn of its loop, or
waiting in one until fewer than `optimalConcurrency` writes are registered, with the `rest`
of the chunk it was called with; before the only turn of a call without data; or waiting for
the writes at the end of such a call. -/
inductive Reader
  | idle
  | turn (chunk rest : Bytes)
  | slot (chunk rest : Bytes) (optimalConcurrency : ℕ)
  | last
  | drain (result : Result)
  deriving DecidableEq, Repr

/-- The chunk of the call that is being made. -/
def Reader.chunk : Reader → Bytes
  | .turn chunk _ | .slot chunk _ _ => chunk
  | _ => []

/-- What is left of that chunk. -/
def Reader.rest : Reader → Bytes
  | .turn _ rest | .slot _ rest _ => rest
  | _ => []

/-- The reader does not hold the mutex. -/
def Reader.unlocked : Reader → Bool
  | .idle | .slot _ _ _ | .drain _ => true
  | _ => false

/-- A call that returned: the chunk it was made with and its result. -/
structure ReadCall where
  chunk : Bytes
  result : Result
  deriving DecidableEq, Repr

/-- The state of a download: the argument, where the reader is, whether the mutex was left
locked, and the outstanding writes. What happened so far is kept with it: the writes that
were registered, the completions with their results, and the calls that returned. -/
structure Download where
  arg : GridftpOpArg
  reader : Reader
  locked : Bool
  writes : List Write
  registered : List Write
  completed : List (Write × Result)
  calls : List ReadCall

/-- What happens next: a chunk arrives, or the end of the data as an empty one; the reader
goes on; or a write completes. -/
inductive DownloadAction
  | call (chunk : Bytes)
  | turn (server : WriteServer)
  | complete (id : ℕ) (result : Result)

namespace Download

/-- A download that was not called yet. -/
def start (arg : GridftpOpArg) : Download :=
  ⟨arg, .idle, false, [], [], [], []⟩

/-- The call returns. -/
def returned (d : Download) (chunk : Bytes) (result : Result) : Download :=
  { d with reader := .idle, calls := d.calls ++ [⟨chunk, result⟩] }

/-- The `goto` after a failure of `malloc`, past the unlocking of the mutex. -/
def outOfMemory (d : Download) : Download :=
  { d with arg := { d.arg with result := .error .memory }, locked := true }

/-- Writes were registered. -/
def send (d : Download) (arg : GridftpOpArg) (sent : List Write) : Download :=
  { d with arg := arg, writes := sent.reverse ++ d.writes, registered := d.registered ++ sent }

/-- A turn of the loop for a chunk of which `rest` is left, from the test for a slot on. -/
def chunkTurn (d : Download) (server : WriteServer) (optimalConcurrency : ℕ)
    (chunk rest : Bytes) : Option Download :=
  if (optimalConcurrency : ℤ) ≤ d.arg.registeredBuffersCount then
    some { d with reader := .slot chunk rest optimalConcurrency }
  else
    match bufferGet d.arg rest.length server.optimalBlocksize server.malloc with
    | (none, arg) => some (({ d with arg := arg }.outOfMemory).returned chunk .success)
    | (some buffer, arg) => do
      let (arg, rest) ← arg.fillCurrent buffer rest
      let (result, arg, sent) ← arg.sendCurrent server false
      let d := d.send arg sent
      if result = .success ∧ rest ≠ [] then some { d with reader := .turn chunk rest }
      else some (d.returned chunk result)

/-- The next state. One call is made at a time, and only outstanding writes complete. -/
def step (d : Download) : DownloadAction → Option Download
  | .call chunk =>
    if d.reader = .idle ∧ d.locked = false then
      some { d with reader := if chunk = [] then .last else .turn chunk chunk }
    else none
  | .turn server =>
    match d.reader with
    | .idle => none
    | .turn chunk rest => d.chunkTurn server server.optimalConcurrency chunk rest
    | .slot chunk rest optimalConcurrency => d.chunkTurn server optimalConcurrency chunk rest
    | .last =>
      (d.arg.sendCurrent server true).map fun (result, arg, sent) =>
        { d.send arg sent with reader := .drain result }
    | .drain result =>
      if d.arg.registeredBuffersCount ≠ 0 then some d else some (d.returned [] result)
  | .complete id result =>
    if d.reader.unlocked = true ∧ d.locked = false then
      (d.writes.find? (·.id = id)).map fun w => { d with
        arg := gridftpWriteCallback d.arg result id
        writes := d.writes.eraseP (·.id = id)
        completed := d.completed ++ [(w, result)] }
    else none

end Download

end DsiRest
