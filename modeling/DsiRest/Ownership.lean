import DsiRest.Prepare

/-!
# Whose Arguments Cleanup Frees

Preparation replaces the arguments of the client's callbacks by internal ones, and cleanup
frees these. Both go by the callback alone, which stays the same; so it matters how far
preparation got when something fails: whether the argument of a part is still the client's,
or internal, or missing.

What fails comes from outside. The arguments of a request are given together with what
becomes of every allocation and initialisation that is made for them; where the code does
not look whether an allocation failed, preparation crashes. `WriteFault` and `ReadFault` are
the places where preparation can fail, and cleanup after a failure depends on them only.

## Main results

* `CallerWrite.prepare_spec`, `CallerRead.prepare_spec` — how preparation ends, and what
  cleanup does then.
* `cleanup_spares_iff` — when cleanup leaves the client's arguments alone.
-/

namespace DsiRest.Ownership

/-! ### Callbacks and arguments -/

/-- A `data_write_callback`: one of the library's, one of the client's, or `NULL`. -/
inductive WriteCallback
  | null
  | client
  | block
  | blocks
  | json
  | form
  | gridftpOp
  | multipart
  deriving DecidableEq

/-- A `data_read_callback`; those that have no internal argument count as the client's. -/
inductive ReadCallback
  | null
  | client
  | json
  | gridftpOp
  | multipart
  deriving DecidableEq

/-- A callback with its argument, in a `globus_i_dsi_rest_write_part_t` or a
`globus_i_dsi_rest_read_part_t`. -/
structure Part (C A : Type) where
  callback : C
  arg : A

/-- A `data_write_callback_arg`: `NULL`, what the client passed, or an internal structure.
JSON, form and block writers share one; a multipart writer may lack its array of parts. -/
inductive WriteArg
  | null
  | caller
  | block
  | blocks
  | gridftpOp
  | multipart (parts : List (Part WriteCallback WriteArg))
  | multipartNoParts (numParts : ℕ)

/-- A `data_read_callback_arg`. -/
inductive ReadArg
  | null
  | caller
  | json
  | gridftpOp
  | multipart (parts : List (Part ReadCallback ReadArg))
  | multipartNoParts

/-- A write part. -/
abbrev WritePart : Type := Part WriteCallback WriteArg

/-- A read part. -/
abbrev ReadPart : Type := Part ReadCallback ReadArg

/-! ### Cleanup -/

/-- What cleanup takes for an internal structure: one that preparation allocated, and as
what it was allocated; what the client passed; nothing at all; or something else. -/
inductive Target
  | internal
  | caller
  | missing
  | other
  deriving DecidableEq

/-- What an argument is that is taken for an internal structure it is not. -/
def WriteArg.misread : WriteArg → Target
  | .null => .missing
  | .caller => .caller
  | _ => .other

/-- What an argument is that is taken for an internal structure it is not. -/
def ReadArg.misread : ReadArg → Target
  | .null => .missing
  | .caller => .caller
  | _ => .other

mutual

/-- `globus_l_dsi_rest_request_cleanup_write_part`: what it takes for internal structures. -/
def cleanupWritePart : WriteCallback → WriteArg → List Target
  | .null, _ | .client, _ => []
  | .json, .block | .form, .block | .block, .block => [.internal]
  | .blocks, .blocks => [.internal]
  | .gridftpOp, .gridftpOp => [.internal]
  | .multipart, .multipart parts => cleanupWriteParts parts ++ [.internal]
  | .multipart, .multipartNoParts numParts =>
    (if 0 < numParts then [.missing] else []) ++ [.internal]
  | _, arg => [arg.misread]

/-- The loop over the parts of a multipart writer. -/
def cleanupWriteParts : List WritePart → List Target
  | [] => []
  | part :: parts => cleanupWritePart part.callback part.arg ++ cleanupWriteParts parts

end

mutual

/-- `globus_l_dsi_rest_request_cleanup_read_part`: what it takes for internal structures. -/
def cleanupReadPart : ReadCallback → ReadArg → List Target
  | .null, _ | .client, _ => []
  | .json, .null => []
  | .json, .json => [.internal]
  | .gridftpOp, .gridftpOp => [.internal]
  | .multipart, .multipart parts => cleanupReadParts parts ++ [.internal]
  | .multipart, .multipartNoParts => [.internal]
  | _, arg => [arg.misread]

/-- The loop over the parts of a multipart reader. -/
def cleanupReadParts : List ReadPart → List Target
  | [] => []
  | part :: parts => cleanupReadPart part.callback part.arg ++ cleanupReadParts parts

end

/-- Cleanup takes nothing for an internal structure that is none. -/
def Spares (targets : List Target) : Prop :=
  ∀ target ∈ targets, target = .internal

instance (targets : List Target) : Decidable (Spares targets) :=
  inferInstanceAs (Decidable (∀ target ∈ targets, _))

@[simp] theorem spares_nil : Spares [] := fun _ h => absurd h List.not_mem_nil

@[simp] theorem spares_append {xs ys : List Target} :
    Spares (xs ++ ys) ↔ Spares xs ∧ Spares ys :=
  List.forall_mem_append

@[simp] theorem spares_cons {x : Target} {xs : List Target} :
    Spares (x :: xs) ↔ x = .internal ∧ Spares xs :=
  List.forall_mem_cons

/-! ### Preparation -/

/-- How a preparation ends. -/
inductive Preparation (α : Type)
  | crashed
  | failed (left : α)
  | prepared (left : α)

/-- A round of a loop over parts, and those behind it: the first that fails ends the loop, and
the others are left as `calloc` made them. -/
def Preparation.round {α : Type} (first : Preparation α) (later : Preparation (List α))
    (unreached : List α) : Preparation (List α) :=
  match first with
  | .crashed => .crashed
  | .failed left => .failed (left :: unreached)
  | .prepared left =>
    match later with
    | .crashed => .crashed
    | .failed more => .failed (left :: more)
    | .prepared more => .prepared (left :: more)

/-- What becomes of `globus_l_dsi_rest_add_part_header`: whether there is a key and a value,
and whether the two arrays can be extended. -/
structure HeaderSteps where
  key : Bool
  value : Bool
  reallocMalloced : Bool
  reallocHeaders : Bool

/-- `globus_l_dsi_rest_add_part_header` returns a success. It does so too if the second array
cannot be extended. -/
def HeaderSteps.addPartHeader (steps : HeaderSteps) : Bool :=
  steps.key && steps.value && steps.reallocMalloced

/-- What becomes of the steps of `globus_l_dsi_rest_prepare_write_multipart_callback`. -/
structure MultipartSteps where
  malloc : Bool
  boundary : Bool
  header : HeaderSteps
  callocParts : Bool
  firstBoundary : Bool

/-- A write part of the client: its headers, whether they can be copied, and its callback. -/
structure CallerPart (W : Type) where
  headers : KeyArray
  callocHeaders : Bool
  dataWrite : W

/-- A write callback of the client with its argument, and what becomes of the steps of its
preparation. -/
inductive CallerWrite
  | null
  | client
  | block (malloc : Bool)
  | blocks (blockCount : ℕ) (calloc malloc : Bool)
  | json (dumps malloc : Bool) (header : HeaderSteps)
  | form (encode malloc : Bool) (header : HeaderSteps)
  | gridftpOp (malloc mutexInit condInit : Bool)
  | multipart (steps : MultipartSteps) (parts : List (CallerPart CallerWrite))

/-- The callback. -/
def CallerWrite.callback : CallerWrite → WriteCallback
  | .null => .null
  | .client => .client
  | .block _ => .block
  | .blocks _ _ _ => .blocks
  | .json _ _ _ => .json
  | .form _ _ _ => .form
  | .gridftpOp _ _ _ => .gridftpOp
  | .multipart _ _ => .multipart

/-- What comes of the boundary of a multipart writer: whether it has one. -/
def prepareBoundary (headers : KeyArray) (steps : MultipartSteps) : Preparation Bool :=
  match headersSearch headers with
  | .error _ => .crashed
  | .ok (some contentType) =>
    if (contentTypeBoundary contentType).isNone then .prepared false
    else if steps.boundary then .prepared true
    else .failed false
  | .ok none =>
    if steps.boundary && steps.header.addPartHeader then .prepared true else .failed false

/-- The copy of the headers, in front of what is done for the callback. -/
def copyHeaders (part : CallerPart CallerWrite) (rest : Preparation WritePart) :
    Preparation WritePart :=
  if part.headers ≠ [] ∧ part.callocHeaders = false then .failed ⟨part.dataWrite.callback, .caller⟩
  else rest

/-- What `globus_l_dsi_rest_prepare_write_json_callback` and
`globus_l_dsi_rest_prepare_write_form_callback` do once they know whether there is a text. -/
def prepareText (callback : WriteCallback) (text malloc : Bool) (header : HeaderSteps) :
    Preparation WritePart :=
  if text = false then .failed ⟨callback, .caller⟩
  else if malloc = false then .crashed
  else if header.addPartHeader then .prepared ⟨callback, .block⟩
  else .failed ⟨callback, .block⟩

mutual

/-- What `globus_l_dsi_rest_prepare_write_callbacks` does for the callback, with the functions
it dispatches to. -/
def prepareWrite (headers : KeyArray) : CallerWrite → Preparation WritePart
  | .null => .prepared ⟨.null, .caller⟩
  | .client => .prepared ⟨.client, .caller⟩
  | .block malloc => if malloc then .prepared ⟨.block, .block⟩ else .crashed
  | .blocks blockCount calloc malloc =>
    if (calloc || blockCount == 0) && malloc then .prepared ⟨.blocks, .blocks⟩ else .crashed
  | .json dumps malloc header => prepareText .json dumps malloc header
  | .form encode malloc header => prepareText .form encode malloc header
  | .gridftpOp malloc mutexInit condInit =>
    if malloc = false then .crashed
    else if mutexInit && condInit then .prepared ⟨.gridftpOp, .gridftpOp⟩
    else .failed ⟨.gridftpOp, .caller⟩
  | .multipart steps parts =>
    if steps.malloc = false then .crashed
    else match prepareBoundary headers steps with
      | .crashed => .crashed
      | .failed _ => .failed ⟨.multipart, .multipartNoParts parts.length⟩
      | .prepared bounded =>
        if steps.callocParts = false ∧ parts ≠ [] then .crashed
        else match prepareWriteParts parts with
          | .crashed => .crashed
          | .failed left => .failed ⟨.multipart, .multipart left⟩
          | .prepared left =>
            -- the headers of part zero are used for the first boundary
            if bounded = true ∧ parts = [] then .crashed
            else if bounded = true ∧ steps.firstBoundary = false then
              .failed ⟨.multipart, .multipart left⟩
            else .prepared ⟨.multipart, .multipart left⟩

/-- The loop over the parts. -/
def prepareWriteParts : List (CallerPart CallerWrite) → Preparation (List WritePart)
  | [] => .prepared []
  | part :: parts =>
    (copyHeaders part (prepareWrite part.headers part.dataWrite)).round (prepareWriteParts parts)
      (parts.map fun _ => ⟨.null, .null⟩)

end

/-- `globus_l_dsi_rest_prepare_write_callbacks`. -/
def prepareWriteCallbacks (part : CallerPart CallerWrite) : Preparation WritePart :=
  copyHeaders part (prepareWrite part.headers part.dataWrite)

/-- A read callback of the client with its argument, and what becomes of the steps of its
preparation. -/
inductive CallerRead
  | null
  | client
  | json (malloc : Bool)
  | gridftpOp (malloc mutexInit condInit : Bool)
  | multipart (malloc callocParts : Bool) (parts : List CallerRead)

mutual

/-- `globus_l_dsi_rest_prepare_read_callbacks`, with the functions it dispatches to. -/
def prepareReadCallbacks : CallerRead → Preparation ReadPart
  | .null => .prepared ⟨.null, .caller⟩
  | .client => .prepared ⟨.client, .caller⟩
  | .json malloc => if malloc then .prepared ⟨.json, .json⟩ else .failed ⟨.json, .null⟩
  | .gridftpOp malloc mutexInit condInit =>
    if malloc && mutexInit && condInit then .prepared ⟨.gridftpOp, .gridftpOp⟩
    else .failed ⟨.gridftpOp, .null⟩
  | .multipart malloc callocParts parts =>
    if malloc = false then .failed ⟨.multipart, .null⟩
    else if callocParts = false then .failed ⟨.multipart, .multipartNoParts⟩
    else match prepareReadParts parts with
      | .crashed => .crashed
      | .failed left => .failed ⟨.multipart, .multipart left⟩
      | .prepared left => .prepared ⟨.multipart, .multipart left⟩

/-- The loop over the parts. -/
def prepareReadParts : List CallerRead → Preparation (List ReadPart)
  | [] => .prepared []
  | part :: parts =>
    (prepareReadCallbacks part).round (prepareReadParts parts)
      (parts.map fun _ => ⟨.null, .null⟩)

end

/-- The preparation in `globus_dsi_rest_request`: the write part, and then the read part,
which is all zero until then. -/
def prepareCallbacks (write : CallerPart CallerWrite) (read : CallerRead) :
    Preparation (WritePart × ReadPart) :=
  match prepareWriteCallbacks write with
  | .crashed => .crashed
  | .failed left => .failed (left, ⟨.null, .null⟩)
  | .prepared writePart =>
    match prepareReadCallbacks read with
    | .crashed => .crashed
    | .failed left => .failed (writePart, left)
    | .prepared readPart => .prepared (writePart, readPart)

/-- `globus_i_dsi_rest_request_cleanup`: what it takes for internal structures. -/
def requestCleanup (writePart : WritePart) (readPart : ReadPart) : List Target :=
  cleanupWritePart writePart.callback writePart.arg ++
    cleanupReadPart readPart.callback readPart.arg

/-! ### Faults -/

/-- Where preparation ends early: a crash, the headers of a part, the text of a JSON or form
part, the header that is added to it, the initialisation for a GridFTP operation, the
boundary of a multipart writer or its header, or its first delimiter; the arguments of the
read callbacks, and the array of the parts of a multipart reader. -/
inductive Fault
  | crash
  | writeHeaders (callback : WriteCallback)
  | jsonDumps
  | formEncode
  | partHeader
  | writeGridftpOp
  | boundary (numParts : ℕ)
  | firstBoundary
  | readJson
  | readGridftpOp
  | readMultipart
  | readParts
  deriving DecidableEq

/-- Cleanup is right after the fault: there is none, or the argument of the part is internal
already, or is not looked at. -/
def Fault.Harmless : Fault → Prop
  | .crash | .partHeader | .firstBoundary | .readJson | .readParts => True
  | .writeHeaders callback => callback = .null ∨ callback = .client
  | .boundary numParts => numParts = 0
  | .jsonDumps | .formEncode | .writeGridftpOp | .readGridftpOp | .readMultipart => False

/-- The copy of the headers fails. -/
def headersFault (part : CallerPart CallerWrite) : Option Fault :=
  if part.headers ≠ [] ∧ part.callocHeaders = false then
    some (.writeHeaders part.dataWrite.callback)
  else none

/-- The first fault of a JSON or form part, where `missing` is the lack of its text. -/
def textFault (missing : Fault) (text malloc : Bool) (header : HeaderSteps) : Option Fault :=
  if text = false then some missing
  else if malloc = false then some .crash
  else if header.addPartHeader then none
  else some .partHeader

/-- The boundary of a multipart writer, if something fails there, or whether it has one. -/
def boundaryFault (headers : KeyArray) (steps : MultipartSteps) (numParts : ℕ) :
    Except Fault Bool :=
  match prepareBoundary headers steps with
  | .crashed => .error .crash
  | .failed _ => .error (.boundary numParts)
  | .prepared bounded => .ok bounded

mutual

/-- The first fault of a write callback. -/
def CallerWrite.fault (headers : KeyArray) : CallerWrite → Option Fault
  | .null | .client => none
  | .block malloc => if malloc then none else some .crash
  | .blocks blockCount calloc malloc =>
    if (calloc || blockCount == 0) && malloc then none else some .crash
  | .json dumps malloc header => textFault .jsonDumps dumps malloc header
  | .form encode malloc header => textFault .formEncode encode malloc header
  | .gridftpOp malloc mutexInit condInit =>
    if malloc = false then some .crash
    else if mutexInit && condInit then none
    else some .writeGridftpOp
  | .multipart steps parts =>
    if steps.malloc = false then some .crash
    else match boundaryFault headers steps parts.length with
      | .error fault => some fault
      | .ok bounded =>
        if steps.callocParts = false ∧ parts ≠ [] then some .crash
        else (writeFault parts).or
          (if bounded = true ∧ parts = [] then some .crash
          else if bounded = true ∧ steps.firstBoundary = false then some .firstBoundary
          else none)

/-- The first fault of write parts. -/
def writeFault : List (CallerPart CallerWrite) → Option Fault
  | [] => none
  | part :: parts =>
    ((headersFault part).or (part.dataWrite.fault part.headers)).or (writeFault parts)

end

mutual

/-- The first fault of a read callback. -/
def CallerRead.fault : CallerRead → Option Fault
  | .null | .client => none
  | .json malloc => if malloc then none else some .readJson
  | .gridftpOp malloc mutexInit condInit =>
    if malloc && mutexInit && condInit then none else some .readGridftpOp
  | .multipart malloc callocParts parts =>
    if malloc = false then some .readMultipart
    else if callocParts = false then some .readParts
    else readFault parts

/-- The first fault of read parts. -/
def readFault : List CallerRead → Option Fault
  | [] => none
  | part :: parts => part.fault.or (readFault parts)

end

/-- The first fault of a request. -/
def requestFault (write : CallerPart CallerWrite) (read : CallerRead) : Option Fault :=
  ((headersFault write).or (write.dataWrite.fault write.headers)).or read.fault

/-- A preparation ends at its first fault, and cleanup is right after that if it is
harmless; without a fault it is right anyway. -/
inductive Preparation.Ends {α : Type} (targets : α → List Target) :
    Option Fault → Preparation α → Prop
  | prepared {left : α} (h : Spares (targets left)) : Ends targets none (.prepared left)
  | crashed : Ends targets (some .crash) .crashed
  | failed {left : α} {fault : Fault} (hne : fault ≠ .crash)
      (h : Spares (targets left) ↔ fault.Harmless) : Ends targets (some fault) (.failed left)

/-- What cleanup takes for internal structures in a write part. -/
abbrev WritePart.targets (part : WritePart) : List Target :=
  cleanupWritePart part.callback part.arg

/-- What cleanup takes for internal structures in a read part. -/
abbrev ReadPart.targets (part : ReadPart) : List Target :=
  cleanupReadPart part.callback part.arg

/-- Parts that were not reached are not looked at. -/
theorem cleanupWriteParts_zero {α : Type} (parts : List α) :
    cleanupWriteParts (parts.map fun _ => ⟨.null, .null⟩) = [] := by
  induction parts with
  | nil => rfl
  | cons part parts ih =>
      rw [List.map_cons, cleanupWriteParts, ih]
      rfl

/-- Parts that were not reached are not looked at. -/
theorem cleanupReadParts_zero {α : Type} (parts : List α) :
    cleanupReadParts (parts.map fun _ => ⟨.null, .null⟩) = [] := by
  induction parts with
  | nil => rfl
  | cons part parts ih =>
      rw [List.map_cons, cleanupReadParts, ih]
      rfl

/-- A round of a loop, where the parts that were not reached are not looked at. -/
theorem Preparation.Ends.round {α : Type} (targets : α → List Target)
    {all : List α → List Target} (hcons : ∀ x xs, all (x :: xs) = targets x ++ all xs)
    {first : Preparation α} {later : Preparation (List α)} {unreached : List α}
    (hunreached : all unreached = []) {fault faults : Option Fault}
    (hfirst : first.Ends targets fault) (hlater : later.Ends all faults) :
    (first.round later unreached).Ends all (fault.or faults) := by
  cases hfirst with
  | crashed => exact .crashed
  | failed hne hspares => exact .failed hne (by rw [hcons, hunreached, List.append_nil, hspares])
  | prepared hspares =>
      cases hlater with
      | crashed => exact .crashed
      | failed hne hmore =>
          exact .failed hne (by rw [hcons, spares_append, and_iff_right hspares, hmore])
      | prepared hmore => exact .prepared (by rw [hcons, spares_append]; exact ⟨hspares, hmore⟩)

/-- The copy of the headers leaves the client's argument where it is. -/
theorem copyHeaders_ends {part : CallerPart CallerWrite} {rest : Preparation WritePart}
    {fault : Option Fault} (h : rest.Ends WritePart.targets fault) :
    (copyHeaders part rest).Ends WritePart.targets ((headersFault part).or fault) := by
  rw [copyHeaders, headersFault]
  split
  · refine .failed (by simp) ?_
    cases part.dataWrite <;>
      simp [CallerWrite.callback, WritePart.targets, cleanupWritePart, Fault.Harmless,
        WriteArg.misread]
  · exact h

/-- How the preparation of a JSON or form part ends: without its text it leaves the client's
argument where it is. -/
theorem prepareText_ends {callback : WriteCallback} {missing : Fault}
    (hcallback : ∀ arg, cleanupWritePart callback arg = cleanupWritePart .json arg)
    (hne : missing ≠ .crash) (hmissing : ¬ missing.Harmless) (text malloc : Bool)
    (header : HeaderSteps) :
    (prepareText callback text malloc header).Ends WritePart.targets
      (textFault missing text malloc header) := by
  have hcaller : ¬ Spares (cleanupWritePart callback .caller) := by
    rw [hcallback]
    decide
  have hblock : Spares (cleanupWritePart callback .block) := by
    rw [hcallback]
    decide
  rw [prepareText, textFault]
  split
  · exact .failed hne (iff_of_false hcaller hmissing)
  split
  · exact .crashed
  split
  · exact .prepared hblock
  · exact .failed (by simp) (iff_of_true hblock trivial)

/-- How the preparation of a multipart writer ends, in terms of its parts. -/
theorem prepareMultipart_ends (headers : KeyArray) (steps : MultipartSteps)
    {parts : List (CallerPart CallerWrite)}
    (hparts : (prepareWriteParts parts).Ends cleanupWriteParts (writeFault parts)) :
    (prepareWrite headers (.multipart steps parts)).Ends WritePart.targets
      ((CallerWrite.multipart steps parts).fault headers) := by
  rw [prepareWrite, CallerWrite.fault, boundaryFault]
  split
  · exact .crashed
  cases prepareBoundary headers steps with
  | crashed => exact .crashed
  | failed left =>
      -- the array of parts is missing
      refine .failed (by simp) ?_
      rw [WritePart.targets, cleanupWritePart]
      cases parts <;> simp [Fault.Harmless]
  | prepared bounded =>
      simp only
      split
      · exact .crashed
      generalize prepareWriteParts parts = left at hparts ⊢
      generalize writeFault parts = fault at hparts ⊢
      cases hparts with
      | crashed => exact .crashed
      | failed hne hspares =>
          exact .failed hne (by simp [WritePart.targets, cleanupWritePart, hspares])
      | @prepared left hspares =>
          have hall : Spares (WritePart.targets ⟨.multipart, .multipart left⟩) := by
            simp [WritePart.targets, cleanupWritePart, hspares]
          rw [Option.none_or]
          simp only
          split
          · exact .crashed
          split
          · exact .failed (by simp) (iff_of_true hall trivial)
          · exact .prepared hall

mutual

/-- How the preparation for a write callback ends. -/
theorem prepareWrite_ends (headers : KeyArray) : ∀ write : CallerWrite,
    (prepareWrite headers write).Ends WritePart.targets (write.fault headers)
  | .null => .prepared spares_nil
  | .client => .prepared spares_nil
  | .block malloc => by
      rw [prepareWrite, CallerWrite.fault]
      cases malloc with
      | false => exact .crashed
      | true => exact .prepared (by decide)
  | .blocks blockCount calloc malloc => by
      rw [prepareWrite, CallerWrite.fault]
      split
      · exact .prepared (by decide)
      · exact .crashed
  | .json dumps malloc header => by
      rw [prepareWrite, CallerWrite.fault]
      exact prepareText_ends (fun _ => rfl) (by simp) id dumps malloc header
  | .form encode malloc header => by
      have hcallback : ∀ arg, cleanupWritePart .form arg = cleanupWritePart .json arg := by
        intro arg
        cases arg <;> rfl
      rw [prepareWrite, CallerWrite.fault]
      exact prepareText_ends hcallback (by simp) id encode malloc header
  | .gridftpOp malloc mutexInit condInit => by
      rw [prepareWrite, CallerWrite.fault]
      split
      · exact .crashed
      split
      · exact .prepared (by decide)
      · exact .failed (by simp) (iff_of_false (by decide) id)
  | .multipart steps parts => prepareMultipart_ends headers steps (prepareWriteParts_ends parts)

/-- How the preparation of write parts ends. -/
theorem prepareWriteParts_ends : ∀ parts : List (CallerPart CallerWrite),
    (prepareWriteParts parts).Ends cleanupWriteParts (writeFault parts)
  | [] => .prepared spares_nil
  | part :: parts => by
      rw [prepareWriteParts, writeFault]
      refine Preparation.Ends.round WritePart.targets (fun x xs => ?_)
        (cleanupWriteParts_zero parts)
        (copyHeaders_ends (prepareWrite_ends part.headers part.dataWrite))
        (prepareWriteParts_ends parts)
      rw [cleanupWriteParts]

end

mutual

/-- How the preparation for a read callback ends. -/
theorem prepareReadCallbacks_ends : ∀ read : CallerRead,
    (prepareReadCallbacks read).Ends ReadPart.targets read.fault
  | .null => .prepared spares_nil
  | .client => .prepared spares_nil
  | .json malloc => by
      rw [prepareReadCallbacks, CallerRead.fault]
      split
      · exact .prepared (by decide)
      · exact .failed (by simp) (iff_of_true (by decide) trivial)
  | .gridftpOp malloc mutexInit condInit => by
      rw [prepareReadCallbacks, CallerRead.fault]
      split
      · exact .prepared (by decide)
      · exact .failed (by simp) (iff_of_false (by decide) id)
  | .multipart malloc callocParts parts => by
      have hparts := prepareReadParts_ends parts
      rw [prepareReadCallbacks, CallerRead.fault]
      split
      · exact .failed (by simp) (iff_of_false (by decide) id)
      split
      · exact .failed (by simp) (iff_of_true (by decide) trivial)
      generalize prepareReadParts parts = left at hparts ⊢
      generalize readFault parts = fault at hparts ⊢
      cases hparts with
      | crashed => exact .crashed
      | failed hne hspares =>
          exact .failed hne (by simp [ReadPart.targets, cleanupReadPart, hspares])
      | prepared hspares =>
          exact .prepared (by simp [ReadPart.targets, cleanupReadPart, hspares])

/-- How the preparation of read parts ends. -/
theorem prepareReadParts_ends : ∀ parts : List CallerRead,
    (prepareReadParts parts).Ends cleanupReadParts (readFault parts)
  | [] => .prepared spares_nil
  | part :: parts => by
      rw [prepareReadParts, readFault]
      refine Preparation.Ends.round ReadPart.targets (fun x xs => ?_)
        (cleanupReadParts_zero parts) (prepareReadCallbacks_ends part)
        (prepareReadParts_ends parts)
      rw [cleanupReadParts]

end

/-- How the preparation of a write part ends. -/
theorem prepareWriteCallbacks_ends (part : CallerPart CallerWrite) :
    (prepareWriteCallbacks part).Ends WritePart.targets
      ((headersFault part).or (part.dataWrite.fault part.headers)) :=
  copyHeaders_ends (prepareWrite_ends part.headers part.dataWrite)

/-! ### A request -/

/-- How the preparation of a request ends. -/
theorem prepareCallbacks_ends (write : CallerPart CallerWrite) (read : CallerRead) :
    (prepareCallbacks write read).Ends (fun parts => requestCleanup parts.1 parts.2)
      (requestFault write read) := by
  have hwrite := prepareWriteCallbacks_ends write
  have hread := prepareReadCallbacks_ends read
  rw [prepareCallbacks, requestFault]
  generalize prepareWriteCallbacks write = written at hwrite ⊢
  generalize (headersFault write).or (write.dataWrite.fault write.headers) = fault at hwrite ⊢
  cases hwrite with
  | crashed => exact .crashed
  | failed hne hspares =>
      refine .failed hne ?_
      simp only [requestCleanup, spares_append]
      exact (and_iff_left spares_nil).trans hspares
  | prepared hspares =>
      rw [Option.none_or]
      simp only
      generalize prepareReadCallbacks read = left at hread ⊢
      generalize read.fault = fault at hread ⊢
      cases hread with
      | crashed => exact .crashed
      | failed hne hleft =>
          refine .failed hne ?_
          simp only [requestCleanup, spares_append]
          exact (and_iff_right hspares).trans hleft
      | prepared hleft =>
          refine .prepared ?_
          simp only [requestCleanup, spares_append]
          exact ⟨hspares, hleft⟩

/-- Whenever preparation fails, the cleanup that follows takes nothing for an internal
structure that is none. -/
def SparesCaller (write : CallerPart CallerWrite) (read : CallerRead) : Prop :=
  ∀ writePart readPart, prepareCallbacks write read = .failed (writePart, readPart) →
    Spares (requestCleanup writePart readPart)

/-- **When cleanup leaves the client's arguments alone.** For every tree of callbacks, and
whatever becomes of the steps of its preparation: if preparation fails, cleanup takes only
internal structures for such, if and only if the first fault is harmless. -/
theorem cleanup_spares_iff (write : CallerPart CallerWrite) (read : CallerRead) :
    SparesCaller write read ↔ ∀ fault, requestFault write read = some fault → fault.Harmless := by
  have hends := prepareCallbacks_ends write read
  rw [SparesCaller]
  generalize prepareCallbacks write read = left at hends ⊢
  generalize requestFault write read = fault at hends ⊢
  cases hends with
  | crashed =>
      refine iff_of_true (fun _ _ h => absurd h (by simp)) fun fault h => ?_
      obtain rfl := Option.some.inj h
      trivial
  | failed hne hspares =>
      constructor
      · intro h fault hfault
        obtain rfl := Option.some.inj hfault
        exact hspares.mp (h _ _ rfl)
      · intro h writePart readPart hleft
        obtain rfl := Preparation.failed.inj hleft
        exact hspares.mpr (h _ rfl)
  | prepared hspares =>
      exact iff_of_true (fun _ _ h => absurd h (by simp)) fun fault h => absurd h (by simp)

/-- A JSON value that cannot be serialized is freed as a block argument. -/
theorem cleanup_jsonDumps : ¬ ∀ write read, SparesCaller write read := by
  intro h
  have hjson := h ⟨[], true, .json false true ⟨true, true, true, true⟩⟩ .null
    ⟨.json, .caller⟩ ⟨.null, .null⟩ rfl
  exact absurd hjson (by decide)

end DsiRest.Ownership
