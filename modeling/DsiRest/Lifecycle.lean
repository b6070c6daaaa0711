import DsiRest.Lib.Guarded
import DsiRest.Request
import DsiRest.RequestHeaders

/-!
# The Life of a Request

`globus_dsi_rest_request` allocates a request, sets it up in a row of steps of which each may
fail, and performs it: at once, or on a thread of its own if there is a completion callback.
Whoever is left with the request cleans it up, and a thread calls the completion callback
when it did.

`Execution.step` takes one step of the calling thread or of the performing thread at a time,
in any order. Every access to the request is noted in `Execution.trace`, whether the request
is still there or not, with the calls of the client's callbacks, the cleanup and the return.
`Execution.request` keeps what the request last held.

## Main results

* `Execution.Kept.step` — at any time at most one of the threads has the request.
* `Execution.ahead_lt` — every step but a callback of the transfer brings the end nearer.
* `request_completes` — the request is cleaned up once and not touched afterwards, and a
  call that succeeds is completed once, with the recorded result, after everything else.
-/

namespace DsiRest

/-! ### The two threads -/

/-- The arguments of `globus_dsi_rest_request`, as far as they matter here, with the request
that the preparation leads to. -/
structure RequestArgs where
  method : Option Bytes
  uri : Option Bytes
  headers : KeyArray
  dataWriteCallback : Bool
  completeCallback : Bool
  request : Request

/-- The steps between the allocation of a request and its transfer. -/
inductive Setup
  | prepareWriteCallbacks
  | prepareReadCallbacks
  | handleGet
  | uriAddQuery
  | computeHeaders
  | addHeader
  | setRequest
  deriving DecidableEq, Repr

/-- The step that follows, if the transfer does not. -/
def Setup.next : Setup → Option Setup
  | prepareWriteCallbacks => some prepareReadCallbacks
  | prepareReadCallbacks => some handleGet
  | handleGet => some uriAddQuery
  | uriAddQuery => some computeHeaders
  | computeHeaders => some addHeader
  | addHeader => some setRequest
  | setRequest => none

/-- Where the calling thread is. -/
inductive Caller
  | entry
  | setup (s : Setup)
  | perform
  | transfer
  | performed (result : Result)
  | cleanup (result : Result)
  | leaving (result : Result)
  | returned (result : Result)
  deriving DecidableEq, Repr

/-- Where the performing thread is, if there is one. -/
inductive Performer
  | absent
  | transfer
  | performed (result : Result)
  | copied (result : Result)
  | cleaned (result : Result)
  | done (result : Result)
  deriving DecidableEq, Repr

/-- The threads. -/
inductive Party
  | caller
  | performer
  deriving DecidableEq, Repr

/-- What is noted of a run: an access to the request, a call of a callback of the client other
than the completion callback, the cleanup of the request, the call of the completion callback,
and the return. -/
inductive Event
  | touch (party : Party)
  | callback (party : Party)
  | cleanup (party : Party)
  | complete (result : Result)
  | returned (result : Result)
  deriving DecidableEq, Repr

/-- A run so far. -/
structure Execution where
  caller : Caller
  performer : Performer
  allocated : Bool
  request : Request
  trace : List Event

/-- What happens next: `globus_dsi_rest_request` starts, and `malloc` succeeds or not; a step
of the setup comes to a result; `globus_thread_create` returns; libcurl calls back, or
`curl_easy_perform` returns; or a thread goes on. -/
inductive ExecutionAction
  | enter (malloc : Bool)
  | setup (result : Result)
  | threadCreate (rc : ℕ)
  | invoke (party : Party) (invocation : Invocation)
  | finish (party : Party) (rc : ℕ) (finalRead : Result)
  | proceed (party : Party)

namespace Execution

/-- Before the call. -/
def start (args : RequestArgs) : Execution :=
  ⟨.entry, .absent, false, args.request, []⟩

/-- Note events. -/
def note (e : Execution) (events : List Event) : Execution :=
  { e with trace := e.trace ++ events }

/-- Whether a thread is in `globus_l_dsi_rest_perform`. -/
def transferring (e : Execution) : Party → Bool
  | .caller => e.caller == .transfer
  | .performer => e.performer == .transfer

/-- A thread comes out of `globus_l_dsi_rest_perform`. -/
def comeOut (e : Execution) (result : Result) : Party → Execution
  | .caller => { e with caller := .performed result }
  | .performer => { e with performer := .performed result }

/-- The request has a data read callback, which is told the end of the data. -/
def readsEnd (request : Request) : Bool :=
  match request.dataReadCallback with
  | .none => false
  | _ => true

end Execution

/-- Whether the request gets a `Transfer-Encoding` header. What comes of a key that is `NULL`, which
the search passes to `strcasecmp`, is not followed here. -/
def RequestArgs.chunked (args : RequestArgs) : Bool :=
  mayHaveBody (args.method.getD []) args.dataWriteCallback &&
    match framingSearch args.headers with
    | .ok found => !found
    | .error _ => false

/-- The calling thread after a step of the setup. -/
def Setup.after (s : Setup) : Result → Caller
  | .error e => .cleanup (.error e)
  | .success =>
    match s.next with
    | some later => .setup later
    | none => .perform

/-- `callbacks->complete_callback == NULL`, or a failure: the calling thread cleans up. -/
def RequestArgs.cleansUp (args : RequestArgs) (result : Result) : Bool :=
  result != .success || !args.completeCallback

namespace Execution

/-- The start of `globus_dsi_rest_request`. -/
def enter (args : RequestArgs) (e : Execution) (malloc : Bool) : Execution :=
  if args.method = none ∨ args.uri = none then { e with caller := .leaving (.error .parameter) }
  else if malloc then
    { e.note [.touch .caller] with caller := .setup .prepareWriteCallbacks, allocated := true }
  else { e with caller := .leaving (.error .memory) }

/-- The next step of the calling thread outside the setup and the transfer. -/
def proceedCaller (args : RequestArgs) (e : Execution) : Option Execution :=
  match e.caller with
  | .perform =>
    if args.completeCallback then none
    else some { e.note [.touch .caller] with caller := .transfer }
  | .performed result =>
    some { e with
      caller := if args.cleansUp result then .cleanup result else .leaving result }
  | .cleanup result => some { e.note [.cleanup .caller] with caller := .leaving result }
  | .leaving result => some { e.note [.returned result] with caller := .returned result }
  | _ => none

/-- The next step of `globus_l_dsi_rest_perform_thread` after the transfer. -/
def proceedPerformer (e : Execution) : Option Execution :=
  match e.performer with
  | .performed result =>
    let result := if e.request.result ≠ .success then e.request.result else result
    some { e.note [.touch .performer] with performer := .copied result }
  | .copied result => some { e.note [.cleanup .performer] with performer := .cleaned result }
  | .cleaned result => some { e.note [.complete result] with performer := .done result }
  | _ => none

/-- The next state. -/
def step (args : RequestArgs) (e : Execution) : ExecutionAction → Option Execution
  | .enter malloc => if e.caller = .entry then some (e.enter args malloc) else none
  | .setup result =>
    match e.caller with
    | .setup .addHeader =>
      -- without chunks the header is skipped
      if args.chunked then
        some { e.note [.touch .caller] with caller := Setup.after .addHeader result }
      else some { e with caller := Setup.after .addHeader .success }
    | .setup s => some { e.note [.touch .caller] with caller := Setup.after s result }
    | _ => none
  | .threadCreate rc =>
    if e.caller = .perform ∧ args.completeCallback = true then
      if rc = 0 then
        some { e.note [.touch .caller] with caller := .performed .success, performer := .transfer }
      else
        some { e.note [.touch .caller] with caller := .performed (.error (.threadFail rc)) }
    else none
  | .invoke party invocation =>
    if e.transferring party then
      (invocation.call e.request).map fun response =>
        { e.note [.touch party, .callback party] with request := response.request }
    else none
  | .finish party rc finalRead =>
    if e.transferring party then
      let (result, request) := e.request.perform rc finalRead
      let told : List Event :=
        if rc = 0 ∧ readsEnd e.request = true then [.callback party] else []
      some (({ e with request := request }.note (.touch party :: told)).comeOut result party)
    else none
  | .proceed .caller => e.proceedCaller args
  | .proceed .performer => e.proceedPerformer

/-! ### What a trace says -/

end Execution

namespace Event

/-- The cleanup of the request. -/
def isCleanup : Event → Bool
  | cleanup _ => true
  | _ => false

/-- An access to the request or a call of one of its callbacks. -/
def Plain : Event → Prop
  | touch _ | callback _ => True
  | _ => False

/-- The order of events: nothing of the request follows its cleanup, and nothing but the
return follows the call of the completion callback. -/
def Precedes : Event → Event → Prop
  | cleanup _, touch _ | cleanup _, callback _ | cleanup _, cleanup _ => False
  | complete _, returned _ => True
  | complete _, _ => False
  | _, _ => True

/-- Not the return. -/
def isInternal : Event → Bool
  | returned _ => false
  | _ => true

end Event

/-- The results that the completion callback was called with. -/
def completions (trace : List Event) : List Result :=
  trace.filterMap fun
    | .complete result => some result
    | _ => none

namespace Execution

/-- Both threads are done. -/
def Finished (e : Execution) : Prop :=
  (∃ result, e.caller = .returned result) ∧
    (e.performer = .absent ∨ ∃ result, e.performer = .done result)

end Execution

/-! ### Traces -/

/-- Apart from returns, a trace has accesses and calls of callbacks, and then `closing`. -/
def Shaped (trace closing : List Event) : Prop :=
  ∃ plain, (∀ event ∈ plain, event.Plain) ∧ trace.filter Event.isInternal = plain ++ closing

namespace Shaped

variable {trace closing : List Event}

/-- Nothing was noted yet. -/
theorem nil : Shaped [] [] :=
  ⟨[], by simp, rfl⟩

/-- Further accesses and calls. -/
theorem plain (h : Shaped trace []) {events : List Event}
    (hevents : ∀ event ∈ events, event.Plain) : Shaped (trace ++ events) [] := by
  obtain ⟨before, hbefore, htrace⟩ := h
  refine ⟨before ++ events, List.forall_mem_append.mpr ⟨hbefore, hevents⟩, ?_⟩
  have hall : events.filter Event.isInternal = events := by
    rw [List.filter_eq_self]
    intro event hevent
    cases event with
    | touch | callback => rfl
    | cleanup | complete | returned => exact (hevents _ hevent).elim
  rw [List.filter_append, htrace, hall, List.append_nil, List.append_nil]

/-- A further closing event. -/
theorem close (h : Shaped trace closing) {event : Event} (hevent : event.isInternal = true) :
    Shaped (trace ++ [event]) (closing ++ [event]) := by
  obtain ⟨before, hbefore, htrace⟩ := h
  refine ⟨before, hbefore, ?_⟩
  rw [List.filter_append, htrace, List.filter_singleton, hevent, List.append_assoc]
  rfl

/-- A return changes nothing. -/
theorem returned (h : Shaped trace closing) (result : Result) :
    Shaped (trace ++ [.returned result]) closing := by
  obtain ⟨before, hbefore, htrace⟩ := h
  refine ⟨before, hbefore, ?_⟩
  rw [List.filter_append, htrace]
  exact List.append_nil _

/-- The cleanups are among the closing events. -/
theorem countP_isCleanup (h : Shaped trace closing) :
    trace.countP Event.isCleanup = closing.countP Event.isCleanup := by
  obtain ⟨before, hbefore, htrace⟩ := h
  have hinternal : trace.countP Event.isCleanup
      = (trace.filter Event.isInternal).countP Event.isCleanup := by
    rw [List.countP_filter]
    refine List.countP_congr fun event _ => ?_
    cases event <;> simp [Event.isCleanup, Event.isInternal]
  have hnone : before.countP Event.isCleanup = 0 := by
    rw [List.countP_eq_zero]
    intro event hevent
    cases event with
    | touch | callback => simp [Event.isCleanup]
    | cleanup | complete | returned => exact (hbefore _ hevent).elim
  rw [hinternal, htrace, List.countP_append, hnone, Nat.zero_add]

/-- The completions are among the closing events. -/
theorem completions_eq (h : Shaped trace closing) : completions trace = completions closing := by
  obtain ⟨before, hbefore, htrace⟩ := h
  have hinternal : completions trace = completions (trace.filter Event.isInternal) := by
    rw [completions, completions, List.filterMap_filter]
    refine List.filterMap_congr fun event _ => ?_
    cases event <;> rfl
  have hnone : completions before = [] := by
    rw [completions, List.filterMap_eq_nil_iff]
    intro event hevent
    cases event with
    | touch | callback => rfl
    | cleanup | complete | returned => exact (hbefore _ hevent).elim
  rw [hinternal, htrace, completions, List.filterMap_append]
  exact congrArg (· ++ completions closing) hnone

/-- **The events are in order**, if the closing ones are. -/
theorem pairwise (h : Shaped trace closing) (hclosing : closing.Pairwise Event.Precedes) :
    trace.Pairwise Event.Precedes := by
  obtain ⟨before, hbefore, htrace⟩ := h
  have hfilter : (trace.filter Event.isInternal).Pairwise Event.Precedes := by
    have hplain : ∀ {first second : Event}, first.Plain → Event.Precedes first second := by
      intro first second hfirst
      cases first with
      | touch | callback => cases second <;> trivial
      | cleanup | complete | returned => exact hfirst.elim
    rw [htrace, List.pairwise_append]
    refine ⟨?_, hclosing, fun first hfirst _ _ => hplain (hbefore first hfirst)⟩
    exact List.Pairwise.imp_of_mem (fun hfirst _ _ => hplain (hbefore _ hfirst))
      (List.pairwise_of_forall (R := fun _ _ => True) fun _ _ => trivial)
  rw [List.pairwise_filter] at hfilter
  refine hfilter.imp fun {first second} hprecedes => ?_
  cases first <;> cases second <;> first | trivial | exact hprecedes rfl rfl

end Shaped

/-! ### Who has the request -/

/-- The result that the performing thread has. -/
def Performer.result : Performer → Option Result
  | absent | transfer => none
  | performed result | copied result | cleaned result | done result => some result

/-- Where the threads can be at the same time, with the recorded result and whether the
request was allocated: the calling thread is alone until it created the other one, and is on
its way out afterwards. -/
inductive Together (args : RequestArgs) (recorded : Result) : Caller → Performer → Bool → Prop
  | entry : Together args recorded .entry .absent false
  | refused (e : GlobusError) : Together args recorded (.leaving (.error e)) .absent false
  | refusedReturned (e : GlobusError) :
    Together args recorded (.returned (.error e)) .absent false
  | setup (s : Setup) : Together args recorded (.setup s) .absent true
  | perform : Together args recorded .perform .absent true
  | transfer (h : args.completeCallback = false) : Together args recorded .transfer .absent true
  | performed (result : Result) (h : args.cleansUp result = true) :
    Together args recorded (.performed result) .absent true
  | cleanup (result : Result) (h : args.cleansUp result = true) :
    Together args recorded (.cleanup result) .absent true
  | leaving (result : Result) (h : args.cleansUp result = true) :
    Together args recorded (.leaving result) .absent true
  | returned (result : Result) (h : args.cleansUp result = true) :
    Together args recorded (.returned result) .absent true
  | created (caller : Caller) (performer : Performer) (hcomplete : args.completeCallback = true)
      (hcaller : caller = .performed .success ∨ caller = .leaving .success ∨
        caller = .returned .success) (hperformer : performer ≠ .absent)
      (hresult : ∀ result, performer.result = some result → result = recorded) :
    Together args recorded caller performer true

/-- The closing events of a trace. -/
def closing (allocated : Bool) : Caller → Performer → List Event
  | .leaving _, .absent | .returned _, .absent => if allocated then [.cleanup .caller] else []
  | _, .cleaned _ => [.cleanup .performer]
  | _, .done result => [.cleanup .performer, .complete result]
  | _, _ => []

namespace Execution

/-- The invariant of a run. -/
structure Kept (args : RequestArgs) (e : Execution) : Prop where
  together : Together args e.request.result e.caller e.performer e.allocated
  shaped : Shaped e.trace (closing e.allocated e.caller e.performer)

variable {args : RequestArgs} {e e' : Execution}

/-- The invariant holds before the call. -/
theorem Kept.start (args : RequestArgs) : Kept args (start args) where
  together := .entry
  shaped := .nil

/-- A failed step of the setup leads to the cleanup, and the last one to the transfer. -/
theorem Kept.setup {s : Setup} (h : Kept args e) (hcaller : e.caller = .setup s)
    {events : List Event} (hevents : ∀ event ∈ events, event.Plain) (result : Result) :
    Kept args { e.note events with caller := s.after result } := by
  obtain ⟨htogether, hshaped⟩ := h
  obtain ⟨caller, performer, allocated, request, trace⟩ := e
  subst hcaller
  cases htogether with
  | setup =>
      have htrace := Shaped.plain hshaped hevents
      cases result with
      | error err => exact ⟨.cleanup _ rfl, htrace⟩
      | success => cases s <;> first | exact ⟨.setup _, htrace⟩ | exact ⟨.perform, htrace⟩
  | created _ _ _ hcaller => simp at hcaller

/-- The call starts. -/
theorem Kept.enter (h : Kept args e) (hcaller : e.caller = .entry) (malloc : Bool) :
    Kept args (e.enter args malloc) := by
  obtain ⟨htogether, hshaped⟩ := h
  obtain ⟨caller, performer, allocated, request, trace⟩ := e
  subst hcaller
  cases htogether with
  | entry =>
      rw [Execution.enter]
      split_ifs
      · exact ⟨.refused _, hshaped⟩
      · exact ⟨.setup _, Shaped.plain hshaped (by simp [Event.Plain])⟩
      · exact ⟨.refused _, hshaped⟩
  | created _ _ _ hcaller => simp at hcaller

/-- The performing thread is created, or not. -/
theorem Kept.threadCreate (h : Kept args e) (hcaller : e.caller = .perform)
    (hcomplete : args.completeCallback = true) (rc : ℕ)
    (hstep : e.step args (.threadCreate rc) = some e') : Kept args e' := by
  rw [Execution.step, if_pos ⟨hcaller, hcomplete⟩] at hstep
  obtain ⟨htogether, hshaped⟩ := h
  obtain ⟨caller, performer, allocated, request, trace⟩ := e
  subst hcaller
  cases htogether with
  | perform =>
      have htrace : Shaped (trace ++ [.touch .caller]) [] :=
        Shaped.plain hshaped (by simp [Event.Plain])
      split_ifs at hstep
      · obtain rfl := Option.some.inj hstep
        exact ⟨.created _ _ hcomplete (.inl rfl) (by simp) (by simp [Performer.result]), htrace⟩
      · obtain rfl := Option.some.inj hstep
        exact ⟨.performed _ rfl, htrace⟩
  | created _ _ _ hcaller => simp at hcaller

/-- A thread that transfers has the request. -/
theorem Kept.transferring (h : Kept args e) {party : Party}
    (htransfer : e.transferring party = true) :
    closing e.allocated e.caller e.performer = [] ∧
      ∀ request : Request, Together args request.result e.caller e.performer e.allocated := by
  obtain ⟨htogether, -⟩ := h
  obtain ⟨caller, performer, allocated, request, trace⟩ := e
  cases party with
  | caller =>
      obtain rfl : caller = .transfer := by simpa [Execution.transferring] using htransfer
      cases htogether with
      | transfer hcomplete => exact ⟨rfl, fun _ => .transfer hcomplete⟩
      | created _ _ _ hcaller => simp at hcaller
  | performer =>
      obtain rfl : performer = .transfer := by simpa [Execution.transferring] using htransfer
      cases htogether with
      | created _ _ hcomplete hcaller =>
          refine ⟨?_, fun _ =>
            .created _ _ hcomplete hcaller (by simp) (by simp [Performer.result])⟩
          rcases hcaller with rfl | rfl | rfl <;> rfl

/-- libcurl calls back. -/
theorem Kept.invoke (h : Kept args e) {party : Party}
    (htransfer : e.transferring party = true) (request : Request) :
    Kept args { e.note [.touch party, .callback party] with request := request } := by
  obtain ⟨hclosing, htogether⟩ := h.transferring htransfer
  have htrace : Shaped (e.trace ++ [.touch party, .callback party])
      (closing e.allocated e.caller e.performer) := by
    have hshaped := h.shaped
    rw [hclosing] at hshaped ⊢
    exact hshaped.plain (by simp [Event.Plain])
  exact ⟨htogether request, htrace⟩

/-- A thread comes out of the transfer with the recorded result. -/
theorem Kept.comeOut (h : Kept args e) {party : Party}
    (htransfer : e.transferring party = true) {events : List Event}
    (hevents : ∀ event ∈ events, event.Plain) (request : Request) :
    Kept args (({ e with request := request }.note events).comeOut request.result party) := by
  obtain ⟨hclosing, -⟩ := h.transferring htransfer
  obtain ⟨htogether, hshaped⟩ := h
  rw [hclosing] at hshaped
  have htrace := Shaped.plain hshaped hevents
  obtain ⟨caller, performer, allocated, request₀, trace⟩ := e
  cases party with
  | caller =>
      obtain rfl : caller = .transfer := by simpa [Execution.transferring] using htransfer
      cases htogether with
      | transfer hcomplete =>
          exact ⟨.performed _ (by simp [RequestArgs.cleansUp, hcomplete]), htrace⟩
      | created _ _ _ hcaller => simp at hcaller
  | performer =>
      obtain rfl : performer = .transfer := by simpa [Execution.transferring] using htransfer
      cases htogether with
      | created _ _ hcomplete hcaller =>
          refine ⟨.created _ _ hcomplete hcaller (by simp [Execution.comeOut]) fun result hresult =>
            (Option.some.inj hresult).symm, ?_⟩
          rcases hcaller with rfl | rfl | rfl <;> exact htrace

/-- The calling thread goes on. -/
theorem Kept.proceedCaller (h : Kept args e) (hstep : e.proceedCaller args = some e') :
    Kept args e' := by
  obtain ⟨htogether, hshaped⟩ := h
  obtain ⟨caller, performer, allocated, request, trace⟩ := e
  rw [Execution.proceedCaller] at hstep
  cases htogether with
  | entry | refusedReturned | setup | transfer | returned => simp at hstep
  | refused err =>
      obtain rfl := Option.some.inj hstep
      exact ⟨.refusedReturned err, hshaped.returned _⟩
  | perform =>
      simp only at hstep
      split_ifs at hstep with hcomplete
      obtain rfl := Option.some.inj hstep
      exact ⟨.transfer (by simpa using hcomplete), Shaped.plain hshaped (by simp [Event.Plain])⟩
  | performed result hclean =>
      simp only [hclean, if_true] at hstep
      obtain rfl := Option.some.inj hstep
      exact ⟨.cleanup result hclean, hshaped⟩
  | cleanup result hclean =>
      obtain rfl := Option.some.inj hstep
      exact ⟨.leaving result hclean, Shaped.close hshaped rfl⟩
  | leaving result hclean =>
      obtain rfl := Option.some.inj hstep
      exact ⟨.returned result hclean, hshaped.returned _⟩
  | created _ _ hcomplete hcaller hperformer hresult =>
      have hkeep : args.cleansUp .success = false := by simp [RequestArgs.cleansUp, hcomplete]
      rcases hcaller with rfl | rfl | rfl
      · simp only [hkeep, Bool.false_eq_true, if_false] at hstep
        obtain rfl := Option.some.inj hstep
        refine ⟨.created _ _ hcomplete (.inr (.inl rfl)) hperformer hresult, ?_⟩
        cases performer <;> first | exact hshaped | exact absurd rfl hperformer
      · obtain rfl := Option.some.inj hstep
        refine ⟨.created _ _ hcomplete (.inr (.inr rfl)) hperformer hresult, ?_⟩
        have htrace := hshaped.returned .success
        cases performer <;> exact htrace
      · simp at hstep

/-- The performing thread goes on. -/
theorem Kept.proceedPerformer (h : Kept args e) (hstep : e.proceedPerformer = some e') :
    Kept args e' := by
  obtain ⟨htogether, hshaped⟩ := h
  obtain ⟨caller, performer, allocated, request, trace⟩ := e
  rw [Execution.proceedPerformer] at hstep
  cases htogether with
  | entry | refused | refusedReturned | setup | perform | transfer | performed | cleanup
  | leaving | returned => simp at hstep
  | created _ _ hcomplete hcaller hperformer hresult =>
      cases performer with
      | absent | transfer | done => simp at hstep
      | performed result =>
          obtain rfl : result = request.result := hresult result rfl
          simp only [ite_self] at hstep
          obtain rfl := Option.some.inj hstep
          refine ⟨.created _ _ hcomplete hcaller (by simp) fun result hresult =>
            (Option.some.inj hresult).symm, ?_⟩
          rcases hcaller with rfl | rfl | rfl <;>
            exact Shaped.plain hshaped (by simp [Event.Plain])
      | copied result =>
          obtain rfl := Option.some.inj hstep
          refine ⟨.created _ _ hcomplete hcaller (by simp) hresult, ?_⟩
          rcases hcaller with rfl | rfl | rfl <;> exact Shaped.close hshaped rfl
      | cleaned result =>
          obtain rfl := Option.some.inj hstep
          refine ⟨.created _ _ hcomplete hcaller (by simp) hresult, ?_⟩
          rcases hcaller with rfl | rfl | rfl <;> exact Shaped.close hshaped rfl

/-- **Every step keeps the invariant.** -/
theorem Kept.step {action : ExecutionAction} (h : Kept args e)
    (hstep : e.step args action = some e') : Kept args e' := by
  cases action with
  | enter malloc =>
      rw [Execution.step] at hstep
      split_ifs at hstep with hcaller
      obtain rfl := Option.some.inj hstep
      exact h.enter hcaller malloc
  | setup result =>
      rw [Execution.step] at hstep
      split at hstep
      case h_1 hcaller =>
        split_ifs at hstep
        · obtain rfl := Option.some.inj hstep
          exact h.setup hcaller (by simp [Event.Plain]) result
        · obtain rfl := Option.some.inj hstep
          have hkept : Kept args { e.note [] with caller := _ } :=
            h.setup hcaller (by simp) .success
          rwa [note, List.append_nil] at hkept
      case h_2 hcaller =>
        obtain rfl := Option.some.inj hstep
        exact h.setup hcaller (by simp [Event.Plain]) result
      case h_3 => exact absurd hstep (by simp)
  | threadCreate rc =>
      have hcaller : e.caller = .perform ∧ args.completeCallback = true := by
        by_contra hno
        rw [Execution.step, if_neg hno] at hstep
        exact absurd hstep (by simp)
      exact h.threadCreate hcaller.1 hcaller.2 rc hstep
  | invoke party invocation =>
      rw [Execution.step] at hstep
      split_ifs at hstep with htransfer
      obtain ⟨response, -, rfl⟩ := Option.map_eq_some_iff.mp hstep
      exact h.invoke htransfer response.request
  | finish party rc finalRead =>
      rw [Execution.step] at hstep
      by_cases htransfer : e.transferring party = true
      · rw [if_pos htransfer] at hstep
        obtain rfl := Option.some.inj hstep
        refine h.comeOut htransfer ?_ (e.request.perform rc finalRead).2
        split <;> simp [Event.Plain]
      · rw [if_neg htransfer] at hstep
        exact absurd hstep (by simp)
  | proceed party =>
      cases party with
      | caller => exact h.proceedCaller hstep
      | performer => exact h.proceedPerformer hstep

/-! ### The end of a run -/

end Execution

/-- Anything but a call of libcurl's callbacks, of which a transfer makes any number. -/
def ExecutionAction.advances : ExecutionAction → Bool
  | invoke _ _ => false
  | _ => true

/-- The steps of the setup that are still to come. -/
def Setup.ahead : Setup → ℕ
  | prepareWriteCallbacks => 7
  | prepareReadCallbacks => 6
  | handleGet => 5
  | uriAddQuery => 4
  | computeHeaders => 3
  | addHeader => 2
  | setRequest => 1

/-- The steps that the calling thread has ahead of it at most, with those of the thread that
it may create. -/
def Caller.ahead : Caller → ℕ
  | entry => 16
  | setup s => s.ahead + 8
  | perform => 8
  | transfer => 4
  | performed _ => 3
  | cleanup _ => 2
  | leaving _ => 1
  | returned _ => 0

/-- The steps that the performing thread has ahead of it. -/
def Performer.ahead : Performer → ℕ
  | absent => 0
  | transfer => 4
  | performed _ => 3
  | copied _ => 2
  | cleaned _ => 1
  | done _ => 0

/-- A step of the setup brings the calling thread nearer to its end. -/
theorem Setup.ahead_after (s : Setup) (result : Result) :
    (s.after result).ahead < (Caller.setup s).ahead := by
  cases result with
  | error e =>
      simp only [Setup.after, Caller.ahead]
      omega
  | success => cases s <;> decide

namespace Execution

variable {args : RequestArgs} {e e' : Execution}

/-- The steps that the threads have ahead of them at most. -/
def ahead (e : Execution) : ℕ :=
  e.caller.ahead + e.performer.ahead

/-- A thread that comes out of its transfer is nearer to its end. -/
theorem ahead_comeOut {party : Party} (htransfer : e.transferring party = true)
    {next : Execution} (hcaller : next.caller = e.caller) (hperformer : next.performer = e.performer)
    (result : Result) : (next.comeOut result party).ahead < e.ahead := by
  cases party with
  | caller =>
      have h : e.caller = .transfer := by simpa [transferring] using htransfer
      simp [ahead, comeOut, h, hperformer, Caller.ahead]
  | performer =>
      have h : e.performer = .transfer := by simpa [transferring] using htransfer
      simp [ahead, comeOut, h, hcaller, Performer.ahead]

/-- Setting an option brings the end nearer. -/
theorem ahead_setup {result : Result} (hstep : e.step args (.setup result) = some e') :
    e'.ahead < e.ahead := by
  rw [step] at hstep
  split at hstep
  case h_1 hcaller =>
    split_ifs at hstep
    · obtain rfl := Option.some.inj hstep
      have hafter := Setup.ahead_after .addHeader result
      rw [← hcaller] at hafter
      exact Nat.add_lt_add_right hafter _
    · obtain rfl := Option.some.inj hstep
      have hafter := Setup.ahead_after .addHeader .success
      rw [← hcaller] at hafter
      exact Nat.add_lt_add_right hafter _
  case h_2 s _ hcaller =>
    obtain rfl := Option.some.inj hstep
    have hafter := Setup.ahead_after s result
    rw [← hcaller] at hafter
    exact Nat.add_lt_add_right hafter _
  case h_3 => exact absurd hstep (by simp)

/-- A step of the calling thread brings the end nearer. -/
theorem ahead_proceedCaller (hstep : e.proceedCaller args = some e') : e'.ahead < e.ahead := by
  rw [proceedCaller] at hstep
  split at hstep
  case h_1 hcaller =>
    split_ifs at hstep
    obtain rfl := Option.some.inj hstep
    simp [ahead, note, hcaller, Caller.ahead]
  case h_2 result hcaller =>
    obtain rfl := Option.some.inj hstep
    simp only [ahead, hcaller]
    split_ifs <;> simp [Caller.ahead]
  case h_3 hcaller | h_4 hcaller =>
    obtain rfl := Option.some.inj hstep
    simp [ahead, note, hcaller, Caller.ahead]
  case h_5 => exact absurd hstep (by simp)

/-- A step of the performing thread brings the end nearer. -/
theorem ahead_proceedPerformer (hstep : e.proceedPerformer = some e') :
    e'.ahead < e.ahead := by
  rw [proceedPerformer] at hstep
  split at hstep
  case h_1 hperformer | h_2 hperformer | h_3 hperformer =>
    obtain rfl := Option.some.inj hstep
    simp [ahead, note, hperformer, Performer.ahead]
  case h_4 => exact absurd hstep (by simp)

/-- **Every step but a callback brings the threads nearer to their ends.** -/
theorem ahead_lt {action : ExecutionAction} (hstep : e.step args action = some e')
    (hadvances : action.advances = true) : e'.ahead < e.ahead := by
  cases action with
  | enter malloc =>
      rw [step] at hstep
      split_ifs at hstep with hcaller
      obtain rfl := Option.some.inj hstep
      rw [enter]
      split_ifs <;> simp [ahead, note, hcaller, Caller.ahead, Setup.ahead]
  | setup result => exact ahead_setup hstep
  | threadCreate rc =>
      rw [step] at hstep
      split_ifs at hstep with hcaller hrc
      · obtain rfl := Option.some.inj hstep
        simp [ahead, hcaller.1, Caller.ahead, Performer.ahead]
        omega
      · obtain rfl := Option.some.inj hstep
        simp [ahead, note, hcaller.1, Caller.ahead]
  | invoke party invocation => exact absurd hadvances Bool.false_ne_true
  | finish party rc finalRead =>
      rw [step] at hstep
      by_cases htransfer : e.transferring party = true
      · rw [if_pos htransfer] at hstep
        obtain rfl := Option.some.inj hstep
        exact ahead_comeOut htransfer (by rfl) (by rfl) _
      · rw [if_neg htransfer] at hstep
        exact absurd hstep (by simp)
  | proceed party =>
      cases party with
      | caller => exact ahead_proceedCaller hstep
      | performer => exact ahead_proceedPerformer hstep

/-- A callback leaves the threads where they are. -/
theorem ahead_invoke {action : ExecutionAction} (hstep : e.step args action = some e')
    (hcallback : action.advances = false) : e'.ahead = e.ahead := by
  cases action with
  | invoke party invocation =>
      rw [step] at hstep
      split_ifs at hstep
      obtain ⟨response, -, rfl⟩ := Option.map_eq_some_iff.mp hstep
      rfl
  | enter | setup | threadCreate | finish | proceed =>
      exact absurd hcallback (Bool.false_ne_true ∘ Eq.symm)

/-- **A run is bounded**, apart from the callbacks of its transfer. -/
theorem countP_advances_le {actions : List ExecutionAction}
    (hrun : Guarded.run (step args) (start args) actions = some e) :
    actions.countP ExecutionAction.advances ≤ 16 := by
  have hbound := Guarded.countP_add_rank_le (fun _ _ _ hstep => ahead_lt hstep)
    (fun _ _ _ hstep hcallback => (ahead_invoke hstep hcallback).le) hrun
  exact (Nat.le_add_right _ _).trans hbound

/-- The closing events are in order. -/
theorem pairwise_closing (allocated : Bool) (caller : Caller) (performer : Performer) :
    (closing allocated caller performer).Pairwise Event.Precedes := by
  unfold closing
  split
  · split <;> simp
  · split <;> simp
  · simp
  · simp [Event.Precedes]
  · simp

/-- What the invariant says of the cleanups and completions. -/
theorem Kept.completes (h : Kept args e) :
    e.trace.Pairwise Event.Precedes ∧ e.trace.countP Event.isCleanup ≤ 1 ∧
      (∀ result ∈ completions e.trace, result = e.request.result) ∧
      (∀ err, e.caller = .returned (.error err) → completions e.trace = []) ∧
      (e.Finished → e.trace.countP Event.isCleanup = if e.allocated then 1 else 0) ∧
      ∀ result, e.Finished → e.caller = .returned result →
        completions e.trace
          = if args.completeCallback = true ∧ result = .success then [e.request.result] else [] := by
  obtain ⟨htogether, hshaped⟩ := h
  rw [hshaped.countP_isCleanup, hshaped.completions_eq]
  refine ⟨hshaped.pairwise (pairwise_closing _ _ _), ?_⟩
  clear hshaped
  obtain ⟨caller, performer, allocated, request, trace⟩ := e
  cases htogether with
  | entry | setup | perform | transfer | performed | cleanup =>
      simp [closing, completions, Execution.Finished]
  | refused | leaving => simp [closing, completions, Event.isCleanup, Execution.Finished]
  | refusedReturned => simp [closing, completions]
  | returned result hclean =>
      refine ⟨Nat.le_refl 1, fun _ hno => absurd hno List.not_mem_nil, fun _ _ => rfl,
        fun _ => rfl, fun _ _ hcaller => ?_⟩
      obtain rfl := Caller.returned.inj hcaller
      rw [if_neg]
      · rfl
      · rintro ⟨hcomplete, rfl⟩
        simp [RequestArgs.cleansUp, hcomplete] at hclean
  | created _ _ hcomplete hcaller hperformer hresult =>
      cases performer with
      | absent => exact absurd rfl hperformer
      | transfer | performed | copied =>
          rcases hcaller with rfl | rfl | rfl <;>
            simp [closing, completions, Execution.Finished]
      | cleaned =>
          rcases hcaller with rfl | rfl | rfl <;>
            simp [closing, completions, Event.isCleanup, Execution.Finished]
      | done result =>
          have hrecorded : result = request.result := hresult result rfl
          rcases hcaller with rfl | rfl | rfl <;>
            simp [closing, completions, List.countP_cons, Event.isCleanup, hcomplete, hrecorded,
              Execution.Finished]

/-- As long as the threads are not done, one of them can go on. -/
theorem Kept.exists_step (h : Kept args e) (hfinished : ¬e.Finished) :
    ∃ action e', action.advances = true ∧ e.step args action = some e' := by
  obtain ⟨htogether, -⟩ := h
  obtain ⟨caller, performer, allocated, request, trace⟩ := e
  cases htogether with
  | entry => exact ⟨.enter true, _, rfl, rfl⟩
  | refused => exact ⟨.proceed .caller, _, rfl, rfl⟩
  | refusedReturned err => exact absurd ⟨⟨_, rfl⟩, .inl rfl⟩ hfinished
  | setup s =>
      refine ⟨.setup .success, ?_⟩
      cases s with
      | addHeader =>
          rw [Execution.step]
          simp only
          split <;> exact ⟨_, rfl, rfl⟩
      | prepareWriteCallbacks | prepareReadCallbacks | handleGet | uriAddQuery | computeHeaders
      | setRequest => exact ⟨_, rfl, rfl⟩
  | perform =>
      rcases hcomplete : args.completeCallback with _ | _
      · refine ⟨.proceed .caller, ?_⟩
        simp [Execution.step, Execution.proceedCaller, hcomplete, ExecutionAction.advances]
      · refine ⟨.threadCreate 0, ?_⟩
        simp [Execution.step, hcomplete, ExecutionAction.advances]
  | transfer => exact ⟨.finish .caller 0 .success, _, rfl, rfl⟩
  | performed | cleanup | leaving => exact ⟨.proceed .caller, _, rfl, rfl⟩
  | returned result => exact absurd ⟨⟨result, rfl⟩, .inl rfl⟩ hfinished
  | created _ _ _ hcaller hperformer =>
      rcases hcaller with rfl | rfl | rfl
      · exact ⟨.proceed .caller, _, rfl, rfl⟩
      · exact ⟨.proceed .caller, _, rfl, rfl⟩
      · cases performer with
        | absent => exact absurd rfl hperformer
        | transfer => exact ⟨.finish .performer 0 .success, _, rfl, rfl⟩
        | performed | copied | cleaned => exact ⟨.proceed .performer, _, rfl, rfl⟩
        | done result => exact absurd ⟨⟨_, rfl⟩, .inr ⟨result, rfl⟩⟩ hfinished

end Execution

/-- **A request is cleaned up once and completed once.** Whatever fails and however the
threads interleave: nothing of the request follows its cleanup, there is at most one cleanup,
the completion callback gets the recorded result, after everything else, and it is not called
if the call fails. When the threads are done, the request was cleaned up, if there was one,
and the completion callback was called once if the call succeeded and there is one. And the
threads get done: a run is bounded apart from the callbacks of its transfer, and as long as
the threads are not done, one of them can go on. -/
theorem request_completes {args : RequestArgs} {actions : List ExecutionAction} {e : Execution}
    (hrun : Guarded.run (Execution.step args) (.start args) actions = some e) :
    e.trace.Pairwise Event.Precedes ∧ e.trace.countP Event.isCleanup ≤ 1 ∧
      (∀ result ∈ completions e.trace, result = e.request.result) ∧
      (∀ err, e.caller = .returned (.error err) → completions e.trace = []) ∧
      (e.Finished → e.trace.countP Event.isCleanup = if e.allocated then 1 else 0) ∧
      (∀ result, e.Finished → e.caller = .returned result →
        completions e.trace
          = if args.completeCallback = true ∧ result = .success then [e.request.result] else []) ∧
      actions.countP ExecutionAction.advances ≤ 16 ∧
      (¬e.Finished → ∃ action e', action.advances = true ∧ e.step args action = some e') := by
  have h : e.Kept args := Guarded.invariant (P := fun _ _ => True)
    (fun _ _ _ hkept _ hstep => hkept.step hstep) (Execution.Kept.start args)
    (Guarded.Along.of_forall (fun _ _ => trivial) _ _) hrun
  have hbound := Execution.countP_advances_le hrun
  have hgo := h.exists_step
  obtain ⟨hpairwise, honce, hrecorded, herror, hcleanup, hcomplete⟩ := h.completes
  exact ⟨hpairwise, honce, hrecorded, herror, hcleanup, hcomplete, hbound, hgo⟩

/-- The case of a request that is performed on a thread, whose transfer begins before the
call returns and ends after it. -/
theorem request_completes_interleaved :
    let request : Request := ⟨.success, 0, [], 0, 0, false, .client, HeaderList.empty, .none, false⟩
    let args : RequestArgs := ⟨some (bytes "GET"), some (bytes "u"), [], false, true, request⟩
    let setup : ExecutionAction := .setup .success
    let actions : List ExecutionAction := [.enter true, setup, setup, setup, setup, setup, setup,
      setup, .threadCreate 0, .invoke .performer (.writeData (bytes "x") 1 1 .success),
      .proceed .caller, .proceed .caller, .finish .performer 0 .success, .proceed .performer,
      .proceed .performer, .proceed .performer]
    ∃ e, Guarded.run (Execution.step args) (.start args) actions = some e ∧ e.Finished ∧
      e.trace.countP Event.isCleanup = 1 ∧ completions e.trace = [e.request.result] := by
  intro request args setup actions
  have he : (Guarded.run (Execution.step args) (.start args) actions).map
      (fun e => (e.caller, e.performer, e.allocated))
        = some (.returned .success, .done .success, true) := by decide +kernel
  obtain ⟨e, hrun, he⟩ := Option.map_eq_some_iff.mp he
  obtain ⟨hcaller, hrest⟩ := Prod.mk.inj he
  obtain ⟨hperformer, hallocated⟩ := Prod.mk.inj hrest
  have hfinished : e.Finished := ⟨⟨_, hcaller⟩, .inr ⟨_, hperformer⟩⟩
  obtain ⟨-, -, -, -, hcount, hcompletions, -, -⟩ := request_completes hrun
  refine ⟨e, hrun, hfinished, ?_, ?_⟩
  · rw [hcount hfinished, hallocated]
    rfl
  · rw [hcompletions .success hfinished hcaller]
    rfl

end DsiRest
