import DsiRest.DownloadStream
import DsiRest.RequestBody
import DsiRest.UploadStream

/-!
# GridFTP Operations in an Exchange

The callbacks that pass the bodies of a request on to a GridFTP operation. A call of one of them is
not a single step: it waits until the server has taken or delivered blocks, and what happens
meanwhile, as well as between the calls, is a run of `Download.step` or `Upload.step`. A client of
the exchange makes such a run at a time.

Where an exchange completes without a failure, the data of the response is in the blocks that were
registered with the server, in their places, and the data that was sent is that of the file. A file
that is stored with one request and fetched with another arrives as it was.

## Main results

* `download_exchanged` — the blocks that are registered for a response.
* `upload_exchanged` — the data that is sent for a file.
* `file_roundTrip` — a file that is stored and fetched.
-/

namespace DsiRest

open Reassembly

/-! ### Downloads -/

/-- An action other than a call. -/
def DownloadAction.between : DownloadAction → Bool
  | .call _ => false
  | _ => true

/-- A write completes. -/
def DownloadAction.completes : DownloadAction → Bool
  | .complete _ _ => true
  | _ => false

/-- `globus_dsi_rest_read_gridftp_op` in an exchange: what happens from a call to its return, and
the completions between the calls. -/
def gridftpReader : DataReader Download (List DownloadAction) where
  read d actions chunk := do
    let last ← Guarded.run Download.step d (.call chunk :: actions)
    if actions.all DownloadAction.between ∧ last.reader = .idle then
      last.calls.getLast?.map fun call => (call.result, last)
    else none
  tick d actions :=
    if actions.all DownloadAction.completes then Guarded.run Download.step d actions else none

namespace Download

/-- The chunk of the call that is being made, if there is one. -/
def pending (d : Download) : Option Bytes :=
  if d.reader = .idle then none else some d.reader.chunk

/-- A turn leaves the call pending, or returns from it. -/
theorem Turns.returns {s : ℕ} {d d' : Download} {server : WriteServer}
    (h : Turns s d server d') :
    (d'.pending = d.pending ∧ d'.calls = d.calls) ∨
      ∃ chunk c, d.pending = some chunk ∧ d'.pending = none ∧ d'.calls = d.calls ++ [c] ∧
        c.chunk = chunk := by
  have hchunk : ∀ {chunk rest : Bytes} {optimalConcurrency : ℕ},
      d.pending = some chunk → ChunkTurns s d server optimalConcurrency chunk rest d' →
      (d'.pending = d.pending ∧ d'.calls = d.calls) ∨
        ∃ chunk c, d.pending = some chunk ∧ d'.pending = none ∧ d'.calls = d.calls ++ [c] ∧
          c.chunk = chunk := by
    intro chunk rest optimalConcurrency hpending hturn
    cases hturn with
    | waits => exact Or.inl ⟨hpending.symm ▸ rfl, rfl⟩
    | noMemory => exact Or.inr ⟨chunk, _, hpending, rfl, rfl, rfl⟩
    | goesOn => exact Or.inl ⟨hpending.symm ▸ rfl, rfl⟩
    | returns => exact Or.inr ⟨chunk, _, hpending, rfl, rfl, rfl⟩
  cases h with
  | turn chunk rest d' hreader hturn => exact hchunk (by rw [pending, hreader]; rfl) hturn
  | slot chunk rest optimalConcurrency d' hreader hturn =>
      exact hchunk (by rw [pending, hreader]; rfl) hturn
  | last result arg sent hreader hsend =>
      refine Or.inl ⟨?_, rfl⟩
      rw [pending, pending, hreader]
      rfl
  | drains => exact Or.inl ⟨rfl, rfl⟩
  | drained result hreader hwrites =>
      refine Or.inr ⟨[], _, ?_, rfl, rfl, rfl⟩
      rw [pending, hreader]
      rfl

/-- An action other than a call leaves the call pending, or returns from it. -/
theorem Sound.returns {s : ℕ} {d d' : Download} {action : DownloadAction} (h : Sound s d)
    (hbetween : action.between = true) (hstep : d.step action = some d') :
    (d'.pending = d.pending ∧ d'.calls = d.calls) ∨
      ∃ chunk c, d.pending = some chunk ∧ d'.pending = none ∧ d'.calls = d.calls ++ [c] ∧
        c.chunk = chunk := by
  cases action with
  | call chunk => cases hbetween
  | turn server => exact (h.turns_of_step hstep).returns
  | complete id result =>
      rw [Download.step] at hstep
      split_ifs at hstep
      obtain ⟨w, -, rfl⟩ := Option.map_eq_some_iff.mp hstep
      exact Or.inl ⟨rfl, rfl⟩

/-- A run of actions other than calls keeps the invariant, and returns from a call at most once. -/
theorem Sound.run {s : ℕ} {d d' : Download} {actions : List DownloadAction} (h : Sound s d)
    (hbetween : ∀ action ∈ actions, action.between = true)
    (hrun : Guarded.run Download.step d actions = some d') :
    Sound s d' ∧ ((d'.pending = d.pending ∧ d'.calls = d.calls) ∨
      ∃ chunk c, d.pending = some chunk ∧ d'.pending = none ∧ d'.calls = d.calls ++ [c] ∧
        c.chunk = chunk) := by
  have hal : Guarded.Along Download.step (fun _ action => action.between = true) d actions :=
    .of_forall_mem (fun action ha _ => hbetween action ha) d
  exact ⟨Guarded.invariant (fun _ _ _ hd _ hstep => hd.step hstep) h hal hrun,
    Guarded.returns_once (fun _ _ _ hd _ hstep => hd.step hstep)
      (fun _ _ _ hd hP hstep => hd.returns hP hstep) h hal hrun⟩

end Download

/-- **A call of the reader** returns once, with the chunk that it was made with. -/
theorem gridftpReader_read {s : ℕ} {d d' : Download} {actions : List DownloadAction}
    {chunk : Bytes} {result : Result} (h : Download.Sound s d)
    (hread : gridftpReader.read d actions chunk = some (result, d')) :
    Download.Sound s d' ∧ d'.reader = .idle ∧ d'.calls = d.calls ++ [⟨chunk, result⟩] := by
  simp only [gridftpReader, Option.bind_eq_bind, Option.bind_eq_some_iff] at hread
  obtain ⟨last, hrun, hread⟩ := hread
  split_ifs at hread with hreturned
  obtain ⟨hbetween, hidle⟩ := hreturned
  obtain ⟨call, hcall, hpair⟩ := Option.map_eq_some_iff.mp hread
  obtain ⟨rfl, rfl⟩ := Prod.mk.inj hpair
  obtain ⟨called, hfirst, hrest⟩ := Guarded.run_cons.mp hrun
  have hstep := hfirst
  rw [Download.step] at hfirst
  split_ifs at hfirst with hfree hempty
  all_goals
    obtain rfl := Option.some.inj hfirst
    obtain ⟨hsound, hledger⟩ :=
      (h.step hstep).run (fun a ha => List.all_eq_true.mp hbetween a ha) hrest
    have hnone : last.pending = none := if_pos hidle
    rcases hledger with ⟨hpending, -⟩ | ⟨pending, c, hpending, -, hcalls, hc⟩
    · rw [hnone] at hpending
      exact absurd hpending.symm (by simp [Download.pending])
    · obtain rfl : pending = chunk := by
        simpa [Download.pending, Reader.chunk, eq_comm, hempty] using hpending
      rw [hcalls, List.getLast?_concat] at hcall
      obtain rfl := Option.some.inj hcall
      exact ⟨hsound, hidle, by rw [hcalls, ← hc]⟩

/-- Completions between the calls make no call. -/
theorem gridftpReader_tick {s : ℕ} {d d' : Download} {actions : List DownloadAction}
    (h : Download.Sound s d) (hidle : d.reader = .idle)
    (htick : gridftpReader.tick d actions = some d') :
    Download.Sound s d' ∧ d'.reader = .idle ∧ d'.calls = d.calls := by
  simp only [gridftpReader] at htick
  split_ifs at htick with hcompletes
  have hbetween : ∀ action ∈ actions, action.between = true := by
    intro action haction
    have hcomplete := List.all_eq_true.mp hcompletes action haction
    cases action with
    | call chunk => cases hcomplete
    | turn server => rfl
    | complete id result => rfl
  obtain ⟨hsound, hledger⟩ := h.run hbetween htick
  have hnone : d.pending = none := if_pos hidle
  rcases hledger with ⟨hpending, hcalls⟩ | ⟨chunk, c, hpending, -⟩
  · rw [hnone] at hpending
    refine ⟨hsound, ?_, hcalls⟩
    by_contra hbusy
    rw [Download.pending, if_neg hbusy] at hpending
    cases hpending
  · rw [hnone] at hpending
    cases hpending

/-- The call that is made of an event, with a success. -/
def ReaderEvent.succeeded {α : Type} : ReaderEvent α → List ReadCall
  | .data _ chunk => [⟨chunk, .success⟩]
  | .tick _ => []

/-- **The calls of an exchange** that are accepted. -/
theorem gridftpReader_run {s : ℕ} {events : List (ReaderEvent (List DownloadAction))} :
    ∀ {d last : Download}, Download.Sound s d → d.reader = .idle →
    Guarded.run gridftpReader.accept d events = some last →
    Download.Sound s last ∧ last.reader = .idle ∧
      last.calls = d.calls ++ events.flatMap ReaderEvent.succeeded := by
  induction events with
  | nil =>
      intro d last h hidle hrun
      obtain rfl := Option.some.inj hrun
      exact ⟨h, hidle, (List.append_nil _).symm⟩
  | cons e events ih =>
      intro d last h hidle hrun
      obtain ⟨next, hfirst, hrest⟩ := Guarded.run_cons.mp hrun
      have hone : Download.Sound s next ∧ next.reader = .idle ∧
          next.calls = d.calls ++ e.succeeded := by
        cases e with
        | data actions chunk =>
            rw [DataReader.accept] at hfirst
            split at hfirst
            · rename_i state hread
              obtain rfl := Option.some.inj hfirst
              exact gridftpReader_read h hread
            · cases hfirst
        | tick actions =>
            rw [ReaderEvent.succeeded, List.append_nil]
            exact gridftpReader_tick h hidle hfirst
      obtain ⟨hsound, hstill, hcalls⟩ := ih hone.1 hone.2.1 hrest
      refine ⟨hsound, hstill, ?_⟩
      rw [hcalls, hone.2.2, List.flatMap_cons, List.append_assoc]

/-- The calls that are made of events succeed, and get their data. -/
theorem succeeded_spec {α : Type} (events : List (ReaderEvent α)) :
    (∀ c ∈ events.flatMap ReaderEvent.succeeded, c.result = .success) ∧
      (events.flatMap ReaderEvent.succeeded).flatMap ReadCall.chunk = receivedBody events := by
  induction events with
  | nil => exact ⟨fun c hc => absurd hc List.not_mem_nil, rfl⟩
  | cons e events ih =>
      rw [receivedBody, List.flatMap_cons, List.flatMap_cons, List.flatMap_append,
        List.forall_mem_append]
      refine ⟨⟨?_, ih.1⟩, ?_⟩
      · cases e with
        | data choice chunk => exact List.forall_mem_singleton.mpr rfl
        | tick choice => exact fun c hc => absurd hc List.not_mem_nil
      · rw [ih.2]
        cases e with
        | data choice chunk => exact congrArg (· ++ _) (List.append_nil chunk)
        | tick choice => rfl

/-- What a request with a GridFTP operation as its reader has done when it completes without a
failure. -/
theorem gridftpReader_success {ω β : Type} {writer : DataWriter ω β} {s length : ℕ}
    {x last : Exchange Download ω} {actions : List (ExchangeAction (List DownloadAction) β)}
    {rc : ℕ} {choice : List DownloadAction} (hs : s < word)
    (hread : x.request.dataReadCallback = .gridftpOp)
    (hx : x.reader = .start (prepareReadGridftpOp s length))
    (h : (Client.mk gridftpReader writer).perform x actions rc choice = some (.success, last)) :
    Download.Sound s last.reader ∧ last.reader.AllSucceed ∧ last.reader.Ended ∧
      last.reader.input = receivedBody (actions.flatMap ExchangeAction.heard) ∧
      last.request.responseBytesDownloaded ≡ x.request.responseBytesDownloaded
        + (receivedBody (actions.flatMap ExchangeAction.heard)).length [MOD word] := by
  have hkind : x.request.SinglePart := by
    intro arg harg
    rw [hread] at harg
    cases harg
  obtain ⟨-, -, hall⟩ := Client.perform_success hkind h
  have hreads : Execution.readsEnd x.request = true := by rw [Execution.readsEnd, hread]
  have hreader := hall.reader
  have hcounted := hall.downloaded
  rw [Client.hears, if_pos hreads] at hreader hcounted
  rw [hx] at hreader
  obtain ⟨hsound, hidle, hcalls⟩ := gridftpReader_run (Download.Sound.start hs) rfl hreader
  obtain ⟨hsucceed, hchunks⟩ :=
    succeeded_spec (actions.flatMap ExchangeAction.heard ++ [.data choice []])
  rw [show (Download.start (prepareReadGridftpOp s length)).calls = [] from rfl,
    List.nil_append] at hcalls
  have hbody : receivedBody (actions.flatMap ExchangeAction.heard ++ [.data choice []])
      = receivedBody (actions.flatMap ExchangeAction.heard) := by
    rw [receivedBody, List.flatMap_append]
    exact List.append_nil _
  refine ⟨hsound, ?_, ⟨hidle, ?_⟩, ?_, ?_⟩
  · rw [Download.AllSucceed, hcalls]
    exact hsucceed
  · rw [hcalls, List.flatMap_append]
    exact congrArg (Option.map ReadCall.chunk) List.getLast?_concat
  · rw [Download.input, hidle, hcalls, hchunks, hbody]
    exact List.append_nil _
  · rw [← hbody]
    exact hcounted

/-- **A response goes to the GridFTP server.** When a request with a GridFTP operation as its
reader completes without a failure, whatever the server does and in whatever order writes complete,
the blocks that were registered follow each other from the offset of the operation on, none of them
empty; their bytes are the body of the response, which the request has counted; every write has
completed, and the mutex is free. -/
theorem download_exchanged {ω β : Type} {writer : DataWriter ω β} {s length : ℕ}
    {x last : Exchange Download ω} {actions : List (ExchangeAction (List DownloadAction) β)}
    {rc : ℕ} {choice : List DownloadAction} (hs : s < word)
    (hread : x.request.dataReadCallback = .gridftpOp)
    (hx : x.reader = .start (prepareReadGridftpOp s length))
    (h : (Client.mk gridftpReader writer).perform x actions rc choice = some (.success, last)) :
    let body := receivedBody (actions.flatMap ExchangeAction.heard)
    Placed s last.reader.registered ∧ writtenBytes last.reader.registered = body ∧
      (last.reader.completed.map Prod.fst).Perm last.reader.registered ∧
      last.reader.locked = false ∧
      last.request.responseBytesDownloaded
        ≡ x.request.responseBytesDownloaded + body.length [MOD word] := by
  obtain ⟨hsound, hall, hended, hinput, hcounted⟩ := gridftpReader_success hs hread hx h
  have haccounted := hsound.accounted
  rw [(hsound.ended hall hended).2, List.append_nil] at haccounted
  exact ⟨hsound.stored.placed, (hsound.written hall hended).trans hinput, haccounted,
    Bool.eq_false_of_not_eq_true fun hlocked => (hsound.locked hlocked).2 hended, hcounted⟩

/-- A request whose response goes to a GridFTP operation. -/
def getRequest : Request :=
  ⟨.success, 200, bytes "OK", 0, 0, false, .gridftpOp, HeaderList.empty, .none, false⟩

/-- The case of three bytes that come in two pieces and go into blocks of two bytes. -/
theorem download_exchanged_twoPieces :
    let server : WriteServer := ⟨2, 1, true, fun _ => .success⟩
    let client : Client Download Bytes (List DownloadAction) Unit := ⟨gridftpReader, supplier⟩
    let x : Exchange Download Bytes :=
      ⟨getRequest, .start (prepareReadGridftpOp 0 minusOne64), []⟩
    let actions : List (ExchangeAction (List DownloadAction) Unit) :=
      [.writeData [.turn server] (bytes "A") 1 1, .invoke (.xferinfo .success),
        .writeData [.turn server, .turn server, .complete 0 .success, .turn server]
          (bytes "BC") 1 2]
    ∃ last, client.perform x actions 0 [.turn server, .complete 0 .success, .turn server]
        = some (.success, last) ∧
      last.reader.registered = [⟨0, 0, bytes "AB"⟩, ⟨0, 2, bytes "C"⟩] ∧
      (last.reader.completed.map Prod.fst).Perm last.reader.registered := by
  intro server client x actions
  have hend : (client.perform x actions 0 [.turn server, .complete 0 .success, .turn server]).map
      (fun p => (p.1, p.2.reader.registered))
        = some (.success, [⟨0, 0, bytes "AB"⟩, ⟨0, 2, bytes "C"⟩]) := by
    decide +kernel
  obtain ⟨⟨result, last⟩, hperform, hpair⟩ := Option.map_eq_some_iff.mp hend
  obtain ⟨rfl, hregistered⟩ := Prod.mk.inj hpair
  exact ⟨last, hperform, hregistered,
    (download_exchanged (by decide) rfl rfl hperform).2.2.1⟩

/-! ### Uploads -/

/-- An action other than a call. -/
def UploadAction.between : UploadAction → Bool
  | .call _ _ => false
  | _ => true

/-- A read completes. -/
def UploadAction.completes : UploadAction → Bool
  | .complete _ _ => true
  | _ => false

/-- `globus_dsi_rest_write_gridftp_op` in an exchange: what happens from a call to its return, and
the completions between the calls. -/
def gridftpWriter : DataWriter Upload (ReadServer × List UploadAction) where
  write u choice n := do
    let last ← Guarded.run Upload.step u (.call choice.1 n :: choice.2)
    if choice.2.all UploadAction.between ∧ last.waiting = none then
      last.calls.getLast?.map fun call => (⟨call.result, call.copied⟩, last)
    else none
  tick u choice :=
    if choice.2.all UploadAction.completes then Guarded.run Upload.step u choice.2 else none

namespace Upload

/-- The length of the buffer of the call that waits, if there is one. -/
def pending (u : Upload) : Option ℕ :=
  u.waiting.map Prod.fst

/-- A section leaves its call pending, or returns from it. -/
theorem after_returns (u : Upload) (n : ℕ) (ws : WriteSection) :
    ((u.after n ws).pending = some n ∧ (u.after n ws).calls = u.calls) ∨
      ∃ c, (u.after n ws).pending = none ∧ (u.after n ws).calls = u.calls ++ [c] ∧
        c.bufferLength = n := by
  rw [after]
  split
  · exact Or.inl ⟨rfl, rfl⟩
  · exact Or.inr ⟨_, rfl, rfl, rfl⟩

/-- An action other than a call leaves the call pending, or returns from it. -/
theorem step_returns {u u' : Upload} {action : UploadAction} (hbetween : action.between = true)
    (hstep : u.step action = some u') :
    (u'.pending = u.pending ∧ u'.calls = u.calls) ∨
      ∃ n c, u.pending = some n ∧ u'.pending = none ∧ u'.calls = u.calls ++ [c] ∧
        c.bufferLength = n := by
  cases action with
  | call server n => cases hbetween
  | wake server =>
      rw [step] at hstep
      split at hstep
      · cases hstep
      · rename_i n result hwaiting
        obtain ⟨ws, -, rfl⟩ := Option.map_eq_some_iff.mp hstep
        have hpending : u.pending = some n := by rw [pending, hwaiting]; rfl
        rcases u.after_returns n ws with ⟨hstill, hcalls⟩ | ⟨c, hnone, hcalls, hc⟩
        · exact Or.inl ⟨hstill.trans hpending.symm, hcalls⟩
        · exact Or.inr ⟨n, c, hpending, hnone, hcalls, hc⟩
  | complete id c =>
      rw [step] at hstep
      split_ifs at hstep
      obtain ⟨-, -, rfl⟩ := Option.map_eq_some_iff.mp hstep
      exact Or.inl ⟨rfl, rfl⟩

/-- A run of actions other than calls returns from a call at most once. -/
theorem run_returns {u u' : Upload} {actions : List UploadAction}
    (hbetween : ∀ action ∈ actions, action.between = true)
    (hrun : Guarded.run step u actions = some u') :
    (u'.pending = u.pending ∧ u'.calls = u.calls) ∨
      ∃ n c, u.pending = some n ∧ u'.pending = none ∧ u'.calls = u.calls ++ [c] ∧
        c.bufferLength = n :=
  Guarded.returns_once (I := fun _ => True) (P := fun _ action => action.between = true)
    (fun _ _ _ _ _ _ => trivial) (fun _ _ _ _ hP hstep => step_returns hP hstep) trivial
    (.of_forall_mem (fun action ha _ => hbetween action ha) u) hrun

end Upload

/-- **A call of the writer** returns once. -/
theorem gridftpWriter_write {u u' : Upload} {choice : ReadServer × List UploadAction} {n : ℕ}
    {outcome : WriteOutcome} (hwrite : gridftpWriter.write u choice n = some (outcome, u')) :
    Guarded.run Upload.step u (.call choice.1 n :: choice.2) = some u' ∧ u'.waiting = none ∧
      u'.calls = u.calls ++ [⟨n, outcome.result, outcome.data⟩] := by
  simp only [gridftpWriter, Option.bind_eq_bind, Option.bind_eq_some_iff] at hwrite
  obtain ⟨last, hrun, hwrite⟩ := hwrite
  split_ifs at hwrite with hreturned
  obtain ⟨hbetween, hwaiting⟩ := hreturned
  obtain ⟨call, hcall, hpair⟩ := Option.map_eq_some_iff.mp hwrite
  obtain ⟨rfl, rfl⟩ := Prod.mk.inj hpair
  refine ⟨hrun, hwaiting, ?_⟩
  obtain ⟨called, hfirst, hrest⟩ := Guarded.run_cons.mp hrun
  have hledger := Upload.run_returns (fun a ha => List.all_eq_true.mp hbetween a ha) hrest
  have hnone : last.pending = none := by rw [Upload.pending, hwaiting]; rfl
  rw [Upload.step] at hfirst
  split at hfirst
  · cases hfirst
  · obtain ⟨ws, -, rfl⟩ := Option.map_eq_some_iff.mp hfirst
    have hone : ∃ c, last.calls = u.calls ++ [c] ∧ c.bufferLength = n := by
      rcases u.after_returns n ws with ⟨hstill, hcalls⟩ | ⟨c, hended, hcalls, hc⟩
      · rcases hledger with ⟨hpending, -⟩ | ⟨m, c, hpending, -, hlast, hc⟩
        · rw [hnone, hstill] at hpending
          cases hpending
        · rw [hstill] at hpending
          obtain rfl := Option.some.inj hpending
          exact ⟨c, by rw [hlast, hcalls], hc⟩
      · rcases hledger with ⟨-, hlast⟩ | ⟨m, c', hpending, -⟩
        · exact ⟨c, by rw [hlast, hcalls], hc⟩
        · rw [hended] at hpending
          cases hpending
    obtain ⟨c, hcalls, rfl⟩ := hone
    rw [hcalls, List.getLast?_concat] at hcall
    obtain rfl := Option.some.inj hcall
    exact hcalls

/-- Completions between the calls make no call. -/
theorem gridftpWriter_tick {u u' : Upload} {choice : ReadServer × List UploadAction}
    (hwaiting : u.waiting = none) (htick : gridftpWriter.tick u choice = some u') :
    Guarded.run Upload.step u choice.2 = some u' ∧ u'.waiting = none ∧ u'.calls = u.calls := by
  simp only [gridftpWriter] at htick
  split_ifs at htick with hcompletes
  have hbetween : ∀ action ∈ choice.2, action.between = true := by
    intro action haction
    have hcomplete := List.all_eq_true.mp hcompletes action haction
    cases action with
    | call server n => cases hcomplete
    | wake server => rfl
    | complete id c => rfl
  have hnone : u.pending = none := by rw [Upload.pending, hwaiting]; rfl
  rcases Upload.run_returns hbetween htick with ⟨hpending, hcalls⟩ | ⟨n, c, hpending, -⟩
  · rw [hnone, Upload.pending, Option.map_eq_none_iff] at hpending
    exact ⟨htick, hpending, hcalls⟩
  · rw [hnone] at hpending
    cases hpending

/-- What is assumed of the surroundings of an upload while an event takes place. -/
def ServesEvent (F : ℕ → Byte) (s n : ℕ) (u : Upload) :
    WriterEvent (ReadServer × List UploadAction) → Prop
  | .data choice m _ =>
    Guarded.Along Upload.step (Upload.Serves F s n) u (.call choice.1 m :: choice.2)
  | .tick choice => Guarded.Along Upload.step (Upload.Serves F s n) u choice.2

/-- The call that is made of an event, with a success. -/
def WriterEvent.succeeded {β : Type} : WriterEvent β → List WriteCall
  | .data _ n out => [⟨n, .success, out⟩]
  | .tick _ => []

/-- **The calls of an exchange** that are accepted. -/
theorem gridftpWriter_run {F : ℕ → Byte} {s n : ℕ} (hs : s + n < 2 ^ 63)
    {events : List (WriterEvent (ReadServer × List UploadAction))} :
    ∀ {u last : Upload}, Upload.Exact F s n u → u.waiting = none →
    Guarded.Along gridftpWriter.accept (ServesEvent F s n) u events →
    Guarded.run gridftpWriter.accept u events = some last →
    Upload.Exact F s n last ∧ last.calls = u.calls ++ events.flatMap WriterEvent.succeeded := by
  have hruns : ∀ {u u' : Upload} {actions : List UploadAction}, Upload.Exact F s n u →
      Guarded.Along Upload.step (Upload.Serves F s n) u actions →
      Guarded.run Upload.step u actions = some u' → Upload.Exact F s n u' :=
    fun h hal hrun =>
      Guarded.invariant (fun _ _ _ hu hP hstep => Upload.Exact.step hs hu hP hstep) h hal hrun
  induction events with
  | nil =>
      intro u last h _ _ hrun
      obtain rfl := Option.some.inj hrun
      exact ⟨h, (List.append_nil _).symm⟩
  | cons e events ih =>
      intro u last h hwaiting hserves hrun
      obtain ⟨next, hfirst, hrest⟩ := Guarded.run_cons.mp hrun
      obtain ⟨hevent, hlater⟩ := hserves
      have hone : Upload.Exact F s n next ∧ next.waiting = none ∧
          next.calls = u.calls ++ e.succeeded := by
        cases e with
        | data choice m out =>
            rw [DataWriter.accept] at hfirst
            split at hfirst
            · rename_i data state hwrite
              split_ifs at hfirst with hout
              obtain rfl := Option.some.inj hfirst
              obtain ⟨hcalled, hidle, hcalls⟩ := gridftpWriter_write hwrite
              rw [← hout]
              exact ⟨hruns h hevent hcalled, hidle, hcalls⟩
            · cases hfirst
        | tick choice =>
            obtain ⟨hcalled, hidle, hcalls⟩ := gridftpWriter_tick hwaiting hfirst
            rw [WriterEvent.succeeded, List.append_nil]
            exact ⟨hruns h hevent hcalled, hidle, hcalls⟩
      obtain ⟨hexact, hcalls⟩ := ih hone.1 hone.2.1 (hlater next hfirst) hrest
      refine ⟨hexact, ?_⟩
      rw [hcalls, hone.2.2, List.flatMap_cons, List.append_assoc]

/-- The calls that are made of events copy the data of the events. -/
theorem copied_succeeded {β : Type} (events : List (WriterEvent β)) :
    (events.flatMap WriterEvent.succeeded).flatMap WriteCall.copied = sentBody events := by
  induction events with
  | nil => rfl
  | cons e events ih =>
      rw [sentBody, List.flatMap_cons, List.flatMap_cons, List.flatMap_append, ih]
      cases e with
      | data choice m out => exact congrArg (· ++ _) (List.append_nil out)
      | tick choice => rfl

/-- What a request with a GridFTP operation as its writer has sent when it completes without a
failure. -/
theorem gridftpWriter_success {ρ α : Type} {reader : DataReader ρ α} {F : ℕ → Byte} {s n : ℕ}
    {eof : Bool} {x last : Exchange ρ Upload}
    {actions : List (ExchangeAction α (ReadServer × List UploadAction))} {rc : ℕ} {choice : α}
    (hs : s + n < 2 ^ 63) (hkind : x.request.SinglePart)
    (hx : x.writer = .start (prepareWriteGridftpOp s minusOne64 eof))
    (hserves : Guarded.Along gridftpWriter.accept (ServesEvent F s n) x.writer
      ((Client.mk reader gridftpWriter).asked x actions))
    (h : (Client.mk reader gridftpWriter).perform x actions rc choice = some (.success, last)) :
    let asked := (Client.mk reader gridftpWriter).asked x actions
    (∃ k, sentBody asked = slice F s k ∧ last.writer.arg.offset = s + k) ∧
      ((∃ server m, .data server m [] ∈ asked) → sentBody asked = slice F s n) ∧
      last.request.requestBytesUploaded
        ≡ x.request.requestBytesUploaded + (sentBody asked).length [MOD word] := by
  intro asked
  obtain ⟨-, -, hall⟩ := Client.perform_success hkind h
  have hwriter := hall.writer
  rw [hx] at hwriter hserves
  obtain ⟨hexact, hcalls⟩ :=
    gridftpWriter_run hs (Upload.Exact.start F s n eof) rfl hserves hwriter
  rw [show (Upload.start (prepareWriteGridftpOp s minusOne64 eof)).calls = [] from rfl,
    List.nil_append] at hcalls
  have hle := hexact.streamed.assembled.le
  have hsent : sentBody asked = slice F s (last.writer.arg.offset - s) := by
    rw [← copied_succeeded asked, ← hcalls]
    exact hexact.copied
  refine ⟨⟨_, hsent, by omega⟩, ?_, hall.uploaded⟩
  rintro ⟨server, m, hmem⟩
  have hend := (hexact.finished ⟨⟨m, .success, []⟩, ?_, rfl⟩).2.2
  · rw [hsent, hend, Nat.add_sub_cancel_left]
  · rw [hcalls]
    exact List.mem_flatMap.mpr ⟨_, hmem, List.mem_singleton.mpr rfl⟩

/-! ### A file that is stored and fetched -/

/-- **A file arrives as it was.** One request stores the `n` bytes of a file from `s` on, which the
GridFTP server delivers in blocks of any size and order, and libcurl is told the end of the body;
another request fetches what was stored. If both complete without a failure, the blocks registered
for the second request follow each other from its offset on, and they hold the bytes of the file;
all of these writes have completed, and what both requests have counted is `n`. -/
theorem file_roundTrip {ρ ω α β : Type} {reader : DataReader ρ α} {F : ℕ → Byte} {s n : ℕ}
    {eof : Bool} {x stored : Exchange ρ Upload}
    {sending : List (ExchangeAction α (ReadServer × List UploadAction))} {rc : ℕ} {choice : α}
    (hs : s + n < 2 ^ 63) (hkind : x.request.SinglePart)
    (hx : x.writer = .start (prepareWriteGridftpOp s minusOne64 eof))
    (huploaded : x.request.requestBytesUploaded = 0)
    (hserves : Guarded.Along gridftpWriter.accept (ServesEvent F s n) x.writer
      ((Client.mk reader gridftpWriter).asked x sending))
    (hend : ∃ server m, .data server m [] ∈ (Client.mk reader gridftpWriter).asked x sending)
    (hstored : (Client.mk reader gridftpWriter).perform x sending rc choice
      = some (.success, stored))
    {writer : DataWriter ω β} {t length : ℕ} {y fetched : Exchange Download ω}
    {receiving : List (ExchangeAction (List DownloadAction) β)} {rc' : ℕ}
    {choice' : List DownloadAction} (ht : t < word)
    (hread : y.request.dataReadCallback = .gridftpOp)
    (hy : y.reader = .start (prepareReadGridftpOp t length))
    (hdownloaded : y.request.responseBytesDownloaded = 0)
    (hpassed : receivedBody (receiving.flatMap ExchangeAction.heard)
      = sentBody ((Client.mk reader gridftpWriter).asked x sending))
    (hfetched : (Client.mk gridftpReader writer).perform y receiving rc' choice'
      = some (.success, fetched)) :
    Placed t fetched.reader.registered ∧
      writtenBytes fetched.reader.registered = slice F s n ∧
      (fetched.reader.completed.map Prod.fst).Perm fetched.reader.registered ∧
      stored.request.requestBytesUploaded ≡ n [MOD word] ∧
      fetched.request.responseBytesDownloaded ≡ n [MOD word] := by
  obtain ⟨-, hall, hup⟩ := gridftpWriter_success hs hkind hx hserves hstored
  obtain ⟨hsound, hsucceed, hended, hinput, hdown⟩ := gridftpReader_success ht hread hy hfetched
  have hsent := hall hend
  rw [hsent, length_slice, huploaded, Nat.zero_add] at hup
  rw [hpassed, hsent, length_slice, hdownloaded, Nat.zero_add] at hdown
  have haccounted := hsound.accounted
  rw [(hsound.ended hsucceed hended).2, List.append_nil] at haccounted
  refine ⟨hsound.stored.placed, ?_, haccounted, hup, hdown⟩
  rw [hsound.written hsucceed hended, hinput, hpassed, hsent]

/-- The case of the three bytes `ABC` that are stored from two blocks, the second of which comes
first, and are fetched in two pieces. -/
theorem file_roundTrip_threeBytes :
    let F : ℕ → Byte := fun p => UInt8.ofNat (65 + p)
    let reads : ReadServer := ⟨2, 2, fun _ => true, fun _ => .success⟩
    let x : Exchange Unit Upload :=
      ⟨postRequest, (), .start (prepareWriteGridftpOp 0 minusOne64 false)⟩
    let sending : List (ExchangeAction Unit (ReadServer × List UploadAction)) :=
      [.readData (reads, [.complete 1 ⟨.success, bytes "C", 2, true⟩,
          .complete 0 ⟨.success, bytes "AB", 0, false⟩, .wake reads]) [] 1 4,
        .readData (reads, []) [] 1 4]
    let writes : WriteServer := ⟨2, 1, true, fun _ => .success⟩
    let client : Client Download Bytes (List DownloadAction) Unit := ⟨gridftpReader, supplier⟩
    let y : Exchange Download Bytes :=
      ⟨getRequest, .start (prepareReadGridftpOp 0 minusOne64), []⟩
    let receiving : List (ExchangeAction (List DownloadAction) Unit) :=
      [.writeData [.turn writes] (bytes "A") 1 1,
        .writeData [.turn writes, .turn writes, .complete 0 .success, .turn writes]
          (bytes "BC") 1 2]
    ∃ stored fetched,
      (Client.mk noReader gridftpWriter).perform x sending 0 () = some (.success, stored) ∧
      client.perform y receiving 0 [.turn writes, .complete 0 .success, .turn writes]
        = some (.success, fetched) ∧
      writtenBytes fetched.reader.registered = slice F 0 3 := by
  intro F reads x sending writes client y receiving
  have hworks : reads.Works := ⟨by decide, by decide, by decide, fun _ => rfl, fun _ => rfl⟩
  have hcover : ∀ p, Covered [⟨2, 1⟩, ⟨0, 2⟩] p ↔ 0 ≤ p ∧ p < 0 + 3 := by
    intro p
    simp only [covered_cons, Extent.Contains, Extent.stop, not_covered_nil, or_false]
    omega
  have hresult : ((Client.mk noReader gridftpWriter).perform x sending 0 ()).map Prod.fst
      = some .success := by
    decide +kernel
  obtain ⟨⟨result, stored⟩, hstored, rfl⟩ := Option.map_eq_some_iff.mp hresult
  obtain ⟨between, hrun, -⟩ := Option.bind_eq_some_iff.mp hstored
  obtain ⟨next, hfirst, -⟩ := Guarded.run_cons.mp hrun
  have houts : ((Client.mk noReader gridftpWriter).asked x sending).map WriterEvent.out
      = [bytes "ABC", []] := by
    decide +kernel
  obtain ⟨out, out', hasked⟩ : ∃ out out', (Client.mk noReader gridftpWriter).asked x sending
      = [.data (reads, [.complete 1 ⟨.success, bytes "C", 2, true⟩,
          .complete 0 ⟨.success, bytes "AB", 0, false⟩, .wake reads]) 4 out,
        .data (reads, []) 4 out'] := by
    rw [Client.asked, Guarded.translate_cons hfirst, Guarded.translate]
    cases (Client.mk noReader gridftpWriter).step next (.readData (reads, []) [] 1 4) with
    | none => exact ⟨_, _, rfl⟩
    | some last => exact ⟨_, _, rfl⟩
  have hserves : Guarded.Along gridftpWriter.accept (ServesEvent F 0 3) x.writer
      ((Client.mk noReader gridftpWriter).asked x sending) := by
    rw [hasked]
    refine ⟨?_, fun _ _ => ⟨?_, fun _ _ => trivial⟩⟩
    · refine Guarded.along_cons ⟨hworks, by decide, by decide⟩ rfl ?_
      refine Guarded.along_cons ?_ rfl (Guarded.along_cons ?_ rfl ?_)
      · exact ⟨rfl, ⟨⟨1, 2⟩, .head _, rfl, by decide⟩, by decide, rfl,
          fun _ hd => absurd hd List.not_mem_nil, by decide,
          fun _ hnone => absurd hnone (by decide)⟩
      · refine ⟨rfl, ⟨⟨0, 2⟩, .head _, rfl, by decide⟩, by decide, rfl, ?_, by decide,
          fun _ _ => hcover⟩
        intro d hd p hp
        obtain rfl := List.mem_singleton.mp hd
        exact fun hp' => Nat.lt_irrefl p (Nat.lt_of_lt_of_le hp'.2 hp.1)
      · exact ⟨hworks, fun _ _ => trivial⟩
    · exact ⟨⟨hworks, by decide, by decide⟩, fun _ _ => trivial⟩
  have hkind : x.request.SinglePart := by
    intro arg harg
    cases harg
  have hend : ∃ server m,
      .data server m [] ∈ (Client.mk noReader gridftpWriter).asked x sending := by
    rw [hasked] at houts ⊢
    obtain rfl : out' = [] := (List.cons.inj (List.cons.inj houts).2).1
    exact ⟨_, _, List.mem_cons_of_mem _ (List.mem_singleton.mpr rfl)⟩
  have hpassed : receivedBody (receiving.flatMap ExchangeAction.heard)
      = sentBody ((Client.mk noReader gridftpWriter).asked x sending) := by
    rw [sentBody_eq, houts]
    rfl
  have hresult' : (client.perform y receiving 0
      [.turn writes, .complete 0 .success, .turn writes]).map Prod.fst = some .success := by
    decide +kernel
  obtain ⟨⟨result', fetched⟩, hfetched, rfl⟩ := Option.map_eq_some_iff.mp hresult'
  exact ⟨stored, fetched, hstored, hfetched, (file_roundTrip (by decide) hkind rfl rfl hserves hend
    hstored (by decide) rfl rfl rfl hpassed hfetched).2.1⟩

end DsiRest
