import DsiRest.Request
import DsiRest.WriteMultipart

/-!
# Failing Body Writers

`read_data` returns what the writer stored in `amount_copied`, also when the writer
failed. libcurl takes every value up to the size of its buffer for a number of bytes, `0`
for the end of the body, so a failure ends the transfer only if the failing writer reported
a value that libcurl itself rejects. The multipart writer never does.

## Main results

* `Request.readData_sound_iff` — when the value returned to libcurl is sound.
* `Request.readData_multipart_failed` — a failing part of a multipart body, at any depth,
  is never seen by libcurl.
-/

namespace DsiRest

/-! ### What libcurl makes of the value -/

/-- `CURL_READFUNC_ABORT`. -/
def curlReadfuncAbort : ℕ := 0x10000000

/-- `CURL_READFUNC_PAUSE`. -/
def curlReadfuncPause : ℕ := 0x10000001

/-- How libcurl takes the value a read function returns. -/
inductive BodyReply
  | abort
  | pause
  | bytes (count : ℕ)
  deriving DecidableEq

/-- What libcurl says of the value returned for a buffer of `n` bytes: two special values abort or
pause the transfer, more than fits the buffer aborts it, and everything else is a number of bytes,
`0` for the end of the body. -/
structure ReadsReplies (reply : ℕ → ℕ → BodyReply) : Prop where
  abort : ∀ n, reply n curlReadfuncAbort = .abort
  pause : ∀ n, reply n curlReadfuncPause = .pause
  tooLong : ∀ n value, n < value → value ≠ curlReadfuncPause → reply n value = .abort
  count : ∀ n value, value ≤ n → value ≠ curlReadfuncAbort → value ≠ curlReadfuncPause →
    reply n value = .bytes value

namespace ReadsReplies

variable {reply : ℕ → ℕ → BodyReply} {n value count : ℕ}

/-- A value makes libcurl abort the transfer. -/
theorem eq_abort (h : ReadsReplies reply) :
    reply n value = .abort ↔
      value = curlReadfuncAbort ∨ (n < value ∧ value ≠ curlReadfuncPause) := by
  constructor
  · intro habort
    by_contra hnot
    obtain ⟨hne, hfits⟩ := not_or.mp hnot
    by_cases hpause : value = curlReadfuncPause
    · rw [hpause, h.pause] at habort
      cases habort
    · have hle : value ≤ n := Nat.not_lt.mp fun hlt => hfits ⟨hlt, hpause⟩
      rw [h.count n value hle hne hpause] at habort
      cases habort
  · rintro (rfl | ⟨hlt, hpause⟩)
    · exact h.abort n
    · exact h.tooLong n value hlt hpause

/-- A value is taken for a number of bytes, which is then the value itself. -/
theorem eq_of_bytes (h : ReadsReplies reply) (hbytes : reply n value = .bytes count) :
    value = count := by
  by_cases habort : reply n value = .abort
  · rw [habort] at hbytes
    cases hbytes
  · rw [h.eq_abort, not_or] at habort
    by_cases hpause : value = curlReadfuncPause
    · rw [hpause, h.pause] at hbytes
      cases hbytes
    · have hle : value ≤ n := Nat.not_lt.mp fun hlt => habort.2 ⟨hlt, hpause⟩
      rw [h.count n value hle habort.1 hpause] at hbytes
      exact BodyReply.bytes.inj hbytes

/-- A count below the special values that fits the buffer is taken for a number of bytes. -/
theorem eq_bytes (h : ReadsReplies reply) (hle : value ≤ n) (hn : n < curlReadfuncAbort) :
    reply n value = .bytes value := by
  have hpause : curlReadfuncPause = curlReadfuncAbort + 1 := rfl
  exact h.count n value hle (by omega) (by omega)

end ReadsReplies

/-- A libcurl that tests for the special values first. -/
def bodyReply (n value : ℕ) : BodyReply :=
  if value = curlReadfuncAbort then .abort
  else if value = curlReadfuncPause then .pause
  else if n < value then .abort
  else .bytes value

theorem readsReplies_bodyReply : ReadsReplies bodyReply where
  abort _ := if_pos rfl
  pause _ := rfl
  tooLong n value hlt hpause := by
    rw [bodyReply, if_neg hpause, if_pos hlt, ite_self]
  count n value hle habort hpause := by
    rw [bodyReply, if_neg habort, if_neg hpause, if_neg (Nat.not_lt.mpr hle)]

/-! ### Sound replies -/

/-- The reply to libcurl tells what the writer did: a number of bytes, `0` as the end of
the body included, only if the writer succeeded with that number, and an abort if there is
no writer or it failed. -/
structure Request.SoundReply (request : Request) (n : ℕ) (written : Result) (processed : ℕ)
    (reply : BodyReply) : Prop where
  bytes : ∀ count, reply = .bytes count →
    request.dataWriteCallback = true ∧ written = .success ∧ processed = count
  failed : request.dataWriteCallback = false ∨ written ≠ .success → reply = .abort

namespace Request

/-- **When a body writer's failure is seen.** The value `read_data` returns is sound if and
only if there is a writer, and it succeeded or stored a value in `amount_copied` that
libcurl rejects. -/
theorem readData_sound_iff {reply : ℕ → ℕ → BodyReply} (hreply : ReadsReplies reply)
    (request : Request) (buffer : Bytes) (size nitems : ℕ) (written : Result) (processed : ℕ) :
    request.SoundReply (mul64 size nitems) written processed
        (reply (mul64 size nitems)
          (request.readData buffer size nitems written processed).value) ↔
      request.dataWriteCallback = true ∧
        (written = .success ∨ processed = curlReadfuncAbort ∨
          (mul64 size nitems < processed ∧ processed ≠ curlReadfuncPause)) := by
  rw [← @hreply.eq_abort _ (mul64 size nitems) processed, readData]
  rcases hw : request.dataWriteCallback with _ | _
  · -- without a writer the reply is the end of the body
    constructor
    · intro h
      have habort := h.failed (.inl hw)
      simp only [Bool.false_eq_true, if_false, hreply.eq_abort] at habort
      rcases habort with hzero | hlt
      · exact absurd hzero (by decide)
      · exact absurd hlt.1 (Nat.not_lt_zero _)
    · exact fun h => absurd h.1 Bool.false_ne_true
  · simp only [if_true, true_and]
    constructor
    · intro h
      by_cases hs : written = .success
      · exact .inl hs
      · exact .inr (h.failed (.inr hs))
    · rintro (hs | habort)
      · refine ⟨fun count hcount => ⟨hw, hs, hreply.eq_of_bytes hcount⟩, ?_⟩
        rintro (hnone | hfailed)
        · exact absurd (hw.symm.trans hnone) (by decide)
        · exact absurd hs hfailed
      · exact ⟨fun count hcount => absurd (habort.symm.trans hcount) BodyReply.noConfusion,
          fun _ => habort⟩

/-- The case of a writer that fails and tells libcurl to abort, and of one that succeeds. -/
theorem readData_sound_iff_abort :
    let request : Request :=
      ⟨.success, 0, [], 0, 0, true, .none, HeaderList.empty, .none, false⟩
    request.SoundReply 16 (.error (.client 1)) curlReadfuncAbort
        (bodyReply 16 (request.readData [] 1 16 (.error (.client 1)) curlReadfuncAbort).value) ∧
      request.SoundReply 16 .success 3
        (bodyReply 16 (request.readData (bytes "abc") 1 16 .success 3).value) :=
  ⟨(readData_sound_iff readsReplies_bodyReply _ _ 1 16 _ _).mpr ⟨rfl, .inr (.inl rfl)⟩,
    (readData_sound_iff readsReplies_bodyReply _ _ 1 16 _ _).mpr ⟨rfl, .inl rfl⟩⟩

/-- A writer that fails before it stored anything: libcurl is told that the body is
complete. -/
theorem readData_failed_end :
    let request : Request :=
      ⟨.success, 0, [], 0, 0, true, .none, HeaderList.empty, .none, false⟩
    let response := request.readData [] 1 16 (.error (.client 1)) 0
    response.result = .error (.client 1) ∧ response.value = 0 ∧
      bodyReply 16 response.value = .bytes 0 ∧
      ¬request.SoundReply 16 (.error (.client 1)) 0 (bodyReply 16 response.value) :=
  ⟨rfl, rfl, rfl, fun h => nomatch (h.bytes 0 rfl).2.1⟩

end Request

/-! ### The multipart writer -/

/-- The part loop fails only with room left in the buffer. -/
theorem length_lt_of_writeMultipartLoop_error {e : GlobusError} {data : Bytes} :
    ∀ (fuel : ℕ) {arg arg' : WriteMultipartArg Writer} {copied : Bytes} {n : ℕ},
      writeMultipartLoop fuel arg copied n = some (⟨.error e, data⟩, arg') → data.length < n := by
  intro fuel
  induction fuel with
  | zero =>
      intro arg arg' copied n h
      simp [writeMultipartLoop] at h
  | succ fuel ih =>
      intro arg arg' copied n h
      rw [writeMultipartLoop] at h
      by_cases hlt : copied.length < n
      · rw [if_pos hlt] at h
        cases hp : arg.parts[arg.partIndex]? with
        | none => simp [hp] at h
        | some part =>
            simp only [hp, Option.bind_eq_bind, Option.bind_eq_some_iff] at h
            obtain ⟨⟨o, writer⟩, -, h⟩ := h
            cases hr : o.result with
            | error e' =>
                simp only [hr, Option.some.injEq, Prod.mk.injEq, WriteOutcome.mk.injEq] at h
                rw [← h.1.2]
                exact hlt
            | success =>
                simp only [hr] at h
                split at h
                · exact absurd h (by simp)
                · split at h
                  · rw [Option.bind_eq_some_iff] at h
                    obtain ⟨finished, -, h⟩ := h
                    exact ih h
                  · exact ih h
      · rw [if_neg hlt] at h
        simp at h

/-- **A failing part is never seen by libcurl.** When a multipart writer fails, because of
a part of its own or of one nested in it, the reply is a number of bytes. -/
theorem Request.readData_multipart_failed {reply : ℕ → ℕ → BodyReply}
    (hreply : ReadsReplies reply) {request : Request} {arg : WriteMultipartArg Writer}
    {fuel size nitems : ℕ} {buffer : Bytes} {e : GlobusError} {data : Bytes} {writer : Writer}
    (hw : request.dataWriteCallback = true)
    (hfailed : (Writer.multipart arg).write fuel (mul64 size nitems)
      = some (⟨.error e, data⟩, writer))
    (hsize : mul64 size nitems < curlReadfuncAbort) :
    reply (mul64 size nitems)
        (request.readData buffer size nitems (.error e) data.length).value
      = .bytes data.length := by
  have hlt : data.length < mul64 size nitems := by
    cases fuel with
    | zero => simp [Writer.write] at hfailed
    | succ fuel =>
        simp only [Writer.write, Option.map_eq_some_iff] at hfailed
        obtain ⟨⟨o, arg'⟩, hloop, heq⟩ := hfailed
        obtain ⟨rfl, -⟩ := Prod.mk.inj heq
        exact length_lt_of_writeMultipartLoop_error fuel hloop
  rw [readData, if_pos hw]
  exact hreply.eq_bytes hlt.le hsize

end DsiRest
