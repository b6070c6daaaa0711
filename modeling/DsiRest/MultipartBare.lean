import DsiRest.MultipartExact

/-!
# Multipart Bodies without a Delimiter

A multipart writer under a `Content-Type` that is not multipart has no delimiter string,
and is documented to concatenate its parts. Its part loop advances to the next part only
where it prepares a delimiter, so the first part stays in front for good: calls return
while it fills their buffers (`writeMultipartLoop_bare`), and a call with room left behind
its last byte calls it again without end (`writeMultipartLoop_bare_eq_none`).

## Main results

* `writeMultipart_noDelimiter_iff` — calls return and deliver the concatenation of the
  parts exactly when the first part fills all of their buffers.
* `writeMultipart_noDelimiter_hangs` — two parts of one byte and a buffer of two.
-/

namespace DsiRest

/-- A multipart argument without delimiter string, in front of a sound part. -/
structure WriteMultipartArg.Bare (arg : WriteMultipartArg Writer) (part : WritePart Writer) :
    Prop where
  boundary : arg.boundary = none
  pending : arg.currentBoundary = none
  inFront : arg.parts[arg.partIndex]? = some part
  sound : part.writer.Sound

/-- The part's new state is again the part in front of which the argument stands. -/
theorem WriteMultipartArg.Bare.setWriter {arg : WriteMultipartArg Writer}
    {part : WritePart Writer} (h : arg.Bare part) {w : Writer} (hw : w.Sound) :
    (arg.setWriter part w).Bare { part with writer := w } where
  boundary := h.boundary
  pending := h.pending
  inFront := by
    have hi := (List.getElem?_eq_some_iff.mp h.inFront).1
    simp [WriteMultipartArg.setWriter, hi]
  sound := hw

/-- Nothing is sent of a delimiter that is not there. -/
theorem WriteMultipartArg.sendBoundary_none {W : Type} {arg : WriteMultipartArg W}
    (h : arg.currentBoundary = none) (room : ℕ) : arg.sendBoundary room = ([], arg) := by
  rw [WriteMultipartArg.sendBoundary, h]

/-- While the part in front has enough left to fill the buffer, the loop fills it. -/
theorem writeMultipartLoop_bare {n : ℕ} : ∀ (room : ℕ) (arg : WriteMultipartArg Writer)
    (part : WritePart Writer) (copied : Bytes), arg.Bare part → copied.length ≤ n →
      n - copied.length ≤ room → n - copied.length ≤ part.writer.rest.length →
      ∃ out arg' part', (∃ enough, ∀ fuel, enough ≤ fuel →
          writeMultipartLoop fuel arg copied n = some (⟨.success, copied ++ out⟩, arg')) ∧
        arg'.Bare part' ∧ part.writer.rest = out ++ part'.writer.rest ∧
        (copied ++ out).length = n := by
  intro room
  induction room with
  | zero =>
      intro arg part copied h hle hroom _
      refine ⟨[], arg, part, exists_enough 0 fun fuel _ => ?_, h, rfl, by simpa using by omega⟩
      rw [writeMultipartLoop, if_neg (by omega), List.append_nil]
  | succ room ih =>
      intro arg part copied h hle hroom hrest
      by_cases hlt : copied.length < n
      · obtain ⟨data, w, hstep⟩ :=
          Writer.Sound.write _ _ h.sound le_rfl (n - copied.length) (by omega)
        obtain ⟨enough₁, hret⟩ := hstep.returns
        have hlen := hstep.length
        have hsplit := congrArg List.length hstep.rest
        rw [List.length_append] at hsplit
        have hnil : data ≠ [] := by
          intro hz
          have := congrArg List.length (hstep.exhausted hz)
          rw [List.length_nil] at this
          omega
        have hpos := List.length_pos_iff.mpr hnil
        obtain ⟨out, arg', part', ⟨enough₂, hloop⟩, h', hrest', hfull⟩ :=
          ih (arg.setWriter part w) { part with writer := w } (copied ++ data)
            (h.setWriter hstep.sound) (by simp; omega) (by simp; omega) (by simp; omega)
        refine ⟨data ++ out, arg', part', exists_enough (max enough₁ enough₂) fun fuel hfuel => ?_,
          h', by rw [hstep.rest, hrest', List.append_assoc], by simpa using hfull⟩
        rw [writeMultipartLoop, if_pos hlt, h.inFront]
        simp only [hret fuel (by omega), Option.bind_eq_bind, Option.bind_some,
          if_neg (show ¬ n < copied.length + data.length by omega), if_neg hnil,
          hloop fuel (by omega), List.append_assoc]
      · refine ⟨[], arg, part, exists_enough 0 fun fuel _ => ?_, h, rfl, by simpa using by omega⟩
        rw [writeMultipartLoop, if_neg hlt, List.append_nil]

/-- **When the part in front cannot fill the buffer, the loop never returns**: once the
part is exhausted every iteration calls it again, stores nothing and changes nothing. -/
theorem writeMultipartLoop_bare_eq_none {n : ℕ} : ∀ (fuel : ℕ) (arg : WriteMultipartArg Writer)
    (part : WritePart Writer) (copied : Bytes), arg.Bare part →
      copied.length + part.writer.rest.length < n →
      writeMultipartLoop fuel arg copied n = none := by
  intro fuel
  induction fuel with
  | zero => exact fun _ _ _ _ _ => rfl
  | succ fuel ih =>
      intro arg part copied h hshort
      rw [writeMultipartLoop, if_pos (by omega), h.inFront]
      cases hw : part.writer.write fuel (n - copied.length) with
      | none => simp [hw]
      | some r =>
          obtain ⟨o, w⟩ := r
          obtain ⟨data, w', hstep⟩ :=
            Writer.Sound.write _ _ h.sound le_rfl (n - copied.length) (by omega)
          obtain ⟨rfl, rfl⟩ := (Writer.returns_of_write hw).unique hstep.returns
          have hsplit := congrArg List.length hstep.rest
          rw [List.length_append] at hsplit
          have hlen := hstep.length
          have h' := h.setWriter hstep.sound
          simp only [hw, Option.bind_eq_bind, Option.bind_some,
            if_neg (show ¬ n < copied.length + data.length by omega)]
          split
          · rename_i hnil
            have hfin : (arg.setWriter part w).finishPart = some (arg.setWriter part w) := by
              rw [WriteMultipartArg.finishPart, h'.boundary]
            simp only [hfin, Option.bind_some, WriteMultipartArg.sendBoundary_none h'.pending,
              List.append_nil]
            exact ih _ _ _ h' (by simpa [hnil] using by simp [hnil] at hsplit; omega)
          · exact ih _ _ _ h' (by simp; omega)

/-- A call whose buffer the part in front cannot fill does not come back. -/
theorem WriteMultipartArg.Bare.not_returns {arg : WriteMultipartArg Writer}
    {part : WritePart Writer} (h : arg.Bare part) {n : ℕ} (hn : part.writer.rest.length < n) :
    ¬ ∃ o w, (Writer.multipart arg).Returns n o w := by
  rintro ⟨o, w, enough, hret⟩
  have hshort : ([] : Bytes).length + part.writer.rest.length < n := by simpa using hn
  have hnone : (Writer.multipart arg).write (enough + 1) n = none := by
    simp [Writer.write, WriteMultipartArg.sendBoundary_none h.pending,
      writeMultipartLoop_bare_eq_none enough arg part [] h hshort]
  rw [hret (enough + 1) (Nat.le_succ _)] at hnone
  cases hnone

/-- The calls of a writer without delimiter return exactly as long as the part in front
fills their buffers; each then takes its whole buffer off the front of that part. -/
theorem reads_bare_iff : ∀ (ns : List ℕ) (arg : WriteMultipartArg Writer)
    (part : WritePart Writer) (later : Bytes), arg.Bare part → (∀ n ∈ ns, 0 < n) →
      ((∃ outs w, (Writer.multipart arg).Reads ns outs w ∧
          Drain.Peels (part.writer.rest ++ later) outs) ↔
        ns.sum ≤ part.writer.rest.length) := by
  intro ns
  induction ns with
  | nil =>
      intro arg part later _ _
      exact ⟨fun _ => Nat.zero_le _, fun _ => ⟨[], _, .nil _, trivial⟩⟩
  | cons n ns ih =>
      intro arg part later h hpos
      obtain ⟨hn, hns⟩ := List.forall_mem_cons.mp hpos
      rw [List.sum_cons]
      by_cases hroom : n ≤ part.writer.rest.length
      · obtain ⟨out, arg', part', ⟨enough, hloop⟩, h', hrest, hfull⟩ :=
          writeMultipartLoop_bare n arg part [] h (Nat.zero_le _) (Nat.sub_le _ _) (by simpa)
        have hret : (Writer.multipart arg).Returns n ⟨.success, out⟩ (.multipart arg') := by
          refine exists_enough enough fun fuel hfuel => ?_
          simp [Writer.write, WriteMultipartArg.sendBoundary_none h.pending, hloop fuel hfuel]
        have hne : out ≠ [] := by
          rintro rfl
          simp only [List.append_nil, List.length_nil] at hfull
          omega
        have hlen := congrArg List.length hrest
        rw [List.length_append] at hlen
        have hout : out.length = n := by simpa using hfull
        have htail : (∃ outs w, (Writer.multipart arg').Reads ns outs w ∧
            Drain.Peels (part'.writer.rest ++ later) outs) ↔
            n + ns.sum ≤ part.writer.rest.length := by
          rw [ih arg' part' later h' hns]
          omega
        rw [← htail]
        constructor
        · rintro ⟨outs, w, hreads, hpeels⟩
          cases hreads with
          | cons hfirst hmore =>
              obtain ⟨ho, rfl⟩ := hfirst.unique hret
              obtain rfl : _ = out := by simpa using ho
              obtain ⟨left, hleft, -, hpeels⟩ := hpeels
              rw [hrest, List.append_assoc] at hleft
              rw [← List.append_cancel_left hleft] at hpeels
              exact ⟨_, w, hmore, hpeels⟩
        · rintro ⟨outs, w, hreads, hpeels⟩
          refine ⟨out :: outs, w, .cons hret hreads, part'.writer.rest ++ later, ?_, ?_, hpeels⟩
          · rw [hrest, List.append_assoc]
          · exact fun hz => absurd hz hne
      · refine ⟨?_, fun hsum => absurd hsum (by omega)⟩
        rintro ⟨outs, w, hreads, -⟩
        cases hreads with
        | cons hfirst _ => exact (h.not_returns (by omega) ⟨_, _, hfirst⟩).elim

/-- A body under a `Content-Type` that is not multipart is prepared without a delimiter. -/
theorem prepareWriteMultipart_boundary_none {uuid : ℕ → Bytes} {headers headers' : KeyArray}
    {parts : List (ClientPart ClientWriter)} {drawn k : ℕ} {contentType : Bytes}
    {arg : WriteMultipartArg Writer}
    (hprep : prepareWriteCallbacks uuid headers (.multipart parts) drawn
      = .ok (⟨headers', .multipart arg⟩, k))
    (hct : headersSearch headers = .ok (some contentType))
    (hnot : ¬ bytes "multipart/" <+: contentType) : arg.boundary = none := by
  have hnone : contentTypeBoundary contentType = none := by
    rw [contentTypeBoundary, if_neg]
    rwa [List.isPrefixOf_iff_prefix]
  simp only [prepareWriteCallbacks, multipartHeaders, hct, hnone, bind, Except.bind, pure,
    Except.pure] at hprep
  split at hprep
  · cases hprep
  split at hprep
  · cases hprep
  rename_i arg' harg
  obtain ⟨-, -, hb⟩ := firstBoundary_start harg
  cases hprep
  exact hb

/-- **Multipart writer without a delimiter.** Under a non-multipart `Content-Type`, calls
with the given buffer lengths return and deliver the concatenation of the parts exactly
when the first part alone fills all of their buffers. -/
theorem writeMultipart_noDelimiter_iff {uuid : ℕ → Bytes} {headers headers' : KeyArray}
    {parts : List (ClientPart ClientWriter)} {drawn k : ℕ} {contentType : Bytes}
    {arg : WriteMultipartArg Writer} {first : WritePart Writer}
    {later : List (WritePart Writer)} {ns : List ℕ}
    (hprep : prepareWriteCallbacks uuid headers (.multipart parts) drawn
      = .ok (⟨headers', .multipart arg⟩, k))
    (hct : headersSearch headers = .ok (some contentType))
    (hnot : ¬ bytes "multipart/" <+: contentType)
    (hparts : arg.parts = first :: later) (hdel : DelimitedParts arg.parts)
    (hpos : ∀ n ∈ ns, 0 < n) :
    (∃ outs w, (Writer.multipart arg).Reads ns outs w ∧
        Drain.Peels (Writer.multipart arg).encode outs) ↔
      ns.sum ≤ first.writer.encode.length := by
  have hb := prepareWriteMultipart_boundary_none hprep hct hnot
  obtain ⟨⟨hidx, -, hstart⟩, hfresh⟩ := prepareWriteCallbacks_fresh uuid _ _ _ _ _ hprep
  rw [hb] at hstart
  rw [hparts] at hfresh hdel
  obtain ⟨hsound, hrest⟩ := Writer.Fresh.sound first.writer hfresh.1 hdel.1
  have hbare : arg.Bare first := ⟨hb, hstart.1, by rw [hidx, hparts]; rfl, hsound⟩
  have henc : (Writer.multipart arg).encode
      = first.writer.rest ++ encodeParts none later := by
    rw [Writer.encode, hparts, hb, encodeParts, hrest]
    rfl
  rw [henc, ← hrest]
  exact reads_bare_iff ns arg first _ hbare hpos

/-- Two blocks under `text/plain`, as preparation leaves them. -/
theorem prepare_textPlain (first second : Bytes) :
    prepareWriteCallbacks (fun _ => []) [.pair (bytes "Content-Type") (bytes "text/plain")]
        (.multipart [⟨[], .block first⟩, ⟨[], .block second⟩]) 0
      = .ok (⟨[.pair (bytes "Content-Type") (bytes "text/plain")],
          .multipart ⟨none, 0, none, 0, 0,
            [⟨[], .block (.start first)⟩, ⟨[], .block (.start second)⟩]⟩⟩, 0) := by
  have hnone : contentTypeBoundary (bytes "text/plain") = none := by decide
  simp [prepareWriteCallbacks, multipartHeaders, headersSearch, strcaseeq, hnone, prepareParts,
    firstBoundary, bind, Except.bind, pure, Except.pure]

/-- The case of two blocks under `text/plain`: calls that the first one fills, and calls that it
does not. -/
theorem writeMultipart_noDelimiter_iff_text :
    ∃ arg : WriteMultipartArg Writer,
      (∃ outs w, (Writer.multipart arg).Reads [1, 1] outs w ∧
        Drain.Peels (Writer.multipart arg).encode outs) ∧
      ¬ ∃ outs w, (Writer.multipart arg).Reads [1, 2] outs w ∧
        Drain.Peels (Writer.multipart arg).encode outs := by
  have hct : headersSearch [.pair (bytes "Content-Type") (bytes "text/plain")]
      = .ok (some (bytes "text/plain")) := by
    simp [headersSearch, strcaseeq]
  have hprep := prepare_textPlain (bytes "ab") (bytes "c")
  refine ⟨_, (writeMultipart_noDelimiter_iff hprep hct (by decide) rfl
    (by simp [DelimitedParts, Writer.Delimited]) (by decide)).mpr (by decide), fun hreads => ?_⟩
  have hsum := (writeMultipart_noDelimiter_iff hprep hct (by decide) rfl
    (by simp [DelimitedParts, Writer.Delimited]) (by decide)).mp hreads
  exact absurd hsum (by decide)

/-- Two parts of one byte each under `text/plain`: a call with a buffer of two bytes never
returns. -/
theorem writeMultipart_noDelimiter_hangs :
    ∃ arg headers' k, prepareWriteCallbacks (fun _ => [])
        [.pair (bytes "Content-Type") (bytes "text/plain")]
        (.multipart [⟨[], .block (bytes "a")⟩, ⟨[], .block (bytes "b")⟩]) 0
        = .ok (⟨headers', .multipart arg⟩, k) ∧
      ¬ ∃ o w, (Writer.multipart arg).Returns 2 o w := by
  refine ⟨_, _, _, prepare_textPlain _ _, ?_⟩
  have hbare : WriteMultipartArg.Bare
      ⟨none, 0, none, 0, 0, [⟨[], .block (.start (bytes "a"))⟩, ⟨[], .block (.start (bytes "b"))⟩]⟩
      ⟨[], .block (.start (bytes "a"))⟩ := ⟨rfl, rfl, rfl, trivial⟩
  exact hbare.not_returns (by decide)

end DsiRest
