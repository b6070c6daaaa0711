import DsiRest.Lib.Iteration
import DsiRest.MultipartChunks

/-!
# The Iterations of the Multipart Reader

The chunk loop of `globus_l_dsi_rest_read_multipart`, iteration by iteration over a
sequence of calls. A `LoopHead` is what the loop finds at the head of an iteration, and
`LoopHead.next` takes it to the next one, in the same call or in the next.

The difference `scanned - match_counter` is in range unless a chunk ends with a candidate
delimiter that began in an earlier chunk: `match_counter` counts over all chunks, `scanned`
over the current one. A run of heads ends with the first iteration that leaves the range.

## Main results

* `LoopHead.inRange_iff` — when the delimiter arithmetic stays in range.
-/

namespace DsiRest

/-! ### Iterations -/

/-- The head of an iteration: the state, the result so far, the chunk of the current call
with what is left of it, the iterations of the call so far, and the chunks of later calls. -/
structure LoopHead where
  arg : ReadMultipartArg
  result : Result
  chunk : Bytes
  buffer : Bytes
  iterations : ℕ
  later : List Bytes

namespace LoopHead

/-- The head of the first iteration of a call. -/
def enter (arg : ReadMultipartArg) (chunk : Bytes) (later : List Bytes) : LoopHead :=
  ⟨arg, .success, chunk, chunk, 0, later⟩

/-- The head of the next iteration; at the end of a chunk, that of the next call. -/
def next (heap : Bytes → ℕ → Byte) (h : LoopHead) : Option LoopHead :=
  if h.buffer = [] then
    match h.later with
    | [] => none
    | chunk :: later => some (enter h.arg chunk later)
  else
    (h.arg.step heap h.result h.buffer).map fun (scanned, result, arg) =>
      ⟨arg, result, h.chunk, h.buffer.drop scanned, h.iterations + 1, h.later⟩

/-- The loop comes from one head to another. -/
def Reaches (heap : Bytes → ℕ → Byte) : LoopHead → LoopHead → Prop :=
  Relation.ReflTransGen fun h h' => h.next heap = some h'

/-- Every iteration from a head on meets `Q`. -/
def Throughout (heap : Bytes → ℕ → Byte) (Q : LoopHead → Prop) (h : LoopHead) : Prop :=
  ∀ h', Reaches heap h h' → h'.buffer ≠ [] → Q h'

variable {heap : Bytes → ℕ → Byte} {Q : LoopHead → Prop} {h h' : LoopHead}

/-- The head after an iteration that comes back. -/
theorem next_of_step {scanned : ℕ} {result : Result} {arg : ReadMultipartArg}
    (hne : h.buffer ≠ [])
    (hstep : h.arg.step heap h.result h.buffer = some (scanned, result, arg)) :
    h.next heap = some
      ⟨arg, result, h.chunk, h.buffer.drop scanned, h.iterations + 1, h.later⟩ := by
  rw [next, if_neg hne, hstep, Option.map_some]

/-- An iteration without defined behaviour has no next head. -/
theorem next_of_step_none (hne : h.buffer ≠ [])
    (hstep : h.arg.step heap h.result h.buffer = none) : h.next heap = none := by
  rw [next, if_neg hne, hstep, Option.map_none]

/-- At the end of a chunk the next call begins. -/
theorem next_call {chunk : Bytes} {later : List Bytes} (hb : h.buffer = [])
    (hl : h.later = chunk :: later) : h.next heap = some (enter h.arg chunk later) := by
  rw [next, if_pos hb, hl]

/-- This iteration and those that follow it. -/
theorem throughout_iff : Throughout heap Q h ↔
    (h.buffer ≠ [] → Q h) ∧ ∀ h', h.next heap = some h' → Throughout heap Q h' :=
  Iteration.always_iff

/-- An iteration that comes back is followed by the next one. -/
theorem throughout_of_step {scanned : ℕ} {result : Result} {arg : ReadMultipartArg}
    (hne : h.buffer ≠ []) (hstep : h.arg.step heap h.result h.buffer = some (scanned, result, arg)) :
    Throughout heap Q h ↔ Q h ∧ Throughout heap Q
      ⟨arg, result, h.chunk, h.buffer.drop scanned, h.iterations + 1, h.later⟩ := by
  rw [throughout_iff, next_of_step hne hstep]
  simp [hne]

/-- An iteration without defined behaviour is the last one. -/
theorem throughout_of_step_none (hne : h.buffer ≠ [])
    (hstep : h.arg.step heap h.result h.buffer = none) : Throughout heap Q h ↔ Q h := by
  rw [throughout_iff, next_of_step_none hne hstep]
  simp [hne]

/-- After the last chunk there is nothing to do. -/
theorem throughout_last (hb : h.buffer = []) (hl : h.later = []) : Throughout heap Q h := by
  have hnext : h.next heap = none := by
    rw [next, if_pos hb, hl]
  rw [throughout_iff, hnext]
  exact ⟨fun hne => absurd hb hne, fun h' h => by cases h⟩

/-- At the end of a chunk the next call begins. -/
theorem throughout_call {chunk : Bytes} {later : List Bytes} (hb : h.buffer = [])
    (hl : h.later = chunk :: later) :
    Throughout heap Q h ↔ Throughout heap Q (enter h.arg chunk later) := by
  rw [throughout_iff, next_call hb hl]
  simp [hb]

/-- What the next head preserves holds of every head that is reached. -/
theorem Reaches.invariant {I : LoopHead → Prop}
    (hstep : ∀ h h', I h → h.next heap = some h' → I h') (hreach : Reaches heap h h')
    (hI : I h) : I h' :=
  Iteration.Reaches.invariant hstep hreach hI

end LoopHead

/-! ### The place of an iteration -/

namespace Standing

variable {boundary : Bytes} {callbacks : List Bool} {heap : Bytes → ℕ → Byte}
variable {arg : ReadMultipartArg} {p : Place} {bs : Bytes}

/-- **One iteration.** It reads to the end of its section or of its chunk, or has no
defined behaviour. -/
theorem step_cases (h : Standing boundary callbacks heap arg p) (result : Result)
    (hne : bs ≠ []) :
    ((Matcher.feed (p.delimiter boundary callbacks.length) p.matched bs).1
        = (p.delimiter boundary callbacks.length).length ∧
      ((p.Within callbacks.length ∧ p.HeaderOk callbacks heap
          (bs.take (Matcher.feed (p.delimiter boundary callbacks.length) p.matched bs).2) ∧
        ∃ result' arg', arg.step heap result bs = some
            ((Matcher.feed (p.delimiter boundary callbacks.length) p.matched bs).2,
              result', arg') ∧
          Standing boundary callbacks heap arg' (p.finish callbacks.length)) ∨
      ¬ (p.Within callbacks.length ∧ p.HeaderOk callbacks heap
          (bs.take (Matcher.feed (p.delimiter boundary callbacks.length) p.matched bs).2)) ∧
        arg.step heap result bs = none)) ∨
    ((Matcher.feed (p.delimiter boundary callbacks.length) p.matched bs).1
        < (p.delimiter boundary callbacks.length).length ∧
      ((p.Within callbacks.length ∧ (p.read boundary callbacks.length bs).Endable ∧
        ∃ result' arg', arg.step heap result bs = some (bs.length, result', arg') ∧
          Standing boundary callbacks heap arg' (p.read boundary callbacks.length bs).cut) ∨
      ¬ (p.Within callbacks.length ∧ (p.read boundary callbacks.length bs).Endable) ∧
        arg.step heap result bs = none)) := by
  rcases Nat.lt_or_eq_of_le (Matcher.feed_spec (p.delimiter boundary callbacks.length) bs _
    h.matched_lt.le).1 with hm | hm
  · refine Or.inr ⟨hm, ?_⟩
    by_cases hgood : p.Within callbacks.length ∧ (p.read boundary callbacks.length bs).Endable
    · obtain ⟨arg', hstep, hstand, -⟩ := h.step_open_some result hne hm hgood.1 hgood.2
      exact Or.inl ⟨hgood.1, hgood.2, result, arg', hstep, hstand⟩
    · exact Or.inr ⟨hgood, h.step_open_none hm hgood⟩
  · refine Or.inl ⟨hm, ?_⟩
    by_cases hgood : p.Within callbacks.length ∧ p.HeaderOk callbacks heap
        (bs.take (Matcher.feed (p.delimiter boundary callbacks.length) p.matched bs).2)
    · obtain ⟨arg', hstep, hstand, -⟩ := h.step_closed_some result hm hgood.1 hgood.2
      exact Or.inl ⟨hgood.1, hgood.2, _, arg', hstep, hstand⟩
    · exact Or.inr ⟨hgood, h.step_closed_none hm hgood⟩

/-- **An iteration that comes back** has read to the end of its section or of its chunk. -/
theorem step_some {result result' : Result} {scanned : ℕ} {arg' : ReadMultipartArg}
    (h : Standing boundary callbacks heap arg p) (hne : bs ≠ [])
    (hstep : arg.step heap result bs = some (scanned, result', arg')) :
    ((Matcher.feed (p.delimiter boundary callbacks.length) p.matched bs).1
        = (p.delimiter boundary callbacks.length).length ∧
      scanned = (Matcher.feed (p.delimiter boundary callbacks.length) p.matched bs).2 ∧
      Standing boundary callbacks heap arg' (p.finish callbacks.length)) ∨
    ((Matcher.feed (p.delimiter boundary callbacks.length) p.matched bs).1
        < (p.delimiter boundary callbacks.length).length ∧
      scanned = bs.length ∧ (p.read boundary callbacks.length bs).Endable ∧
      Standing boundary callbacks heap arg' (p.read boundary callbacks.length bs).cut) := by
  rcases h.step_cases result hne with ⟨hm, hclosed⟩ | ⟨hm, hopen⟩
  · rcases hclosed with ⟨-, -, _, _, hstep', hstand⟩ | ⟨-, hnone⟩
    · obtain ⟨rfl, rfl, rfl⟩ : _ ∧ _ ∧ _ := by simpa using hstep'.symm.trans hstep
      exact Or.inl ⟨hm, rfl, hstand⟩
    · rw [hnone] at hstep
      cases hstep
  · rcases hopen with ⟨-, hend, _, _, hstep', hstand⟩ | ⟨-, hnone⟩
    · obtain ⟨rfl, rfl, rfl⟩ : _ ∧ _ ∧ _ := by simpa using hstep'.symm.trans hstep
      exact Or.inr ⟨hm, rfl, hend, hstand⟩
    · rw [hnone] at hstep
      cases hstep

end Standing

namespace LoopHead

variable {boundary : Bytes} {callbacks : List Bool} {heap : Bytes → ℕ → Byte}

/-! ### From the iterations to the places -/

/-- **The chunk rule.** A property `Q` of the iterations that says `R` of the place and the
bytes left, over the rest of a chunk: `V` follows the sections to the end of the chunk, and
`K` is what `Q` comes to from there on. -/
theorem throughout_chunk {Q : LoopHead → Prop} {R V : Place → Bytes → Prop} {K : Place → Prop}
    {later : List Bytes}
    (hQ : ∀ (h : LoopHead) (p : Place), Standing boundary callbacks heap h.arg p →
      h.buffer ≠ [] → h.buffer.length ≤ h.chunk.length → (Q h ↔ R p h.buffer))
    (hK : ∀ (h : LoopHead) (p : Place), Standing boundary callbacks heap h.arg p →
      h.buffer = [] → h.later = later → (Throughout heap Q h ↔ K p))
    (hnil : ∀ p : Place, p.matched = 0 → p.piece = [] → (V p [] ↔ K p))
    (hclosed : ∀ (p : Place) (bs : Bytes), (∃ arg, Standing boundary callbacks heap arg p) →
      (Matcher.feed (p.delimiter boundary callbacks.length) p.matched bs).1
        = (p.delimiter boundary callbacks.length).length →
      (V p bs ↔ R p bs ∧ (p.Within callbacks.length ∧ p.HeaderOk callbacks heap
          (bs.take (Matcher.feed (p.delimiter boundary callbacks.length) p.matched bs).2) →
        V (p.finish callbacks.length)
          (bs.drop (Matcher.feed (p.delimiter boundary callbacks.length) p.matched bs).2))))
    (hopen : ∀ (p : Place) (bs : Bytes), (∃ arg, Standing boundary callbacks heap arg p) →
      bs ≠ [] → (Matcher.feed (p.delimiter boundary callbacks.length) p.matched bs).1
        < (p.delimiter boundary callbacks.length).length →
      (V p bs ↔ R p bs ∧ (p.Within callbacks.length ∧
        (p.read boundary callbacks.length bs).Endable →
          K (p.read boundary callbacks.length bs).cut))) :
    ∀ (fuel : ℕ) (h : LoopHead) (p : Place), Standing boundary callbacks heap h.arg p →
      (h.buffer = [] → p.matched = 0) → h.later = later → h.buffer.length < fuel →
      h.buffer.length ≤ h.chunk.length → (Throughout heap Q h ↔ V p h.buffer)
  | 0, _, _, _, _, _, hfuel, _ => absurd hfuel (Nat.not_lt_zero _)
  | fuel + 1, h, p, hp, hzero, hlater, hfuel, hle => by
      by_cases hne : h.buffer = []
      · rw [hK h p hp hne hlater, hne]
        exact (hnil p (hzero hne) hp.piece).symm
      · have hpos := List.length_pos_iff.mpr hne
        rcases hp.step_cases h.result hne with ⟨hm, hsection⟩ | ⟨hm, hsection⟩
        · rw [hclosed p h.buffer ⟨_, hp⟩ hm, ← hQ h p hp hne hle]
          rcases hsection with ⟨hwithin, hok, result', arg', hstep, hstand⟩ | ⟨hbad, hstep⟩
          · have hscanned := hp.scanned_pos hm
            have ih := throughout_chunk hQ hK hnil hclosed hopen fuel ⟨arg', result', h.chunk,
              h.buffer.drop (Matcher.feed (p.delimiter boundary callbacks.length) p.matched
                h.buffer).2, h.iterations + 1, h.later⟩ _ hstand
              (fun _ => Place.finish_matched p) hlater
              (by simp only [List.length_drop]; omega) (by simp only [List.length_drop]; omega)
            rw [throughout_of_step hne hstep, ih]
            exact and_congr_right fun _ => ⟨fun hv _ => hv, fun hv => hv ⟨hwithin, hok⟩⟩
          · rw [throughout_of_step_none hne hstep]
            exact (and_iff_left fun hgood => absurd hgood hbad).symm
        · rw [hopen p h.buffer ⟨_, hp⟩ hne hm, ← hQ h p hp hne hle]
          rcases hsection with ⟨hwithin, hend, result', arg', hstep, hstand⟩ | ⟨hbad, hstep⟩
          · have hend' := hK ⟨arg', result', h.chunk, h.buffer.drop h.buffer.length,
              h.iterations + 1, h.later⟩ _ hstand List.drop_length hlater
            rw [throughout_of_step hne hstep, hend']
            exact and_congr_right fun _ => ⟨fun hv _ => hv, fun hv => hv ⟨hwithin, hend⟩⟩
          · rw [throughout_of_step_none hne hstep]
            exact (and_iff_left fun hgood => absurd hgood hbad).symm

/-! ### The delimiter arithmetic -/

/-- The arithmetic of one iteration is in range. Where matched bytes are saved, the counter
is at most the number of scanned bytes, the saved bytes fit into their buffer, and with
those saved before they are the matched front of the delimiter; and what the part gets is
the bytes saved before, or no longer than the chunk. -/
structure InRange (heap : Bytes → ℕ → Byte) (h : LoopHead) : Prop where
  saves : ∀ scanned arg', h.arg.scan h.arg.delimiter h.buffer = some (scanned, arg') →
    arg'.needHeader = false → arg'.matchCounter ≠ h.arg.delimiter.length → 0 < arg'.matchCounter →
    arg'.matchCounter ≤ scanned ∧
      arg'.boundaryBuffer.length + arg'.matchCounter ≤ arg'.boundary.length + 9 ∧
      arg'.boundaryBuffer ++ (h.buffer.take scanned).drop (scanned - arg'.matchCounter)
        = h.arg.delimiter.take arg'.matchCounter
  passes : ∀ scanned result arg', h.arg.step heap h.result h.buffer
      = some (scanned, result, arg') →
    ∀ k buffer, .data k buffer ∈ arg'.calls.drop h.arg.calls.length →
      buffer = h.arg.boundaryBuffer ∨ buffer.length ≤ h.chunk.length

/-- A buffer passed on only if it is not empty. -/
theorem mem_nonempty {buffer b : Bytes} (h : b ∈ nonempty buffer) : b = buffer := by
  rw [nonempty] at h
  split at h
  · exact List.mem_singleton.mp h
  · exact absurd h List.not_mem_nil

/-- What is replayed was saved. -/
theorem mem_replayed {arg : ReadMultipartArg} {bs b : Bytes} (h : b ∈ arg.replayed bs) :
    b = arg.boundaryBuffer := by
  rw [ReadMultipartArg.replayed] at h
  split at h
  · exact absurd h List.not_mem_nil
  · exact mem_nonempty h

/-- A data call among those to a part. -/
theorem mem_of_mem_dataCalls {index : Option ℕ} {buffers : List Bytes} {k : ℕ} {b : Bytes}
    (h : .data k b ∈ dataCalls index buffers) : b ∈ buffers := by
  cases index with
  | none => exact absurd h List.not_mem_nil
  | some i =>
      obtain ⟨b', hb', heq⟩ := List.mem_map.mp h
      obtain ⟨-, rfl⟩ := PartCall.data.inj heq
      exact hb'

/-- Inside a header block no data is passed on. -/
theorem readHeader_calls {arg arg' : ReadMultipartArg} {result result' : Result}
    {d piece : Bytes} (h : arg.readHeader heap result d piece = some (result', arg')) :
    ∀ k buffer, .data k buffer ∉ arg'.calls.drop arg.calls.length := by
  intro k buffer hcall
  rw [ReadMultipartArg.readHeader] at h
  split at h
  · simp only [Option.bind_eq_bind, Option.bind_eq_some_iff] at h
    obtain ⟨k', hk', part, hpart, h⟩ := h
    split at h
    · obtain ⟨⟨r, headers⟩, hparse, h⟩ := Option.bind_eq_some_iff.mp h
      cases h
      simp at hcall
    · cases h
      simp at hcall
  · cases h
    simp at hcall

/-- What one iteration passes on was saved before, or is a piece of the chunk. -/
theorem passes_of_standing {h : LoopHead} {p : Place}
    (hp : Standing boundary callbacks heap h.arg p) (hne : h.buffer ≠ [])
    {scanned : ℕ} {result : Result} {arg' : ReadMultipartArg}
    (hstep : h.arg.step heap h.result h.buffer = some (scanned, result, arg')) {k : ℕ}
    {buffer : Bytes} (hcall : .data k buffer ∈ arg'.calls.drop h.arg.calls.length) :
    buffer = h.arg.boundaryBuffer ∨ buffer.length ≤ h.buffer.length := by
  cases hh : p.inHeader with
  | true =>
      rw [hp.ready.step_header (hp.needHeader.trans hh)] at hstep
      obtain ⟨⟨r, a⟩, hread, heq⟩ := Option.map_eq_some_iff.mp hstep
      obtain ⟨rfl, rfl, rfl⟩ : _ ∧ _ ∧ _ := by simpa using heq
      exact absurd hcall (readHeader_calls hread k buffer)
  | false =>
      have hin : ∀ k, h.arg.partIndex = some k → k < h.arg.parts.length := by
        intro k hk
        by_contra hge
        rw [hp.ready.step_epilogue hk (not_lt.mp hge)] at hstep
        cases hstep
      rcases hp.step_cases h.result hne with ⟨hm, -⟩ | ⟨hm, hsection⟩
      · rw [hp.ready.step_complete (hp.needHeader.trans hh) hin
          (by rw [hp.delimiter, hp.matchCounter]; exact hm)] at hstep
        obtain ⟨-, -, rfl⟩ : _ ∧ _ ∧ _ := by simpa using hstep
        rw [List.drop_left] at hcall
        have hmem := mem_of_mem_dataCalls hcall
        rw [ReadMultipartArg.completed, List.mem_append, List.mem_append] at hmem
        rcases hmem with (hmem | hmem) | hmem
        · exact Or.inl (mem_replayed hmem)
        · rw [mem_nonempty hmem, List.length_take]
          exact Or.inr (min_le_right _ _)
        · rw [List.mem_singleton.mp hmem]
          exact Or.inr (Nat.zero_le _)
      · rcases hsection with ⟨-, hend, -⟩ | ⟨-, hnone⟩
        · have hfit : (Matcher.feed (p.delimiter boundary callbacks.length) p.matched
              h.buffer).1 ≤ h.buffer.length := by
            rw [Place.Endable, (Place.read_open h.buffer p hp.matched_lt hm).1] at hend
            simpa [hh, hp.piece] using hend
          rw [hp.ready.step_interrupted (hp.needHeader.trans hh) hin
            (by rw [hp.delimiter, hp.matchCounter]; exact hm)
            (by rw [hp.delimiter, hp.matchCounter]; exact hfit)] at hstep
          obtain ⟨-, -, rfl⟩ : _ ∧ _ ∧ _ := by simpa using hstep
          rw [List.drop_left] at hcall
          have hmem := mem_of_mem_dataCalls hcall
          rw [ReadMultipartArg.interrupted, List.mem_append, List.mem_singleton] at hmem
          rcases hmem with hmem | rfl
          · exact Or.inl (mem_replayed hmem)
          · rw [List.length_take]
            exact Or.inr (min_le_right _ _)
        · rw [hnone] at hstep
          cases hstep

/-- Where the candidate lies in the chunk, exactly its bytes are saved. -/
theorem saved_eq {arg : ReadMultipartArg} (hready : arg.Ready) {bs : Bytes}
    (hm : (Matcher.feed arg.delimiter arg.matchCounter bs).1 < arg.delimiter.length)
    (hfit : (Matcher.feed arg.delimiter arg.matchCounter bs).1 ≤ bs.length) :
    (arg.scanned bs).boundaryBuffer = [] ∧
      bs.drop (bs.length - (Matcher.feed arg.delimiter arg.matchCounter bs).1)
        = arg.delimiter.take (Matcher.feed arg.delimiter arg.matchCounter bs).1 := by
  have hn := (Matcher.feed_spec arg.delimiter bs arg.matchCounter hready.counter.le).2.2.1 hm
  refine ⟨?_, Matcher.drop_eq_take hready.counter.le hm hfit⟩
  by_cases h0 : arg.matchCounter = 0
  · have hnil : arg.boundaryBuffer = [] := by
      rw [hready.buffered, h0]
      simp
    simp [ReadMultipartArg.scanned, hnil]
  · exact if_neg (by omega)

/-- The arithmetic of an iteration is in range exactly if the chunk may end where its
section is read to the end of the chunk. -/
theorem inRange_iff_endable {h : LoopHead} {p : Place}
    (hp : Standing boundary callbacks heap h.arg p) (hne : h.buffer ≠ [])
    (hle : h.buffer.length ≤ h.chunk.length) :
    InRange heap h ↔
      ((Matcher.feed (p.delimiter boundary callbacks.length) p.matched h.buffer).1
        < (p.delimiter boundary callbacks.length).length →
      (p.read boundary callbacks.length h.buffer).Endable) := by
  have hready := hp.ready
  have hscan : h.arg.scan h.arg.delimiter h.buffer
      = some ((Matcher.feed h.arg.delimiter h.arg.matchCounter h.buffer).2,
        h.arg.scanned h.buffer) := hready.scan_delimiter
  have hall := (Matcher.feed_spec h.arg.delimiter h.buffer h.arg.matchCounter
    hready.counter.le).2.2.1
  have hbound : h.arg.delimiter.length < h.arg.boundary.length + 9 :=
    (length_delimiterText _ _ _ _).2
  rw [← hp.delimiter, ← hp.matchCounter]
  constructor
  · rintro ⟨hsaves, -⟩ hm
    rw [Place.Endable, (Place.read_open h.buffer p hp.matched_lt
      (by rw [← hp.delimiter, ← hp.matchCounter]; exact hm)).1]
    by_cases hh : p.inHeader = true
    · exact Or.inl hh
    · refine Or.inr ?_
      rw [← hp.delimiter, ← hp.matchCounter, hp.piece, List.nil_append]
      by_cases hpos : 0 < (Matcher.feed h.arg.delimiter h.arg.matchCounter h.buffer).1
      · have hsaved := (hsaves _ _ hscan (hp.needHeader.trans (by simpa using hh))
          (Nat.ne_of_lt hm) hpos).1
        rwa [hall hm] at hsaved
      · exact (Nat.eq_zero_of_not_pos hpos).trans_le (Nat.zero_le _)
  · intro hend
    refine ⟨fun scanned arg' hscan' hh hne' hpos => ?_, fun scanned result arg' hstep k b hcall => ?_⟩
    · obtain ⟨rfl, rfl⟩ : _ ∧ _ := by simpa using hscan.symm.trans hscan'
      have hm : (Matcher.feed h.arg.delimiter h.arg.matchCounter h.buffer).1
          < h.arg.delimiter.length :=
        Nat.lt_of_le_of_ne (Matcher.feed_spec _ _ _ hready.counter.le).1 hne'
      have hfit : (Matcher.feed h.arg.delimiter h.arg.matchCounter h.buffer).1
          ≤ h.buffer.length := by
        have hend := hend hm
        rw [Place.Endable, (Place.read_open h.buffer p hp.matched_lt
          (by rw [← hp.delimiter, ← hp.matchCounter]; exact hm)).1] at hend
        rcases hend with hend | hend
        · rw [← hp.needHeader] at hend
          exact absurd (hend.symm.trans hh) Bool.true_eq_false.mp
        · rwa [← hp.delimiter, ← hp.matchCounter, hp.piece, List.nil_append] at hend
      obtain ⟨hempty, hheld⟩ := saved_eq hready hm hfit
      rw [hall hm, hempty]
      refine ⟨hfit, ?_, ?_⟩
      · rw [List.length_nil, Nat.zero_add]
        exact (hm.trans hbound).le
      · rw [List.take_length, List.nil_append]
        exact hheld
    · exact (passes_of_standing hp hne hstep hcall).imp_right fun hlen => hlen.trans hle

end LoopHead

namespace Place

variable (boundary : Bytes) (callbacks : List Bool) (heap : Bytes → ℕ → Byte)

/-- **The condition on the cuts.** Every chunk that can be read to its end ends inside a
header block, or with a candidate delimiter that began in it. -/
def EndsInRange : Place → List Bytes → Prop
  | _, [] => True
  | p, c :: cs => p.Readable boundary callbacks heap c →
      (p.read boundary callbacks.length c).Endable ∧
        EndsInRange (p.read boundary callbacks.length c).cut cs

end Place

namespace LoopHead

variable {boundary : Bytes} {callbacks : List Bool} {heap : Bytes → ℕ → Byte}

/-- Past the closing delimiter no candidate began in an earlier chunk. -/
theorem endable_of_not_within {arg : ReadMultipartArg} {p : Place} {bs : Bytes}
    (hp : Standing boundary callbacks heap arg p)
    (hm : (Matcher.feed (p.delimiter boundary callbacks.length) p.matched bs).1
      < (p.delimiter boundary callbacks.length).length)
    (hwithin : ¬ p.Within callbacks.length) : (p.read boundary callbacks.length bs).Endable := by
  rw [Place.Within, not_forall] at hwithin
  obtain ⟨k, hk⟩ := hwithin
  rw [Classical.not_imp, ← hp.partIndex, ← hp.numParts] at hk
  have hzero : p.matched = 0 := by
    rw [← hp.matchCounter]
    exact (hp.ready.epilogue k hk.1).resolve_left hk.2
  have hle := Matcher.feed_fst_le hp.matched_lt.le bs
  have hall := (Matcher.feed_spec _ bs _ hp.matched_lt.le).2.2.1 hm
  rw [Place.Endable, (Place.read_open bs p hp.matched_lt hm).1]
  refine Or.inr ?_
  rw [hp.piece, List.nil_append]
  exact hle.trans_eq (by rw [hall, hzero, Nat.zero_add])

/-- The rest of a chunk, and what the condition comes to from the next call on. -/
theorem throughout_inRange_chunk {later : List Bytes}
    (hK : ∀ (h : LoopHead) (p : Place), Standing boundary callbacks heap h.arg p →
      h.buffer = [] → h.later = later →
      (Throughout heap (InRange heap) h ↔ p.EndsInRange boundary callbacks heap later))
    {arg : ReadMultipartArg} {p : Place} {chunk : Bytes}
    (hp : Standing boundary callbacks heap arg p) (hne : chunk ≠ []) :
    Throughout heap (InRange heap) (enter arg chunk later) ↔
      p.EndsInRange boundary callbacks heap (chunk :: later) := by
  refine throughout_chunk
    (R := fun p bs => (Matcher.feed (p.delimiter boundary callbacks.length) p.matched bs).1
      < (p.delimiter boundary callbacks.length).length →
        (p.read boundary callbacks.length bs).Endable)
    (V := fun p bs => p.EndsInRange boundary callbacks heap (bs :: later))
    (fun h p hp hne hle => inRange_iff_endable hp hne hle) hK ?_ ?_ ?_
    (chunk.length + 1) (enter arg chunk later) p hp (fun h => absurd h hne) rfl
    (Nat.lt_succ_self _) (Nat.le_refl _)
  · intro p hzero hpiece
    rw [Place.EndsInRange, Place.read_nil, Place.cut_of_piece hpiece]
    simp [Place.Readable, Place.Endable, hzero]
  · rintro p bs ⟨arg, hp⟩ hm
    rw [Place.EndsInRange, Place.EndsInRange, Place.readable_closed bs p hp.matched_lt hm,
      hp.piece, List.nil_append, (Place.read_closed bs p hp.matched_lt hm).1]
    constructor
    · exact fun hv => ⟨fun hlt => absurd hm (Nat.ne_of_lt hlt),
        fun hgood hrest => hv ⟨hgood.1, hgood.2, hrest⟩⟩
    · exact fun hv hr => hv.2 ⟨hr.1, hr.2.1⟩ hr.2.2
  · rintro p bs ⟨arg, hp⟩ hne hm
    rw [Place.EndsInRange, Place.readable_open bs p hp.matched_lt hm, forall_prop_of_true hne]
    by_cases hwithin : p.Within callbacks.length
    · constructor
      · exact fun hv => ⟨fun _ => (hv hwithin).1, fun _ => (hv hwithin).2⟩
      · exact fun hv _ => ⟨hv.1 hm, hv.2 ⟨hwithin, hv.1 hm⟩⟩
    · exact iff_of_true (fun h => absurd h hwithin)
        ⟨fun _ => endable_of_not_within hp hm hwithin, fun h => absurd h.1 hwithin⟩

/-- From any place on, the arithmetic is in range exactly if the chunks end in range. -/
theorem throughout_inRange_iff : ∀ (later : List Bytes) {arg : ReadMultipartArg} {p : Place}
    {chunk : Bytes}, Standing boundary callbacks heap arg p → (∀ c ∈ chunk :: later, c ≠ []) →
    (Throughout heap (InRange heap) (enter arg chunk later) ↔
      p.EndsInRange boundary callbacks heap (chunk :: later)) := by
  intro later
  induction later with
  | nil =>
      intro arg p chunk hp hne
      exact throughout_inRange_chunk
        (fun h p _ hb hl => iff_of_true (throughout_last hb hl) trivial)
        hp (hne chunk List.mem_cons_self)
  | cons c cs ih =>
      intro arg p chunk hp hne
      refine throughout_inRange_chunk (fun h p hp hb hl => ?_) hp (hne chunk List.mem_cons_self)
      rw [throughout_call hb hl]
      exact ih hp fun d hd => hne d (List.mem_cons_of_mem _ hd)

/-- **When the delimiter arithmetic stays in range.** For every boundary, number of parts
and sequence of non-empty chunks, the arithmetic of every iteration that is reached is in
range exactly if every chunk that can be read to its end ends inside a header block, or
with a candidate delimiter that began in it. -/
theorem inRange_iff (heap : Bytes → ℕ → Byte) (boundary : Bytes) (callbacks : List Bool)
    (chunk : Bytes) (later : List Bytes) (hne : ∀ c ∈ chunk :: later, c ≠ []) :
    Throughout heap (InRange heap)
        (enter (prepareReadMultipart boundary callbacks) chunk later) ↔
      Place.start.EndsInRange boundary callbacks heap (chunk :: later) :=
  throughout_inRange_iff later Standing.prepare hne

/-- A chunk that ends with the first byte of a delimiter. -/
theorem inRange_iff_oneChunk :
    Throughout (fun _ _ => 0) (InRange fun _ _ => 0) (enter
      (prepareReadMultipart (bytes "b") [false]) (bytes "--b\r\nA: 1\r\n\r\nx\r") []) :=
  (inRange_iff _ _ _ _ _ (by simp [bytes])).mpr fun _ => ⟨by decide +kernel, trivial⟩

/-- The state after a number of iterations. -/
def steps (heap : Bytes → ℕ → Byte) : ℕ → LoopHead → Option LoopHead
  | 0, h => some h
  | n + 1, h => (h.next heap).bind (steps heap n)

theorem reaches_of_steps : ∀ {n : ℕ} {h h' : LoopHead}, steps heap n h = some h' →
    Reaches heap h h'
  | 0, h, h', hsteps => by
      obtain rfl := Option.some.inj hsteps
      exact Relation.ReflTransGen.refl
  | n + 1, h, h', hsteps => by
      obtain ⟨h₁, hnext, hrest⟩ := Option.bind_eq_some_iff.mp hsteps
      exact Relation.ReflTransGen.head hnext (reaches_of_steps hrest)

/-- Where the next byte is a chunk of its own, one byte is scanned and two are matched. -/
theorem inRange_split :
    ¬ Throughout (fun _ _ => 0) (InRange fun _ _ => 0) (enter
      (prepareReadMultipart (bytes "b") [false]) (bytes "--b\r\nA: 1\r\n\r\nx\r") [[lf]]) := by
  intro hall
  have hsteps : (steps (fun _ _ => 0) 4 (enter (prepareReadMultipart (bytes "b") [false])
      (bytes "--b\r\nA: 1\r\n\r\nx\r") [[lf]])).map (fun h => (h.buffer, h.arg.delimiter.length,
        (h.arg.scan h.arg.delimiter h.buffer).map fun r =>
          (r.1, r.2.needHeader, r.2.matchCounter))) = some ([lf], 9, some (1, false, 2)) := by
    decide +kernel
  obtain ⟨h, hh, heq⟩ := Option.map_eq_some_iff.mp hsteps
  obtain ⟨hbuffer, hlength, hscan⟩ : _ ∧ _ ∧ _ := by simpa only [Prod.mk.injEq] using heq
  obtain ⟨⟨scanned, arg⟩, hscan, heq⟩ := Option.map_eq_some_iff.mp hscan
  obtain ⟨rfl, hheader, hcounter⟩ : _ ∧ _ ∧ _ := by simpa only [Prod.mk.injEq] using heq
  have hsaves := (hall h (reaches_of_steps hh) (by rw [hbuffer]; exact List.cons_ne_nil _ _)).saves
    _ _ hscan hheader (by rw [hcounter, hlength]; decide) (by rw [hcounter]; decide)
  rw [hcounter] at hsaves
  exact absurd hsaves.1 (by decide)

end LoopHead

end DsiRest
