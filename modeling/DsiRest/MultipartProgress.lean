import DsiRest.Lib.Iteration
import DsiRest.MultipartRange
import DsiRest.MultipartWrapping

/-!
# Progress of the Multipart Reader

The heads of the chunk loop that a sequence of calls reaches, those behind a length that
wrapped included. At each of them the counter is below the length of the delimiter that the
iteration looks for, whatever the chunks were: it is reset where the delimiter changes, and
a wrapped length does not touch it. So every iteration consumes a byte, and a call of the
loop ends.

`parts[part_index]` is in range until a byte follows the closing delimiter: the loop does
not look at `num_parts` before it calls the part's data read callback.

A run stops early in two places. `parts[part_index].data_read_callback` of a part that does
not exist is no function; and a header line that its parser leaves ends in a copy to the
block that `malloc` refused.

## Main results

* `LoopHead.consumes` — every iteration consumes input.
* `LoopHead.partInRange_iff` — when the part index stays in range.
-/

namespace DsiRest

namespace LoopHead

/-- The head of the next iteration, in machine arithmetic; at the end of a chunk, that of
the next call. -/
def wrappingNext (heap : Bytes → ℕ → Byte) (outside : Bytes → ℤ → Byte) (h : LoopHead) :
    Option LoopHead :=
  if h.buffer = [] then
    match h.later with
    | [] => none
    | chunk :: later => some (enter h.arg chunk later)
  else
    (ReadMultipartArg.Wrapping.step heap outside h.arg h.result h.buffer).map
      fun (scanned, result, arg) =>
        ⟨arg, result, h.chunk, h.buffer.drop scanned, h.iterations + 1, h.later⟩

variable {heap : Bytes → ℕ → Byte} {outside : Bytes → ℤ → Byte} {h h' : LoopHead}

/-- **Where nothing wraps** the next head is the same. -/
theorem wrappingNext_of_next (hnext : h.next heap = some h') :
    h.wrappingNext heap outside = some h' := by
  rw [next] at hnext
  rw [wrappingNext]
  split
  · rename_i hnil
    rwa [if_pos hnil] at hnext
  · rename_i hne
    rw [if_neg hne] at hnext
    obtain ⟨⟨scanned, result, arg⟩, hstep, rfl⟩ := Option.map_eq_some_iff.mp hnext
    rw [ReadMultipartArg.Wrapping.step_of_step outside hstep]
    rfl

/-- The head after an iteration that comes back. -/
theorem wrappingNext_of_step {scanned : ℕ} {result : Result} {arg : ReadMultipartArg}
    (hne : h.buffer ≠ []) (hstep : ReadMultipartArg.Wrapping.step heap outside h.arg h.result
      h.buffer = some (scanned, result, arg)) :
    h.wrappingNext heap outside = some
      ⟨arg, result, h.chunk, h.buffer.drop scanned, h.iterations + 1, h.later⟩ := by
  rw [wrappingNext, if_neg hne, hstep, Option.map_some]

/-- An iteration without defined behaviour has no next head. -/
theorem wrappingNext_of_step_none (hne : h.buffer ≠ [])
    (hstep : ReadMultipartArg.Wrapping.step heap outside h.arg h.result h.buffer = none) :
    h.wrappingNext heap outside = none := by
  rw [wrappingNext, if_neg hne, hstep, Option.map_none]

end LoopHead

namespace LoopHead

variable {boundary : Bytes} {callbacks : List Bool} {heap : Bytes → ℕ → Byte}
variable {outside : Bytes → ℤ → Byte}

/-! ### Every iteration consumes input -/

/-- What holds at the head of every iteration: the state stands at a place, and the call
has made no more iterations than it has consumed bytes. -/
structure Sound (boundary : Bytes) (callbacks : List Bool) (heap : Bytes → ℕ → Byte)
    (h : LoopHead) : Prop where
  stands : ∃ p, StandsAt boundary callbacks heap h.arg p
  counted : h.iterations + h.buffer.length ≤ h.chunk.length

/-- The first iteration of a call. -/
theorem sound_enter {arg : ReadMultipartArg} {p : Place}
    (h : StandsAt boundary callbacks heap arg p) (chunk : Bytes) (later : List Bytes) :
    Sound boundary callbacks heap (enter arg chunk later) :=
  ⟨⟨p, h⟩, by simp [enter]⟩

/-- A scan of something passes over something. -/
theorem one_le_scanned {d : Bytes} {m : ℕ} (hm : m < d.length) {bs : Bytes} (hne : bs ≠ []) :
    1 ≤ (Matcher.feed d m bs).2 := by
  obtain ⟨b, bs, rfl⟩ := List.exists_cons_of_ne_nil hne
  rw [Matcher.feed_cons hm]
  exact Nat.le_add_left 1 _

/-- The next iteration. -/
theorem Sound.next {h h' : LoopHead} (hs : Sound boundary callbacks heap h)
    (hnext : h.wrappingNext heap outside = some h') : Sound boundary callbacks heap h' := by
  obtain ⟨⟨p, hp⟩, hcounted⟩ := hs
  rw [wrappingNext] at hnext
  split at hnext
  · split at hnext
    · cases hnext
    · obtain rfl := Option.some.inj hnext
      exact sound_enter hp _ _
  · rename_i hne
    obtain ⟨⟨scanned, result', arg'⟩, hstep, rfl⟩ := Option.map_eq_some_iff.mp hnext
    obtain ⟨rfl, -, hread⟩ := hp.step_some hne hstep
    have hstand : ∃ q, StandsAt boundary callbacks heap arg' q := by
      rcases hread with ⟨-, -, hstand⟩ | ⟨-, -, hstand⟩
      · exact ⟨_, hstand⟩
      · exact ⟨_, hstand⟩
    have hscanned := one_le_scanned hp.matched_lt hne
    have hpos := List.length_pos_iff.mpr hne
    refine ⟨hstand, ?_⟩
    simp only [List.length_drop]
    omega

/-- **The reader consumes input in every iteration.** Whatever chunks were fed and whatever
the memory around them holds, at the head of every iteration the counter is below the length
of the delimiter, the delimiter fits into its array, and at least one byte is scanned and no
more than there are, which the next iteration does not see again. The call has made no more
iterations than it has consumed bytes, so it makes at most as many as its chunk has. -/
theorem consumes (heap : Bytes → ℕ → Byte) (outside : Bytes → ℤ → Byte) (boundary : Bytes)
    (callbacks : List Bool) (chunk : Bytes) (later : List Bytes) (h : LoopHead)
    (hreach : Iteration.Reaches (wrappingNext heap outside)
      (enter (prepareReadMultipart boundary callbacks) chunk later) h) :
    h.iterations + h.buffer.length ≤ h.chunk.length ∧
      (h.buffer ≠ [] →
        h.arg.matchCounter < h.arg.delimiter.length ∧
        h.arg.delimiter.length < h.arg.boundary.length + 9 ∧
        ∃ scanned arg', h.arg.scan h.arg.delimiter h.buffer = some (scanned, arg') ∧
          1 ≤ scanned ∧ scanned ≤ h.buffer.length ∧
          ∀ h', h.wrappingNext heap outside = some h' →
            h'.buffer = h.buffer.drop scanned ∧ h'.iterations = h.iterations + 1) := by
  have hsound : Sound boundary callbacks heap h :=
    hreach.invariant (fun _ _ hs hnext => hs.next hnext)
      (sound_enter StandsAt.prepare chunk later)
  obtain ⟨⟨p, hp⟩, hcounted⟩ := hsound
  refine ⟨hcounted, fun hne => ?_⟩
  obtain ⟨-, hscanned, -⟩ := Matcher.feed_spec h.arg.delimiter h.buffer
    h.arg.matchCounter hp.counter.le
  refine ⟨hp.counter, (length_delimiterText _ _ _ _).2, _, _, hp.scan_delimiter,
    one_le_scanned hp.counter hne, hscanned, fun h' hnext => ?_⟩
  rw [wrappingNext, if_neg hne] at hnext
  obtain ⟨⟨n, result', arg'⟩, hstep, rfl⟩ := Option.map_eq_some_iff.mp hnext
  obtain ⟨rfl, -⟩ := hp.step_some hne hstep
  rw [hp.feed_eq]
  exact ⟨rfl, rfl⟩

/-- The state after a number of iterations. -/
def wrappingSteps (heap : Bytes → ℕ → Byte) (outside : Bytes → ℤ → Byte) :
    ℕ → LoopHead → Option LoopHead
  | 0, h => some h
  | n + 1, h => (h.wrappingNext heap outside).bind (wrappingSteps heap outside n)

theorem reaches_of_wrappingSteps : ∀ {n : ℕ} {h h' : LoopHead},
    wrappingSteps heap outside n h = some h' → Iteration.Reaches (wrappingNext heap outside) h h'
  | 0, h, h', hsteps => by
      obtain rfl := Option.some.inj hsteps
      exact Iteration.Reaches.refl h
  | n + 1, h, h', hsteps => by
      obtain ⟨h₁, hnext, hrest⟩ := Option.bind_eq_some_iff.mp hsteps
      exact Relation.ReflTransGen.head hnext (reaches_of_wrappingSteps hrest)

/-- The three bytes of a line end and a dash as chunks of their own: the length wraps at the
second, and the third iteration behind it consumes its byte. -/
theorem consumes_wrapped :
    ∃ h, Iteration.Reaches (wrappingNext (fun _ _ => 0) fun _ _ => 0)
        (enter (prepareReadMultipart (bytes "b") [false]) (bytes "--b\r\nA: 1\r\n\r\nx")
          [[cr], [lf], bytes "-"]) h ∧
      (h.arg.matchCounter = 2 ∧ h.buffer = bytes "-") ∧
      (h.iterations + h.buffer.length ≤ h.chunk.length ∧
      (h.buffer ≠ [] →
        h.arg.matchCounter < h.arg.delimiter.length ∧
        h.arg.delimiter.length < h.arg.boundary.length + 9 ∧
        ∃ scanned arg', h.arg.scan h.arg.delimiter h.buffer = some (scanned, arg') ∧
          1 ≤ scanned ∧ scanned ≤ h.buffer.length ∧
          ∀ h', h.wrappingNext (fun _ _ => 0) (fun _ _ => 0) = some h' →
            h'.buffer = h.buffer.drop scanned ∧ h'.iterations = h.iterations + 1)) := by
  have hsteps : (wrappingSteps (fun _ _ => 0) (fun _ _ => 0) 8 (enter (prepareReadMultipart
      (bytes "b") [false]) (bytes "--b\r\nA: 1\r\n\r\nx") [[cr], [lf], bytes "-"])).map
        (fun h => (h.arg.matchCounter, h.buffer)) = some (2, bytes "-") := by
    decide +kernel
  obtain ⟨h, hh, heq⟩ := Option.map_eq_some_iff.mp hsteps
  have hreach := reaches_of_wrappingSteps hh
  exact ⟨h, hreach, Prod.mk.inj heq, consumes _ _ _ _ _ _ h hreach⟩

/-! ### The part index -/

/-- The part whose entry of the array an iteration uses. Inside a header block that is
done only where the block ends, and everywhere else in every branch. -/
def partUsed (h : LoopHead) : Option ℕ :=
  match h.arg.scan h.arg.delimiter h.buffer with
  | none => h.arg.partIndex
  | some (_, arg') =>
    if h.arg.needHeader = true ∧ arg'.matchCounter ≠ h.arg.delimiter.length then none
    else h.arg.partIndex

/-- The part index of one iteration is in range: the part it uses exists, and behind the
closing delimiter it uses none. -/
structure PartInRange (h : LoopHead) : Prop where
  exists_part : ∀ k, h.partUsed = some k → k < h.arg.parts.length
  closed : h.arg.partIndex = some h.arg.parts.length → h.partUsed = none

/-- The part index of an iteration is in range exactly if it is not past the message. -/
theorem partInRange_iff_within {h : LoopHead} {p : Place}
    (hp : StandsAt boundary callbacks heap h.arg p) :
    PartInRange h ↔ p.Within callbacks.length := by
  have hused : ∀ k, h.partUsed = some k → h.arg.partIndex = some k := by
    intro k hk
    rw [partUsed, hp.scan_delimiter] at hk
    simp only at hk
    split at hk
    · cases hk
    · exact hk
  rw [Place.Within, ← hp.partIndex, ← hp.numParts]
  constructor
  · rintro ⟨hexists, -⟩ k hk
    by_cases hh : h.arg.needHeader = true
    · obtain ⟨-, k', hk', hlt⟩ := hp.header (hp.needHeader.symm.trans hh)
      rw [← hp.partIndex, hk] at hk'
      rwa [Option.some.inj hk', hp.numParts]
    · refine hexists k ?_
      rw [partUsed, hp.scan_delimiter]
      exact (if_neg fun hboth => hh hboth.1).trans hk
  · intro hwithin
    exact ⟨fun k hk => hwithin k (hused k hk), fun hk => absurd (hwithin _ hk) (lt_irrefl _)⟩

end LoopHead

namespace Place

variable (boundary : Bytes) (callbacks : List Bool) (heap : Bytes → ℕ → Byte)

/-- Every byte of a chunk that is reached lies before the end of the message. -/
def ReachesWithin : Place → Bytes → Prop
  | _, [] => True
  | p, b :: bs =>
    p.Within callbacks.length ∧
      ((Matcher.advance (p.delimiter boundary callbacks.length) p.matched b
          = (p.delimiter boundary callbacks.length).length →
        p.HeaderOk callbacks heap (p.piece ++ [b])) →
      ReachesWithin (p.next boundary callbacks.length b) bs)

/-- **The condition on the message.** No byte that is reached follows the closing
delimiter. -/
def NoEpilogue : Place → List Bytes → Prop
  | _, [] => True
  | p, c :: cs => p.ReachesWithin boundary callbacks heap c ∧
      (p.Readable boundary callbacks heap c →
        NoEpilogue (p.read boundary callbacks.length c).cut cs)

/-- Whether bytes are reached behind the message is decided byte by byte. -/
instance decidableReachesWithin : ∀ (p : Place) (bs : Bytes),
    Decidable (p.ReachesWithin boundary callbacks heap bs)
  | _, [] => isTrue trivial
  | p, b :: bs =>
    have := decidableReachesWithin (p.next boundary callbacks.length b) bs
    inferInstanceAs (Decidable (_ ∧ (_ → _)))

/-- The condition is decided chunk by chunk. -/
instance decidableNoEpilogue : ∀ (p : Place) (chunks : List Bytes),
    Decidable (p.NoEpilogue boundary callbacks heap chunks)
  | _, [] => isTrue trivial
  | p, c :: cs =>
    have := decidableNoEpilogue (p.read boundary callbacks.length c).cut cs
    inferInstanceAs (Decidable (_ ∧ (_ → _)))

variable {boundary callbacks heap}

/-- A chunk that stays in its section. -/
theorem reachesWithin_open : ∀ (bs : Bytes) (p : Place),
    p.matched < (p.delimiter boundary callbacks.length).length →
    (Matcher.feed (p.delimiter boundary callbacks.length) p.matched bs).1
      < (p.delimiter boundary callbacks.length).length →
    (p.ReachesWithin boundary callbacks heap bs ↔ (bs ≠ [] → p.Within callbacks.length)) := by
  refine openInduction (fun p => by simp [ReachesWithin]) ?_
  intro b bs p _ hne ih
  have hwithin : (p.next boundary callbacks.length b).Within callbacks.length
      ↔ p.Within callbacks.length := by rw [next_of_ne hne]; exact Iff.rfl
  rw [ReachesWithin, ih, hwithin]
  constructor
  · exact fun hr _ => hr.1
  · exact fun hr => ⟨hr (List.cons_ne_nil b bs), fun _ _ => hr (List.cons_ne_nil b bs)⟩

/-- A chunk that goes past the end of its section. -/
theorem reachesWithin_closed : ∀ (bs : Bytes) (p : Place),
    p.matched < (p.delimiter boundary callbacks.length).length →
    (Matcher.feed (p.delimiter boundary callbacks.length) p.matched bs).1
      = (p.delimiter boundary callbacks.length).length →
    (p.ReachesWithin boundary callbacks heap bs ↔
      p.Within callbacks.length ∧
      (p.HeaderOk callbacks heap (p.piece ++
          bs.take (Matcher.feed (p.delimiter boundary callbacks.length) p.matched bs).2) →
        (p.finish callbacks.length).ReachesWithin boundary callbacks heap
          (bs.drop (Matcher.feed (p.delimiter boundary callbacks.length) p.matched bs).2))) := by
  refine closedInduction ?_ ?_
  · intro b bs p hp heq
    rw [Matcher.feed_cons hp, Matcher.feed_of_length_le heq.ge, ReachesWithin, next_of_eq heq]
    simp [heq]
  · intro b bs p hp hne ih
    rw [Matcher.feed_cons hp, ReachesWithin, ih, next_of_ne hne]
    simp only [hne, false_implies, forall_const, List.take_succ_cons, List.drop_succ_cons,
      List.append_assoc, List.singleton_append]
    constructor
    · exact fun hr => ⟨hr.1, hr.2.2⟩
    · exact fun hr => ⟨hr.1, hr.1, hr.2⟩

/-- The condition at a chunk that goes past the end of its section. -/
theorem noEpilogue_closed {p : Place} {bs : Bytes} (later : List Bytes) (hpiece : p.piece = [])
    (hp : p.matched < (p.delimiter boundary callbacks.length).length)
    (hm : (Matcher.feed (p.delimiter boundary callbacks.length) p.matched bs).1
      = (p.delimiter boundary callbacks.length).length) :
    p.NoEpilogue boundary callbacks heap (bs :: later) ↔
      p.Within callbacks.length ∧
      (p.HeaderOk callbacks heap
          (bs.take (Matcher.feed (p.delimiter boundary callbacks.length) p.matched bs).2) →
        (p.finish callbacks.length).NoEpilogue boundary callbacks heap
          (bs.drop (Matcher.feed (p.delimiter boundary callbacks.length) p.matched bs).2
            :: later)) := by
  rw [NoEpilogue, NoEpilogue, readable_closed bs p hp hm, reachesWithin_closed bs p hp hm,
    hpiece, List.nil_append, (read_closed bs p hp hm).1]
  constructor
  · exact fun hv => ⟨hv.1.1, fun hok => ⟨hv.1.2 hok, fun hrest => hv.2 ⟨hv.1.1, hok, hrest⟩⟩⟩
  · exact fun hv => ⟨⟨hv.1, fun hok => (hv.2 hok).1⟩, fun hr => (hv.2 hr.2.1).2 hr.2.2⟩

/-- The condition at a chunk that stays in its section. -/
theorem noEpilogue_open {p : Place} {bs : Bytes} (later : List Bytes) (hne : bs ≠ [])
    (hp : p.matched < (p.delimiter boundary callbacks.length).length)
    (hm : (Matcher.feed (p.delimiter boundary callbacks.length) p.matched bs).1
      < (p.delimiter boundary callbacks.length).length) :
    p.NoEpilogue boundary callbacks heap (bs :: later) ↔ p.Within callbacks.length ∧
      (p.read boundary callbacks.length bs).cut.NoEpilogue boundary callbacks heap later := by
  rw [NoEpilogue, readable_open bs p hp hm, reachesWithin_open bs p hp hm,
    forall_prop_of_true hne]
  exact and_congr_right fun hwithin => forall_prop_of_true hwithin

end Place

namespace LoopHead

variable {boundary : Bytes} {callbacks : List Bool} {heap : Bytes → ℕ → Byte}
variable {outside : Bytes → ℤ → Byte}

/-- The part index of every iteration from a head on is in range. -/
def PartsInRange (heap : Bytes → ℕ → Byte) (outside : Bytes → ℤ → Byte) : LoopHead → Prop :=
  Iteration.Always (wrappingNext heap outside) fun h => h.buffer ≠ [] → PartInRange h

/-- The rest of a chunk, and what the condition comes to from the next call on. -/
theorem partsInRange_chunk {later : List Bytes}
    (hcall : ∀ (h : LoopHead) (p : Place), StandsAt boundary callbacks heap h.arg p →
      h.buffer = [] → h.later = later →
      (PartsInRange heap outside h ↔ p.NoEpilogue boundary callbacks heap later)) :
    ∀ (n : ℕ) {h : LoopHead} {p : Place}, StandsAt boundary callbacks heap h.arg p →
      h.later = later → h.buffer.length ≤ n →
      (PartsInRange heap outside h ↔
        p.NoEpilogue boundary callbacks heap (h.buffer :: later)) := by
  intro n
  induction n with
  | zero =>
      intro h p hp hlater hle
      have hnil : h.buffer = [] := List.length_eq_zero_iff.mp (Nat.le_zero.mp hle)
      rw [hcall h p hp hnil hlater, hnil, Place.NoEpilogue, Place.read_nil,
        Place.cut_of_piece hp.piece]
      simp [Place.ReachesWithin, Place.Readable]
  | succ n ih =>
      intro h p hp hlater hle
      by_cases hne : h.buffer = []
      · exact ih hp hlater (by rw [hne]; exact Nat.zero_le n)
      · have hfirst : (h.buffer ≠ [] → PartInRange h) ↔ p.Within callbacks.length := by
          rw [forall_prop_of_true hne, partInRange_iff_within hp]
        rcases Nat.lt_or_eq_of_le (Matcher.feed_spec (p.delimiter boundary callbacks.length)
          h.buffer _ hp.matched_lt.le).1 with hm | hm
        · rw [Place.noEpilogue_open later hne hp.matched_lt hm, ← hfirst]
          by_cases hwithin : p.Within callbacks.length
          · obtain ⟨arg', hstep, hstand, -⟩ := hp.step_open outside h.result hne hm hwithin
            rw [PartsInRange, Iteration.always_of_next (wrappingNext_of_step hne hstep)]
            exact and_congr_right fun _ => hcall _ _ hstand List.drop_length hlater
          · exact iff_of_false
              (fun hall => hwithin (hfirst.mp (Iteration.always_iff.mp hall).1))
              fun hall => hwithin (hfirst.mp hall.1)
        · rw [Place.noEpilogue_closed later hp.piece hp.matched_lt hm, ← hfirst]
          by_cases hgood : p.Within callbacks.length ∧ p.HeaderOk callbacks heap
              (h.buffer.take (Matcher.feed (p.delimiter boundary callbacks.length) p.matched
                h.buffer).2)
          · obtain ⟨arg', hstep, hstand, -⟩ :=
              hp.step_closed outside h.result hm hgood.1 hgood.2
            have hscanned := hp.scanned_pos hm
            rw [PartsInRange, Iteration.always_of_next (wrappingNext_of_step hne hstep),
              forall_prop_of_true hgood.2]
            exact and_congr_right fun _ => ih hstand hlater (by rw [List.length_drop]; omega)
          · rw [PartsInRange, Iteration.always_of_stop
              (wrappingNext_of_step_none hne (hp.step_closed_none hm hgood))]
            exact (and_iff_left_of_imp fun hQ hok => absurd ⟨hfirst.mp hQ, hok⟩ hgood).symm

/-- From any head on, the part index is in range exactly if no byte follows the message. -/
theorem partsInRange_iff_noEpilogue : ∀ (later : List Bytes) {h : LoopHead} {p : Place},
    StandsAt boundary callbacks heap h.arg p → h.later = later →
    (PartsInRange heap outside h ↔
      p.NoEpilogue boundary callbacks heap (h.buffer :: later)) := by
  intro later
  induction later with
  | nil =>
      intro h p hp hlater
      refine partsInRange_chunk (fun h p _ hnil hl => ?_) _ hp hlater (Nat.le_refl _)
      have hstop : h.wrappingNext heap outside = none := by
        rw [wrappingNext, if_pos hnil, hl]
      rw [PartsInRange, Iteration.always_of_stop hstop]
      exact iff_of_true (fun hne => absurd hnil hne) trivial
  | cons c cs ih =>
      intro h p hp hlater
      refine partsInRange_chunk (fun h p hp hnil hl => ?_) _ hp hlater (Nat.le_refl _)
      have hnext : h.wrappingNext heap outside = some (enter h.arg c cs) := by
        rw [wrappingNext, if_pos hnil, hl]
      rw [PartsInRange, Iteration.always_of_next hnext]
      exact (and_iff_right fun hne => absurd hnil hne).trans (ih hp rfl)

/-- **When the part index stays in range.** For every boundary, number of parts and sequence
of chunks, the part index of every iteration that is reached is in range exactly if no byte
that is reached follows the closing delimiter. -/
theorem partInRange_iff (heap : Bytes → ℕ → Byte) (outside : Bytes → ℤ → Byte)
    (boundary : Bytes) (callbacks : List Bool) (chunk : Bytes) (later : List Bytes) :
    PartsInRange heap outside (enter (prepareReadMultipart boundary callbacks) chunk later) ↔
      Place.start.NoEpilogue boundary callbacks heap (chunk :: later) :=
  partsInRange_iff_noEpilogue later StandsAt.prepare rfl

/-- A message that ends with its closing delimiter, a line end of which comes byte by byte, so
that the length wraps. -/
theorem partInRange_iff_wrapped :
    PartsInRange (fun _ _ => 0) (fun _ _ => 0)
      (enter (prepareReadMultipart (bytes "b") [false]) (bytes "--b\r\nA: 1\r\n\r\nx")
        [[cr], [lf], bytes "--b--\r\n"]) :=
  (partInRange_iff _ _ _ _ _ _).mpr (by decide +kernel)

/-- A byte behind the closing delimiter is passed to the part behind the last one. -/
theorem partInRange_epilogue :
    ¬ PartsInRange (fun _ _ => 0) (fun _ _ => 0) (enter (prepareReadMultipart (bytes "b") [false])
      (bytes "--b\r\nA: 1\r\n\r\nx\r\n--b--\r\n.") []) := by
  intro hall
  have hsteps : (wrappingSteps (fun _ _ => 0) (fun _ _ => 0) 3
      (enter (prepareReadMultipart (bytes "b") [false])
        (bytes "--b\r\nA: 1\r\n\r\nx\r\n--b--\r\n.") [])).map (fun h =>
          (h.buffer, h.arg.parts.length, h.partUsed)) = some (bytes ".", 1, some 1) := by
    decide +kernel
  obtain ⟨h, hh, heq⟩ := Option.map_eq_some_iff.mp hsteps
  obtain ⟨hbuffer, hparts, hused⟩ : _ ∧ _ ∧ _ := by simpa only [Prod.mk.injEq] using heq
  have hlt := (hall h (reaches_of_wrappingSteps hh) (by rw [hbuffer]; decide)).exists_part 1 hused
  rw [hparts] at hlt
  exact absurd hlt (lt_irrefl 1)

end LoopHead

end DsiRest
