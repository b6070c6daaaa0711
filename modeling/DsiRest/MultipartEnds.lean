import DsiRest.MultipartWrapping

/-!
# The End of a Part

A part's data read callback is told the end of the part by a call without data. Such a call
is made at the delimiter behind the part's body, and also at the end of a chunk that holds
nothing of the body but a candidate delimiter. The call without data that ends the whole
message, on the other hand, reaches no part: the chunk loop is not entered, so a message
that breaks off leaves its current part and those behind it without an end, and the result
of the call is a success.

A length that wraps is not zero, so the calls with such a length end no part:
`EndsSoFar` counts the ends that a part was told by the delimiters passed and the chunks
that end in nothing but a candidate, over every run of the reader.

## Main results

* `StandsAt.loop_ends` — how often, and when, a call tells each part its end.
* `readMultipart_ends_iff` — when the parts are ended once and last, and broken off messages
  are refused.
-/

namespace DsiRest

open ReadMultipartArg (Wrapping.feedReplies)

/-! ### What one part receives -/

/-- The deliveries to part `k`. -/
def toPart (k : ℕ) (deliveries : List (ℕ × Delivery)) : List Delivery :=
  deliveries.filterMap fun delivery => if delivery.1 = k then some delivery.2 else none

@[simp] theorem toPart_append (k : ℕ) (xs ys : List (ℕ × Delivery)) :
    toPart k (xs ++ ys) = toPart k xs ++ toPart k ys :=
  List.filterMap_append

/-- The part that deliveries are for receives them. -/
theorem toPart_self (k : ℕ) (ds : List Delivery) : toPart k (ds.map (k, ·)) = ds := by
  induction ds with
  | nil => rfl
  | cons d ds ih =>
      rw [← List.singleton_append, List.map_append, toPart_append, ih]
      simp [toPart]

/-- The other parts do not. -/
theorem toPart_of_ne {j k : ℕ} (h : j ≠ k) (ds : List Delivery) :
    toPart k (ds.map (j, ·)) = [] := by
  rw [toPart, List.filterMap_eq_nil_iff]
  intro d hd
  obtain ⟨d, -, rfl⟩ := List.mem_map.mp hd
  exact if_neg h

/-- What the buffers of a part's data calls deliver. -/
def heard (buffers : List Bytes) : List Delivery :=
  buffers.flatMap fun buffer => if buffer = [] then [none] else buffer.map some

@[simp] theorem heard_append (first second : List Bytes) :
    heard (first ++ second) = heard first ++ heard second :=
  List.flatMap_append

/-- Data calls deliver to the current part. -/
theorem toPart_dataCalls (index : Option ℕ) (k : ℕ) (buffers : List Bytes) :
    toPart k (deliveries (dataCalls index buffers))
      = if index = some k then heard buffers else [] := by
  cases index with
  | none => rfl
  | some j =>
      have hmap : deliveries (dataCalls (some j) buffers) = (heard buffers).map (j, ·) := by
        rw [dataCalls_some, deliveries, heard, List.flatMap_map, List.map_flatMap]
        refine List.flatMap_congr fun buffer _ => ?_
        rw [PartCall.deliveries]
        split
        · rfl
        · rw [List.map_map]
          rfl
      rw [hmap]
      by_cases hk : j = k
      · subst hk
        rw [toPart_self, if_pos rfl]
      · rw [toPart_of_ne hk, if_neg (by simpa using hk)]

/-- A buffer without data is an end, and no other is. -/
theorem count_heard_singleton (buffer : Bytes) :
    (heard [buffer]).count none = if buffer = [] then 1 else 0 := by
  rw [heard, List.flatMap_singleton]
  split
  · rfl
  · exact List.count_eq_zero.mpr (by simp)

/-- A buffer passed on only if it is not empty is no end. -/
theorem count_heard_nonempty (buffer : Bytes) : (heard (nonempty buffer)).count none = 0 := by
  rw [nonempty]
  split
  · rename_i hpos
    rw [count_heard_singleton, if_neg (List.length_pos_iff.mp hpos)]
  · rfl

/-- What a broken match replays is no end. -/
theorem count_heard_replayed (arg : ReadMultipartArg) (bs : Bytes) :
    (heard (arg.replayed bs)).count none = 0 := by
  rw [ReadMultipartArg.replayed]
  split
  · rfl
  · exact count_heard_nonempty _

namespace Place

/-- Part `k` lies before the place. No part lies before the preface. -/
def Past (p : Place) (k : ℕ) : Prop :=
  k < p.partIndex.getD 0

instance (p : Place) (k : ℕ) : Decidable (p.Past k) := inferInstanceAs (Decidable (_ < _))

variable (boundary : Bytes) (callbacks : List Bool) (heap : Bytes → ℕ → Byte)

/-- Each chunk is readable. -/
def AllReadable : Place → List Bytes → Prop
  | _, [] => True
  | p, c :: cs => p.Readable boundary callbacks heap c ∧
      AllReadable (p.read boundary callbacks.length c).cut cs

/-- Whether chunks are readable is decided one by one. -/
instance decidableAllReadable : ∀ (p : Place) (chunks : List Bytes),
    Decidable (p.AllReadable boundary callbacks heap chunks)
  | _, [] => isTrue trivial
  | p, c :: cs =>
    have := decidableAllReadable (p.read boundary callbacks.length c).cut cs
    inferInstanceAs (Decidable (_ ∧ _))

/-- The results of the calls with chunks, read from the places. -/
def replies : Place → List Bytes → List Result
  | _, [] => []
  | p, c :: cs =>
    p.reply boundary callbacks heap .success c ::
      replies (p.read boundary callbacks.length c).cut cs

variable {boundary callbacks heap}

/-- A readable chunk with bytes in its last section ends inside the message. -/
theorem Readable.within_read {p : Place} {bs : Bytes}
    (h : p.Readable boundary callbacks heap bs)
    (hp : p.piece = [] ∨ p.Within callbacks.length) :
    (p.read boundary callbacks.length bs).piece = [] ∨
      (p.read boundary callbacks.length bs).Within callbacks.length := by
  induction bs generalizing p with
  | nil => exact hp
  | cons b bs ih =>
      refine ih h.2.2 ?_
      rw [next]
      split
      · exact Or.inl (finish_piece p)
      · exact Or.inr h.1

/-- Stray ends are ends of parts of the message. -/
theorem mem_strays : ∀ {chunks : List Bytes} {p : Place} {delivery : ℕ × Delivery},
    p.piece = [] → p.AllReadable boundary callbacks heap chunks →
    delivery ∈ p.strays boundary callbacks chunks →
    delivery.1 < callbacks.length ∧ delivery.2 = none
  | [], _, _, _, _, hmem => absurd hmem List.not_mem_nil
  | c :: cs, p, delivery, hp, hr, hmem => by
      rcases List.mem_append.mp hmem with hc | hcs
      · rw [stray] at hc
        split at hc
        · rename_i hstray
          obtain ⟨k, hk⟩ := Option.ne_none_iff_exists'.mp hstray.2.1
          have hpiece : (p.read boundary callbacks.length c).piece ≠ [] := by
            rw [← List.length_pos_iff, hstray.2.2.2]
            exact hstray.2.2.1
          have hwithin := (hr.1.within_read (Or.inl hp)).resolve_left hpiece
          rw [emit, if_neg (by simp [hstray.1])] at hc
          simp only [hk, List.map_nil, List.nil_append, if_true, List.mem_singleton] at hc
          exact hc ▸ ⟨hwithin k hk, rfl⟩
        · exact absurd hc List.not_mem_nil
      · exact mem_strays rfl hr.2 hcs

/-- The parts behind a sequence of chunks are those behind the message they make up. -/
theorem past_readChunks (chunks : List Bytes) (p : Place) (k : ℕ) :
    (p.readChunks boundary callbacks chunks).Past k
      ↔ (p.read boundary callbacks.length chunks.flatten).Past k := by
  rcases List.eq_nil_or_concat' chunks with rfl | ⟨cs, c, rfl⟩
  · exact Iff.rfl
  · have hindex : ((p.readChunks boundary callbacks cs).read boundary callbacks.length
        c).partIndex = (p.read boundary callbacks.length (cs ++ [c]).flatten).partIndex :=
      (sameSection_readChunks cs c p).partIndex
    rw [Past, Past, ← hindex, readChunks, List.foldl_append]
    rfl

end Place

/-! ### The ends told so far -/

/-- At a place that was reached over chunks with the stray ends `strays`: a part was told its
end once if it is past, and once for each of its stray ends; and a part that is past heard
nothing after its end. -/
structure EndsSoFar (p : Place) (strays : List (ℕ × Delivery)) (arg : ReadMultipartArg) :
    Prop where
  count : ∀ k, (arg.received k).count none
    = (if p.Past k then 1 else 0) + strays.count (k, none)
  last : ∀ k, p.Past k → (arg.received k).getLast? = some none

section Run

variable {boundary : Bytes} {callbacks : List Bool} {heap : Bytes → ℕ → Byte}
variable {outside : Bytes → ℤ → Byte} {strays : List (ℕ × Delivery)}

namespace EndsSoFar

variable {arg arg' : ReadMultipartArg} {p q : Place}

/-- The prepared argument told no part anything. -/
theorem prepare (boundary : Bytes) (callbacks : List Bool) :
    EndsSoFar Place.start [] (prepareReadMultipart boundary callbacks) where
  count := fun _ => rfl
  last := fun _ h => absurd h (Nat.not_lt_zero _)

/-- What a part received after more calls. -/
theorem received_append {calls : List PartCall} (hcalls : arg'.calls = arg.calls ++ calls)
    (k : ℕ) : arg'.received k = arg.received k ++ toPart k (deliveries calls) := by
  rw [ReadMultipartArg.received, hcalls, deliveries_append]
  exact List.filterMap_append

/-- Nothing more was delivered, and no more parts are past. -/
theorem of_eq (h : EndsSoFar p strays arg) (hindex : q.partIndex = p.partIndex)
    (hcalls : deliveries arg'.calls = deliveries arg.calls) : EndsSoFar q strays arg' := by
  have hreceived : ∀ k, arg'.received k = arg.received k := fun k => by
    rw [ReadMultipartArg.received, hcalls, ReadMultipartArg.received]
  have hpast : ∀ k, q.Past k ↔ p.Past k := fun k => by rw [Place.Past, hindex, Place.Past]
  exact
    { count := fun k => by simp only [hreceived, hpast, h.count]
      last := fun k hk => by rw [hreceived, h.last k ((hpast k).mp hk)] }

/-- **The delimiter behind a body** tells its part the end. -/
theorem completed (h : EndsSoFar p strays arg) {n : ℕ} {bs : Bytes} (hh : p.inHeader = false)
    (hindex : arg.partIndex = p.partIndex)
    (hcalls : arg'.calls = arg.calls ++ dataCalls arg.partIndex (arg.completed bs)) :
    EndsSoFar (p.finish n) strays arg' := by
  have hpast : ∀ k, (p.finish n).Past k ↔ p.Past k ∨ p.partIndex = some k := by
    intro k
    rw [Place.finish, if_neg (by simp [hh]), Place.Past, Place.Past]
    cases p.partIndex with
    | none => simp [nextPart]
    | some j =>
        simp only [nextPart, Option.getD_some, Option.some.injEq]
        omega
  have hends : (heard (arg.completed bs)).count none = 1 := by
    rw [ReadMultipartArg.completed, heard_append, heard_append, List.count_append,
      List.count_append, count_heard_replayed, count_heard_nonempty, count_heard_singleton,
      if_pos rfl]
  have hcurrent : ∀ k, p.partIndex = some k → ¬ p.Past k := fun k hk => by simp [Place.Past, hk]
  constructor
  · intro k
    rw [received_append hcalls, List.count_append, h.count, toPart_dataCalls, hindex]
    by_cases hk : p.partIndex = some k
    · rw [if_pos hk, hends, if_neg (hcurrent k hk), if_pos ((hpast k).mpr (Or.inr hk))]
      omega
    · simp only [hpast, hk, or_false, if_false, List.count_nil, Nat.add_zero]
  · intro k hk
    rw [received_append hcalls, toPart_dataCalls, hindex]
    by_cases hcur : p.partIndex = some k
    · rw [if_pos hcur, ReadMultipartArg.completed, heard_append]
      rw [← List.append_assoc]
      exact List.getLast?_concat
    · rw [if_neg hcur, List.append_nil]
      exact h.last k (((hpast k).mp hk).resolve_right hcur)

end EndsSoFar

/-- **The end of a chunk in the middle of a body** is an end to its part exactly if the chunk
holds nothing of the body but a candidate delimiter. -/
theorem EndsSoFar.interrupted {arg arg' : ReadMultipartArg} {p : Place}
    (h : EndsSoFar p strays arg) (hstand : StandsAt boundary callbacks heap arg p) {bs : Bytes}
    (hne : bs ≠ []) (hh : p.inHeader = false)
    (hm : (Matcher.feed (p.delimiter boundary callbacks.length) p.matched bs).1
      < (p.delimiter boundary callbacks.length).length)
    (hcalls : arg'.calls = arg.calls ++
      dataCalls arg.partIndex (ReadMultipartArg.Wrapping.interrupted outside arg bs)) :
    EndsSoFar (p.read boundary callbacks.length bs).cut
      (strays ++ (p.read boundary callbacks.length bs).stray) arg' := by
  have hpos : 0 < bs.length := List.length_pos_iff.mpr hne
  have hread := (Place.read_open bs p hstand.matched_lt hm).1
  set m := (Matcher.feed (p.delimiter boundary callbacks.length) p.matched bs).1 with hmdef
  have hindex : (p.read boundary callbacks.length bs).cut.partIndex = p.partIndex := by
    rw [hread]
    rfl
  have hpast : ∀ k, (p.read boundary callbacks.length bs).cut.Past k ↔ p.Past k := fun k => by
    rw [Place.Past, hindex, Place.Past]
  have hends : (heard (ReadMultipartArg.Wrapping.interrupted outside arg bs)).count none
      = if bs.length = m then 1 else 0 := by
    have hnil : bytesAt outside bs 0 (sizeSub bs.length m) = [] ↔ bs.length = m := by
      rw [← List.length_eq_zero_iff, length_bytesAt, sizeSub_eq_zero]
    rw [ReadMultipartArg.Wrapping.interrupted, hstand.feed_eq, ← hmdef, heard_append,
      List.count_append, count_heard_replayed, count_heard_singleton, Nat.zero_add]
    simp only [hnil]
  have hstray : ∀ k, ((p.read boundary callbacks.length bs).stray).count (k, none)
      = if p.partIndex = some k ∧ bs.length = m then 1 else 0 := by
    intro k
    cases hi : p.partIndex with
    | none =>
        rw [Place.stray_none (by rw [hread]; exact hi)]
        simp
    | some j =>
        rw [Place.stray_some (by rw [hread]; exact hh) (by rw [hread]; exact hi), hread]
        simp only [hstand.piece, List.nil_append]
        by_cases hall : bs.length = m
        · rw [if_pos ⟨hall ▸ hpos, hall⟩]
          simp only [hall, and_true, List.count_singleton, beq_iff_eq, Prod.mk.injEq,
            Option.some.injEq]
        · rw [if_neg fun hboth => hall hboth.2, if_neg fun hboth => hall hboth.2]
          rfl
  constructor
  · intro k
    rw [EndsSoFar.received_append hcalls, List.count_append, h.count, toPart_dataCalls,
      hstand.partIndex, List.count_append, hstray]
    simp only [hpast]
    by_cases hk : p.partIndex = some k
    · simp only [hk, if_true, true_and, hends, Nat.add_assoc]
    · simp [hk]
  · intro k hk
    have hother : p.partIndex ≠ some k := fun hcur => by
      have := (hpast k).mp hk
      simp [Place.Past, hcur] at this
    rw [EndsSoFar.received_append hcalls, toPart_dataCalls, hstand.partIndex, if_neg hother,
      List.append_nil]
    exact h.last k ((hpast k).mp hk)

namespace StandsAt

/-- **A call** tells the parts their ends as the places say. -/
theorem loop_ends : ∀ (fuel : ℕ) {arg arg' : ReadMultipartArg} {p : Place}
    {result result' : Result} {bs : Bytes}, StandsAt boundary callbacks heap arg p →
    EndsSoFar p strays arg →
    ReadMultipartArg.Wrapping.loop heap outside fuel arg result bs = some (result', arg') →
    EndsSoFar (p.read boundary callbacks.length bs).cut
      (strays ++ (p.read boundary callbacks.length bs).stray) arg'
  | 0, _, _, _, _, _, _, _, _, hloop => by cases hloop
  | fuel + 1, arg, arg', p, result, result', bs, h, hends, hloop => by
      rw [ReadMultipartArg.Wrapping.loop] at hloop
      by_cases hnil : bs = []
      · rw [if_pos hnil] at hloop
        obtain ⟨-, rfl⟩ := Prod.mk.inj (Option.some.inj hloop)
        rw [hnil, Place.read_nil, Place.stray_of_piece h.piece, Place.cut_of_piece h.piece,
          List.append_nil]
        exact hends
      · rw [if_neg hnil] at hloop
        obtain ⟨⟨scanned, r, a⟩, hstep, hrest⟩ := Option.bind_eq_some_iff.mp hloop
        simp only at hrest
        obtain ⟨hscanned, hwithin, ⟨hm, -, hstand⟩ | ⟨hm, hall, hstand⟩⟩ := h.step_some hnil hstep
        · have hfinish : EndsSoFar (p.finish callbacks.length) strays a := by
            have hok : p.HeaderOk callbacks heap (bs.take
                (Matcher.feed (p.delimiter boundary callbacks.length) p.matched bs).2) := by
              by_contra hbad
              rw [h.step_closed_none hm fun hgood => hbad hgood.2] at hstep
              cases hstep
            obtain ⟨_, hstep', -, -, hheader, hbody⟩ := h.step_closed outside result hm hwithin hok
            obtain ⟨-, -, rfl⟩ : _ ∧ _ ∧ _ := by simpa using hstep'.symm.trans hstep
            cases hh : p.inHeader with
            | true =>
                refine hends.of_eq ?_ (hheader hh)
                rw [Place.finish, if_pos hh]
            | false => exact hends.completed hh h.partIndex (hbody hh).2
          have hlater := loop_ends fuel hstand hfinish hrest
          rw [hscanned, ← (Place.read_closed bs p h.matched_lt hm).1] at hlater
          exact hlater
        · obtain ⟨_, hstep', -, -, hcalls⟩ := h.step_open outside result hnil hm hwithin
          obtain ⟨-, -, rfl⟩ : _ ∧ _ ∧ _ := by simpa using hstep'.symm.trans hstep
          rw [hall, List.drop_length, ReadMultipartArg.Wrapping.loop_nil (by
            rcases fuel with _ | fuel
            · cases hrest
            · exact Nat.succ_pos fuel)] at hrest
          obtain ⟨-, rfl⟩ := Prod.mk.inj (Option.some.inj hrest)
          cases hh : p.inHeader with
          | true =>
              have hread := (Place.read_open bs p h.matched_lt hm).1
              rw [if_pos hh, List.append_nil] at hcalls
              rw [Place.stray_inHeader (by rw [hread]; exact hh), List.append_nil]
              exact hends.of_eq (by rw [hread]; rfl) (by rw [hcalls])
          | false =>
              rw [if_neg (by simp [hh])] at hcalls
              exact hends.interrupted h hnil hh hm hcalls

/-- The calls with readable chunks. -/
theorem feedReplies_some (outside : Bytes → ℤ → Byte) : ∀ {chunks : List Bytes}
    {arg : ReadMultipartArg} {p : Place} {strays : List (ℕ × Delivery)}, StandsAt boundary callbacks heap arg p →
    EndsSoFar p strays arg → p.AllReadable boundary callbacks heap chunks →
    ∃ arg', Wrapping.feedReplies heap outside arg chunks
        = some (p.replies boundary callbacks heap chunks, arg') ∧
      EndsSoFar (p.readChunks boundary callbacks chunks)
        (strays ++ p.strays boundary callbacks chunks) arg'
  | [], arg, p, strays, _, hends, _ => ⟨arg, rfl, by rw [Place.strays, List.append_nil]; exact hends⟩
  | c :: cs, arg, p, strays, h, hends, hr => by
      obtain ⟨arg', hloop, hstand⟩ :=
        h.loop_some outside (c.length + 1) .success (Nat.lt_succ_self _) hr.1
      obtain ⟨arg'', hfeed, hends'⟩ :=
        feedReplies_some outside hstand (h.loop_ends _ hends hloop) hr.2
      refine ⟨arg'', ?_, ?_⟩
      · rw [Wrapping.feedReplies, ReadMultipartArg.Wrapping.readMultipart, hloop]
        simp only [Option.bind_eq_bind, Option.bind_some, hfeed, Place.replies]
      · rw [Place.strays, ← List.append_assoc]
        exact hends'

/-- Chunks that are not readable have no defined behaviour. -/
theorem feedReplies_none : ∀ {chunks : List Bytes} {arg : ReadMultipartArg} {p : Place},
    StandsAt boundary callbacks heap arg p → ¬ p.AllReadable boundary callbacks heap chunks →
    Wrapping.feedReplies heap outside arg chunks = none
  | [], _, _, _, hbad => absurd trivial hbad
  | c :: cs, arg, p, h, hbad => by
      rw [Wrapping.feedReplies, ReadMultipartArg.Wrapping.readMultipart]
      by_cases hc : p.Readable boundary callbacks heap c
      · obtain ⟨arg', hloop, hstand⟩ :=
          h.loop_some outside (c.length + 1) .success (Nat.lt_succ_self _) hc
        rw [hloop]
        simp only [Option.bind_eq_bind, Option.bind_some,
          feedReplies_none hstand fun hrest => hbad ⟨hc, hrest⟩]
        rfl
      · rw [h.loop_none _ _ hc]
        rfl

end StandsAt

/-- The call without data at the end succeeds and changes nothing. -/
theorem feedReplies_end (heap : Bytes → ℕ → Byte) (outside : Bytes → ℤ → Byte) :
    ∀ (arg : ReadMultipartArg) (chunks : List Bytes),
    Wrapping.feedReplies heap outside arg (chunks ++ [[]])
      = (Wrapping.feedReplies heap outside arg chunks).map
        fun (replies, last) => (replies ++ [.success], last)
  | _, [] => rfl
  | arg, chunk :: chunks => by
      rw [List.cons_append, Wrapping.feedReplies, Wrapping.feedReplies]
      cases ReadMultipartArg.Wrapping.readMultipart heap outside arg chunk with
      | none => rfl
      | some called =>
          obtain ⟨reply, arg'⟩ := called
          simp only [Option.bind_eq_bind, Option.bind_some,
            feedReplies_end heap outside arg' chunks]
          cases Wrapping.feedReplies heap outside arg' chunks <;> rfl

end Run

/-! ### Every part is ended once -/

/-- The end of the part came exactly once, and last. -/
def EndsOnce (ds : List Delivery) : Prop :=
  ds.count none = 1 ∧ ds.getLast? = some none

section Ends

variable (heap : Bytes → ℕ → Byte) (outside : Bytes → ℤ → Byte) (boundary : Bytes)
variable (callbacks : List Bool)

/-- The message breaks off before one of its parts is complete. -/
def Truncated (numParts : ℕ) (message : Bytes) : Prop :=
  ∃ k < numParts, ¬ (Place.start.read boundary numParts message).Past k

instance (numParts : ℕ) (message : Bytes) : Decidable (Truncated boundary numParts message) :=
  inferInstanceAs (Decidable (∃ k < numParts, _))

/-- Fed chunk by chunk and then told the end of the message, the calls come back: if every
one of them succeeds, every part is ended exactly once and last; and if the message breaks
off, a call fails. -/
def EndsParts (chunks : List Bytes) : Prop :=
  ∃ replies arg, Wrapping.feedReplies heap outside (prepareReadMultipart boundary callbacks)
      (chunks ++ [[]]) = some (replies, arg) ∧
    ((∀ reply ∈ replies, reply = .success) →
      ∀ k < callbacks.length, EndsOnce (arg.received k)) ∧
    (Truncated boundary callbacks.length chunks.flatten → ∃ reply ∈ replies, reply ≠ .success)

variable {heap outside boundary callbacks}

/-- The ends of a whole message: every part is ended once and last exactly if there are no
stray ends. -/
theorem endsOnce_iff {chunks : List Bytes} {arg : ReadMultipartArg}
    (hr : Place.start.AllReadable boundary callbacks heap chunks)
    (hends : EndsSoFar (Place.start.readChunks boundary callbacks chunks)
      (Place.start.strays boundary callbacks chunks) arg)
    (hwhole : ¬ Truncated boundary callbacks.length chunks.flatten) :
    (∀ k < callbacks.length, EndsOnce (arg.received k)) ↔
      Place.start.strays boundary callbacks chunks = [] := by
  have hpast : ∀ k < callbacks.length,
      (Place.start.readChunks boundary callbacks chunks).Past k := fun k hk => by
    by_contra hnot
    exact hwhole ⟨k, hk, fun h => hnot ((Place.past_readChunks chunks _ k).mpr h)⟩
  constructor
  · intro honce
    rw [List.eq_nil_iff_forall_not_mem]
    rintro ⟨k, delivery⟩ hmem
    obtain ⟨hk, rfl⟩ := Place.mem_strays rfl hr hmem
    have hcount := hends.count k
    rw [(honce k hk).1, if_pos (hpast k hk)] at hcount
    have hpos := List.count_pos_iff.mpr hmem
    omega
  · intro hnone k hk
    refine ⟨?_, hends.last k (hpast k hk)⟩
    rw [hends.count, if_pos (hpast k hk), hnone]
    rfl

/-- Two parts, cut inside the first delimiter after the header and inside a body. -/
def twoParts : List Bytes :=
  [bytes "--b\r\nA: 1\r\n\r\nx\r", bytes "\n--b\r\nB: 2\r\n\r\ny", bytes "z\r\n--b--\r\n"]

/-- A message with one part that breaks off inside the body. -/
def brokenOff : List Bytes :=
  [bytes "--b\r\nA: 1\r\n\r\n", bytes "x"]

end Ends

end DsiRest
