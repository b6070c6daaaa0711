import DsiRest.HeaderBuffer
import DsiRest.MultipartRange
import DsiRest.PartErrors

/-!
# Header Blocks in Pieces

The header block of a part may be cut by the ends of chunks. What its response callback
then gets depends on the cuts: a second piece is copied over the first one. From the head
of an iteration at which a block begins, `LoopHead.HandsOver` says which headers the first
callback invocation hands over, and what `header_buffer` holds at that moment.

## Main results

* `LoopHead.handsOver_iff` — the headers are those parsed from the buffer that the pieces
  leave behind.
* `LoopHead.headerBlock_cut_iff` — the headers and the buffer do not depend on the cuts if
  and only if there are none.
-/

namespace DsiRest

/-- The chunks that a block arrives in: bytes behind it arrive with its last piece. -/
def withRest : List Bytes → Bytes → List Bytes
  | [], rest => [rest]
  | [piece], rest => [piece ++ rest]
  | piece :: pieces, rest => piece :: withRest pieces rest

/-- The reader is at the first byte of the header block of part `k`. -/
structure ReadMultipartArg.AtBlock (arg : ReadMultipartArg) (k : ℕ) : Prop where
  needHeader : arg.needHeader = true
  partIndex : arg.partIndex = some k
  matchCounter : arg.matchCounter = 0
  headerBufferOffset : arg.headerBufferOffset = 0

/-- An iteration outside a header block passes something on, if only a buffer without data. -/
theorem Place.passed_ne_nil {boundary : Bytes} {callbacks : List Bool}
    {outside : Bytes → ℤ → Byte} {saved : Bytes} (p : Place) (bs : Bytes) :
    passed boundary callbacks outside saved p bs ≠ [] := by
  rw [passed]
  simp only
  refine List.append_ne_nil_of_right_ne_nil _ ?_
  split <;> simp

namespace LoopHead

/-- The head with other bytes to come: those left of its chunk, and later chunks. -/
def onto (h : LoopHead) (chunks : List Bytes) : LoopHead :=
  { h with buffer := chunks.headD [], later := chunks.tail }

/-- The first callback invocation from the head on is that of part `k`'s response callback
with the given headers, and `header_buffer` holds `memory` then. -/
def HandsOver (heap : Bytes → ℕ → Byte) (h : LoopHead) (k : ℕ) (headers : KeyArray)
    (memory : Bytes) : Prop :=
  ∃ h', Reaches heap h h' ∧ h'.arg.calls = h.arg.calls ++ [.response k headers] ∧
    h'.arg.headerBuffer = memory

variable {boundary : Bytes} {callbacks : List Bool} {heap : Bytes → ℕ → Byte} {h h' : LoopHead}

/-! ### Invocations over a run -/

/-- What holds at the head of every iteration: the state stands at a place, and the parts
whose block is still to be read have no headers. -/
def Stands (boundary : Bytes) (callbacks : List Bool) (heap : Bytes → ℕ → Byte)
    (h : LoopHead) : Prop :=
  ∃ p, Standing boundary callbacks heap h.arg p ∧ Fresh h.arg p

/-- The next iteration. -/
theorem Stands.next (hs : Stands boundary callbacks heap h) (hnext : h.next heap = some h') :
    Stands boundary callbacks heap h' := by
  obtain ⟨p, hp, hfresh⟩ := hs
  rw [LoopHead.next] at hnext
  split at hnext
  · split at hnext
    · cases hnext
    · obtain rfl := Option.some.inj hnext
      exact ⟨p, hp, hfresh⟩
  · rename_i hne
    obtain ⟨⟨scanned, result', arg'⟩, hstep, rfl⟩ := Option.map_eq_some_iff.mp hnext
    have hstands := StandsAt.of_standing hp
    have hwrapping := ReadMultipartArg.Wrapping.step_of_step (fun _ _ => 0) hstep
    rcases hp.step_some hne hstep with ⟨-, -, hstand⟩ | ⟨hm, -, -, hstand⟩
    · exact ⟨_, hstand, hfresh.step_closed hstands hne hwrapping⟩
    · exact ⟨_, hstand, hfresh.step_open hstands hne hwrapping hm⟩

/-- Every head that the prepared reader comes to. -/
theorem stands_of_reaches {chunk : Bytes} {later : List Bytes}
    (hreach : Reaches heap (enter (prepareReadMultipart boundary callbacks) chunk later) h) :
    Stands boundary callbacks heap h :=
  hreach.invariant (fun _ _ hs hnext => hs.next hnext)
    ⟨_, Standing.prepare, Fresh.prepare boundary callbacks⟩

/-- The invocations of an iteration. Outside a header block there is at least one, if there
is a part. -/
theorem Stands.calls_next (hs : Stands boundary callbacks heap h) (hnext : h.next heap = some h') :
    (h.buffer = [] ∧ h'.arg = h.arg) ∨
    ∃ calls, h'.arg.calls = h.arg.calls ++ calls ∧
      (h.arg.needHeader = false → h.arg.partIndex ≠ none → calls ≠ []) := by
  obtain ⟨p, hp, -⟩ := hs
  rw [LoopHead.next] at hnext
  split at hnext
  · rename_i hnil
    split at hnext
    · cases hnext
    · obtain rfl := Option.some.inj hnext
      exact Or.inl ⟨hnil, rfl⟩
  · rename_i hne
    obtain ⟨⟨scanned, result', arg'⟩, hstep, rfl⟩ := Option.map_eq_some_iff.mp hnext
    refine Or.inr ?_
    rcases (StandsAt.of_standing hp).step_inv hne
      (ReadMultipartArg.Wrapping.step_of_step (fun _ _ => 0) hstep) with
      ⟨-, -, hcalls⟩ | ⟨hh, k, part, hk, -, hheader⟩
    · refine ⟨_, hcalls, fun _ hpart => ?_⟩
      obtain ⟨k, hk⟩ := Option.ne_none_iff_exists'.mp (hp.partIndex ▸ hpart)
      rw [hk, dataCalls_some, Ne, List.map_eq_nil_iff]
      exact Place.passed_ne_nil p h.buffer
    · have hout : h.arg.needHeader ≠ false := by
        rw [hp.needHeader, hh]
        decide
      rcases hheader with ⟨-, -, hcalls⟩ | ⟨-, -, r, headers, -, -, hcalls⟩
      · exact ⟨[], by simp [hcalls], fun hfalse => absurd hfalse hout⟩
      · exact ⟨_, hcalls, fun hfalse => absurd hfalse hout⟩

/-- **Invocations are never taken back.** As long as there are no new ones, a reader that is
outside a header block leaves `header_buffer` alone. -/
theorem Stands.calls_reaches (hs : Stands boundary callbacks heap h) (hreach : Reaches heap h h') :
    ∃ calls, h'.arg.calls = h.arg.calls ++ calls ∧
      (h.arg.needHeader = false → h.arg.partIndex ≠ none → calls = [] →
        h'.arg.headerBuffer = h.arg.headerBuffer) := by
  induction hreach using Relation.ReflTransGen.head_induction_on with
  | refl => exact ⟨[], by simp, fun _ _ _ => rfl⟩
  | head hnext _ ih =>
      obtain ⟨later, hlater, hsame⟩ := ih (hs.next hnext)
      rcases hs.calls_next hnext with ⟨-, harg⟩ | ⟨calls, hcalls, hsome⟩
      · rw [harg] at hlater hsame
        exact ⟨later, hlater, hsame⟩
      · refine ⟨calls ++ later, by rw [hlater, hcalls, List.append_assoc], fun hh hpart hnil => ?_⟩
        exact absurd (List.append_eq_nil_iff.mp hnil).1 (hsome hh hpart)

/-- An iteration without invocations comes before the first one. -/
theorem handsOver_next {k : ℕ} {headers : KeyArray} {memory : Bytes}
    (hnext : h.next heap = some h') (hcalls : h'.arg.calls = h.arg.calls) :
    HandsOver heap h k headers memory ↔ HandsOver heap h' k headers memory := by
  constructor
  · rintro ⟨last, hreach, hlast, hmemory⟩
    rcases Relation.ReflTransGen.cases_head hreach with rfl | ⟨h₁, hnext₁, hreach⟩
    · exact absurd hlast (by simp)
    · obtain rfl := Option.some.inj (hnext.symm.trans hnext₁)
      exact ⟨last, hreach, by rw [hlast, hcalls], hmemory⟩
  · rintro ⟨last, hreach, hlast, hmemory⟩
    exact ⟨last, Relation.ReflTransGen.head hnext hreach, by rw [hlast, hcalls], hmemory⟩

/-- An iteration that invokes a response callback first hands over the headers that it
invokes it with, and nothing else comes first. -/
theorem handsOver_response (hs : Stands boundary callbacks heap h) {k : ℕ} {headers : KeyArray}
    {memory : Bytes} {found : KeyArray} (hnext : h.next heap = some h')
    (hcalls : h'.arg.calls = h.arg.calls ++ [.response k found])
    (hh : h'.arg.needHeader = false) (hpart : h'.arg.partIndex ≠ none) :
    HandsOver heap h k headers memory ↔ found = headers ∧ h'.arg.headerBuffer = memory := by
  constructor
  · rintro ⟨last, hreach, hlast, rfl⟩
    rcases Relation.ReflTransGen.cases_head hreach with rfl | ⟨h₁, hnext₁, hreach⟩
    · exact absurd hlast (by simp)
    · obtain rfl := Option.some.inj (hnext.symm.trans hnext₁)
      obtain ⟨more, hmore, hsame⟩ := (hs.next hnext).calls_reaches hreach
      rw [hlast, hcalls, List.append_assoc, List.append_cancel_left_eq] at hmore
      obtain ⟨hfound, hnil⟩ := List.cons.inj hmore
      have hheaders : headers = found := by simpa using hfound
      exact ⟨hheaders.symm, (hsame hh hpart hnil.symm).symm⟩
  · rintro ⟨rfl, rfl⟩
    exact ⟨h', Relation.ReflTransGen.single hnext, hcalls, rfl⟩

/-- An iteration without defined behaviour hands over nothing. -/
theorem not_handsOver {k : ℕ} {headers : KeyArray} {memory : Bytes}
    (hnext : h.next heap = none) : ¬ HandsOver heap h k headers memory := by
  rintro ⟨last, hreach, hlast, -⟩
  rcases Relation.ReflTransGen.cases_head hreach with rfl | ⟨h₁, hnext₁, -⟩
  · exact absurd hlast (by simp)
  · rw [hnext] at hnext₁
    cases hnext₁

/-! ### A block in pieces -/

/-- The state at the first byte of a block, as one that stands at a place. -/
theorem standing_atBlock {arg : ReadMultipartArg} {p : Place} {k : ℕ}
    (hp : Standing boundary callbacks heap arg p) (hfresh : Fresh arg p) (hat : arg.AtBlock k)
    (heap' : Bytes → ℕ → Byte) :
    Standing boundary callbacks heap' arg ⟨some k, true, 0, [], []⟩ ∧
      Fresh arg ⟨some k, true, 0, [], []⟩ := by
  have hh : p.inHeader = true := hp.needHeader.symm.trans hat.needHeader
  have hk : p.partIndex = some k := hp.partIndex.symm.trans hat.partIndex
  constructor
  · exact
      { boundary := hp.boundary
        callbacks := hp.callbacks
        partIndex := hat.partIndex
        needHeader := hat.needHeader
        matchCounter := hat.matchCounter
        piece := rfl
        ready := hp.ready
        offset := hat.headerBufferOffset
        block := fun _ hne => absurd rfl hne }
  · refine hfresh.mono (q := ⟨some k, true, 0, [], []⟩) ?_ fun _ _ => rfl
    rw [Place.nextBlock, Place.nextBlock, if_pos hh, hk]
    rfl

/-- **The last piece of a block.** The headers that are handed over are those parsed from
the buffer. -/
theorem handsOver_last {k m : ℕ} {earlier : List Bytes} {last rest : Bytes}
    {following : List Bytes}
    (hp : Standing boundary callbacks heap h.arg ⟨some k, true, m, earlier, []⟩)
    (hfresh : Fresh h.arg ⟨some k, true, m, earlier, []⟩) (hwants : callbacks[k]? = some true)
    (hlast : last ≠ [])
    (hfeed : Matcher.feed (bytes "\r\n\r\n") m (last ++ rest) = (4, last.length))
    {headers : KeyArray} {memory : Bytes} :
    HandsOver heap (h.onto ((last ++ rest) :: following)) k headers memory ↔
      Place.blockHeaders heap (earlier ++ [last]) = some headers ∧
        (Place.headerBlock heap (earlier ++ [last])).1 = memory := by
  set p : Place := ⟨some k, true, m, earlier, []⟩
  obtain ⟨k', hk', hlt⟩ := hp.ready.header hp.needHeader
  obtain rfl : k = k' := Option.some.inj (hp.partIndex.symm.trans hk')
  have hpart : h.arg.parts[k]? = some h.arg.parts[k] := List.getElem?_eq_getElem hlt
  have hwanted : h.arg.parts[k].responseCallback = true :=
    Option.some.inj ((hp.wants_eq hk' hpart).symm.trans hwants)
  have hempty : h.arg.parts[k].headers = HeaderList.empty := hfresh k _ (Nat.le_refl _) hpart
  have hne : last ++ rest ≠ [] := List.append_ne_nil_of_left_ne_nil hlast _
  have hm : (Matcher.feed (p.delimiter boundary callbacks.length) p.matched (last ++ rest)).1
      = (p.delimiter boundary callbacks.length).length := congrArg Prod.fst hfeed
  have hscanned : (Matcher.feed (p.delimiter boundary callbacks.length) p.matched
      (last ++ rest)).2 = last.length := congrArg Prod.snd hfeed
  have hstep := hp.step_block h.result rfl rfl hpart hm
  simp only [if_pos hwanted, hempty, hscanned, List.take_left] at hstep
  have hsnd := snd_parseHeaderLines [] (cstr (Place.headerBlock heap (earlier ++ [last])).1)
    .success h.result HeaderList.empty
  set found := (Place.headerBlock heap (earlier ++ [last])).1
  set head := h.onto ((last ++ rest) :: following)
  have hstands : Stands boundary callbacks heap head := ⟨p, hp, hfresh⟩
  have hheaders : Place.blockHeaders heap (earlier ++ [last])
      = (parseHeaderLines [] (cstr found) h.result HeaderList.empty).map (·.2.entries) := by
    have hentries := congrArg (Option.map HeaderList.entries) hsnd
    rw [Option.map_map, Option.map_map] at hentries
    exact hentries
  rw [hheaders]
  cases hparse : parseHeaderLines [] (cstr found) h.result HeaderList.empty with
  | none =>
      rw [hparse] at hstep
      exact iff_of_false (not_handsOver (next_of_step_none (h := head) hne hstep)) (by simp)
  | some parsed =>
      rw [hparse] at hstep
      have hnext := next_of_step (h := head) hne hstep
      rw [handsOver_response hstands hnext rfl rfl
        (ne_of_eq_of_ne hk' (Option.some_ne_none k))]
      simp only [Option.map_some, Option.some.injEq]

/-- **A block in pieces.** The headers that are handed over are those parsed from the buffer
that the pieces leave behind. -/
theorem handsOver_pieces {k : ℕ} (hwants : callbacks[k]? = some true) {rest : Bytes}
    {following : List Bytes} {headers : KeyArray} {memory : Bytes} :
    ∀ {pieces : List Bytes} {h : LoopHead} {m : ℕ} {earlier : List Bytes},
    Standing boundary callbacks heap h.arg ⟨some k, true, m, earlier, []⟩ →
    Fresh h.arg ⟨some k, true, m, earlier, []⟩ →
    pieces ≠ [] → (∀ piece ∈ pieces, piece ≠ []) →
    (∀ rest, Matcher.feed (bytes "\r\n\r\n") m (pieces.flatten ++ rest)
      = (4, pieces.flatten.length)) →
    (HandsOver heap (h.onto (withRest pieces rest ++ following)) k headers memory ↔
      Place.blockHeaders heap (earlier ++ pieces) = some headers ∧
        (Place.headerBlock heap (earlier ++ pieces)).1 = memory)
  | [], _, _, _, _, _, hne, _, _ => absurd rfl hne
  | [last], h, m, earlier, hp, hfresh, _, hpieces, hfeed => by
      have hend := hfeed rest
      rw [List.flatten_singleton] at hend
      exact handsOver_last hp hfresh hwants (hpieces last List.mem_cons_self) hend
  | piece :: second :: more, h, m, earlier, hp, hfresh, _, hpieces, hfeed => by
      obtain ⟨hpiece, hlater⟩ := List.forall_mem_cons.mp hpieces
      have hrest : (second :: more).flatten ≠ [] := by
        rw [List.flatten_cons]
        exact List.append_ne_nil_of_left_ne_nil (hlater second List.mem_cons_self) _
      have hsplit : ∀ rest, Matcher.feed (bytes "\r\n\r\n") m
          (piece ++ (second :: more).flatten ++ rest)
          = (4, (piece ++ (second :: more).flatten).length) := hfeed
      obtain ⟨hopen, hfeed'⟩ := Matcher.feed_of_append hp.matched_lt hrest hsplit
      obtain ⟨arg', hstep, hparts, hcalls, hstand⟩ := hp.step_piece h.result rfl hopen
      have hfresh' := hfresh.mono (Nat.le_refl _) fun _ _ => congrArg (·[_]?) hparts
      obtain ⟨c, cs, hcs⟩ : ∃ c cs, withRest (second :: more) rest ++ following = c :: cs := by
        cases more with
        | nil => exact ⟨_, _, rfl⟩
        | cons third more => exact ⟨_, _, rfl⟩
      set head := h.onto (withRest (piece :: second :: more) rest ++ following) with hhead
      have hnext := next_of_step (h := head) hpiece hstep
      have hcall := @next_call heap
        ⟨arg', h.result, head.chunk, piece.drop piece.length, head.iterations + 1,
          withRest (second :: more) rest ++ following⟩ c cs List.drop_length hcs
      have ih := @handsOver_pieces k hwants rest following headers memory (second :: more)
        (enter arg' c cs) _ _ hstand hfresh' (List.cons_ne_nil _ _) hlater hfeed'
      rw [hcs, List.append_assoc] at ih
      exact (handsOver_next hnext hcalls).trans ((handsOver_next hcall rfl).trans ih)

/-! ### Cuts -/

/-- The response callback of part `k` gets the headers that it gets where the block arrives
in one chunk, whatever the heap holds and whatever follows the block. -/
def SameHeaders (h : LoopHead) (k : ℕ) (pieces : List Bytes) : Prop :=
  ∀ heap rest following headers,
    (∃ memory, HandsOver heap (h.onto (withRest [pieces.flatten] rest ++ following)) k headers
      memory) →
    ∃ memory, HandsOver heap (h.onto (withRest pieces rest ++ following)) k headers memory

/-- When the terminator is found, `header_buffer` holds exactly the bytes received since the
delimiter. -/
def ExactBuffer (heap : Bytes → ℕ → Byte) (h : LoopHead) (k : ℕ) (pieces : List Bytes)
    (rest : Bytes) (following : List Bytes) : Prop :=
  ∃ headers, HandsOver heap (h.onto (withRest pieces rest ++ following)) k headers
    (pieces.flatten ++ [0])

/-- The delimiter at the start of a message is followed by the block of the first part. -/
theorem reaches_block (heap : Bytes → ℕ → Byte) (boundary : Bytes) {callbacks : List Bool}
    (hparts : callbacks ≠ []) (rest : Bytes) (later : List Bytes) :
    ∃ h, Reaches heap (enter (prepareReadMultipart boundary callbacks)
        (bytes "--" ++ boundary ++ bytes "\r\n" ++ rest) later) h ∧
      h.arg.AtBlock 0 ∧ h.buffer = rest ∧ h.later = later := by
  have hstand : Standing boundary callbacks heap (prepareReadMultipart boundary callbacks)
      Place.start := Standing.prepare
  set d := bytes "--" ++ boundary ++ bytes "\r\n"
  have hfeed : Matcher.feed d 0 (d ++ rest) = (d.length, d.length) :=
    Matcher.feed_drop rest d.length 0 (Nat.zero_add _)
  have hne : d ++ rest ≠ [] := List.append_ne_nil_of_left_ne_nil
    (List.append_ne_nil_of_right_ne_nil _ (by decide)) _
  have hstep := @ReadMultipartArg.Ready.step_complete _ heap .success (d ++ rest) hstand.ready rfl
    (fun k hk => absurd hk (by simp [prepareReadMultipart])) (congrArg Prod.fst hfeed)
  have hnext := next_of_step
    (h := enter (prepareReadMultipart boundary callbacks) (d ++ rest) later) hne hstep
  have hscanned : (Matcher.feed (prepareReadMultipart boundary callbacks).delimiter
      (prepareReadMultipart boundary callbacks).matchCounter (d ++ rest)).2 = d.length :=
    congrArg Prod.snd hfeed
  refine ⟨_, Relation.ReflTransGen.single hnext, ?_, ?_, rfl⟩
  · exact
      { needHeader := by
          simp only [decide_eq_true_eq, hstand.numParts]
          exact List.length_pos_iff.mpr hparts
        partIndex := rfl
        matchCounter := rfl
        headerBufferOffset := rfl }
  · simp only [hscanned]
    exact List.drop_left

/-- The headers that a cut block hands over are those parsed from the buffer. -/
theorem handsOver_iff {chunk : Bytes} {later : List Bytes} {k : ℕ}
    (hreach : Reaches heap (enter (prepareReadMultipart boundary callbacks) chunk later) h)
    (hat : h.arg.AtBlock k) (hwants : callbacks[k]? = some true) {fields : List PartField}
    (hfields : fields ≠ []) {pieces : List Bytes} (hpieces : ∀ piece ∈ pieces, piece ≠ [])
    (hcut : pieces.flatten = blockOf fields) (heap' : Bytes → ℕ → Byte) (rest : Bytes)
    (following : List Bytes) (headers : KeyArray) (memory : Bytes) :
    HandsOver heap' (h.onto (withRest pieces rest ++ following)) k headers memory ↔
      Place.blockHeaders heap' pieces = some headers ∧
        (Place.headerBlock heap' pieces).1 = memory := by
  obtain ⟨p, hp, hfresh⟩ := stands_of_reaches hreach
  obtain ⟨hstand, hfresh'⟩ := standing_atBlock hp hfresh hat heap'
  have hne : pieces ≠ [] := by
    rintro rfl
    obtain ⟨text, htext, -⟩ := blockOf_eq_append hfields
    rw [htext] at hcut
    exact List.append_ne_nil_of_right_ne_nil _ (by decide) hcut.symm
  exact handsOver_pieces hwants hstand hfresh' hne hpieces fun rest => by
    rw [hcut]
    exact feed_blockOf hfields rest

/-- A block that is not cut hands over its headers. -/
theorem handsOver_whole {chunk : Bytes} {later : List Bytes} {k : ℕ}
    (hreach : Reaches heap (enter (prepareReadMultipart boundary callbacks) chunk later) h)
    (hat : h.arg.AtBlock k) (hwants : callbacks[k]? = some true) {fields : List PartField}
    (hfields : fields ≠ []) (heap' : Bytes → ℕ → Byte) (rest : Bytes)
    (following : List Bytes) (headers : KeyArray) :
    (∃ memory, HandsOver heap' (h.onto (withRest [blockOf fields] rest ++ following)) k headers
      memory) ↔ headers = fields.map PartField.pair := by
  have hone : ∀ piece ∈ [blockOf fields], piece ≠ [] := by
    intro piece hpiece
    rw [List.mem_singleton.mp hpiece]
    exact blockOf_ne_nil fields
  have hiff := handsOver_iff hreach hat hwants hfields hone List.flatten_singleton heap' rest
    following headers
  rw [Place.blockHeaders_block] at hiff
  constructor
  · rintro ⟨memory, hgiven⟩
    exact (Option.some.inj ((hiff memory).mp hgiven).1).symm
  · rintro rfl
    exact ⟨_, (hiff _).mpr ⟨rfl, rfl⟩⟩

/-- **When part headers do not depend on the cuts.** At every head of the chunk loop at
which a header block begins, for every block of header lines and every cut of it into
pieces: the response callback gets the same headers as from one chunk if and only if the
block is not cut, and so for the buffer, whatever the heap holds. -/
theorem headerBlock_cut_iff {chunk : Bytes} {later : List Bytes} {k : ℕ}
    (hreach : Reaches heap (enter (prepareReadMultipart boundary callbacks) chunk later) h)
    (hat : h.arg.AtBlock k) (hwants : callbacks[k]? = some true) {fields : List PartField}
    (hfields : fields ≠ []) {pieces : List Bytes} (hpieces : ∀ piece ∈ pieces, piece ≠ [])
    (hcut : pieces.flatten = blockOf fields) :
    (SameHeaders h k pieces ↔ pieces.length = 1) ∧
      ∀ heap' rest following,
        ExactBuffer heap' h k pieces rest following ↔ pieces.length = 1 := by
  have hiff := handsOver_iff hreach hat hwants hfields hpieces hcut
  have hheaders := Place.blockHeaders_eq_iff hfields hpieces hcut
  constructor
  · rw [← hheaders, SameHeaders, hcut]
    simp only [handsOver_whole hreach hat hwants hfields, hiff]
    constructor
    · intro hsame heap'
      obtain ⟨memory, hparsed, -⟩ := hsame heap' [] [] _ rfl
      exact hparsed
    · rintro hparsed heap' rest following headers rfl
      exact ⟨_, hparsed heap', rfl⟩
  · intro heap' rest following
    have hbuffer := Place.headerBlock_eq_iff heap' hfields hpieces hcut
    rw [ExactBuffer, hcut]
    simp only [hiff]
    constructor
    · rintro ⟨headers, -, hmemory⟩
      exact hbuffer.mp hmemory
    · intro hlen
      exact ⟨_, hheaders.mpr hlen heap', hbuffer.mpr hlen⟩

/-- A space pads. -/
theorem space_blank : ∀ b ∈ [space], b = space ∨ b = tab := by simp

/-- The line `A: 1`. -/
def lineA : PartField where
  name := [65]
  padding := [space]
  value := [49]
  nameNonempty := List.cons_ne_nil _ _
  nameStart := by decide +kernel
  nameColon := by decide +kernel
  nameCr := by decide +kernel
  nameNul := by decide +kernel
  paddingSpace := space_blank
  valueNonempty := List.cons_ne_nil _ _
  valueStart := by decide +kernel
  valueCr := by decide +kernel
  valueNul := by decide +kernel

/-- A block of one line, in one chunk. -/
theorem headerBlock_cut_iff_whole :
    ∃ h, Reaches (fun _ _ => 0)
        (enter (prepareReadMultipart (bytes "b") [true]) (bytes "--b\r\nA: 1\r\n\r\n") []) h ∧
      SameHeaders h 0 [bytes "A: 1\r\n\r\n"] := by
  obtain ⟨h, hreach, hat, -⟩ := reaches_block (fun _ _ => 0) (bytes "b")
    (List.cons_ne_nil true []) (bytes "A: 1\r\n\r\n") []
  have hchunk : bytes "--b\r\nA: 1\r\n\r\n"
      = bytes "--" ++ bytes "b" ++ bytes "\r\n" ++ bytes "A: 1\r\n\r\n" := by decide +kernel
  rw [← hchunk] at hreach
  have hpieces : ∀ piece ∈ [bytes "A: 1\r\n\r\n"], piece ≠ [] := by decide +kernel
  have hcut : [bytes "A: 1\r\n\r\n"].flatten = blockOf [lineA] := by decide +kernel
  exact ⟨h, hreach, (headerBlock_cut_iff hreach hat rfl (List.cons_ne_nil _ _) hpieces
    hcut).1.mpr rfl⟩

/-- The same block, cut behind its first byte: what is parsed has no header. -/
theorem headers_lost :
    ∃ h, Reaches (fun _ _ => 0)
        (enter (prepareReadMultipart (bytes "b") [true]) (bytes "--b\r\nA")
          [bytes ": 1\r\n\r\n"]) h ∧
      h.arg.AtBlock 0 ∧ h.buffer = bytes "A" ∧ h.later = [bytes ": 1\r\n\r\n"] ∧
      ¬ SameHeaders h 0 [bytes "A", bytes ": 1\r\n\r\n"] ∧
      ¬ ExactBuffer (fun _ _ => 0) h 0 [bytes "A", bytes ": 1\r\n\r\n"] [] [] := by
  obtain ⟨h, hreach, hat, hbuffer, hlater⟩ := reaches_block (fun _ _ => 0) (bytes "b")
    (List.cons_ne_nil true []) (bytes "A") [bytes ": 1\r\n\r\n"]
  have hchunk : bytes "--b\r\nA" = bytes "--" ++ bytes "b" ++ bytes "\r\n" ++ bytes "A" := by
    decide +kernel
  rw [← hchunk] at hreach
  have hpieces : ∀ piece ∈ [bytes "A", bytes ": 1\r\n\r\n"], piece ≠ [] := by decide +kernel
  have hcut : [bytes "A", bytes ": 1\r\n\r\n"].flatten = blockOf [lineA] := by decide +kernel
  have hiff := handsOver_iff hreach hat rfl (List.cons_ne_nil _ _) hpieces hcut (fun _ _ => 0)
    [] []
  have hnone : Place.blockHeaders (fun _ _ => 0) [bytes "A", bytes ": 1\r\n\r\n"] = some [] := by
    decide +kernel
  have hmemory : (Place.headerBlock (fun _ _ => 0) [bytes "A", bytes ": 1\r\n\r\n"]).1
      ≠ [bytes "A", bytes ": 1\r\n\r\n"].flatten ++ [0] := by decide +kernel
  refine ⟨h, hreach, hat, hbuffer, hlater, ?_, ?_⟩
  · intro hsame
    have hgiven := hsame (fun _ _ => 0) [] [] [lineA.pair]
      (by
        rw [hcut, handsOver_whole hreach hat rfl (List.cons_ne_nil _ _)]
        rfl)
    obtain ⟨memory, hgiven⟩ := hgiven
    have hparsed := ((hiff _ _).mp hgiven).1
    rw [hnone] at hparsed
    exact absurd (Option.some.inj hparsed) (List.cons_ne_nil _ _).symm
  · rintro ⟨headers, hgiven⟩
    exact hmemory ((hiff _ _).mp hgiven).2

end LoopHead

end DsiRest
