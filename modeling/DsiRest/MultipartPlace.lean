import DsiRest.ReadMultipart

/-!
# Places in a Multipart Message

What a byte of a multipart message means depends on the bytes before it only through the
`Place` they lead to: the section it belongs to (the preface, the headers or the body of a
part), the length of the candidate delimiter the section ends in so far, and the bytes of
the section, cut into the pieces that arrived in different chunks. `Place.next` reads one
byte and `Place.cut` marks the end of a chunk; nothing here knows of the reader's buffers
and counters.

`Place.out` is what a body's bytes mean to its part: the bytes that no longer can belong
to a delimiter, and the end of the part. Since `Place.next` and `Place.out` do not look at
the pieces, they do not depend on the cuts (`Place.read_sameSection`).

## Main results

* `Place.read_open`, `Place.read_closed` — reading up to the end of a section, in terms of
  the matcher.
* `Place.SameSection.read`, `Place.SameSection.out` — cuts change neither the section nor
  the output.
-/

namespace DsiRest

/-- What a part's data read callback receives: a byte, or the end of the part. -/
abbrev Delivery := Option Byte

/-- A place in a multipart message. `earlier` holds the pieces of the current section that
arrived in earlier chunks, `piece` the bytes of it that arrived in the current one. -/
structure Place where
  partIndex : Option ℕ
  inHeader : Bool
  matched : ℕ
  earlier : List Bytes
  piece : Bytes
  deriving DecidableEq, Repr

namespace Place

/-- The start of a message. -/
def start : Place :=
  ⟨none, false, 0, [], []⟩

variable (boundary : Bytes) (numParts : ℕ)

/-- The delimiter that ends the section. -/
def delimiter (p : Place) : Bytes :=
  delimiterText boundary numParts p.partIndex p.inHeader

/-- The start of the section that follows. -/
def finish (p : Place) : Place :=
  if p.inHeader then ⟨p.partIndex, false, 0, [], []⟩
  else ⟨some (nextPart p.partIndex), decide (nextPart p.partIndex < numParts), 0, [], []⟩

/-- Read one byte. -/
def next (p : Place) (b : Byte) : Place :=
  if Matcher.advance (p.delimiter boundary numParts) p.matched b
      = (p.delimiter boundary numParts).length then p.finish numParts
  else { p with
    matched := Matcher.advance (p.delimiter boundary numParts) p.matched b
    piece := p.piece ++ [b] }

/-- Read a chunk. -/
def read (p : Place) (chunk : Bytes) : Place :=
  chunk.foldl (next boundary numParts) p

/-- The end of a chunk. -/
def cut (p : Place) : Place :=
  { p with earlier := p.earlier ++ nonempty p.piece, piece := [] }

/-- The deliveries to the current part for the bytes `released` of its body. -/
def emit (p : Place) (released : Bytes) (ended : Bool) : List (ℕ × Delivery) :=
  if p.inHeader then []
  else match p.partIndex with
    | none => []
    | some k => released.map (k, some ·) ++ if ended then [(k, none)] else []

/-- The deliveries that a chunk gives rise to. -/
def out : Place → Bytes → List (ℕ × Delivery)
  | _, [] => []
  | p, b :: bs =>
    p.emit (Matcher.release (p.delimiter boundary numParts) p.matched b)
      (decide (Matcher.advance (p.delimiter boundary numParts) p.matched b
        = (p.delimiter boundary numParts).length)) ++
      out (p.next boundary numParts b) bs

/-- The place has part headers or a part body, or the preface, to read: it is not past the
closing delimiter. -/
def Within (p : Place) : Prop :=
  ∀ k, p.partIndex = some k → k < numParts

/-- The memory of the header buffer after pieces of a header block were appended to it. -/
def headerBlock (heap : Bytes → ℕ → Byte) (pieces : List Bytes) : Bytes × ℕ :=
  pieces.foldl (fun (block, offset) piece =>
    (saveHeader heap block offset piece, offset + piece.length)) ([], 0)

/-- The header lines in the buffer can be parsed without leaving a line. -/
def HeadersLegible (heap : Bytes → ℕ → Byte) (pieces : List Bytes) : Prop :=
  (parseHeaderLines [] (cstr (headerBlock heap pieces).1) .success HeaderList.empty).isSome

variable (callbacks : List Bool) (heap : Bytes → ℕ → Byte)

/-- If the section is a header block that its part wants parsed and that ends in `last`, it
can be parsed. -/
def HeaderOk (p : Place) (last : Bytes) : Prop :=
  p.inHeader = true → ∀ k, p.partIndex = some k → callbacks[k]? = some true →
    HeadersLegible heap (p.earlier ++ [last])

/-- Each byte of a chunk lies before the end of the message, and each header block it
completes can be parsed. -/
def Readable : Place → Bytes → Prop
  | _, [] => True
  | p, b :: bs =>
    p.Within callbacks.length ∧
      (Matcher.advance (p.delimiter boundary callbacks.length) p.matched b
          = (p.delimiter boundary callbacks.length).length →
        p.HeaderOk callbacks heap (p.piece ++ [b])) ∧
      Readable (p.next boundary callbacks.length b) bs

/-- The result of a call after the section ended in `last`: that of the last header line
if the section is a header block that its part wants parsed, and the one before otherwise. -/
def headerReply (p : Place) (last : Bytes) (result : Result) : Result :=
  if p.inHeader = true ∧ p.partIndex.bind (callbacks[·]?) = some true then
    ((parseHeaderLines [] (cstr (headerBlock heap (p.earlier ++ [last])).1) result
      HeaderList.empty).map Prod.fst).getD result
  else result

/-- The result of a call with a chunk. -/
def reply : Place → Result → Bytes → Result
  | _, result, [] => result
  | p, result, b :: bs =>
    reply (p.next boundary callbacks.length b)
      (if Matcher.advance (p.delimiter boundary callbacks.length) p.matched b
          = (p.delimiter boundary callbacks.length).length then
        p.headerReply callbacks heap (p.piece ++ [b]) result
      else result) bs

/-- A chunk may end here: outside a header block, a candidate delimiter began in the
chunk. -/
def Endable (p : Place) : Prop :=
  p.inHeader = true ∨ p.matched ≤ p.piece.length

/-- A chunk that ends here holds nothing of the body but a candidate delimiter. -/
def Stray (p : Place) : Prop :=
  p.inHeader = false ∧ p.partIndex ≠ none ∧ 0 < p.matched ∧ p.piece.length = p.matched

instance (p : Place) : Decidable (p.Within numParts) :=
  inferInstanceAs (Decidable (∀ k ∈ p.partIndex, k < numParts))

instance (pieces : List Bytes) : Decidable (HeadersLegible heap pieces) :=
  inferInstanceAs (Decidable (_ = true))

instance (p : Place) (last : Bytes) : Decidable (p.HeaderOk callbacks heap last) :=
  inferInstanceAs (Decidable (p.inHeader = true → ∀ k ∈ p.partIndex, callbacks[k]? = some true →
    HeadersLegible heap (p.earlier ++ [last])))

/-- Whether a chunk is readable is decided byte by byte. -/
instance decidableReadable : ∀ (p : Place) (bs : Bytes),
    Decidable (p.Readable boundary callbacks heap bs)
  | _, [] => isTrue trivial
  | p, b :: bs =>
    have := decidableReadable (p.next boundary callbacks.length b) bs
    inferInstanceAs (Decidable (_ ∧ _ ∧ _))

instance (p : Place) : Decidable p.Endable := inferInstanceAs (Decidable (_ ∨ _))

instance (p : Place) : Decidable p.Stray := inferInstanceAs (Decidable (_ ∧ _))

/-- The delivery at the end of a chunk that holds nothing of the body but a candidate: a
call without data, which looks like the end of the part. -/
def stray (p : Place) : List (ℕ × Delivery) :=
  if p.Stray then p.emit [] true else []

variable {boundary numParts callbacks heap}

@[simp] theorem read_nil (p : Place) : p.read boundary numParts [] = p := rfl

@[simp] theorem read_cons (p : Place) (b : Byte) (bs : Bytes) :
    p.read boundary numParts (b :: bs)
      = (p.next boundary numParts b).read boundary numParts bs := rfl

theorem read_append (p : Place) (xs ys : Bytes) :
    p.read boundary numParts (xs ++ ys)
      = (p.read boundary numParts xs).read boundary numParts ys :=
  List.foldl_append

theorem out_append (p : Place) (xs ys : Bytes) :
    p.out boundary numParts (xs ++ ys)
      = p.out boundary numParts xs ++ (p.read boundary numParts xs).out boundary numParts ys := by
  induction xs generalizing p with
  | nil => rfl
  | cons b bs ih => rw [List.cons_append, out, ih, out, List.append_assoc, read_cons]

@[simp] theorem finish_matched (p : Place) : (p.finish numParts).matched = 0 := by
  rw [finish]
  split <;> rfl

@[simp] theorem finish_earlier (p : Place) : (p.finish numParts).earlier = [] := by
  rw [finish]
  split <;> rfl

@[simp] theorem finish_piece (p : Place) : (p.finish numParts).piece = [] := by
  rw [finish]
  split <;> rfl

@[simp] theorem emit_nil (p : Place) : p.emit [] false = [] := by
  unfold emit
  split
  · rfl
  · split <;> rfl

/-- Before the first part nothing is delivered. -/
theorem stray_none {p : Place} (hi : p.partIndex = none) : p.stray = [] := by
  rw [stray, emit]
  simp [hi]

/-- Inside a header block nothing is delivered. -/
theorem stray_inHeader {p : Place} (hh : p.inHeader = true) : p.stray = [] := by
  rw [stray, emit]
  simp [hh]

/-- Without bytes in the chunk there is no stray delivery. -/
theorem stray_of_piece {p : Place} (h : p.piece = []) : p.stray = [] := by
  have hs : ¬ p.Stray := by
    rintro ⟨-, -, hpos, hlen⟩
    rw [h, List.length_nil] at hlen
    omega
  rw [stray, if_neg hs]

/-- Without bytes in the chunk a cut changes nothing. -/
theorem cut_of_piece {p : Place} (h : p.piece = []) : p.cut = p := by
  cases p
  subst h
  simp [cut]

/-- The stray delivery of a part's body. -/
theorem stray_some {p : Place} {k : ℕ} (hh : p.inHeader = false) (hi : p.partIndex = some k) :
    p.stray = if 0 < p.matched ∧ p.piece.length = p.matched then [(k, none)] else [] := by
  rw [stray, emit]
  simp [hi, hh, Stray]

/-- A stray delivery is made exactly at a stray place. -/
theorem stray_eq_nil {p : Place} : p.stray = [] ↔ ¬ p.Stray := by
  constructor
  · intro h hs
    obtain ⟨k, hk⟩ := Option.ne_none_iff_exists'.mp hs.2.1
    rw [stray_some hs.1 hk, if_pos hs.2.2] at h
    exact absurd h (List.cons_ne_nil _ _)
  · exact fun hs => if_neg hs

/-- Deliveries of one section join up. -/
theorem emit_append (p : Place) (xs ys : Bytes) (ended : Bool) :
    p.emit (xs ++ ys) ended = p.emit xs false ++ p.emit ys ended := by
  unfold emit
  split
  · rfl
  · split
    · rfl
    · simp

/-- Reading on from a place without earlier pieces leaves none. -/
theorem read_earlier (bs : Bytes) {p : Place} (h : p.earlier = []) :
    (p.read boundary numParts bs).earlier = [] := by
  induction bs generalizing p with
  | nil => exact h
  | cons b bs ih =>
      refine ih ?_
      rw [next]
      split
      · exact finish_earlier p
      · exact h

/-! ### To the end of a section -/

/-- A byte that ends the section. -/
theorem next_of_eq {p : Place} {b : Byte}
    (h : Matcher.advance (p.delimiter boundary numParts) p.matched b
      = (p.delimiter boundary numParts).length) :
    p.next boundary numParts b = p.finish numParts := if_pos h

/-- A byte that does not. -/
theorem next_of_ne {p : Place} {b : Byte}
    (h : Matcher.advance (p.delimiter boundary numParts) p.matched b
      ≠ (p.delimiter boundary numParts).length) :
    p.next boundary numParts b = { p with
      matched := Matcher.advance (p.delimiter boundary numParts) p.matched b
      piece := p.piece ++ [b] } := if_neg h

/-- Induction over bytes that stay in their section: none of them ends it. -/
theorem openInduction {P : Bytes → Place → Prop} (nil : ∀ p, P [] p)
    (cons : ∀ b bs p, p.matched < (p.delimiter boundary numParts).length →
      Matcher.advance (p.delimiter boundary numParts) p.matched b
        ≠ (p.delimiter boundary numParts).length →
      P bs (p.next boundary numParts b) → P (b :: bs) p) :
    ∀ (bs : Bytes) (p : Place), p.matched < (p.delimiter boundary numParts).length →
      (Matcher.feed (p.delimiter boundary numParts) p.matched bs).1
        < (p.delimiter boundary numParts).length → P bs p
  | [], p, _, _ => nil p
  | b :: bs, p, hp, h => by
      rw [Matcher.feed_cons hp] at h
      have hne : Matcher.advance (p.delimiter boundary numParts) p.matched b
          ≠ (p.delimiter boundary numParts).length := by
        intro heq
        rw [Matcher.feed_of_length_le heq.ge] at h
        exact absurd h (by omega)
      have hlt := Nat.lt_of_le_of_ne (Matcher.advance_le hp b) hne
      refine cons b bs p hp hne (openInduction nil cons bs _ ?_ ?_)
      · rw [next_of_ne hne]
        exact hlt
      · rw [next_of_ne hne]
        exact h

/-- Induction over bytes that go to the end of their section or past it: one of them ends
it. -/
theorem closedInduction {P : Bytes → Place → Prop}
    (last : ∀ b bs p, p.matched < (p.delimiter boundary numParts).length →
      Matcher.advance (p.delimiter boundary numParts) p.matched b
        = (p.delimiter boundary numParts).length → P (b :: bs) p)
    (cons : ∀ b bs p, p.matched < (p.delimiter boundary numParts).length →
      Matcher.advance (p.delimiter boundary numParts) p.matched b
        ≠ (p.delimiter boundary numParts).length →
      P bs (p.next boundary numParts b) → P (b :: bs) p) :
    ∀ (bs : Bytes) (p : Place), p.matched < (p.delimiter boundary numParts).length →
      (Matcher.feed (p.delimiter boundary numParts) p.matched bs).1
        = (p.delimiter boundary numParts).length → P bs p
  | [], p, hp, h => absurd h (by simpa using Nat.ne_of_lt hp)
  | b :: bs, p, hp, h => by
      rw [Matcher.feed_cons hp] at h
      by_cases heq : Matcher.advance (p.delimiter boundary numParts) p.matched b
          = (p.delimiter boundary numParts).length
      · exact last b bs p hp heq
      · have hlt := Nat.lt_of_le_of_ne (Matcher.advance_le hp b) heq
        refine cons b bs p hp heq (closedInduction last cons bs _ ?_ ?_)
        · rw [next_of_ne heq]
          exact hlt
        · rw [next_of_ne heq]
          exact h

/-- **Reading inside a section.** -/
theorem read_open : ∀ (bs : Bytes) (p : Place),
    p.matched < (p.delimiter boundary numParts).length →
    (Matcher.feed (p.delimiter boundary numParts) p.matched bs).1
      < (p.delimiter boundary numParts).length →
    p.read boundary numParts bs = { p with
        matched := (Matcher.feed (p.delimiter boundary numParts) p.matched bs).1
        piece := p.piece ++ bs } ∧
      p.out boundary numParts bs
        = p.emit (Matcher.releases (p.delimiter boundary numParts) p.matched bs) false := by
  refine openInduction (fun p => by simp [out, Matcher.releases]) ?_
  intro b bs p hp hne ih
  obtain ⟨hread, hout⟩ := ih
  rw [next_of_ne hne] at hread hout
  rw [Matcher.feed_cons hp]
  constructor
  · rw [read_cons, next_of_ne hne, hread]
    simp [delimiter]
  · rw [out, next_of_ne hne, hout, decide_eq_false hne, Matcher.releases, if_pos hp, emit_append]
    rfl

/-- **Reading to the end of a section.** -/
theorem read_closed : ∀ (bs : Bytes) (p : Place),
    p.matched < (p.delimiter boundary numParts).length →
    (Matcher.feed (p.delimiter boundary numParts) p.matched bs).1
      = (p.delimiter boundary numParts).length →
    p.read boundary numParts bs
        = (p.finish numParts).read boundary numParts
          (bs.drop (Matcher.feed (p.delimiter boundary numParts) p.matched bs).2) ∧
      p.out boundary numParts bs
        = p.emit (Matcher.releases (p.delimiter boundary numParts) p.matched bs) true ++
          (p.finish numParts).out boundary numParts
            (bs.drop (Matcher.feed (p.delimiter boundary numParts) p.matched bs).2) := by
  refine closedInduction ?_ ?_
  · intro b bs p hp heq
    rw [Matcher.feed_cons hp, Matcher.feed_of_length_le heq.ge, read_cons, next_of_eq heq, out,
      next_of_eq heq, decide_eq_true heq, Matcher.releases, if_pos hp, heq]
    cases bs with
    | nil => simp [Matcher.releases]
    | cons c cs => simp [Matcher.releases]
  · intro b bs p hp hne ih
    obtain ⟨hread, hout⟩ := ih
    rw [next_of_ne hne] at hread hout
    rw [Matcher.feed_cons hp]
    constructor
    · rw [read_cons, next_of_ne hne, hread]
      rfl
    · rw [out, next_of_ne hne, hout, decide_eq_false hne, Matcher.releases, if_pos hp,
        emit_append, List.append_assoc]
      rfl

/-- A chunk that stays in its section is readable before the end of the message. -/
theorem readable_open : ∀ (bs : Bytes) (p : Place),
    p.matched < (p.delimiter boundary callbacks.length).length →
    (Matcher.feed (p.delimiter boundary callbacks.length) p.matched bs).1
      < (p.delimiter boundary callbacks.length).length →
    (p.Readable boundary callbacks heap bs ↔ (bs ≠ [] → p.Within callbacks.length)) := by
  refine openInduction (fun p => by simp [Readable]) ?_
  intro b bs p _ hne ih
  have hwithin : (p.next boundary callbacks.length b).Within callbacks.length
      ↔ p.Within callbacks.length := by rw [next_of_ne hne]; exact Iff.rfl
  rw [Readable, ih, hwithin]
  constructor
  · exact fun hr _ => hr.1
  · exact fun hr => ⟨hr (List.cons_ne_nil b bs), fun heq => absurd heq hne,
      fun _ => hr (List.cons_ne_nil b bs)⟩

/-- A chunk that goes past the end of its section. -/
theorem readable_closed : ∀ (bs : Bytes) (p : Place),
    p.matched < (p.delimiter boundary callbacks.length).length →
    (Matcher.feed (p.delimiter boundary callbacks.length) p.matched bs).1
      = (p.delimiter boundary callbacks.length).length →
    (p.Readable boundary callbacks heap bs ↔
      p.Within callbacks.length ∧
      p.HeaderOk callbacks heap (p.piece ++
        bs.take (Matcher.feed (p.delimiter boundary callbacks.length) p.matched bs).2) ∧
      (p.finish callbacks.length).Readable boundary callbacks heap
        (bs.drop (Matcher.feed (p.delimiter boundary callbacks.length) p.matched bs).2)) := by
  refine closedInduction ?_ ?_
  · intro b bs p hp heq
    rw [Matcher.feed_cons hp, Matcher.feed_of_length_le heq.ge, Readable, next_of_eq heq]
    simp [heq]
  · intro b bs p hp hne ih
    rw [Matcher.feed_cons hp, Readable, ih, next_of_ne hne]
    simp only [hne, false_implies, true_and, List.take_succ_cons, List.drop_succ_cons,
      List.append_assoc, List.singleton_append]
    constructor
    · exact fun hr => ⟨hr.1, hr.2.2.1, hr.2.2.2⟩
    · exact fun hr => ⟨hr.1, hr.1, hr.2.1, hr.2.2⟩

/-- The result is not touched inside a section. -/
theorem reply_open (bs : Bytes) (p : Place) (result : Result)
    (hp : p.matched < (p.delimiter boundary callbacks.length).length)
    (h : (Matcher.feed (p.delimiter boundary callbacks.length) p.matched bs).1
      < (p.delimiter boundary callbacks.length).length) :
    p.reply boundary callbacks heap result bs = result := by
  revert bs p
  refine openInduction (fun _ => rfl) ?_
  intro b bs p _ hne ih
  rw [reply, if_neg hne, ih]

/-- The result after the end of a section. -/
theorem reply_closed (bs : Bytes) (p : Place) (result : Result)
    (hp : p.matched < (p.delimiter boundary callbacks.length).length)
    (h : (Matcher.feed (p.delimiter boundary callbacks.length) p.matched bs).1
      = (p.delimiter boundary callbacks.length).length) :
    p.reply boundary callbacks heap result bs
      = (p.finish callbacks.length).reply boundary callbacks heap
          (p.headerReply callbacks heap (p.piece ++
            bs.take (Matcher.feed (p.delimiter boundary callbacks.length) p.matched bs).2) result)
          (bs.drop (Matcher.feed (p.delimiter boundary callbacks.length) p.matched bs).2) := by
  revert bs p
  refine closedInduction ?_ ?_
  · intro b bs p hp heq
    rw [Matcher.feed_cons hp, Matcher.feed_of_length_le heq.ge, reply, if_pos heq, next_of_eq heq]
    rfl
  · intro b bs p hp hne ih
    rw [Matcher.feed_cons hp, reply, if_neg hne, ih, next_of_ne hne]
    simp only [List.take_succ_cons, List.drop_succ_cons, List.append_assoc,
      List.singleton_append]
    rfl

/-! ### Cuts -/

/-- The places differ in the cuts of the current section only. -/
structure SameSection (p q : Place) : Prop where
  partIndex : p.partIndex = q.partIndex
  inHeader : p.inHeader = q.inHeader
  matched : p.matched = q.matched
  bytes : p.earlier.flatten ++ p.piece = q.earlier.flatten ++ q.piece

namespace SameSection

protected theorem refl (p : Place) : SameSection p p :=
  ⟨rfl, rfl, rfl, rfl⟩

protected theorem trans {p q r : Place} (h : SameSection p q) (h' : SameSection q r) :
    SameSection p r :=
  ⟨h.partIndex.trans h'.partIndex, h.inHeader.trans h'.inHeader, h.matched.trans h'.matched,
    h.bytes.trans h'.bytes⟩

/-- The end of a chunk leaves the section as it is. -/
theorem cut (p : Place) : SameSection p.cut p where
  partIndex := rfl
  inHeader := rfl
  matched := rfl
  bytes := by
    simp only [Place.cut, nonempty]
    split
    · simp
    · have hnil : p.piece = [] := List.length_eq_zero_iff.mp (by omega)
      simp [hnil]

/-- The places hold equally many bytes of the section. -/
theorem length {p q : Place} (h : SameSection p q) (hq : q.earlier = []) :
    p.earlier.flatten.length + p.piece.length = q.piece.length := by
  have hlen := congrArg List.length h.bytes
  simpa [hq] using hlen

/-- If the section uncut is stray, so is every cut of it that may end where it does. -/
theorem stray_of_uncut {p q : Place} (h : SameSection p q) (hq : q.earlier = [])
    (hend : p.Endable) (hs : q.Stray) : p.Stray ∧ p.earlier.flatten = [] := by
  obtain ⟨hh, hi, hpos, hlen⟩ := hs
  have hbytes := h.length hq
  have hfit : p.matched ≤ p.piece.length := by
    rcases hend with hp | hp
    · rw [h.inHeader, hh] at hp
      exact absurd hp Bool.false_ne_true
    · exact hp
  have hm := h.matched
  exact ⟨⟨h.inHeader.trans hh, h.partIndex ▸ hi, by omega, by omega⟩,
    List.length_eq_zero_iff.mp (by omega)⟩

/-- A stray place at which all of the section came in one chunk is stray uncut. -/
theorem uncut_stray {p q : Place} (h : SameSection p q) (hq : q.earlier = [])
    (hs : p.Stray) (hp : p.earlier.flatten = []) : q.Stray := by
  obtain ⟨hh, hi, hpos, hlen⟩ := hs
  have hbytes := h.length hq
  rw [hp, List.length_nil] at hbytes
  have hm := h.matched
  exact ⟨h.inHeader ▸ hh, h.partIndex ▸ hi, by omega, by omega⟩

/-- Places that are both stray or both not give rise to the same delivery. -/
theorem stray_eq {p q : Place} (h : SameSection p q) (hs : p.Stray ↔ q.Stray) :
    p.stray = q.stray := by
  rw [stray, stray, emit, emit, h.inHeader, h.partIndex]
  simp only [hs]

/-- A byte is read alike. -/
theorem next {p q : Place} (h : SameSection p q) (b : Byte) :
    SameSection (p.next boundary numParts b) (q.next boundary numParts b) := by
  have hd : p.delimiter boundary numParts = q.delimiter boundary numParts := by
    rw [delimiter, delimiter, h.partIndex, h.inHeader]
  rw [Place.next, Place.next, hd, h.matched]
  split
  · rw [finish, finish, h.inHeader, h.partIndex]
    split
    · exact SameSection.refl _
    · exact SameSection.refl _
  · exact ⟨h.partIndex, h.inHeader, rfl, by simp only [← List.append_assoc, h.bytes]⟩

/-- A chunk is read alike, and gives rise to the same deliveries. -/
theorem read {p q : Place} (h : SameSection p q) (bs : Bytes) :
    SameSection (p.read boundary numParts bs) (q.read boundary numParts bs) ∧
      p.out boundary numParts bs = q.out boundary numParts bs := by
  induction bs generalizing p q with
  | nil => exact ⟨h, rfl⟩
  | cons b bs ih =>
      obtain ⟨hread, hout⟩ := ih (h.next b)
      have hd : p.delimiter boundary numParts = q.delimiter boundary numParts := by
        rw [delimiter, delimiter, h.partIndex, h.inHeader]
      refine ⟨hread, ?_⟩
      rw [out, out, hout, hd, h.matched, emit, emit, h.inHeader, h.partIndex]

end SameSection

end Place

end DsiRest
