import DsiRest.Lib.Drain
import DsiRest.Prepare

/-!
# The Multipart Writer is Exact

The body a tree of writers stands for is defined here on its own (`Writer.encode`): the
parts in order, each behind its delimiter line and header block, and the closing
delimiter at the end. `Writer.rest` is the same for a writer in mid-body, `Writer.Sound`
the invariant its state keeps between calls.

The central fact is `Writer.Sound.write`: one call of a sound writer returns, stores at
most what fits, stores the front of what is left, and stores nothing only at the end. Its
proof is by induction on the depth of the tree, and at a multipart node by induction on
the room left in the buffer, since every iteration of the part loop stores something: a
part that has data stores data, a part that has none is followed by a delimiter. It makes
writers an instance of `Drain.Exact`, from which the statements about whole bodies follow.

## Main results

* `Writer.Sound.write` — one call of a sound writer.
* `writeMultipart_exact` — a prepared tree with delimiters yields its encoding for every
  sequence of buffer lengths.
-/

namespace DsiRest

open List (Forall₂)

/-! ### The encoded body -/

/-- The delimiter line and header block in front of a part. -/
def partHead (delimiter : Bytes) (headers : KeyArray) : Bytes :=
  crlf ++ bytes "--" ++ delimiter ++ crlf ++ headers.flatMap headerLine ++ crlf

/-- The closing delimiter. -/
def closeDelimiter (delimiter : Bytes) : Bytes :=
  crlf ++ bytes "--" ++ delimiter ++ bytes "--" ++ crlf

mutual

/-- The body a writer stands for, regardless of how much of it was sent already. -/
def Writer.encode : Writer → Bytes
  | .block arg => arg.blockData
  | .blocks arg => (arg.blocks.map WriteBlockArg.blockData).flatten
  | .fixed callback _ => callback.left []
  | .client _ _ => []
  | .multipart arg => encodeParts arg.boundary arg.parts

/-- The parts from some point on, with what closes the body. -/
def encodeParts (boundary : Option Bytes) : List (WritePart Writer) → Bytes
  | [] => (boundary.map closeDelimiter).getD []
  | part :: parts => (boundary.map (partHead · part.headers)).getD [] ++ part.writer.encode ++
      encodeParts boundary parts

end

mutual

/-- The trees whose multipart nodes have at least one part and a delimiter, and whose
leaves yield a fixed byte string. -/
def Writer.Delimited : Writer → Prop
  | .block _ => True
  | .blocks _ => False
  | .fixed _ _ => True
  | .client _ _ => False
  | .multipart arg => arg.boundary.isSome ∧ arg.parts ≠ [] ∧ DelimitedParts arg.parts

/-- Every part of the list is such a tree. -/
def DelimitedParts : List (WritePart Writer) → Prop
  | [] => True
  | part :: parts => part.writer.Delimited ∧ DelimitedParts parts

end

/-! ### What is left of a body -/

/-- What is left of a delimiter that is being sent. -/
def WriteMultipartArg.boundaryRest {W : Type} (arg : WriteMultipartArg W) : Bytes :=
  match arg.currentBoundary with
  | none => []
  | some text => text.drop arg.currentBoundaryOffset

mutual

/-- What a writer has left to yield. -/
def Writer.rest : Writer → Bytes
  | .block arg => arg.blockData.drop arg.offset
  | .blocks _ => []
  | .fixed callback calls => callback.left calls
  | .client _ _ => []
  | .multipart arg => arg.boundaryRest ++ restFrom arg.boundary arg.partIndex arg.parts

/-- The rest of the body from part `i` on, whose head was sent. -/
def restFrom (boundary : Option Bytes) : ℕ → List (WritePart Writer) → Bytes
  | 0, part :: parts => part.writer.rest ++ restParts boundary parts
  | i + 1, _ :: parts => restFrom boundary i parts
  | _, [] => []

/-- The rest of the body in front of the given parts. -/
def restParts (boundary : Option Bytes) : List (WritePart Writer) → Bytes
  | [] => (boundary.map closeDelimiter).getD []
  | part :: parts => (boundary.map (partHead · part.headers)).getD [] ++ part.writer.rest ++
      restParts boundary parts

end

/-- The pending delimiter has something left, and its recorded length is its length. -/
def WriteMultipartArg.BoundarySound {W : Type} (arg : WriteMultipartArg W) : Prop :=
  match arg.currentBoundary with
  | none => arg.currentBoundaryOffset = 0 ∧ arg.currentBoundaryLength = 0
  | some text => arg.currentBoundaryOffset < text.length ∧
      arg.currentBoundaryLength = text.length

mutual

/-- The invariant of a writer between calls. -/
def Writer.Sound : Writer → Prop
  | .block _ => True
  | .blocks _ => False
  | .fixed _ _ => True
  | .client _ _ => False
  | .multipart arg => arg.boundary.isSome ∧ arg.parts ≠ [] ∧ arg.BoundarySound ∧
      SoundParts arg.parts

/-- The invariant holds of every part. -/
def SoundParts : List (WritePart Writer) → Prop
  | [] => True
  | part :: parts => part.writer.Sound ∧ SoundParts parts

end

mutual

/-- The height of the tree of writers. -/
def Writer.depth : Writer → ℕ
  | .block _ => 0
  | .blocks _ => 0
  | .fixed _ _ => 0
  | .client _ _ => 0
  | .multipart arg => depthParts arg.parts + 1

/-- The greatest height among the parts. -/
def depthParts : List (WritePart Writer) → ℕ
  | [] => 0
  | part :: parts => max part.writer.depth (depthParts parts)

end

theorem soundParts_iff {parts : List (WritePart Writer)} :
    SoundParts parts ↔ ∀ part ∈ parts, part.writer.Sound := by
  induction parts with
  | nil => simp [SoundParts]
  | cons part parts ih => simp [SoundParts, ih]

theorem depthParts_le_iff {parts : List (WritePart Writer)} {d : ℕ} :
    depthParts parts ≤ d ↔ ∀ part ∈ parts, part.writer.depth ≤ d := by
  induction parts with
  | nil => simp [depthParts]
  | cons part parts ih => simp [depthParts, ih]

/-- Replacing the writer of one part by another sound one. -/
theorem soundParts_set {parts : List (WritePart Writer)} {i : ℕ} {part : WritePart Writer}
    (h : SoundParts parts) (hp : part.writer.Sound) : SoundParts (parts.set i part) := by
  rw [soundParts_iff] at h ⊢
  intro p hmem
  rcases List.mem_or_eq_of_mem_set hmem with hmem | rfl
  · exact h p hmem
  · exact hp

/-- Replacing the writer of one part by another of bounded depth. -/
theorem depthParts_set_le {parts : List (WritePart Writer)} {i d : ℕ}
    {part : WritePart Writer} (h : depthParts parts ≤ d) (hp : part.writer.depth ≤ d) :
    depthParts (parts.set i part) ≤ d := by
  rw [depthParts_le_iff] at h ⊢
  intro p hmem
  rcases List.mem_or_eq_of_mem_set hmem with hmem | rfl
  · exact h p hmem
  · exact hp

/-- The rest from an existing part on: that part's rest, then the later parts. -/
theorem restFrom_of_getElem? {boundary : Option Bytes} {part : WritePart Writer} :
    ∀ {i : ℕ} {parts : List (WritePart Writer)}, parts[i]? = some part →
      restFrom boundary i parts = part.writer.rest ++ restParts boundary (parts.drop (i + 1))
  | 0, _ :: parts, h => by
      cases h
      simp [restFrom]
  | i + 1, _ :: parts, h => by
      rw [restFrom, restFrom_of_getElem? (by simpa using h), List.drop_succ_cons]

/-- Past the last part nothing is left. -/
theorem restFrom_of_length_le {boundary : Option Bytes} :
    ∀ {i : ℕ} {parts : List (WritePart Writer)}, parts.length ≤ i →
      restFrom boundary i parts = []
  | 0, [], _ => rfl
  | i + 1, [], _ => rfl
  | i + 1, _ :: parts, h => by
      rw [restFrom, restFrom_of_length_le (by simpa using h)]

/-- Updating a part's writer changes the rest at that part only. -/
theorem restFrom_set {boundary : Option Bytes} {part part' : WritePart Writer} {i : ℕ}
    {parts : List (WritePart Writer)} (h : parts[i]? = some part) :
    restFrom boundary i (parts.set i part')
      = part'.writer.rest ++ restParts boundary (parts.drop (i + 1)) := by
  have hi : i < parts.length := (List.getElem?_eq_some_iff.mp h).1
  have hset : (parts.set i part')[i]? = some part' := by simp [hi]
  rw [restFrom_of_getElem? hset, List.drop_set_of_lt (Nat.lt_succ_self i)]

/-! ### Sending delimiters -/

theorem boundaryText_start (delimiter : Bytes) (headers : KeyArray) :
    boundaryText delimiter false (some headers) = partHead delimiter headers := by
  simp [boundaryText, partHead, show bytes "\r\n--" = crlf ++ bytes "--" from rfl,
    show bytes "\r\n" = crlf from rfl]

theorem boundaryText_final (delimiter : Bytes) :
    boundaryText delimiter true none = closeDelimiter delimiter := by
  simp [boundaryText, closeDelimiter, show bytes "\r\n--" = crlf ++ bytes "--" from rfl,
    show bytes "--\r\n" = bytes "--" ++ crlf from rfl]

namespace WriteMultipartArg

variable {W : Type}

/-- What sending a delimiter into `room` bytes does: it stores the front of what is left
of the delimiter, and leaves a delimiter behind only in a full buffer. -/
theorem sendBoundary_spec (arg : WriteMultipartArg W) (room : ℕ) (h : arg.BoundarySound) :
    arg.boundaryRest = (arg.sendBoundary room).1 ++ (arg.sendBoundary room).2.boundaryRest ∧
    (arg.sendBoundary room).1.length ≤ room ∧
    (arg.sendBoundary room).2.BoundarySound ∧
    ((arg.sendBoundary room).2.currentBoundary ≠ none →
      (arg.sendBoundary room).1.length = room) ∧
    (arg.currentBoundary ≠ none → 0 < room → (arg.sendBoundary room).1 ≠ []) := by
  unfold sendBoundary BoundarySound boundaryRest at *
  cases hb : arg.currentBoundary with
  | none =>
      simp only [hb] at h ⊢
      exact ⟨by simp, by simp, by simpa [hb] using h, by simp, by simp⟩
  | some text =>
      obtain ⟨hlt, hlen⟩ : arg.currentBoundaryOffset < text.length ∧
          arg.currentBoundaryLength = text.length := by simpa only [hb] using h
      have hout : ((text.drop arg.currentBoundaryOffset).take
          (min room (arg.currentBoundaryLength - arg.currentBoundaryOffset))).length
          = min room (arg.currentBoundaryLength - arg.currentBoundaryOffset) := by
        rw [List.length_take, List.length_drop]
        omega
      have hne : 0 < room → (text.drop arg.currentBoundaryOffset).take
          (min room (arg.currentBoundaryLength - arg.currentBoundaryOffset)) ≠ [] := by
        intro hroom hnil
        rw [hnil, List.length_nil] at hout
        omega
      by_cases hfull : arg.currentBoundaryOffset +
          min room (arg.currentBoundaryLength - arg.currentBoundaryOffset)
          = arg.currentBoundaryLength
      · simp only [if_pos hfull]
        refine ⟨?_, by omega, by simp, by simp, fun _ => hne⟩
        rw [List.append_nil, List.take_of_length_le]
        rw [List.length_drop]
        omega
      · simp only [if_neg hfull]
        refine ⟨?_, by omega, ⟨by omega, hlen⟩, fun _ => by omega, fun _ => hne⟩
        rw [← List.drop_drop, List.take_append_drop]

@[simp] theorem sendBoundary_parts (arg : WriteMultipartArg W) (room : ℕ) :
    (arg.sendBoundary room).2.parts = arg.parts := by
  unfold sendBoundary
  cases arg.currentBoundary with
  | none => rfl
  | some text => dsimp only; split <;> rfl

@[simp] theorem sendBoundary_boundary (arg : WriteMultipartArg W) (room : ℕ) :
    (arg.sendBoundary room).2.boundary = arg.boundary := by
  unfold sendBoundary
  cases arg.currentBoundary with
  | none => rfl
  | some text => dsimp only; split <;> rfl

@[simp] theorem sendBoundary_partIndex (arg : WriteMultipartArg W) (room : ℕ) :
    (arg.sendBoundary room).2.partIndex = arg.partIndex := by
  unfold sendBoundary
  cases arg.currentBoundary with
  | none => rfl
  | some text => dsimp only; split <;> rfl

end WriteMultipartArg

/-- The rest of a multipart body. -/
def WriteMultipartArg.rest (arg : WriteMultipartArg Writer) : Bytes :=
  arg.boundaryRest ++ restFrom arg.boundary arg.partIndex arg.parts

/-- The invariant of a multipart argument, with the height of its parts bounded. -/
structure WriteMultipartArg.Sound (arg : WriteMultipartArg Writer) (d : ℕ) : Prop where
  boundary : arg.boundary.isSome
  nonempty : arg.parts ≠ []
  pending : arg.BoundarySound
  parts : SoundParts arg.parts
  depth : depthParts arg.parts ≤ d

/-- Sending a delimiter keeps the invariant and takes what is stored off the rest of the
body. -/
theorem WriteMultipartArg.Sound.sendBoundary {arg : WriteMultipartArg Writer} {d : ℕ}
    (h : arg.Sound d) (room : ℕ) : (arg.sendBoundary room).2.Sound d ∧
      arg.rest = (arg.sendBoundary room).1 ++ (arg.sendBoundary room).2.rest := by
  obtain ⟨hsplit, -, hpending, -, -⟩ := arg.sendBoundary_spec room h.pending
  constructor
  · exact ⟨by simpa using h.boundary, by simpa using h.nonempty, hpending,
      by simpa using h.parts, by simpa using h.depth⟩
  · simp only [WriteMultipartArg.rest, hsplit, WriteMultipartArg.sendBoundary_boundary,
      WriteMultipartArg.sendBoundary_parts, WriteMultipartArg.sendBoundary_partIndex,
      List.append_assoc]

/-- Finishing a part that has nothing left puts the next delimiter in place and leaves
the rest of the body as it was. -/
theorem WriteMultipartArg.Sound.finishPart {arg : WriteMultipartArg Writer} {d : ℕ}
    {part : WritePart Writer} (h : arg.Sound d) (hb : arg.currentBoundary = none)
    (hp : arg.parts[arg.partIndex]? = some part) (hrest : part.writer.rest = []) :
    ∃ arg', arg.finishPart = some arg' ∧ arg'.Sound d ∧ arg'.rest = arg.rest ∧
      arg'.currentBoundary ≠ none := by
  obtain ⟨delimiter, hd⟩ := Option.isSome_iff_exists.mp h.boundary
  have hlt : arg.partIndex < arg.parts.length := (List.getElem?_eq_some_iff.mp hp).1
  have hoff : arg.currentBoundaryOffset = 0 := by
    have hpend := h.pending
    rw [WriteMultipartArg.BoundarySound, hb] at hpend
    exact hpend.1
  have hold : arg.rest = restParts (some delimiter) (arg.parts.drop (arg.partIndex + 1)) := by
    rw [WriteMultipartArg.rest, WriteMultipartArg.boundaryRest, hb, hd,
      restFrom_of_getElem? hp, hrest]
    rfl
  have hpos : ∀ text : Bytes, text ≠ [] → (0 : ℕ) < text.length :=
    fun _ => List.length_pos_iff.mpr
  by_cases hfin : arg.partIndex + 1 = arg.parts.length
  · -- the last part: the closing delimiter is all that is left
    refine ⟨{ arg with
        currentBoundary := some (closeDelimiter delimiter)
        currentBoundaryLength := (closeDelimiter delimiter).length
        partIndex := arg.partIndex + 1 }, ?_, ⟨h.boundary, h.nonempty, ?_, h.parts, h.depth⟩,
      ?_, by simp⟩
    · simp [WriteMultipartArg.finishPart, hd, hfin, prepareBoundary, multipartBoundaryPrepare_eq,
        boundaryText_final]
    · refine ⟨?_, rfl⟩
      rw [hoff, ← boundaryText_final]
      exact hpos _ (boundaryText_ne_nil _ _ _)
    · rw [hold, List.drop_of_length_le (by omega)]
      simp [WriteMultipartArg.rest, WriteMultipartArg.boundaryRest, hoff, restParts,
        restFrom_of_length_le (show arg.parts.length ≤ arg.partIndex + 1 by omega)]
  · -- a later part: its delimiter and header block, then the part
    obtain ⟨next, hnext⟩ : ∃ next, arg.parts[arg.partIndex + 1]? = some next :=
      ⟨_, List.getElem?_eq_getElem (by omega)⟩
    refine ⟨{ arg with
        currentBoundary := some (partHead delimiter next.headers)
        currentBoundaryLength := (partHead delimiter next.headers).length
        partIndex := arg.partIndex + 1 }, ?_, ⟨h.boundary, h.nonempty, ?_, h.parts, h.depth⟩,
      ?_, by simp⟩
    · have hfinal : (arg.partIndex + 1 == arg.parts.length) = false := by simp [hfin]
      simp [WriteMultipartArg.finishPart, hd, hfinal, hnext, prepareBoundary,
        multipartBoundaryPrepare_eq, boundaryText_start]
    · refine ⟨?_, rfl⟩
      rw [hoff, ← boundaryText_start]
      exact hpos _ (boundaryText_ne_nil _ _ _)
    · have hdrop : arg.parts.drop (arg.partIndex + 1)
          = next :: arg.parts.drop (arg.partIndex + 1 + 1) :=
        List.drop_eq_getElem?_toList_append.trans (by simp [hnext])
      rw [hold, hdrop]
      simp [WriteMultipartArg.rest, WriteMultipartArg.boundaryRest, hoff, hd, restParts,
        restFrom_of_getElem? hnext]

/-- A part's new state keeps the invariant. -/
theorem WriteMultipartArg.Sound.setWriter {arg : WriteMultipartArg Writer} {d : ℕ}
    (h : arg.Sound d) (part : WritePart Writer) {w : Writer} (hw : w.Sound)
    (hd : w.depth ≤ d) : (arg.setWriter part w).Sound d where
  boundary := h.boundary
  nonempty := by simpa [WriteMultipartArg.setWriter] using h.nonempty
  pending := h.pending
  parts := soundParts_set h.parts hw
  depth := depthParts_set_le h.depth hd

/-- A part's new state, after it yielded `out`, takes `out` off the rest of the body. -/
theorem WriteMultipartArg.rest_setWriter {arg : WriteMultipartArg Writer}
    {part : WritePart Writer} {w : Writer} {out : Bytes} (hb : arg.currentBoundary = none)
    (hp : arg.parts[arg.partIndex]? = some part) (hrest : part.writer.rest = out ++ w.rest) :
    arg.rest = out ++ (arg.setWriter part w).rest := by
  simp only [WriteMultipartArg.rest, WriteMultipartArg.boundaryRest,
    WriteMultipartArg.setWriter, hb, restFrom_set hp, restFrom_of_getElem? hp, hrest,
    List.nil_append, List.append_assoc]

/-! ### One call -/

/-- What a call with `n` bytes of room achieves: it returns success with `out`, takes
`out` off the front of what the writer has left, and is empty only at the end. -/
structure Writer.Steps (w : Writer) (d n : ℕ) (out : Bytes) (w' : Writer) : Prop where
  returns : w.Returns n ⟨.success, out⟩ w'
  sound : w'.Sound
  depth : w'.depth ≤ d
  rest : w.rest = out ++ w'.rest
  length : out.length ≤ n
  exhausted : out = [] → w.rest = []

/-- After a call of a part that yields nothing the next delimiter is put in place. -/
theorem WriteMultipartArg.Sound.exhausted {arg : WriteMultipartArg Writer} {d n : ℕ}
    {part : WritePart Writer} {w : Writer} (h : arg.Sound d) (hb : arg.currentBoundary = none)
    (hp : arg.parts[arg.partIndex]? = some part) (hstep : part.writer.Steps d n [] w) :
    ∃ arg', (arg.setWriter part w).finishPart = some arg' ∧ arg'.Sound d ∧
      arg'.rest = arg.rest ∧ arg'.currentBoundary ≠ none := by
  have hw : w.rest = [] := by
    have hnone := hstep.exhausted rfl
    rw [hstep.rest] at hnone
    exact (List.append_eq_nil_iff.mp hnone).2
  have hp₁ : (arg.setWriter part w).parts[(arg.setWriter part w).partIndex]?
      = some { part with writer := w } := by
    have hi := (List.getElem?_eq_some_iff.mp hp).1
    simp [WriteMultipartArg.setWriter, hi]
  have hrest := WriteMultipartArg.rest_setWriter hb hp hstep.rest
  rw [List.nil_append] at hrest
  rw [hrest]
  exact (h.setWriter part hstep.sound hstep.depth).finishPart hb hp₁ hw

/-- **The part loop.** If every part writer of the tree achieves this for each call, the
loop fills the buffer behind `copied` with the front of what is left of the body. The
induction is on the room in the buffer: data of a part or the delimiter after it takes
some of it in every iteration. -/
theorem writeMultipartLoop_spec {d n : ℕ}
    (hcalls : ∀ w : Writer, w.Sound → w.depth ≤ d → ∀ m, 0 < m → ∃ out w', w.Steps d m out w') :
    ∀ (room : ℕ) (arg : WriteMultipartArg Writer) (copied : Bytes), arg.Sound d →
      copied.length ≤ n → n - copied.length ≤ room →
      (arg.currentBoundary ≠ none → copied.length = n) →
      ∃ out arg', (∃ enough, ∀ fuel, enough ≤ fuel →
          writeMultipartLoop fuel arg copied n = some (⟨.success, copied ++ out⟩, arg')) ∧
        arg'.Sound d ∧ arg.rest = out ++ arg'.rest ∧ (copied ++ out).length ≤ n ∧
        (copied.length < n → out = [] → arg.rest = []) := by
  intro room
  induction room with
  | zero =>
      intro arg copied h _ hroom _
      refine ⟨[], arg, exists_enough 0 fun fuel _ => ?_, h, rfl, by simpa using by omega, by omega⟩
      rw [writeMultipartLoop, if_neg (by omega), List.append_nil]
  | succ room ih =>
      intro arg copied h hcop hroom hpending
      by_cases hlt : copied.length < n
      · have hb : arg.currentBoundary = none := by
          by_contra hne
          have := hpending hne
          omega
        cases hp : arg.parts[arg.partIndex]? with
        | none =>
            have hrest : arg.rest = [] := by
              rw [WriteMultipartArg.rest, WriteMultipartArg.boundaryRest, hb,
                restFrom_of_length_le (List.getElem?_eq_none_iff.mp hp)]
              rfl
            refine ⟨[], arg, exists_enough 0 fun fuel _ => ?_, h, rfl, by simpa using hcop,
              fun _ _ => hrest⟩
            rw [writeMultipartLoop, if_pos hlt, hp, List.append_nil]
        | some part =>
            have hmem := List.mem_of_getElem? hp
            obtain ⟨data, w, hstep⟩ := hcalls part.writer (soundParts_iff.mp h.parts _ hmem)
              (depthParts_le_iff.mp h.depth _ hmem) (n - copied.length) (by omega)
            obtain ⟨enough₁, hret⟩ := hstep.returns
            have hlen := hstep.length
            by_cases hnil : data = []
            · -- the part is exhausted: the next delimiter takes its place
              subst hnil
              obtain ⟨arg₂, hfin, h₂, hrest₂, hb₂⟩ := h.exhausted hb hp hstep
              obtain ⟨-, hle, -, hfull, hprog⟩ :=
                arg₂.sendBoundary_spec (n - copied.length) h₂.pending
              obtain ⟨h₃, hrest₃⟩ := h₂.sendBoundary (n - copied.length)
              set text := (arg₂.sendBoundary (n - copied.length)).1 with htext
              set arg₃ := (arg₂.sendBoundary (n - copied.length)).2 with harg₃
              have htne := hprog hb₂ (by omega)
              have htpos := List.length_pos_iff.mpr htne
              obtain ⟨out, arg₄, ⟨enough₂, hloop⟩, h₄, hrest₄, hlen₄, -⟩ :=
                ih arg₃ (copied ++ text) h₃ (by simp; omega) (by simp; omega)
                  (fun hne => by have := hfull hne; simp; omega)
              refine ⟨text ++ out, arg₄, exists_enough (max enough₁ enough₂) fun fuel hfuel => ?_,
                h₄, by rw [← hrest₂, hrest₃, hrest₄, List.append_assoc], by simpa using hlen₄,
                fun _ hz => absurd (List.append_eq_nil_iff.mp hz).1 htne⟩
              rw [writeMultipartLoop, if_pos hlt, hp]
              simp only [hret fuel (by omega), hfin, Option.bind_eq_bind, Option.bind_some,
                List.length_nil, Nat.add_zero, if_neg (show ¬ n < copied.length by omega),
                if_true, ← htext, ← harg₃, hloop fuel (by omega), List.append_assoc]
            · -- the part yields data
              have hpos := List.length_pos_iff.mpr hnil
              have hrest₁ := WriteMultipartArg.rest_setWriter hb hp hstep.rest
              obtain ⟨out, arg₂, ⟨enough₂, hloop⟩, h₂, hrest₂, hlen₂, -⟩ :=
                ih (arg.setWriter part w) (copied ++ data)
                  (h.setWriter part hstep.sound hstep.depth) (by simp; omega) (by simp; omega)
                  (fun hne => absurd hb hne)
              refine ⟨data ++ out, arg₂, exists_enough (max enough₁ enough₂) fun fuel hfuel => ?_,
                h₂, by rw [hrest₁, hrest₂, List.append_assoc], by simpa using hlen₂,
                fun _ hz => absurd (List.append_eq_nil_iff.mp hz).1 hnil⟩
              rw [writeMultipartLoop, if_pos hlt, hp]
              simp only [hret fuel (by omega), Option.bind_eq_bind, Option.bind_some,
                if_neg (show ¬ n < copied.length + data.length by omega), if_neg hnil,
                hloop fuel (by omega), List.append_assoc]
      · refine ⟨[], arg, exists_enough 0 fun fuel _ => ?_, h, rfl, by simpa using hcop, by omega⟩
        rw [writeMultipartLoop, if_neg hlt, List.append_nil]

/-- **One call of a sound writer.** It returns success, stores the front of what is left,
at most as much as fits, and nothing only at the end. -/
theorem Writer.Sound.write : ∀ (d : ℕ) (w : Writer), w.Sound → w.depth ≤ d →
    ∀ n, 0 < n → ∃ out w', w.Steps d n out w'
  | d, .block arg, _, hd, n, hn => by
      refine ⟨arg.chunk n, .block (arg.advance n), exists_enough 0 fun fuel _ => rfl, trivial, hd,
        ?_, List.length_take_le _ _, fun hnil => ?_⟩
      · simp only [Writer.rest, WriteBlockArg.chunk, WriteBlockArg.advance]
        rw [← List.drop_drop, List.length_take, ← List.drop_eq_drop_min, List.take_append_drop]
      · rw [WriteBlockArg.chunk, List.take_eq_nil_iff] at hnil
        exact hnil.resolve_left (by omega)
  | d, .fixed callback calls, _, hd, n, hn => by
      refine ⟨callback.write calls n, .fixed callback (calls ++ [n]),
        exists_enough 0 fun fuel _ => rfl, trivial, hd, callback.left_eq calls n hn,
        callback.length_le calls n, fun hnil => ?_⟩
      by_contra hne
      exact callback.progress calls n hn hne hnil
  | 0, .multipart arg, _, hd, n, hn => by simp [Writer.depth] at hd
  | d + 1, .multipart arg, h, hd, n, hn => by
      obtain ⟨hbound, hne, hpend, hparts⟩ := h
      have hdepth : depthParts arg.parts ≤ d := by simpa [Writer.depth] using hd
      have h₀ : arg.Sound d := ⟨hbound, hne, hpend, hparts, hdepth⟩
      obtain ⟨-, hle, -, hfull, -⟩ := arg.sendBoundary_spec n hpend
      obtain ⟨h₁, hrest⟩ := h₀.sendBoundary n
      set text := (arg.sendBoundary n).1 with htext
      set arg₁ := (arg.sendBoundary n).2 with harg₁
      obtain ⟨out, arg₂, ⟨enough, hloop⟩, h₂, hrest₂, hlen₂, hend⟩ :=
        writeMultipartLoop_spec (fun w hw hwd m hm => Writer.Sound.write d w hw hwd m hm)
          (n - text.length) arg₁ text h₁ hle le_rfl hfull
      have hwhole : (Writer.multipart arg).rest = text ++ arg₁.rest := hrest
      refine ⟨text ++ out, .multipart arg₂, exists_enough enough fun fuel hfuel => ?_,
        ⟨h₂.boundary, h₂.nonempty, h₂.pending, h₂.parts⟩, ?_, ?_, hlen₂, fun hnil => ?_⟩
      · simp [Writer.write, ← htext, ← harg₁, hloop fuel hfuel]
      · simpa [Writer.depth] using h₂.depth
      · rw [hwhole, hrest₂, List.append_assoc]
        rfl
      · obtain ⟨ht, ho⟩ := List.append_eq_nil_iff.mp hnil
        rw [hwhole, ht, List.nil_append]
        exact hend (by simp [ht, hn]) ho

/-- The calls of a writer that return success, as reads of a stream. -/
def Writer.Reads : Writer → List ℕ → List Bytes → Writer → Prop :=
  Drain.Reads fun w n out w' => w.Returns n ⟨.success, out⟩ w'

/-- Sound writers are drained exactly. -/
theorem Writer.exact :
    Drain.Exact (fun w n out w' => Writer.Returns w n ⟨.success, out⟩ w') Writer.Sound
      Writer.rest := by
  have key : ∀ (w : Writer) (n : ℕ) (out : Bytes) (w' : Writer), w.Sound → 0 < n →
      w.Returns n ⟨.success, out⟩ w' → w.Steps w.depth n out w' := by
    intro w n out w' hw hn hr
    obtain ⟨out', w'', hstep⟩ := Writer.Sound.write w.depth w hw le_rfl n hn
    obtain ⟨ho, rfl⟩ := hr.unique hstep.returns
    obtain rfl : out = out' := by simpa using ho
    exact hstep
  constructor
  · intro w n hw hn
    obtain ⟨out, w', hstep⟩ := Writer.Sound.write w.depth w hw le_rfl n hn
    exact ⟨out, w', hstep.returns⟩
  · exact fun w n out w' hw hn hr => (key w n out w' hw hn hr).sound
  · exact fun w n out w' hw hn hr => (key w n out w' hw hn hr).rest
  · exact fun w n out w' hw hn hr => (key w n out w' hw hn hr).length
  · exact fun w n w' hw hn hr => (key w n [] w' hw hn hr).exhausted rfl

/-! ### Prepared trees -/

mutual

/-- A fresh tree with delimiters is sound and has its whole encoding left. -/
theorem Writer.Fresh.sound : ∀ w : Writer, w.Fresh → w.Delimited → w.Sound ∧ w.rest = w.encode
  | .block arg, hf, _ => by
      refine ⟨trivial, ?_⟩
      rw [Writer.rest, show arg.offset = 0 from hf]
      rfl
  | .fixed callback calls, hf, _ => by
      refine ⟨trivial, ?_⟩
      rw [Writer.rest, show calls = [] from hf]
      rfl
  | .multipart arg, hf, hd => by
      obtain ⟨⟨hidx, hoff, hstart⟩, hparts⟩ := hf
      obtain ⟨hbound, hne, hdel⟩ := hd
      obtain ⟨delimiter, hb⟩ := Option.isSome_iff_exists.mp hbound
      obtain ⟨hsound, hrest⟩ := FreshParts.sound (some delimiter) arg.parts hparts hdel
      rw [hb] at hstart
      obtain ⟨part, later, hp, hcur, hlen⟩ := hstart
      refine ⟨⟨hbound, hne, ?_, hsound⟩, ?_⟩
      · simp only [WriteMultipartArg.BoundarySound, hcur, hoff]
        exact ⟨List.length_pos_iff.mpr (boundaryText_ne_nil _ _ _), hlen⟩
      · rw [Writer.encode, hb, ← hrest, hp]
        simp [Writer.rest, WriteMultipartArg.boundaryRest, hcur, hoff, hidx, hp, hb, restFrom,
          restParts, boundaryText_start]

/-- The same for a list of parts. -/
theorem FreshParts.sound (boundary : Option Bytes) : ∀ parts : List (WritePart Writer),
    FreshParts parts → DelimitedParts parts →
      SoundParts parts ∧ restParts boundary parts = encodeParts boundary parts
  | [], _, _ => ⟨trivial, rfl⟩
  | part :: parts, hf, hd => by
      obtain ⟨hs, hr⟩ := Writer.Fresh.sound part.writer hf.1 hd.1
      obtain ⟨hss, hrs⟩ := FreshParts.sound boundary parts hf.2 hd.2
      exact ⟨⟨hs, hss⟩, by rw [restParts, encodeParts, hr, hrs]⟩

end

/-- A fresh tree with delimiters is sent by as many reads as its encoding has bytes. -/
theorem Writer.Fresh.exists_sent {w : Writer} (hfresh : w.Fresh) (hdelimited : w.Delimited)
    {ns : List ℕ} {n : ℕ} (hpos : ∀ n ∈ ns, 0 < n) (henough : w.encode.length ≤ ns.length)
    (hn : 0 < n) :
    ∃ outs w' w'', w.Reads ns outs w' ∧ w'.Returns n ⟨.success, []⟩ w'' := by
  obtain ⟨hsound, hrest⟩ := Writer.Fresh.sound w hfresh hdelimited
  exact Writer.exact.exists_drained hsound hpos (hrest ▸ henough) hn

mutual

/-- The body that a client's tree stands for, below these headers: its headers after preparation,
the bytes, and the number of delimiters that were made up. The parts of a multipart body stand in
their order, each behind a delimiter and its headers, and another delimiter closes it. -/
def ClientWriter.body (uuid : ℕ → Bytes) (headers : KeyArray) :
    ClientWriter → ℕ → Option (KeyArray × Bytes × ℕ)
  | .block blockData, drawn => some (headers, blockData, drawn)
  | .blocks blocks, drawn => some (headers, blocks.flatten, drawn)
  | .json dumps, drawn => dumps.map fun jstring =>
    (headers ++ [.pair (bytes "Content-Type") (bytes "application/json; charset=UTF-8")],
      jstring, drawn)
  | .form fields, drawn => (encodeFormData fields).map fun formData =>
    (headers ++ [.pair (bytes "Content-Type") (bytes "application/x-www-form-urlencoded")],
      formData, drawn)
  | .fixed callback, drawn => some (headers, callback.left [], drawn)
  | .client _, drawn => some (headers, [], drawn)
  | .multipart parts, drawn =>
    match multipartHeaders uuid headers drawn with
    | .error _ => none
    | .ok (boundary, headers, drawn) =>
      (partsBody uuid boundary parts drawn).map fun (body, drawn) => (headers, body, drawn)

/-- The parts of a multipart body from some point on. -/
def partsBody (uuid : ℕ → Bytes) (boundary : Option Bytes) :
    List (ClientPart ClientWriter) → ℕ → Option (Bytes × ℕ)
  | [], drawn => some ((boundary.map closeDelimiter).getD [], drawn)
  | part :: parts, drawn => do
    let (headers, body, drawn) ← part.dataWrite.body uuid part.partHeader drawn
    let (later, drawn) ← partsBody uuid boundary parts drawn
    some ((boundary.map (partHead · headers)).getD [] ++ body ++ later, drawn)

end

mutual

/-- **A prepared writer stands for the body of the client's tree.** -/
theorem prepareWriteCallbacks_body (uuid : ℕ → Bytes) :
    ∀ (cw : ClientWriter) (headers : KeyArray) (drawn : ℕ) (part : WritePart Writer) (k : ℕ),
      prepareWriteCallbacks uuid headers cw drawn = .ok (part, k) →
        cw.body uuid headers drawn = some (part.headers, part.writer.encode, k)
  | .block _, _, _, _, _, h => by
      cases h
      rfl
  | .blocks blocks, _, _, _, _, h => by
      cases h
      have hdata : WriteBlockArg.blockData ∘ WriteBlockArg.start = id := rfl
      rw [ClientWriter.body, Writer.encode, List.map_map, hdata, List.map_id]
  | .json none, _, _, _, _, h => by cases h
  | .json (some _), _, _, _, _, h => by
      cases h
      rfl
  | .form fields, _, _, _, _, h => by
      simp only [prepareWriteCallbacks] at h
      split at h
      · cases h
      · rename_i formData hform
        cases h
        rw [ClientWriter.body, hform]
        rfl
  | .fixed _, _, _, _, _, h => by
      cases h
      rfl
  | .client _, _, _, _, _, h => by
      cases h
      rfl
  | .multipart parts, headers, drawn, part, k, h => by
      simp only [prepareWriteCallbacks, bind, Except.bind, pure, Except.pure] at h
      split at h
      · cases h
      rename_i start hheaders
      obtain ⟨boundary, headers', drawn'⟩ := start
      split at h
      · cases h
      rename_i prepared hparts
      split at h
      · cases h
      rename_i arg harg
      cases h
      obtain ⟨-, hp, hboundary⟩ := firstBoundary_start harg
      rw [ClientWriter.body, hheaders]
      simp only
      rw [prepareParts_body uuid boundary parts _ _ _ hparts, Writer.encode, hp, hboundary]
      rfl

/-- The same for the parts of a multipart body. -/
theorem prepareParts_body (uuid : ℕ → Bytes) (boundary : Option Bytes) :
    ∀ (parts : List (ClientPart ClientWriter)) (drawn : ℕ) (prepared : List (WritePart Writer))
      (k : ℕ), prepareParts uuid parts drawn = .ok (prepared, k) →
        partsBody uuid boundary parts drawn = some (encodeParts boundary prepared, k)
  | [], _, _, _, h => by
      cases h
      rfl
  | part :: parts, drawn, prepared, k, h => by
      simp only [prepareParts, bind, Except.bind, pure, Except.pure] at h
      split at h
      · cases h
      rename_i first hfirst
      split at h
      · cases h
      rename_i later hlater
      cases h
      obtain ⟨first, drawn'⟩ := first
      obtain ⟨later, k'⟩ := later
      have hbody := prepareWriteCallbacks_body uuid _ _ _ _ _ hfirst
      have hrest := prepareParts_body uuid boundary parts _ _ _ hlater
      simp only [partsBody, hbody, hrest, Option.bind_eq_bind, Option.bind_some, encodeParts]

end

/-- **Multipart writer exactness.** A prepared tree whose multipart nodes have parts and
delimiters answers every sequence of positive buffer lengths: each call returns success
with at most as many bytes as its buffer holds, the concatenated output is a prefix of
the encoded body and all of it after enough calls, and the next call is empty exactly
when the whole body was sent before it. -/
theorem writeMultipart_exact {uuid : ℕ → Bytes} {headers : KeyArray}
    {parts : List (ClientPart ClientWriter)} {drawn k : ℕ} {part : WritePart Writer}
    (hprep : prepareWriteCallbacks uuid headers (.multipart parts) drawn = .ok (part, k))
    (hdel : part.writer.Delimited) {ns : List ℕ} (hpos : ∀ n ∈ ns, 0 < n) :
    ∃ outs w, part.writer.Reads ns outs w ∧
      Forall₂ (fun n out => out.length ≤ n) ns outs ∧
      outs.flatten <+: part.writer.encode ∧
      (part.writer.encode.length ≤ ns.length → outs.flatten = part.writer.encode) ∧
      ∀ n, 0 < n → ∃ out w', w.Returns n ⟨.success, out⟩ w' ∧
        (out = [] ↔ outs.flatten = part.writer.encode) := by
  obtain ⟨hs, hrest⟩ :=
    Writer.Fresh.sound _ (prepareWriteCallbacks_fresh uuid _ _ _ _ _ hprep) hdel
  obtain ⟨outs, w, hreads⟩ := Writer.exact.exists_reads hs hpos
  refine ⟨outs, w, hreads, Writer.exact.forall_length_le hreads hs hpos, ?_, ?_, ?_⟩
  · rw [← hrest, Writer.exact.flatten_append hreads hs hpos]
    exact List.prefix_append _ _
  · intro henough
    rw [← hrest] at henough ⊢
    exact Writer.exact.flatten_eq hreads hs hpos henough
  · intro n hn
    obtain ⟨out, w', hr⟩ := Writer.exact.returns w n (Writer.exact.inv_reads hreads hs hpos) hn
    refine ⟨out, w', hr, ?_⟩
    rw [← hrest]
    exact Writer.exact.eq_nil_iff hreads hs hpos hn hr

/-- The theorem applies to a JSON part and a nested multipart part, with generated
delimiters. -/
theorem writeMultipart_exact_nested :
    ∃ part k, prepareWriteCallbacks (fun _ => bytes "1") []
        (.multipart [⟨[], .json (some (bytes "[1]"))⟩,
          ⟨[], .multipart [⟨[], .block (bytes "x")⟩]⟩]) 0 = .ok (part, k) ∧
      ∃ outs w, part.writer.Reads [1, 80, 3] outs w ∧
        outs.flatten <+: part.writer.encode := by
  obtain ⟨part, k, hprep, hdel⟩ : ∃ part k, prepareWriteCallbacks (fun _ => bytes "1") []
      (.multipart [⟨[], .json (some (bytes "[1]"))⟩,
        ⟨[], .multipart [⟨[], .block (bytes "x")⟩]⟩]) 0 = .ok (part, k) ∧
      part.writer.Delimited := by
    simp [prepareWriteCallbacks, multipartHeaders, headersSearch, prepareParts, firstBoundary,
      multipartBoundaryPrepare_eq, Writer.Delimited, DelimitedParts, bind, Except.bind, pure,
      Except.pure]
  obtain ⟨outs, w, hreads, -, hprefix, -⟩ :=
    writeMultipart_exact hprep hdel (show ∀ n ∈ [1, 80, 3], 0 < n by decide)
  exact ⟨part, k, hprep, outs, w, hreads, hprefix⟩

end DsiRest
