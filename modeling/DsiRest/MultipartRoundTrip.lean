import DsiRest.MultipartExact
import DsiRest.ReadMultipart

/-!
# Decoding Undoes Encoding

The bytes that `writeMultipart` produces for a list of parts, handed to `readMultipart` in
one call, come back as the same parts: for each part in order one call of the response
callback with its headers, its body through the data read callback, and the call without
data that ends it.

Each section of the stream is one iteration of the reader. The header terminator is found
at the first empty line since every header line interrupts the match that the line end
before it started; the delimiter of a body is found where it is since its front
`CRLF -- boundary` does not occur in the body and has its only carriage return at the
start (`Matcher.feed_first`).

## Main results

* `parseHeaderLines_flatMap` — a header block is parsed into the headers it was made of.
* `readMultipart_writeMultipart` — the round trip.
-/

namespace DsiRest

/-! ### Header blocks -/

/-- A header that survives transmission: a name without colon, line end or NUL that does
not continue the line before it, and a value without carriage return or NUL that does not
start with white space. -/
inductive KeyValue.Transmittable : KeyValue → Prop
  | pair {key value : Bytes} (keyNonempty : key ≠ []) (keyColon : colon ∉ key)
      (keyCr : cr ∉ key) (keyNul : 0 ∉ key) (keyStart : ∀ b ∈ key.head?, b ≠ space ∧ b ≠ tab)
      (valueNonempty : value ≠ []) (valueCr : cr ∉ value) (valueNul : 0 ∉ value)
      (valueStart : ∀ b ∈ value.head?, isHeaderSpace b = false) :
      Transmittable (.pair key value)

/-- The text of a transmittable header line: nothing in it is a carriage return or NUL,
and its first byte is no white space. -/
theorem KeyValue.Transmittable.headerLine {kv : KeyValue} (h : kv.Transmittable) :
    ∃ first line, headerLine kv = first :: line ++ crlf ∧ cr ∉ first :: line ∧
      0 ∉ first :: line ∧ first ≠ space ∧ first ≠ tab := by
  cases h with
  | @pair key value keyNonempty _ keyCr keyNul keyStart _ valueCr valueNul _ =>
      obtain ⟨first, key', rfl⟩ := List.exists_cons_of_ne_nil keyNonempty
      refine ⟨first, key' ++ bytes ": " ++ value, by simp [DsiRest.headerLine], ?_, ?_,
        keyStart first rfl⟩
      · simp only [← List.cons_append, List.mem_append, not_or]
        exact ⟨⟨keyCr, by decide⟩, valueCr⟩
      · simp only [← List.cons_append, List.mem_append, not_or]
        exact ⟨⟨keyNul, by decide⟩, valueNul⟩

/-- Text without carriage returns belongs to the current line. -/
theorem parseHeaderLines_append : ∀ {text : Bytes} (_ : cr ∉ text) (line next : Bytes)
    (result : Result) (headers : HeaderList),
    parseHeaderLines line (text ++ next) result headers
      = parseHeaderLines (line ++ text) next result headers
  | [], _, line, next, result, headers => by simp
  | b :: text, h, line, next, result, headers => by
      obtain ⟨hb, htext⟩ := not_or.mp (fun hm => h (List.mem_cons.mpr hm))
      have hstep : parseHeaderLines line (b :: (text ++ next)) result headers
          = parseHeaderLines (line ++ [b]) (text ++ next) result headers := by
        rw [parseHeaderLines]
        exact fun _ hcr _ => hb hcr.symm
      rw [List.cons_append, hstep, parseHeaderLines_append htext]
      simp

/-- A line that is continued is not parsed yet. -/
theorem parseHeaderLines_continued {text after : Bytes} (htext : cr ∉ text)
    (hcont : after.head? = some space ∨ after.head? = some tab) (line : Bytes) (result : Result)
    (headers : HeaderList) :
    parseHeaderLines line (text ++ crlf ++ after) result headers
      = parseHeaderLines (line ++ text ++ crlf) after result headers := by
  have hnext : parseHeaderLines line (text ++ (crlf ++ after)) result headers
      = parseHeaderLines (line ++ text) (13 :: 10 :: after) result headers := by
    rw [parseHeaderLines_append htext]
    rfl
  rw [List.append_assoc, hnext, parseHeaderLines, if_pos hcont]

/-- The end of a line that is not continued: the line is parsed, and the lines behind it are
next. -/
theorem parseHeaderLines_end {text after : Bytes} (htext : cr ∉ text)
    (hend : ¬ (after.head? = some space ∨ after.head? = some tab)) (line : Bytes) (result : Result)
    (headers : HeaderList) :
    parseHeaderLines line (text ++ crlf ++ after) result headers
      = (headerParse headers (line ++ text ++ crlf ++ after) (line ++ text).length).bind
        fun (result, headers) => parseHeaderLines [] after result headers := by
  have hnext : parseHeaderLines line (text ++ (crlf ++ after)) result headers
      = parseHeaderLines (line ++ text) (13 :: 10 :: after) result headers := by
    rw [parseHeaderLines_append htext]
    rfl
  rw [List.append_assoc, hnext, parseHeaderLines, if_neg hend]
  cases headerParse headers (line ++ text ++ crlf ++ after) (line ++ text).length <;> rfl

/-- A line that is not continued is parsed, and the lines behind it are next. -/
theorem parseHeaderLines_ended {line after : Bytes} (hline : cr ∉ line)
    (hend : ¬ (after.head? = some space ∨ after.head? = some tab)) (result : Result)
    (headers : HeaderList) :
    parseHeaderLines [] (line ++ crlf ++ after) result headers
      = (headerParse headers (line ++ crlf ++ after) line.length).bind fun (result, headers) =>
        parseHeaderLines [] after result headers :=
  parseHeaderLines_end hline hend [] result headers

/-- A text of one or more lines, without the end of the last one, that is parsed into an entry
if no line behind it continues it. -/
structure ParsesTo (text : Bytes) (entry : KeyValue) : Prop where
  start : ∃ b ∈ text.head?, b ≠ space ∧ b ≠ tab
  parse : ∀ {after : Bytes}, ¬ (after.head? = some space ∨ after.head? = some tab) →
    ∀ (result : Result) (headers : HeaderList), ∃ headers',
      parseHeaderLines [] (text ++ crlf ++ after) result headers
        = parseHeaderLines [] after .success headers' ∧
      headers'.entries = headers.entries ++ [entry]

/-- A single line is such a text. -/
theorem ParsesTo.line {line : Bytes} {entry : KeyValue} (hcr : cr ∉ line)
    (hstart : ∃ b ∈ line.head?, b ≠ space ∧ b ≠ tab)
    (hparse : ∀ headers after, ∃ headers', headerParse headers (line ++ after) line.length
      = some (.success, headers') ∧ headers'.entries = headers.entries ++ [entry]) :
    ParsesTo line entry where
  start := hstart
  parse hend result headers := by
    obtain ⟨headers', hline, hentries⟩ := hparse headers (crlf ++ _)
    refine ⟨headers', ?_, hentries⟩
    rw [parseHeaderLines_ended hcr hend, List.append_assoc, hline]
    rfl

/-- No block of such texts starts with a space or a tab. -/
theorem head?_texts {texts : List Bytes} {kvs : KeyArray} (h : List.Forall₂ ParsesTo texts kvs) :
    ¬ ((texts.flatMap (· ++ crlf) ++ crlf).head? = some space ∨
      (texts.flatMap (· ++ crlf) ++ crlf).head? = some tab) := by
  cases h with
  | nil => decide
  | cons hfirst _ =>
      obtain ⟨b, hb, hspace, htab⟩ := hfirst.start
      obtain ⟨text, rfl⟩ := List.head?_eq_some_iff.mp hb
      simp [hspace, htab]

/-- **A block of texts** is parsed into their entries. -/
theorem parseHeaderLines_texts {texts : List Bytes} {kvs : KeyArray}
    (h : List.Forall₂ ParsesTo texts kvs) : ∀ (result : Result) (headers : HeaderList),
    ∃ headers', parseHeaderLines [] (texts.flatMap (· ++ crlf) ++ crlf) result headers
        = some (.success, headers') ∧ headers'.entries = headers.entries ++ kvs := by
  induction h with
  | nil =>
      intro result headers
      refine ⟨headers.grow, ?_, by simp⟩
      rw [List.flatMap_nil, List.nil_append, parseHeaderLines, if_neg (by simp),
        headerParse_of_no_colon (by simp)]
      rfl
  | cons hfirst hlater ih =>
      intro result headers
      obtain ⟨headers₁, hparse, hentries⟩ := hfirst.parse (head?_texts hlater) result headers
      obtain ⟨headers₂, hrest, hall⟩ := ih .success headers₁
      refine ⟨headers₂, ?_, by rw [hall, hentries, List.append_assoc, List.singleton_append]⟩
      rw [List.flatMap_cons, List.append_assoc, hparse, hrest]

/-- A header line is parsed into its header. -/
theorem KeyValue.Transmittable.parsesTo {kv : KeyValue} (h : kv.Transmittable) {line : Bytes}
    (hline : DsiRest.headerLine kv = line ++ crlf) : ParsesTo line kv := by
  cases h with
  | @pair key value keyNonempty keyColon keyCr keyNul keyStart valueNonempty valueCr valueNul
      valueStart =>
      obtain rfl : key ++ [colon, space] ++ value = line :=
        List.append_cancel_right (show _ ++ crlf = line ++ crlf from hline)
      have hlen : (key ++ [colon, space] ++ value).length = key.length + 2 + value.length := by
        simp only [List.length_append, List.length_cons, List.length_nil]
      refine .line ?_ ?_ fun headers after => ?_
      · simp only [List.mem_append, not_or]
        exact ⟨⟨keyCr, by decide⟩, valueCr⟩
      · obtain ⟨b, rest, rfl⟩ := List.exists_cons_of_ne_nil keyNonempty
        exact ⟨b, rfl, keyStart b rfl⟩
      · rw [hlen]
        exact headerParse_pair keyNonempty keyColon keyNul valueStart valueNonempty valueNul valueCr

/-- A header block consists of lines. -/
theorem headerLines_eq {kvs : KeyArray} (h : ∀ kv ∈ kvs, kv.Transmittable) :
    ∃ lines : List Bytes, List.Forall₂ ParsesTo lines kvs ∧
      (∀ line ∈ lines, line ≠ [] ∧ cr ∉ line) ∧
      kvs.flatMap headerLine = lines.flatMap (· ++ crlf) := by
  induction kvs with
  | nil => exact ⟨[], .nil, by simp, rfl⟩
  | cons kv kvs ih =>
      obtain ⟨hkv, hkvs⟩ := List.forall_mem_cons.mp h
      obtain ⟨lines, hall, hlines, hblock⟩ := ih hkvs
      obtain ⟨first, line, hline, hcr, -⟩ := hkv.headerLine
      refine ⟨(first :: line) :: lines, .cons (hkv.parsesTo hline) hall, ?_, ?_⟩
      · exact List.forall_mem_cons.mpr ⟨⟨List.cons_ne_nil _ _, hcr⟩, hlines⟩
      · rw [List.flatMap_cons, List.flatMap_cons, hline, hblock]

/-- No header block starts with a space or a tab. -/
theorem head?_headerBlock {kvs : KeyArray} (h : ∀ kv ∈ kvs, kv.Transmittable) :
    ¬ ((kvs.flatMap headerLine ++ crlf).head? = some space ∨
      (kvs.flatMap headerLine ++ crlf).head? = some tab) := by
  obtain ⟨lines, hall, -, hblock⟩ := headerLines_eq h
  rw [hblock]
  exact head?_texts hall

/-- **A header block is parsed into its headers.** -/
theorem parseHeaderLines_flatMap {kvs : KeyArray} (h : ∀ kv ∈ kvs, kv.Transmittable)
    (result : Result) (headers : HeaderList) :
    ∃ headers', parseHeaderLines [] (kvs.flatMap headerLine ++ crlf) result headers
        = some (.success, headers') ∧ headers'.entries = headers.entries ++ kvs := by
  obtain ⟨lines, hall, -, hblock⟩ := headerLines_eq h
  rw [hblock]
  exact parseHeaderLines_texts hall result headers

/-- No NUL cuts a header block short. -/
theorem nul_notMem_headerBlock {kvs : KeyArray} (h : ∀ kv ∈ kvs, kv.Transmittable) :
    0 ∉ kvs.flatMap headerLine ++ crlf := by
  rw [List.mem_append, List.mem_flatMap, not_or]
  refine ⟨?_, by decide⟩
  rintro ⟨kv, hkv, hmem⟩
  obtain ⟨first, line, hline, -, hnul, -⟩ := (h kv hkv).headerLine
  rw [hline, List.mem_append] at hmem
  exact hmem.elim hnul (by decide)

/-- A line interrupts the match of the terminator and leaves its first half matched. -/
theorem feed_line {line : Bytes} (hne : line ≠ []) (hcr : cr ∉ line) (rest : Bytes) {m : ℕ}
    (hm : m = 0 ∨ m = 2) :
    Matcher.feed (bytes "\r\n\r\n") m (line ++ crlf ++ rest)
      = ((Matcher.feed (bytes "\r\n\r\n") 2 rest).1,
        (Matcher.feed (bytes "\r\n\r\n") 2 rest).2 + (line ++ crlf).length) := by
  have hskip : Matcher.feed (bytes "\r\n\r\n") m line = (0, line.length) := by
    refine Matcher.feed_skip (by decide) hne
      (by rcases hm with rfl | rfl <;> decide) fun a ha => ?_
    have hne : a ≠ cr := fun he => hcr (he ▸ ha)
    have h0 : (bytes "\r\n\r\n")[0]? = some cr := by decide
    have h2 : (bytes "\r\n\r\n")[2]? = some cr := by decide
    rcases hm with rfl | rfl
    · rw [h0]
      exact ⟨fun he => hne (Option.some.inj he).symm, fun he => hne (Option.some.inj he).symm⟩
    · rw [h0, h2]
      exact ⟨fun he => hne (Option.some.inj he).symm, fun he => hne (Option.some.inj he).symm⟩
  have hcrlf : Matcher.feed (bytes "\r\n\r\n") 0 (crlf ++ rest)
      = ((Matcher.feed (bytes "\r\n\r\n") 2 rest).1,
        (Matcher.feed (bytes "\r\n\r\n") 2 rest).2 + 2) := by
    have hpre : Matcher.feed (bytes "\r\n\r\n") 0 crlf = (2, 2) := by decide
    rw [Matcher.feed_append rest (by rw [hpre]; decide) (by decide), hpre]
    rfl
  have hpos : 0 < (bytes "\r\n\r\n").length := by decide
  rw [List.append_assoc, Matcher.feed_append _ (by rw [hskip]; exact hpos)
    (by rcases hm with rfl | rfl <;> decide), hskip, hcrlf]
  refine Prod.ext rfl ?_
  simp only [List.length_append, length_crlf]
  omega

/-- The terminator behind lines is found at the empty line. -/
theorem feed_lines {lines : List Bytes} (hne : lines ≠ [])
    (h : ∀ line ∈ lines, line ≠ [] ∧ cr ∉ line) (rest : Bytes) :
    Matcher.feed (bytes "\r\n\r\n") 0 (lines.flatMap (· ++ crlf) ++ crlf ++ rest)
      = (4, (lines.flatMap (· ++ crlf) ++ crlf).length) := by
  have htail : ∀ later : List Bytes, (∀ line ∈ later, line ≠ [] ∧ cr ∉ line) →
      Matcher.feed (bytes "\r\n\r\n") 2 (later.flatMap (· ++ crlf) ++ crlf ++ rest)
        = (4, (later.flatMap (· ++ crlf) ++ crlf).length) := by
    intro later hlater
    induction later with
    | nil => exact Matcher.feed_drop rest 2 2 rfl
    | cons line later ih =>
        obtain ⟨hline, hlater⟩ := List.forall_mem_cons.mp hlater
        rw [List.flatMap_cons, List.append_assoc, List.append_assoc,
          feed_line hline.1 hline.2 _ (Or.inr rfl), ← List.append_assoc, ih hlater]
        refine Prod.ext rfl ?_
        simp only [List.length_append]
        omega
  obtain ⟨line, later, rfl⟩ := List.exists_cons_of_ne_nil hne
  obtain ⟨hline, hlater⟩ := List.forall_mem_cons.mp h
  rw [List.flatMap_cons, List.append_assoc, List.append_assoc,
    feed_line hline.1 hline.2 _ (Or.inl rfl), ← List.append_assoc, htail later hlater]
  refine Prod.ext rfl ?_
  simp only [List.length_append]
  omega

/-- **The end of the lines** is the only place with two line ends in a row. -/
theorem lines_end : ∀ {lines : List Bytes} (_ : ∀ line ∈ lines, line ≠ [] ∧ cr ∉ line)
    {front rest : Bytes},
    lines.flatMap (· ++ crlf) ++ crlf = front ++ bytes "\r\n\r\n" ++ rest → rest = []
  | [], _, front, rest, h => by
      have hlen := congrArg List.length h
      simp only [List.flatMap_nil, List.nil_append, List.length_append,
        length_crlf, show (bytes "\r\n\r\n").length = 4 from rfl] at hlen
      omega
  | line :: later, hlines, front, rest, h => by
      obtain ⟨⟨-, hcr⟩, hlater⟩ := List.forall_mem_cons.mp hlines
      rw [List.flatMap_cons] at h
      simp only [List.append_assoc] at h
      obtain ⟨front', hrest⟩ : ∃ front', crlf ++ (later.flatMap (· ++ crlf) ++ crlf)
          = front' ++ (bytes "\r\n\r\n" ++ rest) := by
        rcases List.append_eq_append_iff.mp h with ⟨front', -, hrest⟩ | ⟨line', hline', hrest⟩
        · exact ⟨front', hrest⟩
        · -- the pattern does not start inside the text of the line
          cases line' with
          | nil => exact ⟨[], hrest.symm⟩
          | cons b line' =>
              obtain rfl : cr = b := (List.cons.inj hrest).1
              exact absurd (hline' ▸ List.mem_append_right front List.mem_cons_self) hcr
      match front', hrest with
      | [], hrest =>
          have hnext : later.flatMap (· ++ crlf) ++ crlf = crlf ++ rest := by
            exact (List.cons.inj (List.cons.inj hrest).2).2
          cases later with
          | nil => exact List.append_cancel_left (show crlf ++ rest = crlf ++ [] from hnext.symm)
          | cons line' later =>
              obtain ⟨hne', hcr'⟩ := hlater line' List.mem_cons_self
              obtain ⟨first, line', rfl⟩ := List.exists_cons_of_ne_nil hne'
              rw [List.flatMap_cons] at hnext
              have hfirst : first = cr := (List.cons.inj hnext).1
              exact absurd (hfirst ▸ List.mem_cons_self) hcr'
      | [_], hrest => exact absurd (List.cons.inj (List.cons.inj hrest).2).1 (by decide)
      | _ :: _ :: front', hrest =>
          have hagain : later.flatMap (· ++ crlf) ++ crlf
              = front' ++ bytes "\r\n\r\n" ++ rest := by
            rw [List.append_assoc]
            exact (List.cons.inj (List.cons.inj hrest).2).2
          exact lines_end hlater hagain

/-- **The terminator of a header block** is found at its empty line. -/
theorem feed_headerBlock {kvs : KeyArray} (hne : kvs ≠ []) (h : ∀ kv ∈ kvs, kv.Transmittable)
    (rest : Bytes) :
    Matcher.feed (bytes "\r\n\r\n") 0 (kvs.flatMap headerLine ++ crlf ++ rest)
      = (4, (kvs.flatMap headerLine ++ crlf).length) := by
  obtain ⟨lines, hall, hlines, hblock⟩ := headerLines_eq h
  have hnonempty : lines ≠ [] := by
    rw [← List.length_pos_iff, hall.length_eq]
    exact List.length_pos_iff.mpr hne
  rw [hblock]
  exact feed_lines hnonempty hlines rest

/-! ### The delimiters of the stream -/

/-- The delimiter that ends the body of the part in front of `later`. -/
def bodyEnd (boundary : Bytes) (later : List (WritePart Writer)) : Bytes :=
  if later = [] then bytes "\r\n--" ++ boundary ++ bytes "--\r\n"
  else bytes "\r\n--" ++ boundary ++ bytes "\r\n"

/-- What follows a part's headers. -/
def afterHeaders (boundary : Bytes) : List (WritePart Writer) → Bytes
  | [] => []
  | part :: later => part.headers.flatMap headerLine ++ crlf ++
      (part.writer.encode ++ (bodyEnd boundary later ++ afterHeaders boundary later))

/-- The parts behind the delimiter of the first one. -/
theorem encodeParts_cons (boundary : Bytes) (part : WritePart Writer)
    (later : List (WritePart Writer)) :
    encodeParts (some boundary) (part :: later)
      = crlf ++ (bytes "--" ++ boundary ++ bytes "\r\n") ++
        afterHeaders boundary (part :: later) := by
  have htail : ∀ later : List (WritePart Writer), encodeParts (some boundary) later
      = bodyEnd boundary later ++ afterHeaders boundary later := by
    intro later
    induction later with
    | nil =>
        rw [encodeParts, bodyEnd, if_pos rfl, afterHeaders]
        simp [closeDelimiter, bytes, crlf]
    | cons part later ih =>
        rw [encodeParts, bodyEnd, if_neg (List.cons_ne_nil _ _), afterHeaders, ih]
        simp [partHead, bytes, crlf]
  rw [encodeParts, afterHeaders, htail later]
  simp [partHead, bytes, crlf]

/-! ### Reading a part -/

/-- The calls that hand over a part. -/
def partCalls (k : ℕ) (part : WritePart Writer) : List PartCall :=
  [.response k part.headers] ++ dataCalls (some k) (nonempty part.writer.encode ++ [[]])

/-- The calls that hand over parts, numbered from `k` on. -/
def partsCalls : ℕ → List (WritePart Writer) → List PartCall
  | _, [] => []
  | k, part :: later => partCalls k part ++ partsCalls (k + 1) later

/-- The assumptions on a part: it has headers, they can be transmitted, and the body does
not contain the front of a delimiter. -/
structure Decodable (boundary : Bytes) (part : WritePart Writer) : Prop where
  headers : part.headers ≠ []
  transmittable : ∀ kv ∈ part.headers, kv.Transmittable
  body : ¬ (crlf ++ bytes "--" ++ boundary) <:+: part.writer.encode

section Reading

variable (heap : Bytes → ℕ → Byte) {boundary : Bytes} {n : ℕ}

/-- The reader is at the start of a section of a message with `n` parts, and the headers of
the parts from `fresh` on are still empty. -/
structure AtSection (boundary : Bytes) (n : ℕ) (index : Option ℕ) (header : Bool) (fresh : ℕ)
    (arg : ReadMultipartArg) : Prop where
  boundary : arg.boundary = boundary
  length : arg.parts.length = n
  parts : ∀ j, fresh ≤ j → j < n → arg.parts[j]? = some ⟨HeaderList.empty, true⟩
  partIndex : arg.partIndex = index
  needHeader : arg.needHeader = header
  matchCounter : arg.matchCounter = 0
  boundaryBuffer : arg.boundaryBuffer = []
  headerBufferOffset : arg.headerBufferOffset = 0

/-- The prepared reader is at the start of the message. -/
theorem AtSection.prepare :
    AtSection boundary n none false 0
      (prepareReadMultipart boundary (List.replicate n true)) where
  boundary := rfl
  length := by simp [prepareReadMultipart]
  parts := fun j _ hj => by
    simp [prepareReadMultipart, hj]
  partIndex := rfl
  needHeader := rfl
  matchCounter := rfl
  boundaryBuffer := rfl
  headerBufferOffset := rfl

namespace AtSection

variable {index : Option ℕ} {header : Bool} {fresh k : ℕ} {arg : ReadMultipartArg}

/-- The delimiter that ends the section. -/
theorem delimiter (h : AtSection boundary n index header fresh arg) :
    arg.delimiter = delimiterText boundary n index header := by
  rw [ReadMultipartArg.delimiter, h.boundary, h.length, h.partIndex, h.needHeader]

/-- The reader can go on from the start of a section. -/
theorem ready (h : AtSection boundary n index header fresh arg)
    (hh : header = true → ∃ k, index = some k ∧ k < n) : arg.Ready where
  counter := by
    rw [h.matchCounter]
    exact (length_delimiterText _ _ _ _).1
  buffered := by rw [h.boundaryBuffer, h.matchCounter, List.take_zero, ite_self]
  header := fun hn => by
    obtain ⟨k, hk, hlt⟩ := hh (h.needHeader ▸ hn)
    exact ⟨k, h.partIndex.trans hk, by rwa [h.length]⟩
  epilogue := fun _ _ => Or.inr h.matchCounter

/-- **The headers of a part** are handed to its response callback. -/
theorem step_headers (h : AtSection boundary n (some k) true k arg) (hk : k < n)
    {kvs : KeyArray} (hne : kvs ≠ []) (hkvs : ∀ kv ∈ kvs, kv.Transmittable) (rest : Bytes) :
    ∃ arg', arg.step heap .success (kvs.flatMap headerLine ++ crlf ++ rest)
        = some ((kvs.flatMap headerLine ++ crlf).length, .success, arg') ∧
      AtSection boundary n (some k) false (k + 1) arg' ∧
      arg'.calls = arg.calls ++ [.response k kvs] := by
  have hd : arg.delimiter = bytes "\r\n\r\n" := h.delimiter
  have hpart := h.parts k le_rfl hk
  have hready := h.ready fun _ => ⟨k, rfl, hk⟩
  obtain ⟨headers, hparse, hentries⟩ :=
    parseHeaderLines_flatMap hkvs .success HeaderList.empty
  have hkeep : headers.entries = kvs := hentries
  have hfeed := feed_headerBlock hne hkvs rest
  have hnul := nul_notMem_headerBlock hkvs
  set piece := kvs.flatMap headerLine ++ crlf with hpiece
  have hstep : arg.step heap .success (piece ++ rest) = some (piece.length, .success,
      { arg with
        needHeader := false, headerBufferOffset := 0, headerBuffer := piece ++ [0]
        matchCounter := 0, parts := arg.parts.set k ⟨headers, true⟩
        calls := arg.calls ++ [.response k kvs] }) := by
    rw [hready.step_header h.needHeader, h.matchCounter, hd, hfeed, List.take_left,
      ReadMultipartArg.readHeader, if_pos (by exact rfl), h.headerBufferOffset, saveHeader_zero,
      cstr_append_nul hnul]
    simp only [h.partIndex, hpart, hparse, hkeep, Option.bind_eq_bind, Option.bind_some, if_true,
      Option.map_some]
  refine ⟨_, hstep, ?_, rfl⟩
  exact
    { boundary := h.boundary
      length := by simp [h.length]
      parts := fun j hj hjn => by
        rw [List.getElem?_set_ne (by omega)]
        exact h.parts j (by omega) hjn
      partIndex := h.partIndex
      needHeader := rfl
      matchCounter := rfl
      boundaryBuffer := h.boundaryBuffer
      headerBufferOffset := rfl }

/-- A section of text outside a header block that ends with the delimiter looked for. -/
theorem step_text (h : AtSection boundary n index false fresh arg)
    (hin : ∀ k, index = some k → k < n) {text : Bytes} {rest : Bytes}
    (hfeed : Matcher.feed (delimiterText boundary n index false) 0
        (text ++ delimiterText boundary n index false ++ rest)
      = ((delimiterText boundary n index false).length,
        text.length + (delimiterText boundary n index false).length)) :
    ∃ arg', arg.step heap .success (text ++ delimiterText boundary n index false ++ rest)
        = some (text.length + (delimiterText boundary n index false).length, .success, arg') ∧
      AtSection boundary n (some (nextPart index)) (decide (nextPart index < n)) fresh arg' ∧
      arg'.calls = arg.calls ++ dataCalls index (nonempty text ++ [[]]) := by
  have hd := h.delimiter
  have hin' : ∀ k, arg.partIndex = some k → k < arg.parts.length := by
    rw [h.partIndex, h.length]
    exact hin
  have hstep : arg.step heap .success _ = _ :=
    (h.ready fun hh => absurd hh Bool.false_ne_true).step_complete h.needHeader hin'
      (by rw [hd, h.matchCounter, hfeed])
  rw [hd, h.matchCounter, hfeed, h.partIndex, h.length] at hstep
  refine ⟨_, hstep, ?_, ?_⟩
  · exact
      { boundary := h.boundary
        length := h.length
        parts := h.parts
        partIndex := rfl
        needHeader := rfl
        matchCounter := rfl
        boundaryBuffer := rfl
        headerBufferOffset := h.headerBufferOffset }
  · have hnothing : arg.replayed
        (text ++ delimiterText boundary n index false ++ rest) = [] := by
      rw [ReadMultipartArg.replayed, h.boundaryBuffer, nonempty_nil, ite_self]
    have hcompleted : arg.completed (text ++ delimiterText boundary n index false ++ rest)
        = nonempty text ++ [[]] := by
      rw [ReadMultipartArg.completed, hnothing, hd, h.matchCounter, hfeed, Nat.add_sub_cancel,
        List.append_assoc text, List.take_left, List.nil_append]
    exact congrArg (fun buffers => arg.calls ++ dataCalls index buffers) hcompleted

/-- **The preface** is skipped. -/
theorem step_preface (h : AtSection boundary n none false 0 arg) (rest : Bytes) :
    ∃ arg', arg.step heap .success
        (crlf ++ (bytes "--" ++ boundary ++ bytes "\r\n") ++ rest)
        = some (2 + (bytes "--" ++ boundary ++ bytes "\r\n").length, .success, arg') ∧
      AtSection boundary n (some 0) (decide (0 < n)) 0 arg' ∧ arg'.calls = arg.calls := by
  have hfeed : Matcher.feed ((45 :: []) ++ (45 :: (boundary ++ crlf))) 0
      (crlf ++ ((45 :: []) ++ (45 :: (boundary ++ crlf))) ++ rest)
      = (((45 :: []) ++ (45 :: (boundary ++ crlf))).length,
        crlf.length + ((45 :: []) ++ (45 :: (boundary ++ crlf))).length) :=
    Matcher.feed_first List.not_mem_nil (by decide) rest
  obtain ⟨arg', hstep, hsection, hcalls⟩ :=
    h.step_text heap (fun k hk => absurd hk (by simp)) hfeed
  exact ⟨arg', hstep, hsection, by simpa using hcalls⟩

/-- The delimiter behind the body of part `k`. -/
theorem delimiterText_body {later : List (WritePart Writer)} (hn : k + (later.length + 1) = n) :
    delimiterText boundary n (some k) false = bodyEnd boundary later := by
  cases later with
  | nil =>
      have hlast : k + 1 = n := by simpa using hn
      simp [delimiterText, bodyEnd, hlast]
  | cons part later =>
      have hmore : k + 1 ≠ n := by
        rw [List.length_cons] at hn
        omega
      simp [delimiterText, bodyEnd, hmore]

/-- **The body of a part** is handed to its data read callback, followed by its end. -/
theorem step_body (h : AtSection boundary n (some k) false fresh arg) (hcr : cr ∉ boundary)
    {later : List (WritePart Writer)} (hn : k + (later.length + 1) = n) {body : Bytes}
    (hbody : ¬ (crlf ++ bytes "--" ++ boundary) <:+: body) (rest : Bytes) :
    ∃ arg', arg.step heap .success (body ++ bodyEnd boundary later ++ rest)
        = some (body.length + (bodyEnd boundary later).length, .success, arg') ∧
      AtSection boundary n (some (k + 1)) (decide (k + 1 < n)) fresh arg' ∧
      arg'.calls = arg.calls ++ dataCalls (some k) (nonempty body ++ [[]]) := by
  obtain ⟨tail, htail⟩ : ∃ tail, bodyEnd boundary later
      = (cr :: (lf :: (bytes "--" ++ boundary))) ++ tail := by
    unfold bodyEnd
    split
    · exact ⟨bytes "--\r\n", by simp [bytes]⟩
    · exact ⟨bytes "\r\n", by simp [bytes]⟩
  have hcore : cr ∉ lf :: (bytes "--" ++ boundary) := by
    rw [List.mem_cons, List.mem_append, not_or, not_or]
    exact ⟨by decide, by decide, hcr⟩
  have hfeed : Matcher.feed (bodyEnd boundary later) 0 (body ++ bodyEnd boundary later ++ rest)
      = ((bodyEnd boundary later).length, body.length + (bodyEnd boundary later).length) := by
    rw [htail]
    exact Matcher.feed_first hcore (by simpa using hbody) rest
  rw [← delimiterText_body hn] at hfeed ⊢
  refine h.step_text heap (fun j hj => ?_) hfeed
  obtain rfl := Option.some.inj hj
  omega

end AtSection

/-! ### The message -/

/-- The reader hands over the parts one after another. -/
theorem AtSection.loop_parts (hcr : cr ∉ boundary) : ∀ (parts : List (WritePart Writer))
    {k fuel : ℕ} {arg : ReadMultipartArg}, parts ≠ [] →
    AtSection boundary n (some k) true k arg → k + parts.length = n →
    (∀ part ∈ parts, Decodable boundary part) →
    (afterHeaders boundary parts).length < fuel →
    ∃ arg', ReadMultipartArg.loop heap fuel arg .success (afterHeaders boundary parts)
        = some (.success, arg') ∧
      arg'.partIndex = some n ∧ arg'.calls = arg.calls ++ partsCalls k parts
  | [], _, _, _, hne, _, _, _, _ => absurd rfl hne
  | part :: later, k, fuel, arg, _, h, hn, hparts, hfuel => by
      obtain ⟨hpart, hlater⟩ := List.forall_mem_cons.mp hparts
      have hend : 0 < (bodyEnd boundary later).length := by
        unfold bodyEnd
        split <;> simp [bytes]
      rw [afterHeaders] at hfuel ⊢
      simp only [List.length_append, length_crlf] at hfuel
      obtain ⟨fuel, rfl⟩ : ∃ f, fuel = f + 2 := ⟨fuel - 2, by omega⟩
      obtain ⟨arg₁, hstep₁, h₁, hcalls₁⟩ :=
        h.step_headers heap (by rw [List.length_cons] at hn; omega) hpart.headers hpart.transmittable
          (part.writer.encode ++ (bodyEnd boundary later ++ afterHeaders boundary later))
      obtain ⟨arg₂, hstep₂, h₂, hcalls₂⟩ :=
        h₁.step_body heap hcr hn hpart.body (afterHeaders boundary later)
      have hloop : ReadMultipartArg.loop heap (fuel + 2) arg .success
            (part.headers.flatMap headerLine ++ crlf ++
              (part.writer.encode ++ (bodyEnd boundary later ++ afterHeaders boundary later)))
          = ReadMultipartArg.loop heap fuel arg₂ .success (afterHeaders boundary later) := by
        rw [ReadMultipartArg.loop_of_step (by simp) hstep₁, List.drop_left,
          ← List.append_assoc,
          ReadMultipartArg.loop_of_step
            (by rw [← List.length_pos_iff]; simp only [List.length_append]; omega) hstep₂,
          ← List.length_append, List.drop_left]
      rw [hloop]
      by_cases hnil : later = []
      · subst hnil
        refine ⟨arg₂, ReadMultipartArg.loop_nil heap (by omega) arg₂ .success, ?_, ?_⟩
        · rw [h₂.partIndex, ← hn]
          rfl
        · rw [hcalls₂, hcalls₁, partsCalls, partsCalls, partCalls, List.append_nil,
            List.append_assoc]
      · have hmore : k + 1 + later.length = n := by
          rw [List.length_cons] at hn
          omega
        have hpos := List.length_pos_iff.mpr hnil
        have hleft : (afterHeaders boundary later).length < fuel := by omega
        rw [decide_eq_true (by omega)] at h₂
        obtain ⟨arg', hrest, hindex, hcalls⟩ :=
          AtSection.loop_parts hcr later hnil h₂ hmore hlater hleft
        refine ⟨arg', hrest, hindex, ?_⟩
        rw [hcalls, hcalls₂, hcalls₁, partsCalls, partCalls]
        simp only [List.append_assoc]

/-- The reader skips what is in front of the headers of the first part. -/
theorem AtSection.loop_preface (part : WritePart Writer) (later : List (WritePart Writer))
    (fuel : ℕ) :
    ∃ arg', ReadMultipartArg.loop heap (fuel + 1)
          (prepareReadMultipart boundary (List.replicate n true)) .success
          (encodeParts (some boundary) (part :: later))
        = ReadMultipartArg.loop heap fuel arg' .success
          (afterHeaders boundary (part :: later)) ∧
      AtSection boundary n (some 0) (decide (0 < n)) 0 arg' ∧ arg'.calls = [] := by
  obtain ⟨arg', hstep, hsection, hcalls⟩ :=
    AtSection.prepare.step_preface heap (afterHeaders boundary (part :: later))
  refine ⟨arg', ?_, hsection, hcalls⟩
  set preface := crlf ++ (bytes "--" ++ boundary ++ bytes "\r\n") with hpreface
  have hlong : 0 < preface.length := by simp [hpreface]
  have hwhole : crlf.length + (bytes "--" ++ boundary ++ bytes "\r\n").length
      = preface.length := List.length_append.symm
  rw [encodeParts_cons, ← hpreface, ReadMultipartArg.loop_of_step
    (by rw [← List.length_pos_iff, List.length_append]; omega) hstep,
    ← length_crlf, hwhole, List.drop_left]

end Reading

/-- The output of a writer that is called until it yields nothing is its encoding. -/
theorem flatten_eq_encodeParts {boundary : Bytes} {arg : WriteMultipartArg Writer}
    (hboundary : arg.boundary = some boundary)
    (hfresh : (Writer.multipart arg).Fresh) (hdelimited : (Writer.multipart arg).Delimited)
    {ns : List ℕ} {outs : List Bytes} {w w' : Writer} (hpos : ∀ n ∈ ns, 0 < n)
    (hreads : (Writer.multipart arg).Reads ns outs w) {n : ℕ} (hn : 0 < n)
    (hend : w.Returns n ⟨.success, []⟩ w') :
    outs.flatten = encodeParts (some boundary) arg.parts := by
  obtain ⟨hsound, hrest⟩ := Writer.Fresh.sound _ hfresh hdelimited
  have hall := (Writer.exact.eq_nil_iff hreads hsound hpos hn hend).mp rfl
  rw [hall, hrest, Writer.encode, hboundary]

/-- An encoded message, handed to a reader prepared for its delimiter and number of parts,
gives every part in order its headers, its body and its end. -/
theorem readMultipart_encodeParts (heap : Bytes → ℕ → Byte) {boundary : Bytes}
    (hcr : cr ∉ boundary) {parts : List (WritePart Writer)} (hne : parts ≠ [])
    (hparts : ∀ part ∈ parts, Decodable boundary part) :
    ∃ arg', (prepareReadMultipart boundary
          (List.replicate parts.length true)).readMultipart heap
          (encodeParts (some boundary) parts) = some (.success, arg') ∧
      arg'.partIndex = some parts.length ∧ arg'.calls = partsCalls 0 parts := by
  have hlen : 0 < parts.length := List.length_pos_iff.mpr hne
  obtain ⟨part, later, hcons⟩ := List.exists_cons_of_ne_nil hne
  have hlonger : (afterHeaders boundary parts).length
      < (encodeParts (some boundary) parts).length := by
    rw [hcons, encodeParts_cons]
    simp only [List.length_append, length_crlf]
    omega
  obtain ⟨arg₁, hpreface, h₁, hcalls₁⟩ := @AtSection.loop_preface heap boundary parts.length
    part later (encodeParts (some boundary) parts).length
  rw [← hcons] at hpreface
  rw [decide_eq_true hlen] at h₁
  obtain ⟨arg', hloop, hindex, hcalls⟩ :=
    h₁.loop_parts heap hcr parts hne (Nat.zero_add _) hparts hlonger
  refine ⟨arg', ?_, hindex, by rw [hcalls, hcalls₁, List.nil_append]⟩
  rw [ReadMultipartArg.readMultipart, hpreface, hloop]

/-- **Decoding undoes encoding.** For parts with transmittable headers, whose bodies do not
contain the front of a delimiter, let the writer be called with any positive buffer lengths
until it yields nothing. Its output, handed to a reader prepared for the same delimiter and
number of parts, gives every part in order its headers, its body and its end, and leaves
the reader after the last part. -/
theorem readMultipart_writeMultipart (heap : Bytes → ℕ → Byte) {boundary : Bytes}
    (hcr : cr ∉ boundary) {arg : WriteMultipartArg Writer} (hboundary : arg.boundary = some boundary)
    (hfresh : (Writer.multipart arg).Fresh) (hdelimited : (Writer.multipart arg).Delimited)
    (hparts : ∀ part ∈ arg.parts, Decodable boundary part) {ns : List ℕ} {outs : List Bytes}
    {w w' : Writer} (hpos : ∀ n ∈ ns, 0 < n) (hreads : (Writer.multipart arg).Reads ns outs w)
    {n : ℕ} (hn : 0 < n) (hend : w.Returns n ⟨.success, []⟩ w') :
    ∃ arg', (prepareReadMultipart boundary
          (List.replicate arg.parts.length true)).readMultipart heap outs.flatten
        = some (.success, arg') ∧
      arg'.partIndex = some arg.parts.length ∧ arg'.calls = partsCalls 0 arg.parts := by
  rw [flatten_eq_encodeParts hboundary hfresh hdelimited hpos hreads hn hend]
  exact readMultipart_encodeParts heap hcr hdelimited.2.1 hparts

/-- A message with two parts, before it is sent. -/
def headedParts : WriteMultipartArg Writer where
  boundary := some (bytes "b")
  partIndex := 0
  currentBoundary := some (boundaryText (bytes "b") false (some [.pair (bytes "A") (bytes "1")]))
  currentBoundaryOffset := 0
  currentBoundaryLength :=
    (boundaryText (bytes "b") false (some [.pair (bytes "A") (bytes "1")])).length
  parts := [⟨[.pair (bytes "A") (bytes "1")], .block (.start (bytes "x"))⟩,
    ⟨[.pair (bytes "B") (bytes "2")], .block (.start (bytes "yz"))⟩]

/-- The message can be sent byte by byte. -/
theorem headedParts_reads :
    (Writer.multipart headedParts).Fresh ∧ (Writer.multipart headedParts).Delimited ∧
      ∃ outs w w', (Writer.multipart headedParts).Reads (List.replicate 48 1) outs w ∧
        w.Returns 1 ⟨.success, []⟩ w' := by
  have hfresh : (Writer.multipart headedParts).Fresh :=
    ⟨⟨rfl, rfl, _, _, rfl, rfl, rfl⟩, rfl, rfl, trivial⟩
  have hdelimited : (Writer.multipart headedParts).Delimited :=
    ⟨rfl, List.cons_ne_nil _ _, trivial, trivial, trivial⟩
  have hpos : ∀ n ∈ List.replicate 48 1, 0 < n := by decide
  obtain ⟨outs, w, w', hreads, hret⟩ :=
    hfresh.exists_sent hdelimited hpos (by decide) Nat.one_pos
  exact ⟨hfresh, hdelimited, outs, w, w', hreads, hret⟩

/-- Its parts can be told apart. -/
theorem headedParts_decodable : ∀ part ∈ headedParts.parts, Decodable (bytes "b") part := by
  have htransmittable : ∀ {key value : Byte}, key = 65 ∨ key = 66 → value = 49 ∨ value = 50 →
      (KeyValue.pair [key] [value]).Transmittable := by
    rintro key value (rfl | rfl) (rfl | rfl) <;>
      exact .pair (by decide) (by decide) (by decide) (by decide)
        (fun b hb => by obtain rfl := Option.mem_some.mp hb; decide) (by decide) (by decide)
        (by decide) (fun b hb => by obtain rfl := Option.mem_some.mp hb; decide)
  intro part hpart
  simp only [headedParts, List.mem_cons, List.not_mem_nil, or_false] at hpart
  rcases hpart with rfl | rfl
  · refine ⟨List.cons_ne_nil _ _, fun kv hkv => ?_, by decide⟩
    obtain rfl := List.mem_singleton.mp hkv
    exact htransmittable (.inl rfl) (.inl rfl)
  · refine ⟨List.cons_ne_nil _ _, fun kv hkv => ?_, by decide⟩
    obtain rfl := List.mem_singleton.mp hkv
    exact htransmittable (.inr rfl) (.inr rfl)

/-- The theorem applies to this message sent byte by byte. -/
theorem readMultipart_writeMultipart_twoParts :
    ∃ outs w arg', (Writer.multipart headedParts).Reads (List.replicate 48 1) outs w ∧
      (prepareReadMultipart (bytes "b") [true, true]).readMultipart (fun _ _ => 0) outs.flatten
        = some (.success, arg') ∧
      arg'.calls = [.response 0 [.pair (bytes "A") (bytes "1")], .data 0 (bytes "x"),
        .data 0 [], .response 1 [.pair (bytes "B") (bytes "2")], .data 1 (bytes "yz"),
        .data 1 []] := by
  obtain ⟨hfresh, hdelimited, outs, w, w', hreads, hret⟩ := headedParts_reads
  obtain ⟨arg', hread, -, hcalls⟩ := readMultipart_writeMultipart (fun _ _ => 0)
    (by decide) rfl hfresh hdelimited headedParts_decodable (by decide) hreads Nat.one_pos hret
  exact ⟨outs, w, arg', hreads, hread, hcalls⟩

end DsiRest
