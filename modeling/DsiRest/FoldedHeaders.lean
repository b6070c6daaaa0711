import DsiRest.HeaderPieces

/-!
# Folded Header Fields

A header field may be folded: its value goes on in lines that start with a space or a tab. The
reader of part headers knows this when it splits a header block into lines, so that it hands
all lines of a field to the parser at once. The parser skips white space and line ends in front
of the value, but cuts the value at its first CR. So a field may be folded behind its colon,
and what stands in the lines behind the first line of the value is lost.

## Main results

* `parseHeaderLines_folded` — the fields of a block are parsed into their first segments.
* `LoopHead.foldedBlock_iff` — when the fields of a block keep their whole values.
-/

namespace DsiRest

/-! ### Folded fields -/

/-- A line that continues a value: blanks, and a segment of the value. -/
structure Continuation where
  blanks : Bytes
  text : Bytes
  blanksNonempty : blanks ≠ []
  blanksBlank : ∀ b ∈ blanks, b = space ∨ b = tab
  textNonempty : text ≠ []
  textCr : cr ∉ text
  textNul : 0 ∉ text

/-- A header field of a part. The value of the `PartField` is the first segment, on the line of
the name or, if there are blanks in `folded`, behind these on the line that follows it. -/
structure FoldedField extends PartField where
  folded : Bytes
  foldedBlank : ∀ b ∈ folded, b = space ∨ b = tab
  more : List Continuation

/-- The line, without its end. -/
def Continuation.line (c : Continuation) : Bytes :=
  c.blanks ++ c.text

namespace FoldedField

/-- The first line. -/
def firstLine (f : FoldedField) : Bytes :=
  if f.folded = [] then f.toPartField.line else f.name ++ [colon] ++ f.padding

/-- The lines that continue it. -/
def laterLines (f : FoldedField) : List Bytes :=
  (if f.folded = [] then [] else [f.folded ++ f.value]) ++ f.more.map Continuation.line

/-- The lines with the line ends between them. -/
def text (f : FoldedField) : Bytes :=
  f.firstLine ++ f.laterLines.flatMap (crlf ++ ·)

/-- The segments of the value. -/
def segments (f : FoldedField) : List Bytes :=
  f.value :: f.more.map Continuation.text

/-- What is between the colon and the value. -/
def lead (f : FoldedField) : Bytes :=
  f.padding ++ if f.folded = [] then [] else crlf ++ f.folded

/-- The value with the line ends and blanks between its segments. -/
def body (f : FoldedField) : Bytes :=
  f.value ++ (f.more.map Continuation.line).flatMap (crlf ++ ·)

/-- The name ends at the colon, and the value begins behind the lead. -/
theorem text_eq (f : FoldedField) : f.text = f.name ++ colon :: (f.lead ++ f.body) := by
  rw [text, firstLine, laterLines, lead, body]
  by_cases hfolded : f.folded = []
  · simp [hfolded, PartField.line]
  · simp [hfolded]

end FoldedField

/-- A header block of folded fields: their lines, and the empty line. -/
def foldedBlock (fields : List FoldedField) : Bytes :=
  fields.flatMap (fun f => f.text ++ crlf) ++ crlf

/-- `value` is made up of all the segments, with white space between them. -/
def Joined : List Bytes → Bytes → Prop
  | [], value => value = []
  | [segment], value => value = segment
  | segment :: next :: more, value => ∃ white rest, white ≠ [] ∧
      (∀ b ∈ white, isHeaderSpace b = true) ∧ value = segment ++ white ++ rest ∧
      Joined (next :: more) rest

/-- The entry is that of the field, with all of its value. -/
def FoldedField.Kept (f : FoldedField) (entry : KeyValue) : Prop :=
  ∃ value, entry = .pair f.name value ∧ Joined f.segments value

/-- The first segment alone is not the whole value, if there are more. -/
theorem joined_first_iff {segment : Bytes} {more : List Bytes} :
    Joined (segment :: more) segment ↔ more = [] := by
  cases more with
  | nil => exact iff_of_true rfl rfl
  | cons next more =>
      refine iff_of_false ?_ (List.cons_ne_nil _ _)
      rintro ⟨white, rest, hwhite, -, hvalue, -⟩
      have hlength := congrArg List.length hvalue
      have hpos := List.length_pos_iff.mpr hwhite
      simp only [List.length_append] at hlength
      omega

/-- The entry with the first segment is that of the field with all of its value, if there are no
more segments. -/
theorem FoldedField.kept_pair_iff (f : FoldedField) : f.Kept f.toPartField.pair ↔ f.more = [] := by
  have hsegments : Joined f.segments f.value ↔ f.more.map Continuation.text = [] :=
    joined_first_iff
  rw [← List.map_eq_nil_iff, ← hsegments]
  constructor
  · rintro ⟨value, hpair, hjoined⟩
    obtain rfl : f.value = value := by simpa [PartField.pair] using hpair
    exact hjoined
  · exact fun hjoined => ⟨_, rfl, hjoined⟩

/-! ### Parsing folded fields -/

/-- A blank is white space, and neither a line end nor a NUL. -/
theorem blank_spec {b : Byte} (h : b = space ∨ b = tab) :
    isHeaderSpace b = true ∧ b ≠ cr ∧ b ≠ 0 := by
  rcases h with rfl | rfl
  · decide
  · decide

/-- A line that continues another starts with a blank. -/
theorem head?_blanks {blanks text : Bytes} (hne : blanks ≠ [])
    (hblank : ∀ b ∈ blanks, b = space ∨ b = tab) :
    (blanks ++ text).head? = some space ∨ (blanks ++ text).head? = some tab := by
  obtain ⟨b, rest, rfl⟩ := List.exists_cons_of_ne_nil hne
  exact (hblank b List.mem_cons_self).imp (congrArg some) (congrArg some)

/-- Lines in which nothing ends are one line, up to the one that is not continued. -/
theorem parseHeaderLines_lines {after : Bytes}
    (hend : ¬ (after.head? = some space ∨ after.head? = some tab)) (result : Result)
    (headers : HeaderList) {later : List Bytes}
    (hlater : ∀ l ∈ later, (l.head? = some space ∨ l.head? = some tab) ∧ cr ∉ l) :
    ∀ {first acc : Bytes}, cr ∉ first →
    parseHeaderLines acc (first ++ later.flatMap (crlf ++ ·) ++ crlf ++ after) result headers
      = (headerParse headers (acc ++ (first ++ later.flatMap (crlf ++ ·)) ++ crlf ++ after)
          (acc ++ (first ++ later.flatMap (crlf ++ ·))).length).bind fun (result, headers) =>
        parseHeaderLines [] after result headers := by
  induction later with
  | nil =>
      intro first acc hfirst
      rw [List.flatMap_nil, List.append_nil]
      exact parseHeaderLines_end hfirst hend acc result headers
  | cons second later ih =>
      intro first acc hfirst
      obtain ⟨⟨hblank, hcr⟩, hlater⟩ := List.forall_mem_cons.mp hlater
      have hcont : (second ++ later.flatMap (crlf ++ ·) ++ crlf ++ after).head? = some space ∨
          (second ++ later.flatMap (crlf ++ ·) ++ crlf ++ after).head? = some tab := by
        simp only [List.append_assoc, List.head?_append]
        exact hblank.imp (fun h => by rw [h]; rfl) fun h => by rw [h]; rfl
      have hsplit : first ++ (second :: later).flatMap (crlf ++ ·) ++ crlf ++ after
          = first ++ crlf ++ (second ++ later.flatMap (crlf ++ ·) ++ crlf ++ after) := by
        simp only [List.flatMap_cons, List.append_assoc]
      have hall : acc ++ (first ++ (second :: later).flatMap (crlf ++ ·))
          = acc ++ first ++ crlf ++ (second ++ later.flatMap (crlf ++ ·)) := by
        simp only [List.flatMap_cons, List.append_assoc]
      rw [hsplit, parseHeaderLines_continued hfirst hcont, ih hlater hcr, hall]

namespace FoldedField

variable (f : FoldedField)

/-- The first line has no line end in it. -/
theorem cr_notMem_firstLine : cr ∉ f.firstLine := by
  have hline : cr ∉ f.toPartField.line := PartField.notMem_line (Or.inl rfl)
  rw [firstLine]
  split
  · exact hline
  · rw [PartField.line] at hline
    exact fun hmem => hline (List.mem_append_left _ hmem)

/-- The lines that continue it start with a blank, and have no line end in them either. -/
theorem laterLines_spec :
    ∀ l ∈ f.laterLines, (l.head? = some space ∨ l.head? = some tab) ∧ cr ∉ l := by
  have hnone : ∀ {blanks : Bytes}, (∀ b ∈ blanks, b = space ∨ b = tab) → cr ∉ blanks :=
    fun hblank hmem => (blank_spec (hblank cr hmem)).2.1 rfl
  intro l hl
  rcases List.mem_append.mp hl with hl | hl
  · by_cases hfolded : f.folded = []
    · rw [if_pos hfolded] at hl
      exact absurd hl List.not_mem_nil
    · rw [if_neg hfolded, List.mem_singleton] at hl
      rw [hl, List.mem_append, not_or]
      exact ⟨head?_blanks hfolded f.foldedBlank, hnone f.foldedBlank, f.valueCr⟩
  · obtain ⟨c, -, rfl⟩ := List.mem_map.mp hl
    rw [Continuation.line, List.mem_append, not_or]
    exact ⟨head?_blanks c.blanksNonempty c.blanksBlank, hnone c.blanksBlank, c.textCr⟩

/-- No NUL cuts the value short. -/
theorem nul_notMem_body : 0 ∉ f.body := by
  rw [body, List.mem_append, not_or]
  refine ⟨f.valueNul, fun hmem => ?_⟩
  obtain ⟨l, hl, hmem⟩ := List.mem_flatMap.mp hmem
  obtain ⟨c, -, rfl⟩ := List.mem_map.mp hl
  rcases List.mem_append.mp hmem with hmem | hmem
  · exact absurd hmem (by decide)
  · rcases List.mem_append.mp hmem with hmem | hmem
    · exact (blank_spec (c.blanksBlank 0 hmem)).2.2 rfl
    · exact c.textNul hmem

/-- No NUL cuts the field short. -/
theorem nul_notMem_text : 0 ∉ f.text := by
  have hlead : 0 ∉ f.lead := by
    rw [lead, List.mem_append, not_or]
    refine ⟨fun hmem => (blank_spec (f.paddingSpace 0 hmem)).2.2 rfl, ?_⟩
    split
    · exact List.not_mem_nil
    · rw [List.mem_append, not_or]
      exact ⟨by decide, fun hmem => (blank_spec (f.foldedBlank 0 hmem)).2.2 rfl⟩
  rw [text_eq, List.mem_append, List.mem_cons, List.mem_append, not_or, not_or, not_or]
  exact ⟨f.nameNul, by decide, hlead, f.nul_notMem_body⟩

/-- The value is cut at the end of its first segment. -/
theorem takeWhile_body : f.body.takeWhile (· != cr) = f.value := by
  have hvalue : ∀ b ∈ f.value, (b != cr) = true := by
    intro b hb
    simpa using fun hc : b = cr => f.valueCr (hc ▸ hb)
  rw [body, List.takeWhile_append_of_pos hvalue]
  cases f.more with
  | nil => exact List.append_nil _
  | cons c more => exact List.append_nil _

/-- **A folded field is parsed into its first segment.** -/
theorem headerParse_text (headers : HeaderList) (after : Bytes) :
    ∃ headers', headerParse headers (f.text ++ after) f.text.length = some (.success, headers') ∧
      headers'.entries = headers.entries ++ [f.toPartField.pair] := by
  have hcrlf : ∀ b ∈ crlf, isHeaderSpace b = true := by decide +kernel
  have hlead : ∀ b ∈ f.lead, isHeaderSpace b = true := by
    intro b hb
    rcases List.mem_append.mp hb with hb | hb
    · exact (blank_spec (f.paddingSpace b hb)).1
    · split at hb
      · exact absurd hb List.not_mem_nil
      · rcases List.mem_append.mp hb with hb | hb
        · exact hcrlf b hb
        · exact (blank_spec (f.foldedBlank b hb)).1
  have hstart : ∀ b ∈ f.body.head?, isHeaderSpace b = false := by
    intro b hb
    rw [body, List.head?_append_of_ne_nil _ f.valueNonempty] at hb
    exact f.valueStart b hb
  have hbody : f.body ≠ [] := List.append_ne_nil_of_left_ne_nil f.valueNonempty _
  refine ⟨_, by rw [text_eq]; exact headerParse_solid f.nameNonempty f.nameColon hlead hstart hbody,
    ?_⟩
  rw [HeaderList.push_entries, HeaderList.grow_entries, cstr_eq_self f.nameNul,
    cstr_eq_self f.nul_notMem_body, takeWhile_body]
  rfl

/-- So is it where other lines follow it. -/
theorem parsesTo : ParsesTo f.text f.toPartField.pair where
  start := by
    rw [f.text_eq]
    exact f.head?_name _
  parse := by
    intro after hend result headers
    obtain ⟨headers', hparse, hentries⟩ := f.headerParse_text headers (crlf ++ after)
    refine ⟨headers', ?_, hentries⟩
    have hlines := @parseHeaderLines_lines _ hend result headers _ f.laterLines_spec _ []
      f.cr_notMem_firstLine
    rw [List.nil_append, ← FoldedField.text, List.append_assoc f.text, hparse] at hlines
    rw [List.append_assoc, hlines]
    rfl

end FoldedField

/-- **The fields of a block are parsed into their first segments.** -/
theorem parseHeaderLines_folded (fields : List FoldedField) (result : Result)
    (headers : HeaderList) :
    ∃ headers', parseHeaderLines [] (foldedBlock fields) result headers
        = some (.success, headers') ∧
      headers'.entries = headers.entries ++ fields.map fun f => f.toPartField.pair := by
  rw [foldedBlock, ← List.flatMap_map FoldedField.text (· ++ crlf)]
  refine parseHeaderLines_texts ?_ result headers
  rw [List.forall₂_map_left_iff, List.forall₂_map_right_iff, List.forall₂_same]
  exact fun f _ => f.parsesTo

/-- No NUL cuts a block short. -/
theorem nul_notMem_foldedBlock (fields : List FoldedField) : 0 ∉ foldedBlock fields := by
  induction fields with
  | nil => decide
  | cons f fields ih =>
      rw [foldedBlock, List.flatMap_cons, List.append_assoc, ← foldedBlock, List.mem_append,
        List.mem_append, not_or, not_or]
      exact ⟨⟨f.nul_notMem_text, by decide⟩, ih⟩

/-! ### The end of a block -/

/-- The lines of a field, each with its end. -/
theorem FoldedField.text_lines (f : FoldedField) :
    f.text ++ crlf = (f.firstLine :: f.laterLines).flatMap (· ++ crlf) := by
  have hends : ∀ (first : Bytes) (later : List Bytes),
      first ++ later.flatMap (crlf ++ ·) ++ crlf = (first :: later).flatMap (· ++ crlf) := by
    intro first later
    induction later generalizing first with
    | nil => simp
    | cons second later ih =>
        have hsecond := ih second
        simp only [List.flatMap_cons, List.append_assoc] at hsecond ⊢
        rw [hsecond]
  exact hends f.firstLine f.laterLines

/-- Its lines are not empty. -/
theorem FoldedField.lines_spec (f : FoldedField) :
    ∀ l ∈ f.firstLine :: f.laterLines, l ≠ [] ∧ cr ∉ l := by
  refine List.forall_mem_cons.mpr ⟨⟨?_, f.cr_notMem_firstLine⟩, fun l hl => ?_⟩
  · have hname : ∀ text : Bytes, f.name ++ text ≠ [] :=
      fun text => List.append_ne_nil_of_left_ne_nil f.nameNonempty text
    rw [firstLine, PartField.line]
    split
    · simpa only [List.append_assoc] using hname _
    · simpa only [List.append_assoc] using hname _
  · obtain ⟨hblank, hcr⟩ := f.laterLines_spec l hl
    refine ⟨?_, hcr⟩
    rintro rfl
    simp at hblank

/-- The terminator of a block is found at its end. -/
theorem feed_foldedBlock {fields : List FoldedField} (hne : fields ≠ []) (rest : Bytes) :
    Matcher.feed (bytes "\r\n\r\n") 0 (foldedBlock fields ++ rest)
      = (4, (foldedBlock fields).length) := by
  have hblock : foldedBlock fields
      = (fields.flatMap fun f => f.firstLine :: f.laterLines).flatMap (· ++ crlf) ++ crlf := by
    rw [foldedBlock, List.flatMap_assoc]
    simp only [FoldedField.text_lines]
  rw [hblock]
  refine feed_lines ?_ (fun l hl => ?_) rest
  · obtain ⟨f, fields, rfl⟩ := List.exists_cons_of_ne_nil hne
    exact List.cons_ne_nil _ _
  · obtain ⟨f, -, hl⟩ := List.mem_flatMap.mp hl
    exact f.lines_spec l hl

/-- The headers that the buffer has when a block has come in one piece. -/
theorem Place.blockHeaders_folded (heap : Bytes → ℕ → Byte) (fields : List FoldedField) :
    blockHeaders heap [foldedBlock fields] = some (fields.map fun f => f.toPartField.pair) := by
  obtain ⟨headers, hparse, hentries⟩ :=
    parseHeaderLines_folded fields .success HeaderList.empty
  rw [blockHeaders, headerBlock_singleton, cstr_append_nul (nul_notMem_foldedBlock fields), hparse]
  exact congrArg some hentries

/-! ### The response callback -/

namespace LoopHead

variable {boundary : Bytes} {callbacks : List Bool} {heap : Bytes → ℕ → Byte} {h : LoopHead}

/-- Whatever follows the block, the response callback of part `k` gets one entry for each
field, with all of its value. -/
def KeepsValues (heap : Bytes → ℕ → Byte) (h : LoopHead) (k : ℕ) (fields : List FoldedField) :
    Prop :=
  ∀ rest following, ∃ headers memory,
    HandsOver heap (h.onto ((foldedBlock fields ++ rest) :: following)) k headers memory ∧
      List.Forall₂ FoldedField.Kept fields headers

/-- The headers that are handed over for a block of fields. -/
theorem handsOver_folded {chunk : Bytes} {later : List Bytes} {k : ℕ}
    (hreach : Reaches heap (enter (prepareReadMultipart boundary callbacks) chunk later) h)
    (hat : h.arg.AtBlock k) (hwants : callbacks[k]? = some true) {fields : List FoldedField}
    (hfields : fields ≠ []) (heap' : Bytes → ℕ → Byte) (rest : Bytes) (following : List Bytes)
    (headers : KeyArray) :
    (∃ memory, HandsOver heap' (h.onto ((foldedBlock fields ++ rest) :: following)) k headers
      memory) ↔ headers = fields.map fun f => f.toPartField.pair := by
  obtain ⟨p, hp, hfresh⟩ := stands_of_reaches hreach
  obtain ⟨hstand, hfresh'⟩ := standing_atBlock hp hfresh hat heap'
  have hne : foldedBlock fields ≠ [] := List.append_ne_nil_of_right_ne_nil _ (by decide)
  have hlast := fun memory => @handsOver_last _ _ _ _ k 0 [] _ rest following hstand hfresh' hwants
    hne (feed_foldedBlock hfields rest) headers memory
  simp only [List.nil_append, Place.blockHeaders_folded, Option.some.injEq] at hlast
  simp only [hlast]
  exact ⟨fun ⟨_, hheaders, _⟩ => hheaders.symm, fun hheaders => ⟨_, hheaders.symm, rfl⟩⟩

/-- Without a field, there is no terminator in the block. -/
theorem not_keepsValues_nil {chunk : Bytes} {later : List Bytes} {k : ℕ}
    (hreach : Reaches heap (enter (prepareReadMultipart boundary callbacks) chunk later) h)
    (hat : h.arg.AtBlock k) (heap' : Bytes → ℕ → Byte) : ¬ KeepsValues heap' h k [] := by
  obtain ⟨p, hp, hfresh⟩ := stands_of_reaches hreach
  obtain ⟨hstand, -⟩ := standing_atBlock hp hfresh hat heap'
  have hopen : Matcher.feed (bytes "\r\n\r\n") 0 crlf = (2, 2) := by decide
  obtain ⟨arg', hstep, -, hcalls, -⟩ := hstand.step_piece h.result rfl
    (show (Matcher.feed (bytes "\r\n\r\n") 0 crlf).1 < 4 by rw [hopen]; decide)
  intro hkeeps
  obtain ⟨headers, memory, hgiven, -⟩ := hkeeps [] []
  have hnext := @next_of_step heap' (h.onto [crlf]) _ _ _ (List.cons_ne_nil _ _) hstep
  refine not_handsOver ?_ ((handsOver_next hnext hcalls).mp hgiven)
  rfl

/-- **When folded headers keep their values.** At every head of the chunk loop at which the
header block of a part with a response callback begins, for every block of folded fields: the
callback gets one entry for each field, in order, with all segments of its value, if and only
if there is a field, and no value goes on behind its first segment. -/
theorem foldedBlock_iff {chunk : Bytes} {later : List Bytes} {k : ℕ}
    (hreach : Reaches heap (enter (prepareReadMultipart boundary callbacks) chunk later) h)
    (hat : h.arg.AtBlock k) (hwants : callbacks[k]? = some true) (fields : List FoldedField)
    (heap' : Bytes → ℕ → Byte) :
    KeepsValues heap' h k fields ↔ fields ≠ [] ∧ ∀ f ∈ fields, f.more = [] := by
  rcases eq_or_ne fields [] with rfl | hfields
  · exact iff_of_false (not_keepsValues_nil hreach hat heap') fun hcond => hcond.1 rfl
  have hgiven := handsOver_folded hreach hat hwants hfields heap'
  have hkept : List.Forall₂ FoldedField.Kept fields (fields.map fun f => f.toPartField.pair) ↔
      ∀ f ∈ fields, f.more = [] := by
    rw [List.forall₂_map_right_iff, List.forall₂_same]
    exact forall₂_congr fun f _ => f.kept_pair_iff
  rw [← hkept]
  constructor
  · intro hkeeps
    obtain ⟨headers, memory, hover, hall⟩ := hkeeps [] []
    obtain rfl := (hgiven [] [] headers).mp ⟨memory, hover⟩
    exact ⟨hfields, hall⟩
  · rintro ⟨-, hall⟩ rest following
    obtain ⟨memory, hover⟩ := (hgiven rest following _).mpr rfl
    exact ⟨_, memory, hover, hall⟩

/-- The lines `A: 1` and ` 2`. -/
def continuedA : FoldedField where
  toPartField := lineA
  folded := []
  foldedBlank := by simp
  more := [
    { blanks := [space]
      text := [50]
      blanksNonempty := List.cons_ne_nil _ _
      blanksBlank := space_blank
      textNonempty := List.cons_ne_nil _ _
      textCr := by decide +kernel
      textNul := by decide +kernel }]

/-- The lines `A: ` and ` 1`. -/
def foldedA : FoldedField where
  toPartField := lineA
  folded := [space]
  foldedBlank := space_blank
  more := []

/-- A value that starts on the second line. -/
theorem foldedBlock_iff_folded :
    ∃ h, Reaches (fun _ _ => 0)
        (enter (prepareReadMultipart (bytes "b") [true]) (bytes "--b\r\nA: \r\n 1\r\n\r\n") []) h ∧
      foldedBlock [foldedA] = bytes "A: \r\n 1\r\n\r\n" ∧
      KeepsValues (fun _ _ => 0) h 0 [foldedA] := by
  obtain ⟨h, hreach, hat, -⟩ := reaches_block (fun _ _ => 0) (bytes "b")
    (List.cons_ne_nil true []) (bytes "A: \r\n 1\r\n\r\n") []
  have hchunk : bytes "--b\r\nA: \r\n 1\r\n\r\n"
      = bytes "--" ++ bytes "b" ++ bytes "\r\n" ++ bytes "A: \r\n 1\r\n\r\n" := by
    decide +kernel
  rw [← hchunk] at hreach
  refine ⟨h, hreach, by decide +kernel, (foldedBlock_iff hreach hat rfl [foldedA] _).mpr ?_⟩
  exact ⟨List.cons_ne_nil _ _, List.forall_mem_singleton.mpr rfl⟩

/-- A value that goes on in the second line: what stands there is lost. -/
theorem continuation_lost :
    ∃ h, Reaches (fun _ _ => 0)
        (enter (prepareReadMultipart (bytes "b") [true]) (bytes "--b\r\nA: 1\r\n 2\r\n\r\n") []) h ∧
      h.arg.AtBlock 0 ∧ h.buffer = bytes "A: 1\r\n 2\r\n\r\n" ∧
      foldedBlock [continuedA] = bytes "A: 1\r\n 2\r\n\r\n" ∧
      (∃ memory, HandsOver (fun _ _ => 0) (h.onto [bytes "A: 1\r\n 2\r\n\r\n"]) 0
        [.pair (bytes "A") (bytes "1")] memory) ∧
      ¬ KeepsValues (fun _ _ => 0) h 0 [continuedA] := by
  obtain ⟨h, hreach, hat, hbuffer, -⟩ := reaches_block (fun _ _ => 0) (bytes "b")
    (List.cons_ne_nil true []) (bytes "A: 1\r\n 2\r\n\r\n") []
  have hchunk : bytes "--b\r\nA: 1\r\n 2\r\n\r\n"
      = bytes "--" ++ bytes "b" ++ bytes "\r\n" ++ bytes "A: 1\r\n 2\r\n\r\n" := by
    decide +kernel
  rw [← hchunk] at hreach
  have hblock : foldedBlock [continuedA] = bytes "A: 1\r\n 2\r\n\r\n" := by decide +kernel
  have hpair : [KeyValue.pair (bytes "A") (bytes "1")]
      = [continuedA].map fun f => f.toPartField.pair := by decide +kernel
  have hgiven := handsOver_folded hreach hat rfl (List.cons_ne_nil continuedA [])
  refine ⟨h, hreach, hat, hbuffer, hblock, ?_, ?_⟩
  · have hfirst := (hgiven (fun _ _ => 0) [] [] _).mpr hpair
    rw [List.append_nil, hblock] at hfirst
    exact hfirst
  · intro hkeeps
    obtain ⟨headers, memory, hover, hall⟩ := hkeeps [] []
    obtain rfl := (hgiven _ [] [] headers).mp ⟨memory, hover⟩
    have hkept := (List.forall₂_cons.mp hall).1
    exact absurd (continuedA.kept_pair_iff.mp hkept) (List.cons_ne_nil _ _)

end LoopHead

end DsiRest
