import DsiRest.MultipartPlace
import DsiRest.MultipartRoundTrip

/-!
# The Header Buffer

What `header_buffer` holds after a header block arrived in pieces. Each piece is copied to
the front of the buffer, over the pieces before it, and the byte behind the received length
is set to NUL. So the buffer holds the block exactly if the block is one piece.

What is parsed from text cannot have more than the text: `weight` counts the bytes of the
parsed headers that are neither white space nor NUL, and no header list weighs more than
the text it was parsed from. The headers of a block weigh as much as the block.

## Main results

* `parseHeaderLines_block` — the fields of a block are its headers.
* `headerBlock_ne` — several pieces never make up the block in the buffer.
* `countP_headerBlock_lt` — with a second piece, bytes of the block are lost for good.
-/

namespace DsiRest

/-! ### Blocks of header lines -/

/-- A header line of a part: a name, white space behind the colon, and a value. -/
structure PartField where
  name : Bytes
  padding : Bytes
  value : Bytes
  nameNonempty : name ≠ []
  nameStart : ∀ b ∈ name.head?, isHeaderSpace b = false
  nameColon : colon ∉ name
  nameCr : cr ∉ name
  nameNul : 0 ∉ name
  paddingSpace : ∀ b ∈ padding, b = space ∨ b = tab
  valueNonempty : value ≠ []
  valueStart : ∀ b ∈ value.head?, isHeaderSpace b = false
  valueCr : cr ∉ value
  valueNul : 0 ∉ value

namespace PartField

/-- The line, without its end. -/
def line (f : PartField) : Bytes :=
  f.name ++ [colon] ++ f.padding ++ f.value

/-- The header the line stands for. -/
def pair (f : PartField) : KeyValue :=
  .pair f.name f.value

/-- The bytes of a line. -/
theorem mem_line {f : PartField} {b : Byte} (h : b ∈ f.line) :
    b ∈ f.name ∨ b = colon ∨ b ∈ f.padding ∨ b ∈ f.value := by
  simpa [line, or_assoc] using h

/-- A line has neither carriage returns nor NULs. -/
theorem notMem_line {f : PartField} {b : Byte} (hb : b = cr ∨ b = 0) : b ∉ f.line := by
  intro h
  rcases mem_line h with h | h | h | h
  · rcases hb with rfl | rfl
    · exact f.nameCr h
    · exact f.nameNul h
  · subst h
    revert hb
    decide
  · rcases f.paddingSpace b h with rfl | rfl
    · revert hb
      decide
    · revert hb
      decide
  · rcases hb with rfl | rfl
    · exact f.valueCr h
    · exact f.valueNul h

/-- The first byte of a line is no white space. -/
theorem line_eq_cons (f : PartField) :
    ∃ first rest, f.line = first :: rest ∧ isHeaderSpace first = false ∧ first ≠ 0 := by
  obtain ⟨first, name, hname⟩ := List.exists_cons_of_ne_nil f.nameNonempty
  refine ⟨first, name ++ [colon] ++ f.padding ++ f.value, by simp [line, hname], ?_, ?_⟩
  · exact f.nameStart first (by rw [hname]; rfl)
  · rintro rfl
    exact f.nameNul (hname ▸ List.mem_cons_self)

/-- A text that begins with the name does not begin with a blank. -/
theorem head?_name (f : PartField) (text : Bytes) :
    ∃ b ∈ (f.name ++ text).head?, b ≠ space ∧ b ≠ tab := by
  obtain ⟨first, name, hname⟩ := List.exists_cons_of_ne_nil f.nameNonempty
  have hfirst := f.nameStart first (by rw [hname]; rfl)
  refine ⟨first, by rw [hname]; rfl, ?_, ?_⟩
  · rintro rfl
    exact absurd hfirst (by decide)
  · rintro rfl
    exact absurd hfirst (by decide)

/-- A line is parsed into its header. -/
theorem parsesTo (f : PartField) : ParsesTo f.line f.pair := by
  have hpad : ∀ b ∈ f.padding, isHeaderSpace b = true := by
    intro b hb
    rcases f.paddingSpace b hb with rfl | rfl <;> rfl
  have hlen : f.line.length = f.name.length + 1 + f.padding.length + f.value.length := by
    simp only [line, List.length_append, List.length_singleton]
  refine .line (notMem_line (Or.inl rfl)) ?_ fun headers after => ?_
  · rw [line, List.append_assoc, List.append_assoc]
    exact f.head?_name _
  · rw [hlen]
    exact headerParse_padded f.nameNonempty f.nameColon f.nameNul hpad f.valueStart
      f.valueNonempty f.valueNul f.valueCr

end PartField

/-- A header block: its lines, and the empty line. -/
def blockOf (fields : List PartField) : Bytes :=
  (fields.map PartField.line).flatMap (· ++ crlf) ++ crlf

theorem blockOf_cons (f : PartField) (fields : List PartField) :
    blockOf (f :: fields) = f.line ++ crlf ++ blockOf fields := by
  simp only [blockOf, List.map_cons, List.flatMap_cons, List.append_assoc]

/-- A block has at least its empty line. -/
theorem blockOf_ne_nil (fields : List PartField) : blockOf fields ≠ [] :=
  List.append_ne_nil_of_right_ne_nil _ (List.cons_ne_nil _ _)

/-- **The fields of a block are its headers.** -/
theorem parseHeaderLines_block (fields : List PartField) (result : Result)
    (headers : HeaderList) :
    ∃ headers', parseHeaderLines [] (blockOf fields) result headers
        = some (.success, headers') ∧
      headers'.entries = headers.entries ++ fields.map PartField.pair := by
  refine parseHeaderLines_texts ?_ result headers
  rw [List.forall₂_map_left_iff, List.forall₂_map_right_iff, List.forall₂_same]
  exact fun f _ => f.parsesTo

/-- No NUL cuts a block short. -/
theorem nul_notMem_blockOf (fields : List PartField) : 0 ∉ blockOf fields := by
  induction fields with
  | nil => decide
  | cons f fields ih =>
      rw [blockOf_cons, List.mem_append, List.mem_append, not_or, not_or]
      exact ⟨⟨PartField.notMem_line (Or.inr rfl), by decide⟩, ih⟩

/-- The lines of a block are not empty. -/
theorem lines_blockOf (fields : List PartField) :
    ∀ line ∈ fields.map PartField.line, line ≠ [] ∧ cr ∉ line := by
  intro line hline
  obtain ⟨f, -, rfl⟩ := List.mem_map.mp hline
  obtain ⟨first, more, hf, -⟩ := f.line_eq_cons
  exact ⟨by rw [hf]; exact List.cons_ne_nil _ _, PartField.notMem_line (Or.inl rfl)⟩

/-- The terminator of a block is found at its end. -/
theorem feed_blockOf {fields : List PartField} (hne : fields ≠ []) (rest : Bytes) :
    Matcher.feed (bytes "\r\n\r\n") 0 (blockOf fields ++ rest)
      = (4, (blockOf fields).length) :=
  feed_lines (by simpa using hne) (lines_blockOf fields) rest

/-- A block ends with the terminator, and at least a name, a colon and a value are in front
of it. -/
theorem blockOf_eq_append : ∀ {fields : List PartField}, fields ≠ [] →
    ∃ text, blockOf fields = text ++ bytes "\r\n\r\n" ∧ 3 ≤ text.length
  | [], hne => absurd rfl hne
  | [f], _ => by
      have hname := List.length_pos_iff.mpr f.nameNonempty
      have hvalue := List.length_pos_iff.mpr f.valueNonempty
      refine ⟨f.line, by rw [blockOf_cons, List.append_assoc]; rfl, ?_⟩
      simp only [PartField.line, List.length_append, List.length_singleton]
      omega
  | f :: g :: fields, _ => by
      obtain ⟨text, htext, hlong⟩ := blockOf_eq_append (List.cons_ne_nil g fields)
      refine ⟨f.line ++ crlf ++ text, ?_, ?_⟩
      · rw [blockOf_cons, htext, List.append_assoc (f.line ++ crlf)]
      · rw [List.length_append]
        omega

/-! ### The memory of the buffer -/

/-- What the buffer keeps behind a piece that is copied to its front. -/
def keptBehind (heap : Bytes → ℕ → Byte) (block : Bytes) (offset : ℕ) (piece : Bytes) : Bytes :=
  ((reallocBlock heap block (offset + piece.length + 1)).drop piece.length).take offset

/-- A block that was reallocated has its new size. -/
theorem length_reallocBlock (heap : Bytes → ℕ → Byte) (block : Bytes) (size : ℕ) :
    (reallocBlock heap block size).length = size := by
  rw [reallocBlock, List.length_append, List.length_take, List.length_map, List.length_range']
  omega

theorem length_keptBehind (heap : Bytes → ℕ → Byte) (block : Bytes) (offset : ℕ)
    (piece : Bytes) : (keptBehind heap block offset piece).length = offset := by
  rw [keptBehind, List.length_take, List.length_drop, length_reallocBlock]
  omega

/-- **Appending to the buffer** puts the piece in front, keeps what the buffer has behind
it, and ends the text. -/
theorem saveHeader_eq (heap : Bytes → ℕ → Byte) (block : Bytes) (offset : ℕ) (piece : Bytes) :
    saveHeader heap block offset piece
      = piece ++ keptBehind heap block offset piece ++ [0] := by
  have hset : ∀ kept : Bytes, kept.length = offset + 1 →
      kept.set offset 0 = kept.take offset ++ [0] := by
    intro kept hlen
    rw [List.set_eq_take_append_cons_drop, if_pos (by omega), List.drop_eq_nil_of_le (by omega)]
  rw [saveHeader, List.set_append_right _ _ (Nat.le_add_left _ _), Nat.add_sub_cancel_right,
    hset _ (by rw [List.length_drop, length_reallocBlock]; omega), keptBehind, List.append_assoc]

namespace Place

/-- One more piece. -/
theorem headerBlock_append (heap : Bytes → ℕ → Byte) (pieces : List Bytes) (piece : Bytes) :
    headerBlock heap (pieces ++ [piece])
      = (saveHeader heap (headerBlock heap pieces).1 (headerBlock heap pieces).2 piece,
        (headerBlock heap pieces).2 + piece.length) := by
  rw [headerBlock, List.foldl_append, ← headerBlock, List.foldl_cons, List.foldl_nil]

/-- The offset is the length received. -/
theorem headerBlock_snd (heap : Bytes → ℕ → Byte) (pieces : List Bytes) :
    (headerBlock heap pieces).2 = pieces.flatten.length := by
  induction pieces using List.reverseRecOn with
  | nil => rfl
  | append_singleton pieces piece ih =>
      rw [headerBlock_append, ih]
      simp

/-- A block that arrives in one piece. -/
theorem headerBlock_singleton (heap : Bytes → ℕ → Byte) (piece : Bytes) :
    (headerBlock heap [piece]).1 = piece ++ [0] :=
  saveHeader_zero heap [] piece

/-- The text in the buffer ends where the received length does. -/
theorem headerBlock_nul (heap : Bytes → ℕ → Byte) {pieces : List Bytes} (hne : pieces ≠ []) :
    ∃ text, text.length = pieces.flatten.length ∧
      (headerBlock heap pieces).1 = text ++ [0] := by
  induction pieces using List.reverseRecOn with
  | nil => exact absurd rfl hne
  | append_singleton pieces piece =>
      refine ⟨_, ?_, by rw [headerBlock_append, saveHeader_eq]⟩
      rw [List.length_append, length_keptBehind, headerBlock_snd]
      simp [Nat.add_comm]

/-- **Several pieces never make up the block in the buffer**, whatever the heap holds: the
last piece is at the front of the buffer. -/
theorem headerBlock_ne (heap : Bytes → ℕ → Byte) {fields : List PartField} (hfields : fields ≠ [])
    {front : List Bytes} {last : Bytes} (hfront : front.flatten ≠ []) (hlast : last ≠ [])
    (hcut : front.flatten ++ last = blockOf fields) :
    (headerBlock heap (front ++ [last])).1 ≠ blockOf fields ++ [0] := by
  obtain ⟨text, htext, hlong⟩ := blockOf_eq_append hfields
  have hne : front ≠ [] := fun h => hfront (by rw [h]; rfl)
  obtain ⟨before, hbefore, hblock⟩ := headerBlock_nul heap hne
  have hpos := List.length_pos_iff.mpr hfront
  have hlastPos := List.length_pos_iff.mpr hlast
  rw [headerBlock_append, headerBlock_snd, saveHeader_eq]
  set offset := front.flatten.length with hoffset
  set kept := keptBehind heap (headerBlock heap front).1 offset last with hkept
  have hkeptLen : kept.length = offset := length_keptBehind _ _ _ _
  intro heq
  have hsame : last ++ kept = blockOf fields := List.append_cancel_right heq
  rcases Nat.lt_or_ge offset last.length with hshort | hlong'
  · -- the block would end with the last piece
    have hlen : last.length + kept.length = text.length + 4 := by
      rw [← List.length_append, hsame, htext, List.length_append]
      rfl
    obtain ⟨mid, hmid⟩ : ∃ mid, last = mid ++ bytes "\r\n\r\n" := by
      have hsuffix : bytes "\r\n\r\n" <:+ last :=
        List.suffix_of_suffix_length_le ⟨text, htext.symm⟩ ⟨_, hcut⟩
          (show 4 ≤ last.length by omega)
      obtain ⟨mid, hmid⟩ := hsuffix
      exact ⟨mid, hmid.symm⟩
    have hnil : kept = [] := by
      refine @lines_end _ (lines_blockOf fields) mid kept ?_
      rw [← hmid]
      exact hsame.symm
    rw [hnil] at hkeptLen
    exact absurd hkeptLen (by simp; omega)
  · -- the end of the text before is in the block
    have hnul : (last ++ kept)[offset]? = some 0 := by
      rw [List.getElem?_append_right hlong', hkept, keptBehind, List.getElem?_take_of_lt (by omega),
        List.getElem?_drop, Nat.add_sub_cancel' hlong', reallocBlock, hblock,
        List.getElem?_append_left (by simp; omega), List.getElem?_take_of_lt (by omega), ← hbefore,
        List.getElem?_concat_length]
    exact nul_notMem_blockOf fields (hsame ▸ List.mem_of_getElem? hnul)

/-- **The buffer holds the block** exactly if the block is one piece. -/
theorem headerBlock_eq_iff (heap : Bytes → ℕ → Byte) {fields : List PartField}
    (hfields : fields ≠ []) {pieces : List Bytes} (hpieces : ∀ piece ∈ pieces, piece ≠ [])
    (hcut : pieces.flatten = blockOf fields) :
    (headerBlock heap pieces).1 = blockOf fields ++ [0] ↔ pieces.length = 1 := by
  constructor
  · intro heq
    induction pieces using List.reverseRecOn with
    | nil => exact absurd hcut (blockOf_ne_nil fields).symm
    | append_singleton front last =>
        have hlast := hpieces last (List.mem_append_right _ List.mem_cons_self)
        rw [List.flatten_append, List.flatten_singleton] at hcut
        cases front with
        | nil => rfl
        | cons first more =>
            have hfirst := hpieces first (List.mem_append_left _ List.mem_cons_self)
            have hfront : (first :: more).flatten ≠ [] := by
              rw [List.flatten_cons]
              exact List.append_ne_nil_of_left_ne_nil hfirst _
            exact absurd heq (headerBlock_ne heap hfields hfront hlast hcut)
  · intro hlen
    obtain ⟨piece, rfl⟩ := List.length_eq_one_iff.mp hlen
    rw [headerBlock_singleton, ← hcut, List.flatten_singleton]

end Place

/-! ### Significant bytes -/

/-- A byte that is neither white space nor NUL. -/
def significant (b : Byte) : Bool :=
  !(isHeaderSpace b || b == 0)

/-- The significant bytes of a header, and one for its colon. -/
def KeyValue.weight (kv : KeyValue) : ℕ :=
  (kv.key.getD []).countP significant + (kv.value.getD []).countP significant + 1

theorem KeyValue.weight_pair (name value : Bytes) :
    (KeyValue.pair name value).weight
      = name.countP significant + value.countP significant + 1 := rfl

/-- The weight of a list of headers. -/
def weight (kvs : KeyArray) : ℕ :=
  (kvs.map KeyValue.weight).sum

@[simp] theorem weight_append (kvs kvs' : KeyArray) : weight (kvs ++ kvs') = weight kvs + weight kvs' := by
  simp [weight]

@[simp] theorem weight_singleton (kv : KeyValue) : weight [kv] = kv.weight := by
  simp [weight]

/-- A line adds at most its significant bytes. -/
theorem headerParse_weight {headers headers' : HeaderList} {line after : Bytes} {result : Result}
    (h : headerParse headers (line ++ after) line.length = some (result, headers')) :
    weight headers'.entries ≤ weight headers.entries + line.countP significant := by
  rcases headerParse_inv h with hsame | ⟨key, blank, value, rfl, -, hmore⟩
  · rw [hsame]
    exact Nat.le_add_right _ _
  · have hname : (cstr key).countP significant ≤ key.countP significant :=
      (List.takeWhile_sublist _).countP_le
    have hvalue : ((cstr value).takeWhile (· != cr)).countP significant
        ≤ value.countP significant :=
      ((List.takeWhile_sublist _).trans (List.takeWhile_sublist _)).countP_le
    have hcolon : significant colon = true := rfl
    rw [hmore, weight_append, weight_singleton, KeyValue.weight_pair, List.countP_append,
      List.countP_cons_of_pos hcolon, List.countP_append]
    omega

/-- **No header list weighs more than the text it is parsed from.** -/
theorem parseHeaderLines_weight : ∀ {line next : Bytes} {r r' : Result} {h h' : HeaderList},
    parseHeaderLines line next r h = some (r', h') →
      weight h'.entries ≤ weight h.entries + (line ++ next).countP significant := by
  intro line next r r' h h' hparse
  fun_induction parseHeaderLines line next r h with
  | case1 line r h =>
      obtain ⟨-, rfl⟩ := Prod.mk.inj (Option.some.inj hparse)
      exact Nat.le_add_right _ _
  | case2 line next r h hcont ih =>
      have hle := ih hparse
      rwa [List.append_assoc] at hle
  | case3 line next r h hend hnone => cases hparse
  | case4 line next r h hend r₁ h₁ hline ih =>
      rw [List.append_assoc] at hline
      have hfirst := headerParse_weight hline
      have hrest := ih hparse
      rw [List.nil_append] at hrest
      have hsplit : (line ++ 13 :: 10 :: next).countP significant
          = line.countP significant + next.countP significant := by
        rw [List.countP_append, List.countP_cons, List.countP_cons]
        rfl
      omega
  | case5 line b next r h hne ih =>
      have hle := ih hparse
      rwa [List.append_assoc] at hle

/-- The headers of a block weigh as much as the block. -/
theorem weight_block (fields : List PartField) :
    weight (fields.map PartField.pair) = (blockOf fields).countP significant := by
  induction fields with
  | nil => rfl
  | cons f fields ih =>
      have hpadding : f.padding.countP significant = 0 := by
        rw [List.countP_eq_zero]
        intro b hb
        rcases f.paddingSpace b hb with rfl | rfl <;> decide
      have hpair : weight ((f :: fields).map PartField.pair)
          = f.pair.weight + weight (fields.map PartField.pair) := rfl
      have hcolon : [colon].countP significant = 1 := rfl
      have hcrlf : crlf.countP significant = 0 := rfl
      rw [hpair, ih, blockOf_cons]
      simp only [PartField.pair, KeyValue.weight_pair, PartField.line,
        List.countP_append, hpadding, hcolon, hcrlf]
      omega

/-- Where the heap holds zeros, a piece that is appended adds at most its own bytes, and
those under it are lost. -/
theorem countP_saveHeader (block : Bytes) (offset : ℕ) (piece : Bytes) :
    (saveHeader (fun _ _ => 0) block offset piece).countP significant
      ≤ piece.countP significant + (block.drop piece.length).countP significant := by
  have hzeros : ∀ n : ℕ, ((List.range' block.length n).map
      fun _ => (0 : Byte)).countP significant = 0 := by
    intro n
    rw [List.countP_eq_zero]
    intro b hb
    obtain ⟨_, -, rfl⟩ := List.mem_map.mp hb
    decide
  have hkept : (keptBehind (fun _ _ => 0) block offset piece).countP significant
      ≤ (block.drop piece.length).countP significant := by
    refine (List.take_sublist _ _).countP_le.trans ?_
    rw [reallocBlock, List.drop_append, List.countP_append]
    have hold := (((List.take_sublist (offset + piece.length + 1) block).drop
      piece.length)).countP_le (p := significant)
    have hnew := ((List.drop_sublist (piece.length
      - (block.take (offset + piece.length + 1)).length)
      ((List.range' block.length (offset + piece.length + 1 - block.length)).map
        fun _ => (0 : Byte)))).countP_le (p := significant)
    rw [hzeros] at hnew
    omega
  have hnul : [(0 : Byte)].countP significant = 0 := rfl
  rw [saveHeader_eq, List.countP_append, List.countP_append, hnul]
  omega

/-- Pieces never add more than their bytes. -/
theorem countP_headerBlock_append (pieces more : List Bytes) :
    (Place.headerBlock (fun _ _ => 0) (pieces ++ more)).1.countP significant
      ≤ (Place.headerBlock (fun _ _ => 0) pieces).1.countP significant +
        more.flatten.countP significant := by
  induction more using List.reverseRecOn with
  | nil => rw [List.append_nil]; exact Nat.le_add_right _ _
  | append_singleton more piece ih =>
      set before := (Place.headerBlock (fun _ _ => 0) (pieces ++ more)) with hbefore
      have hsaved := countP_saveHeader before.1 before.2 piece
      have hunder := (List.drop_sublist piece.length before.1).countP_le (p := significant)
      rw [← List.append_assoc, Place.headerBlock_append, ← hbefore, List.flatten_append,
        List.flatten_singleton, List.countP_append]
      simp only
      omega

/-- **The second piece destroys the first byte of the block.** Where the heap holds zeros,
the buffer weighs less than the block. -/
theorem countP_headerBlock_lt {fields : List PartField} (hfields : fields ≠ [])
    {first second : Bytes} {more : List Bytes} (hfirst : first ≠ []) (hsecond : second ≠ [])
    (hcut : (first :: second :: more).flatten = blockOf fields) :
    (Place.headerBlock (fun _ _ => 0) (first :: second :: more)).1.countP significant
      < (blockOf fields).countP significant := by
  obtain ⟨b, rest, rfl⟩ := List.exists_cons_of_ne_nil hfirst
  obtain ⟨c, second, rfl⟩ := List.exists_cons_of_ne_nil hsecond
  have hb : significant b = true := by
    obtain ⟨f, later, rfl⟩ := List.exists_cons_of_ne_nil hfields
    obtain ⟨first, line, hline, hspace, hnul⟩ := f.line_eq_cons
    rw [blockOf_cons, hline] at hcut
    obtain rfl : b = first := (List.cons.inj hcut).1
    simp [significant, hspace, hnul]
  have htwo : (Place.headerBlock (fun _ _ => 0) [b :: rest, c :: second]).1.countP significant
      ≤ (c :: second).countP significant + rest.countP significant := by
    have hsaved := countP_saveHeader (b :: rest ++ [0])
      (Place.headerBlock (fun _ _ => 0) [b :: rest]).2 (c :: second)
    have hlost := (List.drop_sublist second.length (rest ++ [0])).countP_le (p := significant)
    rw [List.countP_append] at hlost
    have hpieces : [b :: rest, c :: second] = [b :: rest] ++ [c :: second] := rfl
    rw [hpieces, Place.headerBlock_append, Place.headerBlock_singleton]
    exact hsaved.trans (Nat.add_le_add_left hlost _)
  have hmore := countP_headerBlock_append [b :: rest, c :: second] more
  have hblock := congrArg (List.countP significant) hcut
  simp only [List.flatten_cons, List.countP_append, List.countP_cons_of_pos hb] at hblock
  exact (hmore.trans (Nat.add_le_add_right htwo _)).trans_lt (by omega)

/-! ### Headers parsed from the buffer -/

namespace Place

/-- The headers that are parsed from the buffer after pieces of a block. -/
def blockHeaders (heap : Bytes → ℕ → Byte) (pieces : List Bytes) : Option KeyArray :=
  (parseHeaderLines [] (cstr (headerBlock heap pieces).1) .success HeaderList.empty).map
    (·.2.entries)

/-- A block in one piece is parsed into its headers. -/
theorem blockHeaders_block (heap : Bytes → ℕ → Byte) (fields : List PartField) :
    blockHeaders heap [blockOf fields] = some (fields.map PartField.pair) := by
  obtain ⟨headers, hparse, hentries⟩ := parseHeaderLines_block fields .success HeaderList.empty
  rw [blockHeaders, headerBlock_singleton, cstr_append_nul (nul_notMem_blockOf fields), hparse,
    Option.map_some, hentries]
  rfl

/-- **Headers are lost with a second piece**, where the heap holds zeros. -/
theorem blockHeaders_ne {fields : List PartField} (hfields : fields ≠ [])
    {first second : Bytes} {more : List Bytes} (hfirst : first ≠ []) (hsecond : second ≠ [])
    (hcut : (first :: second :: more).flatten = blockOf fields) :
    blockHeaders (fun _ _ => 0) (first :: second :: more) ≠ some (fields.map PartField.pair) := by
  intro hparsed
  have hlt := countP_headerBlock_lt hfields hfirst hsecond hcut
  rw [blockHeaders] at hparsed
  set memory := (headerBlock (fun _ _ => 0) (first :: second :: more)).1
  obtain ⟨⟨r, headers⟩, hparse, heq⟩ := Option.map_eq_some_iff.mp hparsed
  simp only at heq
  have hle := parseHeaderLines_weight hparse
  have htext : (cstr memory).countP significant ≤ memory.countP significant :=
    (List.takeWhile_sublist _).countP_le
  have hnone : weight HeaderList.empty.entries = 0 := rfl
  rw [heq, weight_block, List.nil_append] at hle
  omega

/-- **The headers are those of the block**, whatever the heap holds, exactly if the block is
one piece. -/
theorem blockHeaders_eq_iff {fields : List PartField} (hfields : fields ≠ [])
    {pieces : List Bytes} (hpieces : ∀ piece ∈ pieces, piece ≠ [])
    (hcut : pieces.flatten = blockOf fields) :
    (∀ heap, blockHeaders heap pieces = some (fields.map PartField.pair)) ↔
      pieces.length = 1 := by
  constructor
  · intro hparsed
    match pieces with
    | [] => exact absurd hcut (blockOf_ne_nil fields).symm
    | [_] => rfl
    | first :: second :: more =>
        obtain ⟨hfirst, hlater⟩ := List.forall_mem_cons.mp hpieces
        exact absurd (hparsed _) (blockHeaders_ne hfields hfirst
          (hlater second List.mem_cons_self) hcut)
  · intro hlen heap
    obtain ⟨piece, rfl⟩ := List.length_eq_one_iff.mp hlen
    obtain rfl : piece = blockOf fields := by rwa [List.flatten_singleton] at hcut
    exact blockHeaders_block heap fields

end Place

end DsiRest
