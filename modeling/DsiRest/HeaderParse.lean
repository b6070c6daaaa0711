import DsiRest.Basic

/-!
# Header Lines

`headerParse` models `globus_i_dsi_rest_header_parse`: one received header line is split
at its first colon and appended to a growing list. The list is reallocated in chunks of
`headerAllocChunkSize` entries; `HeaderList` carries the fact that its entries fit the
allocation, so an append out of bounds cannot be built.

The line is given as the memory readable from its first byte, which may extend past the
`size` bytes of the line itself: the white-space skip after the colon is not bounded by
`size`. When it runs past the end, the allocation size wraps below zero and the value is
copied through a failed or empty allocation; `headerParse` is `none` there.

## Main results

* `headerParse_padded` — a line with a name and a value appends exactly that pair.
* `headerParse_of_no_colon` — a line without a colon changes no entry.
* `headerParse_inv` — where what a line adds comes from.
* `headerParse_local_iff` — when the parser looks only at its own line.
-/

namespace DsiRest

/-- `HEADER_ALLOC_CHUNK_SIZE`: the number of entries added by each reallocation. -/
def headerAllocChunkSize : ℕ := 8

/-- A `globus_dsi_rest_key_array_t` under construction: the entries, and the capacity
of the `key_value` array, `0` standing for `NULL`. -/
structure HeaderList where
  entries : List KeyValue
  capacity : ℕ
  chunked : headerAllocChunkSize ∣ capacity
  fits : entries.length ≤ capacity

namespace HeaderList

/-- The list with `key_value = NULL` and `count = 0`. -/
def empty : HeaderList :=
  ⟨[], 0, Nat.dvd_zero _, Nat.le_refl _⟩

/-- The test before the reallocation: no array yet, or
`(count > 0 && count % HEADER_ALLOC_CHUNK_SIZE) == 0`. -/
def isFull (h : HeaderList) : Bool :=
  h.capacity == 0 ||
    !(decide (0 < h.entries.length) && h.entries.length % headerAllocChunkSize != 0)

/-- A list the reallocation test accepts holds a whole number of chunks. -/
theorem dvd_length_of_isFull {h : HeaderList} (hf : h.isFull = true) :
    headerAllocChunkSize ∣ h.entries.length := by
  have hle := h.fits
  simp only [isFull, Bool.or_eq_true, beq_iff_eq, Bool.not_eq_true', Bool.and_eq_false_iff,
    decide_eq_false_iff_not, bne_eq_false_iff_eq] at hf
  rcases hf with hc | h0 | hm
  · rw [show h.entries.length = 0 by omega]
    exact Nat.dvd_zero _
  · rw [show h.entries.length = 0 by omega]
    exact Nat.dvd_zero _
  · exact Nat.dvd_of_mod_eq_zero hm

/-- The reallocation at the head of `globus_i_dsi_rest_header_parse`. -/
def grow (h : HeaderList) : HeaderList :=
  if hf : h.isFull = true then
    { entries := h.entries
      capacity := h.entries.length + headerAllocChunkSize
      chunked := Nat.dvd_add (dvd_length_of_isFull hf) (Nat.dvd_refl _)
      fits := Nat.le_add_right _ _ }
  else h

@[simp] theorem grow_entries (h : HeaderList) : h.grow.entries = h.entries := by
  unfold grow
  split <;> rfl

/-- After the reallocation there is room for one more entry. -/
theorem length_lt_capacity_grow (h : HeaderList) :
    h.grow.entries.length < h.grow.capacity := by
  rw [grow_entries]
  unfold grow
  split
  case isTrue => exact Nat.lt_add_of_pos_right (by decide)
  case isFalse hf =>
    have hle := h.fits
    have hd : 8 ∣ h.capacity := h.chunked
    simp only [isFull, headerAllocChunkSize, Bool.or_eq_true, beq_iff_eq, Bool.not_eq_true',
      Bool.and_eq_false_iff, decide_eq_false_iff_not, bne_eq_false_iff_eq, not_or] at hf
    omega

/-- `headers->key_value[headers->count++] = kv`. -/
def push (h : HeaderList) (kv : KeyValue) (room : h.entries.length < h.capacity) :
    HeaderList where
  entries := h.entries ++ [kv]
  capacity := h.capacity
  chunked := h.chunked
  fits := by rw [List.length_append]; exact room

@[simp] theorem push_entries (h : HeaderList) (kv : KeyValue)
    (room : h.entries.length < h.capacity) :
    (h.push kv room).entries = h.entries ++ [kv] := rfl

end HeaderList

/-- The colon that ends a header name. -/
abbrev colon : Byte := 58

/-- The space character. -/
abbrev space : Byte := 32

/-- The horizontal tab. -/
abbrev tab : Byte := 9

/-- The bytes skipped between the colon and the value. -/
def isHeaderSpace (b : Byte) : Bool :=
  b == space || b == tab || b == cr || b == lf

/-- `globus_i_dsi_rest_header_parse`: parse the `size` bytes at the start of `buffer`,
where `buffer` is all the memory up to its terminating NUL. `none` is the case in which
the white-space skip leaves the line. -/
def headerParse (headers : HeaderList) (buffer : Bytes) (size : ℕ) :
    Option (Result × HeaderList) :=
  match (buffer.take size).findIdx? (· == colon) with
  | none => some (.success, headers.grow)
  | some 0 => some (.error (.parse (cstr buffer)), headers.grow)
  | some k =>
    let v := k + 1 + ((buffer.drop (k + 1)).takeWhile isHeaderSpace).length
    if size < v then none
    else
      let kstring := cstr (buffer.take k)
      let vstring := (cstr ((buffer.drop v).take (size - v))).takeWhile (· != cr)
      some (.success, headers.grow.push (.pair kstring vstring)
        headers.length_lt_capacity_grow)

/-- The result of parsing a line does not depend on the headers before it. -/
theorem fst_headerParse (headers headers' : HeaderList) (buffer : Bytes) (size : ℕ) :
    (headerParse headers buffer size).map Prod.fst
      = (headerParse headers' buffer size).map Prod.fst := by
  unfold headerParse
  split
  · rfl
  · rfl
  · simp only
    split <;> rfl

/-- Whether a line can be parsed does not depend on them either. -/
theorem isSome_headerParse (headers headers' : HeaderList) (buffer : Bytes) (size : ℕ) :
    (headerParse headers buffer size).isSome = (headerParse headers' buffer size).isSome := by
  have hresult := congrArg Option.isSome (fst_headerParse headers headers' buffer size)
  rwa [Option.isSome_map, Option.isSome_map] at hresult

/-- A line without a colon leaves the entries alone and succeeds. -/
theorem headerParse_of_no_colon {headers : HeaderList} {buffer : Bytes} {size : ℕ}
    (h : colon ∉ buffer.take size) :
    headerParse headers buffer size = some (.success, headers.grow) := by
  have hnone : (buffer.take size).findIdx? (· == colon) = none := by
    rw [List.findIdx?_eq_none_iff]
    intro b hb
    simpa using fun hc : b = colon => h (hc ▸ hb)
  rw [headerParse, hnone]

/-- The first colon of a line ends its name. -/
theorem findIdx?_colon {key text : Bytes} (hkc : colon ∉ key) :
    (key ++ colon :: text).findIdx? (· == colon) = some key.length := by
  rw [List.findIdx?_append, List.findIdx?_eq_none_iff.mpr fun b hb => ?_]
  · simp [List.findIdx?_cons]
  · simpa using fun hc : b = colon => hkc (hc ▸ hb)

/-- What the parser makes of a line with a name: the white-space skip goes on behind the
line. -/
theorem headerParse_split {headers : HeaderList} {key text after : Bytes} (hk : key ≠ [])
    (hkc : colon ∉ key) :
    headerParse headers (key ++ colon :: text ++ after) (key ++ colon :: text).length
      = if text.length < ((text ++ after).takeWhile isHeaderSpace).length then none
        else some (.success, headers.grow.push (.pair (cstr key)
          ((cstr (((text ++ after).dropWhile isHeaderSpace).take (text.length
            - ((text ++ after).takeWhile isHeaderSpace).length))).takeWhile (· != cr)))
          headers.length_lt_capacity_grow) := by
  obtain ⟨k, hlength⟩ : ∃ k, key.length = k + 1 := by
    rw [← List.length_pos_iff] at hk
    exact ⟨key.length - 1, by omega⟩
  have hidx : ((key ++ colon :: text ++ after).take (key ++ colon :: text).length).findIdx?
      (· == colon) = some (k + 1) := by
    rw [List.take_left, findIdx?_colon hkc, hlength]
  have hdrop : (key ++ colon :: text ++ after).drop (k + 1 + 1) = text ++ after := by
    rw [← hlength, List.append_assoc, List.cons_append, List.append_cons,
      show key.length + 1 = (key ++ [colon]).length by simp, List.drop_left]
  have hname : (key ++ colon :: text ++ after).take (k + 1) = key := by
    rw [← hlength, List.append_assoc, List.take_left]
  have hsize : (key ++ colon :: text).length = k + 1 + 1 + text.length := by
    rw [List.length_append, List.length_cons, hlength]
    omega
  set skip := ((text ++ after).takeWhile isHeaderSpace).length with hskip
  have hvalue : (key ++ colon :: text ++ after).drop (k + 1 + 1 + skip)
      = (text ++ after).dropWhile isHeaderSpace := by
    have hleft := @List.drop_left _ ((text ++ after).takeWhile isHeaderSpace)
      ((text ++ after).dropWhile isHeaderSpace)
    rw [List.takeWhile_append_dropWhile] at hleft
    rw [← List.drop_drop, hdrop, hskip, hleft]
  rw [headerParse, hidx]
  simp only [hdrop, hname, ← hskip, hvalue, hsize]
  have hless : k + 1 + 1 + text.length < k + 1 + 1 + skip ↔ text.length < skip := by omega
  have hrest : k + 1 + 1 + text.length - (k + 1 + 1 + skip) = text.length - skip := by omega
  simp only [hless, hrest]

/-- A line with nothing in front of its colon is an error, whose text is all that can be read
from the line on. -/
theorem headerParse_nameless (headers : HeaderList) (text after : Bytes) :
    headerParse headers (colon :: text ++ after) (colon :: text).length
      = some (.error (.parse (cstr (colon :: text ++ after))), headers.grow) := by
  have hfirst : (colon :: text).findIdx? (· == colon) = some 0 := by
    simp [List.findIdx?_cons]
  rw [headerParse, List.take_left, hfirst]
  rfl

/-- **What the parser adds.** It adds at most one header, whose name is in front of the first
colon, and whose value is behind it. -/
theorem headerParse_inv {headers headers' : HeaderList} {line after : Bytes} {result : Result}
    (h : headerParse headers (line ++ after) line.length = some (result, headers')) :
    headers'.entries = headers.entries ∨
    ∃ key blank value, line = key ++ colon :: (blank ++ value) ∧ colon ∉ key ∧
      headers'.entries
        = headers.entries ++ [.pair (cstr key) ((cstr value).takeWhile (· != cr))] := by
  by_cases hcolon : colon ∈ line
  · obtain ⟨key, text, rfl, hkc⟩ := List.eq_append_cons_of_mem hcolon
    by_cases hk : key = []
    · rw [hk, List.nil_append, headerParse_nameless] at h
      obtain ⟨-, rfl⟩ := Prod.mk.inj (Option.some.inj h)
      exact Or.inl headers.grow_entries
    · rw [headerParse_split hk hkc] at h
      set skip := ((text ++ after).takeWhile isHeaderSpace).length with hskip
      split at h
      · cases h
      · rename_i hin
        have hrest : ((text ++ after).dropWhile isHeaderSpace).take (text.length - skip)
            = text.drop skip := by
          have hdrop := @List.drop_left _ ((text ++ after).takeWhile isHeaderSpace)
            ((text ++ after).dropWhile isHeaderSpace)
          rw [List.takeWhile_append_dropWhile, ← hskip,
            List.drop_append_of_le_length (by omega)] at hdrop
          rw [← hdrop, ← List.length_drop, List.take_left]
        rw [hrest] at h
        obtain ⟨-, rfl⟩ := Prod.mk.inj (Option.some.inj h)
        refine Or.inr ⟨key, text.take skip, text.drop skip, ?_, hkc, ?_⟩
        · rw [List.take_append_drop]
        · rw [HeaderList.push_entries, headers.grow_entries]
  · rw [headerParse_of_no_colon (by rwa [List.take_left])] at h
    obtain ⟨-, rfl⟩ := Prod.mk.inj (Option.some.inj h)
    exact Or.inl headers.grow_entries

/-- The value of a line begins behind the white space, if there is any. -/
theorem headerParse_solid {headers : HeaderList} {key padding value after : Bytes}
    (hk : key ≠ []) (hkc : colon ∉ key) (hpad : ∀ b ∈ padding, isHeaderSpace b = true)
    (hv : ∀ b ∈ value.head?, isHeaderSpace b = false) (hne : value ≠ []) :
    headerParse headers (key ++ colon :: (padding ++ value) ++ after)
        (key ++ colon :: (padding ++ value)).length
      = some (.success, headers.grow.push (.pair (cstr key) ((cstr value).takeWhile (· != cr)))
          headers.length_lt_capacity_grow) := by
  obtain ⟨v, vs, rfl⟩ := List.exists_cons_of_ne_nil hne
  have hvs : ¬isHeaderSpace v = true := by simp [hv v rfl]
  have hskip : (padding ++ v :: vs ++ after).takeWhile isHeaderSpace = padding := by
    rw [List.append_assoc, List.takeWhile_append_of_pos hpad, List.cons_append,
      List.takeWhile_cons_of_neg hvs, List.append_nil]
  have hrest : (padding ++ v :: vs ++ after).dropWhile isHeaderSpace = v :: vs ++ after := by
    rw [List.append_assoc, List.dropWhile_append_of_pos hpad, List.cons_append,
      List.dropWhile_cons_of_neg hvs]
  have hlength : (padding ++ v :: vs).length - padding.length = (v :: vs).length := by
    rw [List.length_append, Nat.add_sub_cancel_left]
  rw [headerParse_split hk hkc, hskip, hrest, hlength, List.take_left,
    if_neg (by rw [List.length_append]; omega)]

/-- **A well-formed line is split exactly.** For a name without colon or NUL, white space
after the colon and a value that is not empty, does not start with white space and has
neither CR nor NUL, the line appends the pair of name and value, whatever follows it in
memory. -/
theorem headerParse_padded {headers : HeaderList} {key padding value after : Bytes}
    (hk : key ≠ []) (hkc : colon ∉ key) (hk0 : 0 ∉ key)
    (hpad : ∀ b ∈ padding, isHeaderSpace b = true)
    (hv : ∀ b ∈ value.head?, isHeaderSpace b = false) (hne : value ≠ [])
    (hv0 : 0 ∉ value) (hvr : cr ∉ value) :
    ∃ headers', headerParse headers (key ++ [colon] ++ padding ++ value ++ after)
        (key.length + 1 + padding.length + value.length) = some (.success, headers') ∧
      headers'.entries = headers.entries ++ [.pair key value] := by
  have hline : key ++ [colon] ++ padding ++ value = key ++ colon :: (padding ++ value) := by simp
  have hsize : key.length + 1 + padding.length + value.length
      = (key ++ colon :: (padding ++ value)).length := by
    rw [← hline]
    simp only [List.length_append, List.length_singleton]
  have hvalue : value.takeWhile (· != cr) = value := by
    rw [List.takeWhile_eq_self_iff]
    intro b hb
    simpa using fun hc : b = cr => hvr (hc ▸ hb)
  refine ⟨_, by rw [hline, hsize]; exact headerParse_solid hk hkc hpad hv hne, ?_⟩
  rw [HeaderList.push_entries, HeaderList.grow_entries, cstr_eq_self hk0, cstr_eq_self hv0, hvalue]

/-- The line `key: value` appends the pair `(key, value)`. -/
theorem headerParse_pair {headers : HeaderList} {key value after : Bytes}
    (hk : key ≠ []) (hkc : colon ∉ key) (hk0 : 0 ∉ key)
    (hv : ∀ b ∈ value.head?, isHeaderSpace b = false) (hne : value ≠ [])
    (hv0 : 0 ∉ value) (hvr : cr ∉ value) :
    ∃ headers', headerParse headers (key ++ [colon, space] ++ value ++ after)
        (key.length + 2 + value.length) = some (.success, headers') ∧
      headers'.entries = headers.entries ++ [.pair key value] := by
  have hspace : ∀ b ∈ [space], isHeaderSpace b = true := by simp [isHeaderSpace]
  have hsplit := @headerParse_padded headers key [space] value after hk hkc hk0 hspace hv hne
    hv0 hvr
  rwa [List.append_assoc key] at hsplit

/-! ### What is behind a line -/

/-- The first colon splits a line in one way. -/
theorem colon_split_inj {key key' text text' : Bytes}
    (h : key ++ colon :: text = key' ++ colon :: text') (hk : colon ∉ key) (hk' : colon ∉ key') :
    key = key' ∧ text = text' := by
  have hidx := @findIdx?_colon key text hk
  rw [h, findIdx?_colon hk'] at hidx
  obtain ⟨hkey, htext⟩ := List.append_inj h (Option.some.inj hidx).symm
  exact ⟨hkey, (List.cons.inj htext).2⟩

/-- A line that can be parsed without a look at what follows it in memory: if it has a colon,
there is a byte other than white space behind the first one, or, where nothing is in front of
it and the line becomes the text of an error, a NUL. -/
def SelfContained (line : Bytes) : Prop :=
  ∀ key text, line = key ++ colon :: text → colon ∉ key →
    if key = [] then 0 ∈ line else ∃ b ∈ text, isHeaderSpace b = false

/-- A line with a colon is self-contained if this holds of its only split. -/
theorem selfContained_split {key text : Bytes} (hkc : colon ∉ key) :
    SelfContained (key ++ colon :: text) ↔
      if key = [] then 0 ∈ key ++ colon :: text else ∃ b ∈ text, isHeaderSpace b = false := by
  constructor
  · exact fun h => h key text rfl hkc
  · intro h key' text' hsplit hkc'
    obtain ⟨rfl, rfl⟩ := colon_split_inj hsplit hkc hkc'
    exact h

/-- The line is parsed to the same result and the same entries in every buffer that begins with
it, without leaving it; and a blank value is parsed to an empty one. -/
def ParsesLocally (headers : HeaderList) (line : Bytes) : Prop :=
  ∃ result headers', (∀ after, headerParse headers (line ++ after) line.length
      = some (result, headers')) ∧
    ∀ key text, line = key ++ colon :: text → colon ∉ key → key ≠ [] →
      (∀ b ∈ text, isHeaderSpace b = true) →
      headers'.entries = headers.entries ++ [.pair (cstr key) []]

/-- Without a name a line is parsed locally if it ends the text of the error. -/
theorem parsesLocally_nameless (headers : HeaderList) (text : Bytes) :
    ParsesLocally headers (colon :: text) ↔ 0 ∈ colon :: text := by
  constructor
  · rintro ⟨result, headers', hall, -⟩
    by_contra hnul
    have hsame : cstr (colon :: text ++ []) = cstr (colon :: text ++ [space]) := by
      have hnil := (headerParse_nameless headers text []).symm.trans (hall [])
      have hspace := (headerParse_nameless headers text [space]).symm.trans (hall [space])
      have herror := congrArg Prod.fst (Option.some.inj (hnil.trans hspace.symm))
      exact GlobusError.parse.inj (Result.error.inj herror)
    have hnul' : 0 ∉ colon :: text ++ [space] := by
      rw [List.mem_append, not_or]
      exact ⟨hnul, by decide⟩
    rw [List.append_nil, cstr_eq_self hnul, cstr_eq_self hnul'] at hsame
    have hlength := congrArg List.length hsame
    rw [List.length_append, List.length_singleton] at hlength
    omega
  · intro hnul
    refine ⟨.error (.parse (cstr (colon :: text))), headers.grow, fun after => ?_,
      fun key text' hsplit hkc hk => ?_⟩
    · rw [headerParse_nameless, cstr_append_of_mem hnul]
    · have hnil : colon ∉ ([] : Bytes) := List.not_mem_nil
      exact absurd (@colon_split_inj [] _ _ _ hsplit hnil hkc).1.symm hk

/-- With a name a line is parsed locally if the white space behind its colon ends in it. -/
theorem parsesLocally_named (headers : HeaderList) {key text : Bytes} (hk : key ≠ [])
    (hkc : colon ∉ key) :
    ParsesLocally headers (key ++ colon :: text) ↔ ∃ b ∈ text, isHeaderSpace b = false := by
  constructor
  · rintro ⟨result, headers', hall, -⟩
    by_contra hblank
    have hspace : ∀ b ∈ text ++ [space], isHeaderSpace b = true := by
      intro b hb
      rcases List.mem_append.mp hb with hb | hb
      · by_contra hnot
        exact hblank ⟨b, hb, Bool.eq_false_of_not_eq_true hnot⟩
      · obtain rfl := List.mem_singleton.mp hb
        rfl
    have hout := hall [space]
    rw [headerParse_split hk hkc, List.takeWhile_eq_self_iff.mpr hspace, if_pos (by simp)] at hout
    exact absurd hout (by simp)
  · rintro ⟨b, hb, hsolid⟩
    obtain ⟨c, hfind⟩ := Option.isSome_iff_exists.mp
      ((List.find?_isSome (p := fun b => !isHeaderSpace b)).mpr ⟨b, hb, by simp [hsolid]⟩)
    obtain ⟨hc, blank, rest, rfl, hblank⟩ := List.find?_eq_some_iff_append.mp hfind
    refine ⟨_, _, fun after => headerParse_solid hk hkc (fun a ha => by simpa using hblank a ha)
      (by simpa using hc) (List.cons_ne_nil _ _), fun key' text' hsplit hkc' _ hspace => ?_⟩
    obtain ⟨-, rfl⟩ := colon_split_inj hsplit hkc hkc'
    exact absurd ((hspace b hb).symm.trans hsolid) (by decide)

/-- **Header parsing looks only at its own line** just when the line is self-contained. -/
theorem headerParse_local_iff (headers : HeaderList) (line : Bytes) :
    ParsesLocally headers line ↔ SelfContained line := by
  by_cases hcolon : colon ∈ line
  · obtain ⟨key, text, hline, hkc⟩ := List.eq_append_cons_of_mem hcolon
    rw [hline, selfContained_split hkc]
    by_cases hk : key = []
    · rw [if_pos hk, hk]
      exact parsesLocally_nameless headers text
    · rw [if_neg hk]
      exact parsesLocally_named headers hk hkc
  · -- without a colon nothing is looked at
    have hnone : ∀ key text, line ≠ key ++ colon :: text := fun key text hline =>
      hcolon (by rw [hline]; exact List.mem_append_right _ List.mem_cons_self)
    refine iff_of_true ⟨.success, headers.grow, fun after => headerParse_of_no_colon ?_,
      fun key text hline => (hnone key text hline).elim⟩
      fun key text hline => (hnone key text hline).elim
    rwa [List.take_left]

/-- **A field without a value.** The skip behind the colon of `X-Empty:` goes on into the line
that follows it in a part's header block. -/
theorem headerParse_local_emptyValue :
    (headerParse HeaderList.empty (bytes "X-Empty:") 8).map (fun r => r.2.entries)
        = some [.pair (bytes "X-Empty") []] ∧
      headerParse HeaderList.empty (bytes "X-Empty:" ++ bytes "\r\nB: c\r\n\r\n") 8 = none ∧
      ¬ParsesLocally HeaderList.empty (bytes "X-Empty:") := by
  have hnone : (headerParse HeaderList.empty
      (bytes "X-Empty:" ++ bytes "\r\nB: c\r\n\r\n") 8).isNone = true := by decide +kernel
  refine ⟨by decide +kernel, Option.isNone_iff_eq_none.mp hnone, ?_⟩
  rintro ⟨result, headers', hall, -⟩
  have hlength : (bytes "X-Empty:").length = 8 := by decide +kernel
  have hsome := hall (bytes "\r\nB: c\r\n\r\n")
  rw [hlength, Option.isNone_iff_eq_none.mp hnone] at hsome
  exact absurd hsome (by simp)

end DsiRest
