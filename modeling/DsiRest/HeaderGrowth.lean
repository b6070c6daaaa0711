import DsiRest.HeaderParse
import DsiRest.Lib.Guarded

/-!
# The Growth of a Header List

A header list stores an array and a count, and no capacity: whether the array is full is inferred
from the count. `RawHeaderList` is the list as it is in memory, where a cell of the array may be
uninitialised and an access outside of it is undefined, `none`; `RawHeaderList.parse` models
`globus_i_dsi_rest_header_parse` on it. `RawHeaderList.Represents` connects it to `HeaderList`, which
cannot be built with more entries than its capacity.

## Main results

* `RawHeaderList.Represents.parse` — parsing a line is `headerParse`, and writes within the array.
* `header_list_grows` — what a call does after any calls before it.
-/

namespace DsiRest

/-- A `globus_dsi_rest_key_array_t` in memory: `key_value`, which may be `NULL`, with the cells that
are initialised, and `count`. -/
structure RawHeaderList where
  keyValue : Option (List (Option KeyValue))
  count : ℕ
  deriving DecidableEq, Repr

namespace RawHeaderList

/-- The list with `key_value = NULL` and `count = 0`. -/
def empty : RawHeaderList :=
  ⟨none, 0⟩

/-- The cells of the array. -/
def cells (l : RawHeaderList) : List (Option KeyValue) :=
  l.keyValue.getD []

/-- The number of entries that were allocated last. -/
def capacity (l : RawHeaderList) : ℕ :=
  l.cells.length

/-- `headers->key_value == NULL ||
(headers->count > 0 && headers->count % HEADER_ALLOC_CHUNK_SIZE) == 0`. -/
def isFull (l : RawHeaderList) : Bool :=
  l.keyValue.isNone || !(decide (0 < l.count) && l.count % headerAllocChunkSize != 0)

/-- `realloc` to `count + HEADER_ALLOC_CHUNK_SIZE` entries, which keeps those that still fit. -/
def realloc (l : RawHeaderList) : RawHeaderList :=
  let size := l.count + headerAllocChunkSize
  { l with keyValue := some (l.cells.take size ++ List.replicate (size - l.cells.length) none) }

/-- `headers->key_value[headers->count++] = kv`. -/
def append (l : RawHeaderList) (kv : KeyValue) : Option RawHeaderList :=
  if l.count < l.capacity then some ⟨some (l.cells.set l.count (some kv)), l.count + 1⟩ else none

/-- `globus_i_dsi_rest_header_parse`; `allocated` is whether `realloc` succeeds. -/
def parse (l : RawHeaderList) (buffer : Bytes) (size : ℕ) (allocated : Bool) :
    Option (Result × RawHeaderList) :=
  if l.isFull && !allocated then some (.error .memory, l)
  else
    let l := if l.isFull then l.realloc else l
    match (buffer.take size).findIdx? (· == colon) with
    | none => some (.success, l)
    | some 0 => some (.error (.parse (cstr buffer)), l)
    | some k =>
      let v := k + 1 + ((buffer.drop (k + 1)).takeWhile isHeaderSpace).length
      if size < v then none
      else
        let kstring := cstr (buffer.take k)
        let vstring := (cstr ((buffer.drop v).take (size - v))).takeWhile (· != cr)
        (l.append (.pair kstring vstring)).map (.success, ·)

/-- The part of `globus_i_dsi_rest_header` that empties the list after an interim response: it
reads every entry, to free its strings. -/
def reset (l : RawHeaderList) : Option RawHeaderList :=
  if l.count ≤ l.capacity ∧ none ∉ l.cells.take l.count then some empty else none

/-- The memory is that of a list: its entries are in the first cells. -/
structure Represents (l : RawHeaderList) (h : HeaderList) : Prop where
  count : l.count = h.entries.length
  capacity : l.capacity = h.capacity
  null : l.keyValue = none ↔ h.capacity = 0
  entries : l.cells.take l.count = h.entries.map some

namespace Represents

variable {l : RawHeaderList} {h : HeaderList}

theorem empty : RawHeaderList.empty.Represents HeaderList.empty :=
  ⟨rfl, rfl, iff_of_true rfl rfl, rfl⟩

/-- The test before the reallocation. -/
theorem isFull_eq (hl : l.Represents h) : l.isFull = h.isFull := by
  rw [RawHeaderList.isFull, HeaderList.isFull, hl.count]
  congr 1
  rw [Bool.eq_iff_iff, Option.isNone_iff_eq_none, hl.null, beq_iff_eq]

/-- The reallocation keeps the entries. -/
theorem grow (hl : l.Represents h) : (if l.isFull then l.realloc else l).Represents h.grow := by
  by_cases hfull : h.isFull = true
  · have hfits := h.fits
    rw [if_pos (hl.isFull_eq ▸ hfull)]
    have hcells : l.realloc.cells = l.cells.take (l.count + headerAllocChunkSize)
        ++ List.replicate (l.count + headerAllocChunkSize - l.cells.length) none := rfl
    have hgrown : h.grow.capacity = h.entries.length + headerAllocChunkSize := by
      rw [HeaderList.grow, dif_pos hfull]
    have hcapacity : l.cells.length = h.capacity := hl.capacity
    refine ⟨?_, ?_, ?_, ?_⟩
    · rw [HeaderList.grow_entries]
      exact hl.count
    · rw [hgrown, ← hl.count, RawHeaderList.capacity, hcells, List.length_append, List.length_take,
        List.length_replicate]
      omega
    · rw [hgrown]
      exact iff_of_false (by simp [RawHeaderList.realloc]) (by simp [headerAllocChunkSize])
    · have hcount : l.count ≤ l.cells.length := by
        rw [hcapacity, hl.count]
        exact hfits
      rw [HeaderList.grow_entries, ← hl.entries, hcells]
      show List.take l.count _ = _
      rw [List.take_append_of_le_length, List.take_take, Nat.min_eq_left (Nat.le_add_right _ _)]
      rw [List.length_take]
      omega
  · rw [if_neg (hl.isFull_eq ▸ hfull), HeaderList.grow, dif_neg hfull]
    exact hl

/-- An entry is appended within the array. -/
theorem append (hl : l.Represents h) (kv : KeyValue) (room : h.entries.length < h.capacity) :
    ∃ l', l.append kv = some l' ∧ l'.Represents (h.push kv room) := by
  have hroom : l.count < l.capacity := by
    rw [hl.count, hl.capacity]
    exact room
  have hroom' : l.count < l.cells.length := hroom
  rw [RawHeaderList.append, if_pos hroom]
  refine ⟨_, rfl, ?_, ?_, ?_, ?_⟩
  · rw [HeaderList.push_entries, List.length_append, ← hl.count]
    rfl
  · exact (List.length_set ..).trans hl.capacity
  · refine iff_of_false (Option.some_ne_none _) ?_
    show h.capacity ≠ 0
    omega
  · show (l.cells.set l.count (some kv)).take (l.count + 1) = _
    rw [List.take_add_one, List.take_set_of_le (Nat.le_refl _), List.getElem?_set_self hroom',
      hl.entries, HeaderList.push_entries, List.map_append]
    rfl

/-- **Parsing a line in memory** is parsing it, within the array. -/
theorem parse (hl : l.Represents h) (buffer : Bytes) (size : ℕ) :
    match headerParse h buffer size with
    | none => l.parse buffer size true = none
    | some (result, h') => ∃ l', l.parse buffer size true = some (result, l') ∧ l'.Represents h' := by
  have hgrow := hl.grow
  rw [headerParse, RawHeaderList.parse, Bool.not_true, Bool.and_false, if_neg Bool.false_ne_true]
  simp only
  rcases (buffer.take size).findIdx? (· == colon) with _ | _ | k
  · exact ⟨_, rfl, hgrow⟩
  · exact ⟨_, rfl, hgrow⟩
  · simp only
    split
    · rename_i hnone
      split at hnone
      · rename_i hout
        rw [if_pos hout]
      · cases hnone
    · rename_i hsome
      split at hsome
      · cases hsome
      · rename_i hin
        obtain ⟨rfl, rfl⟩ := Prod.mk.inj (Option.some.inj hsome)
        obtain ⟨l', happend, hrep⟩ := hgrow.append _ h.length_lt_capacity_grow
        exact ⟨l', by rw [if_neg hin, happend, Option.map_some], hrep⟩

end Represents

end RawHeaderList

/-! ### Lines -/

/-- A line without a colon, or with a name in front of its first colon and a value behind it that
is not blank. -/
def Parseable (line : Bytes) : Prop :=
  colon ∉ line ∨ ∃ key text, line = key ++ colon :: text ∧ key ≠ [] ∧ colon ∉ key ∧
    ∃ b ∈ text, isHeaderSpace b = false

/-- The white-space skip ends at a byte of the value. -/
theorem length_takeWhile_le_of_solid {text : Bytes} (h : ∃ b ∈ text, isHeaderSpace b = false)
    (after : Bytes) : ((text ++ after).takeWhile isHeaderSpace).length ≤ text.length := by
  obtain ⟨b, hb, hsolid⟩ := h
  rw [List.takeWhile_append, if_neg]
  · exact (List.takeWhile_sublist _).length_le
  · intro hall
    have hself := (List.takeWhile_sublist isHeaderSpace).eq_of_length hall
    exact absurd (List.takeWhile_eq_self_iff.mp hself b hb) (by rw [hsolid]; decide)

/-- What parsing a line adds. -/
theorem headerParse_parseable {line : Bytes} (hline : Parseable line) (h : HeaderList)
    (after : Bytes) :
    ∃ h', headerParse h (line ++ after) line.length = some (.success, h') ∧
      (colon ∈ line → ∃ kv, h'.entries = h.entries ++ [kv]) ∧
      (colon ∉ line → h'.entries = h.entries) := by
  rcases hline with hnone | ⟨key, text, rfl, hk, hkc, hsolid⟩
  · refine ⟨h.grow, headerParse_of_no_colon (by rwa [List.take_left]), fun hcolon => ?_, fun _ => ?_⟩
    · exact absurd hcolon hnone
    · exact h.grow_entries
  · have hin := length_takeWhile_le_of_solid hsolid after
    refine ⟨_, by rw [headerParse_split hk hkc, if_neg (by omega)], fun _ => ?_, fun hnone => ?_⟩
    · rw [HeaderList.push_entries, HeaderList.grow_entries]
      exact ⟨_, rfl⟩
    · exact absurd (List.mem_append_right _ List.mem_cons_self) hnone

/-! ### Any calls in any order -/

/-- A call with a line and what follows it in memory, where `realloc` succeeds or not if it is
called; or a reset of the list. -/
inductive HeaderStep
  | line (line after : Bytes) (allocated : Bool)
  | reset

/-- The line of a call can be parsed. -/
def HeaderStep.Parseable : HeaderStep → Prop
  | line text _ _ => DsiRest.Parseable text
  | reset => True

namespace RawHeaderList

/-- The list after a call. -/
def step (l : RawHeaderList) : HeaderStep → Option RawHeaderList
  | .line line after allocated => (l.parse (line ++ after) line.length allocated).map Prod.snd
  | .reset => l.reset

/-- Without an allocation none can fail. -/
theorem parse_of_room {l : RawHeaderList} (hroom : ¬ l.isFull = true) (buffer : Bytes) (size : ℕ)
    (allocated : Bool) : l.parse buffer size allocated = l.parse buffer size true := by
  have hfull : l.isFull = false := by simpa using hroom
  simp only [parse, hfull, Bool.false_and]

namespace Represents

variable {l : RawHeaderList} {h : HeaderList}

/-- The entries of a list are initialised, and within the array. -/
theorem initialised (hl : l.Represents h) :
    l.count ≤ l.capacity ∧ none ∉ l.cells.take l.count := by
  rw [hl.entries, hl.count, hl.capacity]
  exact ⟨h.fits, by simp⟩

/-- A list can be reset. -/
theorem reset (hl : l.Represents h) : l.reset = some .empty := by
  rw [RawHeaderList.reset, if_pos hl.initialised]

/-- **One call.** The line is added in the array if it has a colon, and the entries before it
stay. -/
theorem parse_parseable (hl : l.Represents h) {line : Bytes} (hline : Parseable line)
    (after : Bytes) :
    ∃ l' h', l.parse (line ++ after) line.length true = some (.success, l') ∧ l'.Represents h' ∧
      l'.cells.take l.count = l.cells.take l.count ∧
      (colon ∈ line → l.count < l'.capacity ∧ l'.count = l.count + 1) ∧
      (colon ∉ line → l'.count = l.count) := by
  obtain ⟨h', hparse, hcolon, hnone⟩ := headerParse_parseable hline h after
  have hraw := hl.parse (line ++ after) line.length
  rw [hparse] at hraw
  obtain ⟨l', hl', hrep⟩ := hraw
  have hkeep : ∀ added, h'.entries = h.entries ++ added →
      l'.count = l.count + added.length ∧ l'.cells.take l.count = l.cells.take l.count := by
    intro added hadded
    have hcount : l'.count = l.count + added.length := by
      rw [hrep.count, hadded, List.length_append, hl.count]
    refine ⟨hcount, ?_⟩
    have hentries := congrArg (List.take l.count) hrep.entries
    rw [List.take_take, Nat.min_eq_left (by omega), hadded, List.map_append,
      List.take_left' (by rw [List.length_map, hl.count])] at hentries
    rw [hentries, hl.entries]
  have hfits := hrep.initialised.1
  refine ⟨l', h', hl', hrep, ?_, fun hmem => ?_, fun hmem => ?_⟩
  · by_cases hmem : colon ∈ line
    · obtain ⟨kv, hkv⟩ := hcolon hmem
      exact (hkeep [kv] hkv).2
    · exact (hkeep [] (by rw [hnone hmem, List.append_nil])).2
  · obtain ⟨kv, hkv⟩ := hcolon hmem
    have hcount : l'.count = l.count + 1 := (hkeep [kv] hkv).1
    exact ⟨by omega, hcount⟩
  · exact (hkeep [] (by rw [hnone hmem, List.append_nil])).1

/-- Every call leaves a list behind, also one that gets no memory. -/
theorem step (hl : l.Represents h) {action : HeaderStep} (haction : action.Parseable) :
    ∃ l' h', l.step action = some l' ∧ l'.Represents h' := by
  cases action with
  | reset => exact ⟨_, _, hl.reset, Represents.empty⟩
  | line line after allocated =>
      by_cases hrefused : l.isFull = true ∧ allocated = false
      · have hparse : l.parse (line ++ after) line.length allocated = some (.error .memory, l) := by
          rw [RawHeaderList.parse, if_pos (by simp [hrefused])]
        exact ⟨l, h, by rw [RawHeaderList.step, hparse, Option.map_some], hl⟩
      · have hparse : l.parse (line ++ after) line.length allocated
            = l.parse (line ++ after) line.length true := by
          cases allocated with
          | true => rfl
          | false => exact parse_of_room (fun hfull => hrefused ⟨hfull, rfl⟩) _ _ _
        obtain ⟨l', h', hl', hrep, -⟩ := hl.parse_parseable haction after
        exact ⟨l', h', by rw [RawHeaderList.step, hparse, hl', Option.map_some], hrep⟩

/-- Every sequence of calls leaves a list behind. -/
theorem run (hl : l.Represents h) {actions : List HeaderStep}
    (hactions : ∀ action ∈ actions, action.Parseable) :
    ∃ l' h', Guarded.run RawHeaderList.step l actions = some l' ∧ l'.Represents h' := by
  induction actions generalizing l h with
  | nil => exact ⟨l, h, rfl, hl⟩
  | cons action actions ih =>
      obtain ⟨haction, hactions⟩ := List.forall_mem_cons.mp hactions
      obtain ⟨mid, hmid, hstep, hrep⟩ := hl.step haction
      obtain ⟨l', h', hrun, hrep'⟩ := ih hrep hactions
      exact ⟨l', h', Guarded.run_cons.mpr ⟨mid, hstep, hrun⟩, hrep'⟩

end Represents

end RawHeaderList

/-- **A header list grows within its array.** After any calls with lines that can be parsed and any
resets, in any order and number, and wherever memory ran out: no access was outside of the array,
the list can be reset, and the next call succeeds, if it gets the memory that it asks for. It
writes a line with a colon behind the other entries, at an index below the capacity, and counts
it; it counts no line without a colon; and the entries before keep their keys and values. -/
theorem header_list_grows {actions : List HeaderStep}
    (hactions : ∀ action ∈ actions, action.Parseable) :
    ∃ l, Guarded.run RawHeaderList.step .empty actions = some l ∧ l.reset = some .empty ∧
      none ∉ l.cells.take l.count ∧
      ∀ line after, Parseable line →
        ∃ l', l.parse (line ++ after) line.length true = some (.success, l') ∧
          l'.cells.take l.count = l.cells.take l.count ∧
          (colon ∈ line → l.count < l'.capacity ∧ l'.count = l.count + 1) ∧
          (colon ∉ line → l'.count = l.count) := by
  obtain ⟨l, h, hrun, hl⟩ := RawHeaderList.Represents.empty.run hactions
  refine ⟨l, hrun, hl.reset, hl.initialised.2, fun line after hline => ?_⟩
  obtain ⟨l', -, hparse, -, hrest⟩ := hl.parse_parseable hline after
  exact ⟨l', hparse, hrest⟩

/-- A line with a colon. -/
theorem parseable_pair : Parseable (bytes "a: b") :=
  Or.inr ⟨bytes "a", bytes " b", by decide +kernel, by decide +kernel, by decide +kernel,
    98, by decide +kernel, by decide +kernel⟩

/-- The case of nine fields, the blank line behind them, a reset, and a field more. -/
theorem header_list_grows_twice :
    let actions : List HeaderStep := List.replicate 9 (.line (bytes "a: b") crlf true) ++
      [.line crlf [] true, .reset, .line (bytes "a: b") crlf true]
    ∃ l, Guarded.run RawHeaderList.step .empty actions = some l ∧ l.reset = some .empty ∧
      none ∉ l.cells.take l.count ∧
      ∀ line after, Parseable line →
        ∃ l', l.parse (line ++ after) line.length true = some (.success, l') ∧
          l'.cells.take l.count = l.cells.take l.count ∧
          (colon ∈ line → l.count < l'.capacity ∧ l'.count = l.count + 1) ∧
          (colon ∉ line → l'.count = l.count) := by
  refine header_list_grows fun action haction => ?_
  rcases List.mem_append.mp haction with hfield | hrest
  · rw [(List.mem_replicate.mp hfield).2]
    exact parseable_pair
  · simp only [List.mem_cons, List.not_mem_nil, or_false] at hrest
    rcases hrest with rfl | rfl | rfl
    · exact Or.inl (by decide +kernel)
    · trivial
    · exact parseable_pair

end DsiRest
