import DsiRest.FormEncoding

/-!
# Query Parameters of a URI

`uriAddQuery` models `globus_dsi_rest_uri_add_query`. It sizes one allocation for the URI and
all parameters, copies the URI, and appends each parameter behind a delimiter: `?` first, and `&`
from then on. It does not look at the URI, so that a URI with a query gets a second `?`. A failed
assertion is `none`.

## Main results

* `uriAddQuery_eq` — what is appended: no assertion fails.
* `keepsQueries_iff` — when both queries are kept.
-/

namespace DsiRest

/-! ### The loop over the parameters -/

/-- What a parameter adds to `complete_uri_len`. -/
def KeyValue.querySize : KeyValue → ℕ
  | ⟨some key, some value⟩ => 2 + 3 * key.length + 3 * value.length
  | _ => 0

/-- `complete_uri_len`. -/
def completeUriLen (uri : Bytes) (params : KeyArray) : ℕ :=
  uri.length + (params.map KeyValue.querySize).sum

/-- What is left behind a byte: there must have been room for it. -/
def takeByte : ℕ → Option ℕ
  | 0 => none
  | left + 1 => some left

/-- The loop over the parameters; one with a `NULL` key or value is skipped. -/
def addParams : KeyArray → Byte → ℕ → Option (Bytes × ℕ)
  | [], _, left => some ([], left)
  | ⟨some key, some value⟩ :: params, delim, left => do
    let left ← takeByte left
    let (k, left) ← uriEscape key left
    let left ← takeByte left
    let (v, left) ← uriEscape value left
    let (more, left) ← addParams params 38 left
    some (delim :: k ++ 61 :: v ++ more, left)
  | _ :: params, delim, left => addParams params delim left

/-- `globus_dsi_rest_uri_add_query`: the complete URI. -/
def uriAddQuery (uri : Bytes) : Option KeyArray → Option Bytes
  | none => some uri
  | some [] => some uri
  | some params => do
    let (query, left) ← addParams params 63 (completeUriLen uri params + 1 - uri.length)
    let _ ← takeByte left
    some (uri ++ query)

/-! ### What is appended -/

/-- Key and value of a parameter without `NULL`. -/
def KeyValue.given : KeyValue → Option (Bytes × Bytes)
  | ⟨some key, some value⟩ => some (key, value)
  | _ => none

/-- The parameters that are not ignored. -/
def givenParams (params : Option KeyArray) : List (Bytes × Bytes) :=
  (params.getD []).filterMap KeyValue.given

/-- The text of the parameters, the first of them behind `delim`. -/
def paramsText : Byte → List (Bytes × Bytes) → Bytes
  | _, [] => []
  | delim, field :: fields => delim :: formCode.encodeField field ++ paramsText 38 fields

/-- Behind the first delimiter, the parameters are written as form data is. -/
theorem paramsText_cons (delim : Byte) (field : Bytes × Bytes) (fields : List (Bytes × Bytes)) :
    paramsText delim (field :: fields) = delim :: formCode.encodeFields (field :: fields) := by
  have hlater : ∀ fields : List (Bytes × Bytes),
      paramsText 38 fields = fields.flatMap fun next => 38 :: formCode.encodeField next := by
    intro fields
    induction fields with
    | nil => rfl
    | cons next fields ih => rw [paramsText, ih, List.flatMap_cons]
  rw [paramsText, hlater, FieldCode.encodeFields_cons]
  rfl

/-- A parameter is either ignored or given. -/
theorem addParams_skip {param : KeyValue} (h : param.given = none) (params : KeyArray)
    (delim : Byte) (left : ℕ) :
    addParams (param :: params) delim left = addParams params delim left ∧ param.querySize = 0 := by
  obtain ⟨key, value⟩ := param
  rcases key with _ | key
  · exact ⟨rfl, rfl⟩
  · rcases value with _ | value
    · exact ⟨rfl, rfl⟩
    · cases h

theorem eq_pair_of_given {param : KeyValue} {field : Bytes × Bytes}
    (h : param.given = some field) : param = .pair field.1 field.2 := by
  obtain ⟨key, value⟩ := param
  rcases key with _ | key
  · cases h
  · rcases value with _ | value
    · cases h
    · obtain rfl := Option.some.inj h
      rfl

/-- **The loop over the parameters** appends those that are not ignored, if there is room for
them. -/
theorem addParams_add (params : KeyArray) (delim : Byte) (left : ℕ) :
    addParams params delim
        ((paramsText delim (params.filterMap KeyValue.given)).length + left)
      = some (paramsText delim (params.filterMap KeyValue.given), left) := by
  induction params generalizing delim with
  | nil => rw [List.filterMap_nil, paramsText, List.length_nil, Nat.zero_add, addParams]
  | cons param params ih =>
      cases hgiven : param.given with
      | none => rw [List.filterMap_cons_none hgiven, (addParams_skip hgiven _ _ _).1, ih]
      | some field =>
          rw [List.filterMap_cons_some hgiven, eq_pair_of_given hgiven, paramsText]
          set more := paramsText 38 (params.filterMap KeyValue.given)
          have hroom : (delim :: formCode.encodeField field ++ more).length + left
              = (formCode.encodeText field.1).length
                + ((formCode.encodeText field.2).length + (more.length + left) + 1) + 1 := by
            simp only [FieldCode.encodeField, List.length_append, List.length_cons]
            omega
          have hloop : ∀ available, addParams (.pair field.1 field.2 :: params) delim available
              = (takeByte available).bind fun available =>
                  (uriEscape field.1 available).bind fun k =>
                    (takeByte k.2).bind fun available =>
                      (uriEscape field.2 available).bind fun v =>
                        (addParams params 38 v.2).bind fun more =>
                          some (delim :: k.1 ++ 61 :: v.1 ++ more.1, more.2) := fun _ => rfl
          rw [hloop, hroom, takeByte, Option.bind_some, uriEscape_add, Option.bind_some, takeByte,
            Option.bind_some, uriEscape_add, Option.bind_some, ih, Option.bind_some]
          simp [FieldCode.encodeField, formCode, more]

/-- The parameters take no more than what is allocated for them. -/
theorem length_paramsText_le (params : KeyArray) (delim : Byte) :
    (paramsText delim (params.filterMap KeyValue.given)).length
      ≤ (params.map KeyValue.querySize).sum := by
  induction params generalizing delim with
  | nil => exact Nat.le_refl _
  | cons param params ih =>
      rw [List.map_cons, List.sum_cons]
      cases hgiven : param.given with
      | none =>
          rw [List.filterMap_cons_none hgiven, (addParams_skip hgiven params delim 0).2, Nat.zero_add]
          exact ih delim
      | some field =>
          have hsize : param.querySize = 2 + 3 * field.1.length + 3 * field.2.length := by
            rw [eq_pair_of_given hgiven]
            rfl
          have hfield := length_encodeField_le field
          have hmore := ih 38
          rw [List.filterMap_cons_some hgiven, paramsText, List.cons_append, List.length_cons,
            List.length_append, hsize]
          omega

/-- **The parameters are appended**, and no assertion fails. -/
theorem uriAddQuery_eq (uri : Bytes) (params : Option KeyArray) :
    uriAddQuery uri params = some (uri ++ paramsText 63 (givenParams params)) := by
  have hnone : uri = uri ++ paramsText 63 [] := (List.append_nil uri).symm
  match params with
  | none => exact congrArg some hnone
  | some [] => exact congrArg some hnone
  | some (param :: params) =>
      set all := param :: params
      obtain ⟨rest, hrest⟩ := Nat.exists_eq_add_of_le (length_paramsText_le all 63)
      have hroom : completeUriLen uri all + 1 - uri.length
          = (paramsText 63 (all.filterMap KeyValue.given)).length + (rest + 1) := by
        rw [completeUriLen, hrest]
        omega
      have hadd : uriAddQuery uri (some all)
          = (addParams all 63 (completeUriLen uri all + 1 - uri.length)).bind fun query =>
              (takeByte query.2).bind fun _ => some (uri ++ query.1) := rfl
      rw [hadd, hroom, addParams_add, Option.bind_some, takeByte, Option.bind_some]
      rfl

/-! ### The query of a URI -/

/-- What is in front of the first `?`. -/
def beforeQuery (uri : Bytes) : Bytes :=
  uri.takeWhile (· ≠ 63)

/-- What is behind the first `?`. -/
def queryOf (uri : Bytes) : Bytes :=
  (uri.dropWhile (· ≠ 63)).drop 1

/-- The complete URI has the parameters of the URI and those that are given, in this order, and
nothing else changes. -/
def KeepsQueries (uri : Bytes) (params : Option KeyArray) : Prop :=
  ∃ complete, uriAddQuery uri params = some complete ∧ beforeQuery complete = beforeQuery uri ∧
    decodeFormData (queryOf complete) = decodeFormData (queryOf uri) ++ givenParams params

/-- A URI is split at its first `?`. -/
theorem split_query {front : Bytes} (h : 63 ∉ front) (query : Bytes) :
    beforeQuery (front ++ 63 :: query) = front ∧ queryOf (front ++ 63 :: query) = query :=
  FieldCode.split_first h query

/-- A URI without `?` has no query. -/
theorem split_noQuery {uri : Bytes} (h : 63 ∉ uri) : beforeQuery uri = uri ∧ queryOf uri = [] := by
  have hfree : ∀ b ∈ uri, decide (b ≠ 63) = true := by
    intro b hb
    simpa using fun heq : b = 63 => h (heq ▸ hb)
  rw [beforeQuery, queryOf, List.takeWhile_eq_self_iff.mpr hfree,
    List.dropWhile_eq_nil_iff.mpr hfree]
  exact ⟨rfl, rfl⟩

/-- A second `?` becomes a part of a parameter. -/
theorem decodeFormData_mark_ne (query : Bytes) (field : Bytes × Bytes)
    (fields : List (Bytes × Bytes)) :
    decodeFormData (query ++ 63 :: formCode.encodeFields (field :: fields))
      ≠ decodeFormData query ++ field :: fields :=
  formCode.decodeFields_mark_ne (by decide) (by decide)
    (percentDecode_cons (show (63 : Byte) ≠ 37 by decide)) query field fields

/-- **When both queries are kept.** For every URI and every array of parameters: the complete URI
has the parameters of the URI and those that are given if and only if the URI has no query, or no
parameter is given. -/
theorem keepsQueries_iff (uri : Bytes) (params : Option KeyArray) :
    KeepsQueries uri params ↔ 63 ∉ uri ∨ givenParams params = [] := by
  have hcomplete := uriAddQuery_eq uri params
  rw [KeepsQueries, hcomplete]
  simp only [Option.some.injEq, exists_eq_left']
  cases givenParams params with
  | nil =>
      rw [paramsText, List.append_nil, List.append_nil]
      exact iff_of_true ⟨rfl, rfl⟩ (Or.inr rfl)
  | cons field fields =>
      rw [paramsText_cons]
      by_cases hmark : 63 ∈ uri
      · -- the first `?` of the URI stays the first one
        obtain ⟨front, query, rfl, hfront⟩ := List.eq_append_cons_of_mem hmark
        rw [List.append_assoc, List.cons_append, (split_query hfront _).2, (split_query hfront _).2]
        refine iff_of_false (fun hkeeps => ?_) ?_
        · exact decodeFormData_mark_ne query field fields hkeeps.2
        · rintro (hfree | hnil)
          · exact hfree hmark
          · exact List.cons_ne_nil _ _ hnil
      · obtain ⟨hbefore, hquery⟩ := split_query hmark (formCode.encodeFields (field :: fields))
        obtain ⟨hbefore', hquery'⟩ := split_noQuery hmark
        rw [hbefore, hquery, hbefore', hquery']
        refine iff_of_true ⟨rfl, ?_⟩ (Or.inl hmark)
        exact formCode.decodeFields_encodeFields (field :: fields)

/-- A URI with a query: the second `?` is in the value of its parameter. -/
theorem query_lost :
    uriAddQuery (bytes "http://h/p?x=1") (some [.pair (bytes "k") (bytes "v")])
        = some (bytes "http://h/p?x=1?k=v") ∧
      decodeFormData (queryOf (bytes "http://h/p?x=1?k=v")) = [(bytes "x", bytes "1?k=v")] ∧
      ¬ KeepsQueries (bytes "http://h/p?x=1") (some [.pair (bytes "k") (bytes "v")]) := by
  have hcomplete : uriAddQuery (bytes "http://h/p?x=1") (some [.pair (bytes "k") (bytes "v")])
      = some (bytes "http://h/p?x=1?k=v") := by decide +kernel
  refine ⟨hcomplete, by decide +kernel, ?_⟩
  rintro ⟨complete, hadd, -, hquery⟩
  obtain rfl := Option.some.inj (hadd.symm.trans hcomplete)
  revert hquery
  decide +kernel

end DsiRest
