import DsiRest.Lib.FieldCode
import DsiRest.UriEscape

/-!
# Form Data

What a recipient of encoded form data does: split it at `&`, split each piece at its first `=`,
and decode both halves, where `+` stands for a space and `%` with two hexadecimal digits for a
byte. With the encoding of the bytes this is a `FieldCode`, and the loops write what it encodes.

## Main results

* `uriEscape_eq` — what is written, and what is left, if there is room for it.
* `encodeFields_add` — the loop over the fields.
* `encodeFormData_decode` — form data is decoded to the fields, and fits.
-/

namespace DsiRest

/-! ### Decoding -/

/-- The value of a hexadecimal digit. -/
def hexValue (b : Byte) : Option ℕ :=
  if 48 ≤ b && b ≤ 57 then some (b.toNat - 48)
  else if 65 ≤ b && b ≤ 70 then some (b.toNat - 55)
  else if 97 ≤ b && b ≤ 102 then some (b.toNat - 87)
  else none

/-- A byte that stands for itself, or the plus sign that stands for a space. -/
def plainByte (b : Byte) : Byte :=
  if b = 43 then 32 else b

/-- Undo percent encoding. A `%` without two digits stands for itself. -/
def percentDecode : Bytes → Bytes
  | [] => []
  | b :: high :: low :: rest =>
    match (if b = 37 then hexValue high else none), hexValue low with
    | some h, some l => UInt8.ofNat (16 * h + l) :: percentDecode rest
    | _, _ => plainByte b :: percentDecode (high :: low :: rest)
  | b :: text => plainByte b :: percentDecode text

/-- A byte other than `%` is decoded alone. -/
theorem percentDecode_cons {b : Byte} (hpercent : b ≠ 37) (text : Bytes) :
    percentDecode (b :: text) = plainByte b :: percentDecode text := by
  match text with
  | [] => rfl
  | [_] => rfl
  | _ :: _ :: _ => rw [percentDecode, if_neg hpercent]

/-- Two digits stand for a byte. -/
theorem percentDecode_digits {high low : Byte} {h l : ℕ} (hhigh : hexValue high = some h)
    (hlow : hexValue low = some l) (rest : Bytes) :
    percentDecode (37 :: high :: low :: rest) = UInt8.ofNat (16 * h + l) :: percentDecode rest := by
  rw [percentDecode, if_pos rfl, hhigh, hlow]

/-- The digits of a number are those of its value. -/
theorem hexValue_hexDigit : ∀ {n : ℕ}, n < 16 → hexValue (hexDigit n) = some n := by
  decide +kernel

/-- A byte and its encoding. -/
theorem percentDecode_escapeByte (b : Byte) (rest : Bytes) :
    percentDecode (escapeByte b ++ rest) = b :: percentDecode rest := by
  have hb := b.toNat_lt
  rw [escapeByte]
  split
  · rename_i hunreserved
    have hkept : b ≠ 37 ∧ b ≠ 43 := by
      constructor
      · rintro rfl
        exact absurd hunreserved (by decide)
      · rintro rfl
        exact absurd hunreserved (by decide)
    rw [List.singleton_append, percentDecode_cons hkept.1, plainByte, if_neg hkept.2]
  · split
    · rename_i hspace
      rw [List.singleton_append, percentDecode_cons (by decide), plainByte, if_pos rfl, hspace]
    · have hbyte : UInt8.ofNat (16 * (b.toNat / 16) + b.toNat % 16) = b := by
        rw [Nat.div_add_mod]
        exact UInt8.ofNat_toNat
      rw [List.cons_append, List.cons_append, List.singleton_append,
        percentDecode_digits (hexValue_hexDigit (by omega)) (hexValue_hexDigit (by omega)), hbyte]

/-! ### The code of form data -/

/-- An encoding is made up of unreserved bytes, `+` and `%`. -/
theorem mem_escapeByte {a b : Byte} (h : a ∈ escapeByte b) :
    isUnreserved a = true ∨ a = 43 ∨ a = 37 := by
  have hdigit : ∀ n < 16, isUnreserved (hexDigit n) = true := by decide +kernel
  have hb := b.toNat_lt
  rw [escapeByte] at h
  split at h
  · rename_i hunreserved
    rw [List.mem_singleton.mp h]
    exact Or.inl hunreserved
  · split at h
    · exact Or.inr (Or.inl (List.mem_singleton.mp h))
    · rcases List.mem_cons.mp h with rfl | h
      · exact Or.inr (Or.inr rfl)
      · rcases List.mem_cons.mp h with rfl | h
        · exact Or.inl (hdigit _ (by omega))
        · rw [List.mem_singleton.mp h]
          exact Or.inl (hdigit _ (by omega))

/-- Any other byte is not in an encoding. -/
theorem notMem_escapeByte {a : Byte} (h : isUnreserved a = false ∧ a ≠ 43 ∧ a ≠ 37) (b : Byte) :
    a ∉ escapeByte b := by
  intro hmem
  rcases mem_escapeByte hmem with hunreserved | hplus | hpercent
  · rw [h.1] at hunreserved
    cases hunreserved
  · exact h.2.1 hplus
  · exact h.2.2 hpercent

/-- Form data: `&` between the fields, `=` between key and value. -/
def formCode : FieldCode Byte where
  encode := escapeByte
  decode := percentDecode
  separator := 38
  equals := 61
  decode_nil := rfl
  decode_encode := percentDecode_escapeByte
  separator_notMem := notMem_escapeByte (by decide)
  equals_notMem := notMem_escapeByte (by decide)
  separator_ne := by decide

/-- The fields that a recipient of form data finds. -/
def decodeFormData : Bytes → List (Bytes × Bytes) :=
  formCode.decodeFields

/-- An encoding takes at most three bytes. -/
theorem length_encodeText_le (raw : Bytes) :
    (formCode.encodeText raw).length ≤ 3 * raw.length := by
  induction raw with
  | nil => exact Nat.le_refl _
  | cons b raw ih =>
      have hb : (formCode.encode b).length ≤ 3 := by
        rw [show formCode.encode b = escapeByte b from rfl, escapeByte]
        split
        · exact Nat.le_add_left 1 2
        · split
          · exact Nat.le_add_left 1 2
          · exact Nat.le_refl _
      rw [FieldCode.encodeText_cons, List.length_append, List.length_cons]
      omega

/-- A NUL is never written. -/
theorem nul_notMem_encodeFields (fields : List (Bytes × Bytes)) :
    0 ∉ formCode.encodeFields fields :=
  formCode.notMem_encodeFields (notMem_escapeByte (by decide)) (by decide) (by decide) fields

/-! ### The loops -/

/-- **The escape loop** writes the encoding, if there is room for it, and asserts that there
is. -/
theorem uriEscape_eq (raw : Bytes) (available : ℕ) :
    uriEscape raw available
      = if (formCode.encodeText raw).length ≤ available then
          some (formCode.encodeText raw, available - (formCode.encodeText raw).length)
        else none := by
  induction raw generalizing available with
  | nil => rfl
  | cons b raw ih =>
      have htext : formCode.encodeText (b :: raw) = escapeByte b ++ formCode.encodeText raw := rfl
      rw [uriEscape, ih, htext, List.length_append]
      by_cases hroom : available < (escapeByte b).length
      · rw [if_pos hroom, if_neg (by omega)]
      · rw [if_neg hroom]
        by_cases hrest : (formCode.encodeText raw).length ≤ available - (escapeByte b).length
        · rw [if_pos hrest, if_pos (by omega), Option.map_some, Nat.sub_sub]
        · rw [if_neg hrest, if_neg (by omega), Option.map_none]

/-- Where there is room for the encoding and `left` bytes more, these are left. -/
theorem uriEscape_add (raw : Bytes) (left : ℕ) :
    uriEscape raw ((formCode.encodeText raw).length + left)
      = some (formCode.encodeText raw, left) := by
  rw [uriEscape_eq, if_pos (Nat.le_add_right _ _), Nat.add_sub_cancel_left]

/-- The text in front of a field. -/
def fieldStart (first : Bool) : Bytes :=
  if first then [] else [38]

/-- One field of the loop. -/
theorem encodeFields_cons (field : Bytes × Bytes) (fields : List (Bytes × Bytes)) (first : Bool)
    (left : ℕ) :
    encodeFields (field :: fields) first
        ((fieldStart first ++ formCode.encodeField field).length + left)
      = (encodeFields fields false left).map fun (more, left) =>
          (fieldStart first ++ formCode.encodeField field ++ more, left) := by
  obtain ⟨key, value⟩ := field
  have hroom : (fieldStart first ++ formCode.encodeField (key, value)).length + left
        - (fieldStart first).length
      = (formCode.encodeText key).length + ((formCode.encodeText value).length + left + 1) := by
    simp only [FieldCode.encodeField, List.length_append, List.length_cons]
    omega
  have hloop : ∀ available, encodeFields ((key, value) :: fields) first available
      = (uriEscape key (available - (fieldStart first).length)).bind fun k =>
          (uriEscape value (k.2 - 1)).bind fun v =>
            (encodeFields fields false v.2).bind fun more =>
              some (fieldStart first ++ k.1 ++ [61] ++ v.1 ++ more.1, more.2) := fun _ => rfl
  rw [hloop, hroom, uriEscape_add, Option.bind_some, Nat.add_sub_cancel, uriEscape_add,
    Option.bind_some]
  cases encodeFields fields false left with
  | none => rfl
  | some written => simp [FieldCode.encodeField, formCode]

/-- The fields behind the first one. -/
theorem encodeFields_later (fields : List (Bytes × Bytes)) (left : ℕ) :
    encodeFields fields false
        ((fields.flatMap fun field => fieldStart false ++ formCode.encodeField field).length + left)
      = some (fields.flatMap fun field => fieldStart false ++ formCode.encodeField field, left) := by
  induction fields with
  | nil => rw [List.flatMap_nil, List.length_nil, Nat.zero_add, encodeFields]
  | cons field fields ih =>
      rw [List.flatMap_cons, List.length_append, Nat.add_assoc, encodeFields_cons, ih]
      rfl

/-- **The loop over the fields** writes them, if there is room for them. -/
theorem encodeFields_add (fields : List (Bytes × Bytes)) (left : ℕ) :
    encodeFields fields true ((formCode.encodeFields fields).length + left)
      = some (formCode.encodeFields fields, left) := by
  cases fields with
  | nil => rw [FieldCode.encodeFields_nil, List.length_nil, Nat.zero_add, encodeFields]
  | cons field fields =>
      have htext : formCode.encodeFields (field :: fields)
          = fieldStart true ++ formCode.encodeField field
            ++ fields.flatMap fun next => fieldStart false ++ formCode.encodeField next :=
        formCode.encodeFields_cons field fields
      rw [htext, List.length_append, Nat.add_assoc, encodeFields_cons, encodeFields_later]
      rfl

/-! ### The allocation -/

/-- A field takes no more than what is allocated for it without its separator. -/
theorem length_encodeField_le (field : Bytes × Bytes) :
    (formCode.encodeField field).length + 1 ≤ 3 * field.1.length + 3 * field.2.length + 2 := by
  have hkey := length_encodeText_le field.1
  have hvalue := length_encodeText_le field.2
  rw [FieldCode.encodeField, List.length_append, List.length_cons]
  omega

/-- What is allocated for one field more. -/
theorem formLength_cons (field : Bytes × Bytes) (fields : List (Bytes × Bytes)) :
    formLength (field :: fields)
      = 3 * field.1.length + 3 * field.2.length + 2 + formLength fields := by
  rw [formLength, formLength, List.map_cons, List.sum_cons]
  exact Nat.add_left_comm _ _ _

/-- All fields take less than what is allocated. -/
theorem length_encodeFields_lt (fields : List (Bytes × Bytes)) :
    (formCode.encodeFields fields).length < formLength fields := by
  have hlater : ∀ fields : List (Bytes × Bytes),
      (fields.flatMap fun next => formCode.separator :: formCode.encodeField next).length + 1
        ≤ formLength fields := by
    intro fields
    induction fields with
    | nil => exact Nat.le_refl _
    | cons field fields ih =>
        have hfield := length_encodeField_le field
        rw [formLength_cons, List.flatMap_cons, List.length_append, List.length_cons]
        omega
  cases fields with
  | nil => exact Nat.one_pos
  | cons field fields =>
      have hall := hlater (field :: fields)
      rw [List.flatMap_cons, List.cons_append, List.length_cons] at hall
      rw [FieldCode.encodeFields_cons]
      omega

/-- The fields of a key array without `NULL`. -/
theorem formFields_map (fields : List (Bytes × Bytes)) :
    formFields (fields.map fun field => .pair field.1 field.2) = some fields := by
  induction fields with
  | nil => rfl
  | cons field fields ih => rw [List.map_cons, formFields, ih, Option.map_some]

/-- **Form data is decoded to its fields.** For every list of fields, empty strings and the
empty list included: the loops run without a failed assertion, what they write and the terminating
NUL fit into the allocation, the form data has no NUL, and the fields are decoded from it. -/
theorem encodeFormData_decode (fields : List (Bytes × Bytes)) :
    ∃ data left, encodeFields fields true (formLength fields) = some (data, left) ∧
      encodeFormData (fields.map fun field => .pair field.1 field.2) = some data ∧
      data.length + left = formLength fields ∧ data.length + 1 ≤ formLength fields ∧
      0 ∉ data ∧ decodeFormData data = fields ∧ (data = [] ↔ fields = []) := by
  have hlt := length_encodeFields_lt fields
  have hloop := encodeFields_add fields (formLength fields - (formCode.encodeFields fields).length)
  rw [Nat.add_sub_cancel' hlt.le] at hloop
  refine ⟨_, _, hloop, ?_, Nat.add_sub_cancel' hlt.le, hlt, nul_notMem_encodeFields fields,
    formCode.decodeFields_encodeFields fields, ?_⟩
  · rw [encodeFormData, formFields_map]
    simp only [Option.bind_eq_bind, Option.bind_some, hloop]
  · cases fields with
    | nil => exact iff_of_true rfl rfl
    | cons field fields =>
        exact iff_of_false (formCode.encodeFields_ne_nil field fields) (List.cons_ne_nil _ _)

end DsiRest
