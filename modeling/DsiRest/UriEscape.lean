import DsiRest.Basic

/-!
# Percent Encoding and Form Data

`uriEscape` models `globus_i_dsi_rest_uri_escape`, which writes into a buffer of known
capacity and asserts before every byte that there is room left; `encodeFormData` models
`globus_i_dsi_rest_encode_form_data`, which sizes one allocation for the whole form and
passes what is left of it from call to call. A failed assertion is `none`.
-/

namespace DsiRest

/-- The bytes copied unchanged: letters, digits and `-_.~`. -/
def isUnreserved (b : Byte) : Bool :=
  (97 ≤ b && b ≤ 122) || (65 ≤ b && b ≤ 90) || (48 ≤ b && b ≤ 57) ||
    b == 45 || b == 95 || b == 46 || b == 126

/-- `encoding_table`, indexed by a number below 16. -/
def hexDigit (n : ℕ) : Byte :=
  UInt8.ofNat (if n < 10 then 48 + n else 55 + n)

/-- The encoding of one byte. -/
def escapeByte (b : Byte) : Bytes :=
  if isUnreserved b then [b]
  else if b = 32 then [43]
  else [37, hexDigit (b.toNat / 16), hexDigit (b.toNat % 16)]

/-- `globus_i_dsi_rest_uri_escape`: the bytes written and what is left of `available`. -/
def uriEscape : Bytes → ℕ → Option (Bytes × ℕ)
  | [], available => some ([], available)
  | b :: raw, available =>
    let out := escapeByte b
    if available < out.length then none
    else (uriEscape raw (available - out.length)).map fun (more, left) => (out ++ more, left)

/-- The allocation of `globus_i_dsi_rest_encode_form_data` for a list of fields. -/
def formLength (fields : List (Bytes × Bytes)) : ℕ :=
  1 + (fields.map fun (key, value) => 3 * key.length + 3 * value.length + 2).sum

/-- The encoding loop over the fields; `first` suppresses the leading ampersand. -/
def encodeFields : List (Bytes × Bytes) → Bool → ℕ → Option (Bytes × ℕ)
  | [], _, available => some ([], available)
  | (key, value) :: fields, first, available => do
    let separator : Bytes := if first then [] else [38]
    let (k, available) ← uriEscape key (available - separator.length)
    let (v, available) ← uriEscape value (available - 1)
    let (more, available) ← encodeFields fields false available
    some (separator ++ k ++ [61] ++ v ++ more, available)

/-- The fields of a key array, or `none` if a string is `NULL`, which `strlen` does not
survive. -/
def formFields : KeyArray → Option (List (Bytes × Bytes))
  | [] => some []
  | ⟨some key, some value⟩ :: fields => (formFields fields).map ((key, value) :: ·)
  | _ :: _ => none

/-- `globus_i_dsi_rest_encode_form_data`. -/
def encodeFormData (form : KeyArray) : Option Bytes := do
  let fields ← formFields form
  let (data, _) ← encodeFields fields true (formLength fields)
  some data

end DsiRest
