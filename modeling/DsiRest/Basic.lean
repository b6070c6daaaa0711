import Mathlib.Data.Int.ModEq
import Mathlib.Data.List.TakeWhile

/-!
# Bytes, Machine Words, Results and Key Arrays

The data types every part of the library shares: byte strings, the wrap-around of the
64-bit unsigned arithmetic of `size_t` and `uint64_t`, the conversion of a `size_t` to
an `int`, the result values of the API with the errors the library raises itself, and
the key-value arrays used for headers and form fields.

C strings are byte lists without their terminating NUL; `cstr` reads one out of a
larger piece of memory.
-/

namespace DsiRest

/-- An octet of a request or response. -/
abbrev Byte := UInt8

/-- A byte string: a body, a header line, or a C string without its NUL. -/
abbrev Bytes := List Byte

/-- The bytes of an ASCII string literal of the source. -/
def bytes (s : String) : Bytes :=
  s.toList.map fun c => UInt8.ofNat c.toNat

/-- Carriage return. -/
abbrev cr : Byte := 13

/-- Line feed. -/
abbrev lf : Byte := 10

/-- The line end of HTTP and MIME. -/
abbrev crlf : Bytes := [cr, lf]

theorem length_crlf : crlf.length = 2 := rfl

/-- The C string that starts a piece of memory: everything before the first NUL. -/
def cstr (memory : Bytes) : Bytes :=
  memory.takeWhile (· ≠ 0)

/-- A C string is no longer than the memory it is in. -/
theorem length_cstr_le (memory : Bytes) : (cstr memory).length ≤ memory.length :=
  (List.takeWhile_sublist _).length_le

/-- Memory without a NUL is its own C string. -/
theorem cstr_eq_self {s : Bytes} (h : 0 ∉ s) : cstr s = s := by
  rw [cstr, List.takeWhile_eq_self_iff]
  intro b hb
  simpa using fun h0 : b = 0 => h (h0 ▸ hb)

/-- A C string in memory ends at its NUL. -/
theorem cstr_append_nul {s : Bytes} (h : 0 ∉ s) (after : Bytes) : cstr (s ++ 0 :: after) = s := by
  rw [cstr, List.takeWhile_append_of_pos, List.takeWhile_cons_of_neg (by simp), List.append_nil]
  intro b hb
  simpa using fun h0 : b = 0 => h (h0 ▸ hb)

/-- Nothing behind a NUL belongs to the C string. -/
theorem cstr_append_of_mem {s : Bytes} (h : 0 ∈ s) (after : Bytes) : cstr (s ++ after) = cstr s := by
  rw [cstr, cstr, List.takeWhile_append, if_neg]
  intro hall
  have hself := List.takeWhile_eq_self_iff.mp ((List.takeWhile_sublist _).eq_of_length hall) 0 h
  exact absurd hself (by simp)

/-! ### C string functions -/

/-- `tolower` of the C locale. -/
def toLower (b : Byte) : Byte :=
  if 65 ≤ b && b ≤ 90 then b + 32 else b

/-- `strcasecmp(s, t) == 0`. -/
def strcaseeq (s t : Bytes) : Bool :=
  s.map toLower == t.map toLower

/-- `strstr`: the rest of `haystack` from the first occurrence of `needle` on. -/
def strstr (haystack needle : Bytes) : Option Bytes :=
  if needle.isPrefixOf haystack then some haystack
  else match haystack with
    | [] => none
    | _ :: rest => strstr rest needle

/-- `isspace` of the C locale. -/
def isSpace (b : Byte) : Bool :=
  b == 32 || (9 ≤ b && b ≤ 13)

/-- `strcasestr`. -/
def strcasestr (haystack needle : Bytes) : Option Bytes :=
  if (needle.map toLower).isPrefixOf (haystack.map toLower) then some haystack
  else match haystack with
    | [] => none
    | _ :: rest => strcasestr rest needle

/-- What `%.*s` prints of a C string; a negative precision counts as none. -/
def precise (precision : ℤ) (s : Bytes) : Bytes :=
  if precision < 0 then s else s.take precision.toNat

/-! ### Machine words -/

/-- The number of values of `size_t` and `uint64_t`. -/
abbrev word : ℕ := 2 ^ 64

/-- Addition of `uint64_t` values. -/
def add64 (a b : ℕ) : ℕ :=
  (a + b) % word

/-- Multiplication of `size_t` values. -/
def mul64 (a b : ℕ) : ℕ :=
  a * b % word

/-- Subtraction of `uint64_t` values, wrapping below zero. -/
def sub64 (a b : ℕ) : ℕ :=
  (a + (word - b % word)) % word

/-- The value `-1` converted to an unsigned 64-bit type. -/
abbrev minusOne64 : ℕ := word - 1

/-- Conversion of a `size_t` value to `int`: the low 32 bits, read as signed. -/
def intOfSize (n : ℕ) : ℤ :=
  (n : ℤ).bmod (2 ^ 32)

/-- Conversion of an `int` value to `size_t`, as the usual arithmetic conversions do
in a comparison. -/
def sizeOfInt (i : ℤ) : ℕ :=
  (i % (word : ℤ)).toNat

/-- Additions below the word size do not wrap. -/
theorem add64_eq {a b : ℕ} (h : a + b < word) : add64 a b = a + b :=
  Nat.mod_eq_of_lt h

/-- Subtraction of a smaller value does not wrap. -/
theorem sub64_eq {a b : ℕ} (ha : a < word) (h : b ≤ a) : sub64 a b = a - b := by
  have hb : b % word = b := Nat.mod_eq_of_lt (by omega)
  rw [sub64, hb, show a + (word - b) = a - b + word by omega, Nat.add_mod_right,
    Nat.mod_eq_of_lt (by omega)]

/-- A `size_t` below `2 ^ 31` survives the conversion to `int`. -/
theorem intOfSize_eq {n : ℕ} (h : n < 2 ^ 31) : intOfSize n = n :=
  Int.bmod_eq_of_le (by omega) (by omega)

/-- A non-negative `int` survives the conversion to `size_t`. -/
theorem sizeOfInt_natCast {n : ℕ} (h : n < word) : sizeOfInt (n : ℤ) = n := by
  rw [sizeOfInt, ← Int.natCast_mod, Int.toNat_natCast, Nat.mod_eq_of_lt h]

/-! ### Results -/

/-- The error objects behind a failed `globus_result_t`: the ones the library
constructs, with the values formatted into their messages, and `client code` for a
result that a callback of the client or the GridFTP server produced. -/
inductive GlobusError
  | parameter
  | memory
  | parse (s : Bytes)
  | curl (rc : ℕ)
  | json (buffer : Bytes)
  | timeOut
  | threadFail (rc : ℕ)
  | unexpectedData (s : Bytes)
  | client (code : ℕ)
  deriving DecidableEq, Repr

/-- A `globus_result_t`: `GLOBUS_SUCCESS` or a reference to an error object. -/
inductive Result
  | success
  | error (e : GlobusError)
  deriving DecidableEq, Repr

/-- Latching: a recorded failure is kept, a success is replaced by the newer result.
This is the `if (x->result == GLOBUS_SUCCESS) x->result = result` of the source. -/
def Result.latch : Result → Result → Result
  | .success, newer => newer
  | .error e, _ => .error e

@[simp] theorem Result.latch_success_left (r : Result) : Result.success.latch r = r := rfl

@[simp] theorem Result.latch_error (e : GlobusError) (r : Result) :
    (Result.error e).latch r = .error e := rfl

@[simp] theorem Result.latch_success_right (r : Result) : r.latch .success = r := by
  cases r <;> rfl

/-- A latch is clear exactly when neither result is a failure. -/
theorem Result.latch_eq_success {r s : Result} :
    r.latch s = .success ↔ r = .success ∧ s = .success := by
  cases r <;> simp [Result.latch]

/-! ### Key arrays -/

/-- One `globus_dsi_rest_key_value_t`; either pointer may be `NULL`. -/
structure KeyValue where
  key : Option Bytes
  value : Option Bytes
  deriving DecidableEq, Repr

/-- A `globus_dsi_rest_key_array_t` supplied by the client. -/
abbrev KeyArray := List KeyValue

/-- An entry with both strings present. -/
abbrev KeyValue.pair (key value : Bytes) : KeyValue :=
  ⟨some key, some value⟩

end DsiRest
