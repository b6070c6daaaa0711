import DsiRest.FormEncoding

/-!
# Escape and Decode

`globusUriEscape` models `globus_dsi_rest_uri_escape`, and `escapeLoop` the loop below it, on the
memory behind a pointer: the loop reads up to a NUL, writes one byte at a time behind an assertion,
and picks the two digits of a byte out of a `char` that has been extended to an `unsigned int`.
`uriDecode` models the decoder of the tests, which rejects a `%` without two digits. Memory that
ends before its NUL, and an argument that `isxdigit` does not allow, are undefined: `none`.

## Main results

* `escapeLoop_eq` — the loop is `uriEscape`, whether `char` is signed or not.
* `uriDecode_escape` — what is escaped is decoded to what it was.
-/

namespace DsiRest

/-! ### Characters and integers -/

/-- The value of a `char`, which is signed on some platforms. -/
def charValue (signed : Bool) (b : Byte) : ℤ :=
  if signed then (b.toNat : ℤ).bmod 256 else b.toNat

/-- Conversion of an `int` to `unsigned int`. -/
def uintOfInt (i : ℤ) : ℕ :=
  (i % 2 ^ 32).toNat

/-- `(((unsigned int) (*raw)) >> 4) & 0xf`. -/
def highNibble (signed : Bool) (b : Byte) : ℕ :=
  uintOfInt (charValue signed b) >>> 4 &&& 0xf

/-- `((unsigned int) (*raw)) & 0xf`. -/
def lowNibble (signed : Bool) (b : Byte) : ℕ :=
  uintOfInt (charValue signed b) &&& 0xf

/-- Sign extension leaves the low byte alone. -/
theorem uintOfInt_charValue (signed : Bool) (b : Byte) :
    uintOfInt (charValue signed b) % 256 = b.toNat := by
  have hb := b.toNat_lt
  rw [uintOfInt, charValue]
  cases signed with
  | false =>
      rw [if_neg (by decide)]
      omega
  | true =>
      rw [if_pos rfl, Int.bmod]
      split <;> omega

theorem highNibble_eq (signed : Bool) (b : Byte) : highNibble signed b = b.toNat / 16 := by
  have hlow := uintOfInt_charValue signed b
  rw [highNibble, Nat.shiftRight_eq_div_pow, show 0xf = 2 ^ 4 - 1 from rfl,
    Nat.and_two_pow_sub_one_eq_mod]
  omega

theorem lowNibble_eq (signed : Bool) (b : Byte) : lowNibble signed b = b.toNat % 16 := by
  have hlow := uintOfInt_charValue signed b
  rw [lowNibble, show 0xf = 2 ^ 4 - 1 from rfl, Nat.and_two_pow_sub_one_eq_mod]
  omega

/-! ### The escape loop on memory -/

/-- Where the escape loop stands: what lies in front of `encoded`, and `available`. -/
structure EscapeState where
  encoded : Bytes
  available : ℕ
  deriving DecidableEq, Repr

/-- `assert(available > 0)`, `*(encoded++) = b` and `available--`. -/
def EscapeState.put (e : EscapeState) (b : Byte) : Option EscapeState :=
  if e.available = 0 then none
  else some ⟨e.encoded ++ [b], e.available - 1⟩

/-- One turn of the loop. -/
def escapeTurn (signed : Bool) (b : Byte) (e : EscapeState) : Option EscapeState :=
  if isUnreserved b then e.put b
  else if b = 32 then e.put 43
  else do
    let e ← e.put 37
    let e ← e.put (hexDigit (highNibble signed b))
    e.put (hexDigit (lowNibble signed b))

/-- `globus_i_dsi_rest_uri_escape` on the memory `raw` points to. -/
def escapeLoop (signed : Bool) : Bytes → EscapeState → Option EscapeState
  | [], _ => none
  | b :: raw, e =>
    if b = 0 then some e
    else (escapeTurn signed b e).bind (escapeLoop signed raw)

/-- `globus_dsi_rest_uri_escape`: the result, and the memory `*escapedp` is set to. `allocated` is
whether `malloc` succeeds; the NUL is written behind the text, into the byte that must be left. -/
def globusUriEscape (signed allocated : Bool) (s : Bytes) : Option (Result × Option Bytes) := do
  if 0 ∉ s then none
  let slen := (cstr s).length
  let elen := slen * 3 + 1
  if !allocated then some (.error .memory, none)
  else
    let e ← escapeLoop signed s ⟨[], elen⟩
    let e ← e.put 0
    some (.success, some e.encoded)

/-- A turn writes the encoding of its byte, if there is room for it. -/
theorem escapeTurn_eq (signed : Bool) (b : Byte) (e : EscapeState) :
    escapeTurn signed b e
      = if e.available < (escapeByte b).length then none
        else some ⟨e.encoded ++ escapeByte b, e.available - (escapeByte b).length⟩ := by
  have hput : ∀ c : Byte, e.put c = if e.available < 1 then none
      else some ⟨e.encoded ++ [c], e.available - 1⟩ := fun _ => by
    simp only [EscapeState.put, Nat.lt_one_iff]
  rw [escapeTurn, escapeByte]
  split
  · exact hput b
  · split
    · exact hput 43
    · rw [highNibble_eq, lowNibble_eq]
      obtain ⟨encoded, available⟩ := e
      rcases available with _ | _ | _ | left
      · rfl
      · rfl
      · rfl
      · simp [EscapeState.put]

/-- **The loop on memory** writes what `uriEscape` writes, whether `char` is signed or not. -/
theorem escapeLoop_eq (signed : Bool) {s : Bytes} (hs : 0 ∉ s) (after : Bytes) (e : EscapeState) :
    escapeLoop signed (s ++ 0 :: after) e
      = (uriEscape s e.available).map fun (out, left) => ⟨e.encoded ++ out, left⟩ := by
  induction s generalizing e with
  | nil => simp [escapeLoop, uriEscape]
  | cons b s ih =>
      have hb : b ≠ 0 := fun h => hs (h ▸ List.mem_cons_self)
      have htail : 0 ∉ s := fun h => hs (List.mem_cons_of_mem _ h)
      rw [List.cons_append, escapeLoop, if_neg hb, escapeTurn_eq, uriEscape]
      by_cases hroom : e.available < (escapeByte b).length
      · rw [if_pos hroom, if_pos hroom]
        rfl
      · rw [if_neg hroom, if_neg hroom, Option.bind_some, ih htail, Option.map_map]
        congr 1
        funext written
        simp

/-- **The write pointer advances by what `available` decreases**, on any memory. -/
theorem escapeLoop_advance {signed : Bool} {raw : Bytes} {e e' : EscapeState}
    (h : escapeLoop signed raw e = some e') :
    ∃ out, e'.encoded = e.encoded ++ out ∧ out.length + e'.available = e.available := by
  induction raw generalizing e with
  | nil => cases h
  | cons b raw ih =>
      rw [escapeLoop] at h
      split at h
      · obtain rfl := Option.some.inj h
        exact ⟨[], (List.append_nil _).symm, Nat.zero_add _⟩
      · obtain ⟨mid, hturn, hrest⟩ := Option.bind_eq_some_iff.mp h
        rw [escapeTurn_eq] at hturn
        split at hturn
        · cases hturn
        · obtain rfl := Option.some.inj hturn
          obtain ⟨out, hout, hleft⟩ := ih hrest
          refine ⟨escapeByte b ++ out, ?_, ?_⟩
          · rw [hout, List.append_assoc]
          · rw [List.length_append]
            simp only at hleft
            omega

/-- Three bytes for each byte are room enough. -/
theorem escapeLoop_of_le (signed : Bool) {s : Bytes} (hs : 0 ∉ s) (after : Bytes)
    {e : EscapeState} (hroom : 3 * s.length ≤ e.available) :
    escapeLoop signed (s ++ 0 :: after) e
      = some ⟨e.encoded ++ formCode.encodeText s,
          e.available - (formCode.encodeText s).length⟩ := by
  have hle := length_encodeText_le s
  rw [escapeLoop_eq signed hs, uriEscape_eq, if_pos (by omega)]
  rfl

/-! ### The decoder of the tests -/

/-- `isxdigit` of the C locale, which is not defined below `EOF`. -/
def isXDigit (c : ℤ) : Option Bool :=
  if c < -1 then none
  else some ((48 ≤ c && c ≤ 57) || (65 ≤ c && c ≤ 70) || (97 ≤ c && c ≤ 102))

/-- The table `unhex`, which has an entry for every byte that passes `isxdigit`. -/
def unhex (b : Byte) : ℕ :=
  (hexValue b).getD 0

/-- The loop of `uri_decode` over the memory `r` points to: the string written, and `none` for
`GLOBUS_FAILURE`. A turn writes one byte and reads at least one, so that decoding in place reads
no byte that has been written. -/
def uriDecode (signed : Bool) : Bytes → Option (Option Bytes)
  | [] => none
  | b :: r =>
    if b = 0 then some (some [])
    else if b = 37 then
      match r with
      | [] => none
      | high :: r =>
        (isXDigit (charValue signed high)).bind fun digit =>
          if !digit then some none
          else match r with
            | [] => none
            | low :: r =>
              (isXDigit (charValue signed low)).bind fun digit =>
                if !digit then some none
                else
                  let c := unhex high <<< 4 ||| unhex low
                  (uriDecode signed r).map (Option.map (UInt8.ofNat c :: ·))
    else if b = 43 then (uriDecode signed r).map (Option.map (32 :: ·))
    else (uriDecode signed r).map (Option.map (b :: ·))

/-- The decoder stops at the NUL. -/
theorem uriDecode_nul (signed : Bool) (after : Bytes) :
    uriDecode signed (0 :: after) = some (some []) := by
  rw [uriDecode.eq_def]
  rfl

/-- The decoder keeps a byte that is neither NUL nor `%`, unless it is `+`. -/
theorem uriDecode_plain (signed : Bool) {b : Byte} (hb : b ≠ 0) (hpercent : b ≠ 37) (r : Bytes) :
    uriDecode signed (b :: r) = (uriDecode signed r).map (Option.map (plainByte b :: ·)) := by
  rw [uriDecode.eq_def, plainByte]
  simp only [if_neg hb, if_neg hpercent]
  split <;> rfl

/-- The decoder joins two digits. -/
theorem uriDecode_digits {signed : Bool} {high low : Byte}
    (hhigh : isXDigit (charValue signed high) = some true)
    (hlow : isXDigit (charValue signed low) = some true) (r : Bytes) :
    uriDecode signed (37 :: high :: low :: r)
      = (uriDecode signed r).map
          (Option.map (UInt8.ofNat (unhex high <<< 4 ||| unhex low) :: ·)) := by
  rw [uriDecode.eq_def]
  simp only [if_neg (show (37 : Byte) ≠ 0 by decide), if_pos, hhigh, hlow, Option.bind_some,
    Bool.not_true, Bool.false_eq_true, if_false]

/-- An upper-case hexadecimal digit. -/
def isUpperHex (b : Byte) : Bool :=
  (48 ≤ b && b ≤ 57) || (65 ≤ b && b ≤ 70)

/-- The text of an escaped string: letters, digits and `-_.~`, `+`, and `%` with two upper-case
digits. -/
inductive EscapedText : Bytes → Prop
  | nil : EscapedText []
  | unreserved {b : Byte} {text : Bytes} :
      isUnreserved b = true → EscapedText text → EscapedText (b :: text)
  | plus {text : Bytes} : EscapedText text → EscapedText (43 :: text)
  | percent {high low : Byte} {text : Bytes} :
      isUpperHex high = true → isUpperHex low = true → EscapedText text →
      EscapedText (37 :: high :: low :: text)

/-- The digits that are written are upper case. -/
theorem isUpperHex_hexDigit : ∀ {n : ℕ}, n < 16 → isUpperHex (hexDigit n) = true := by
  decide +kernel

/-- The digits that are written are digits, whether `char` is signed or not. -/
theorem isXDigit_hexDigit (signed : Bool) :
    ∀ {n : ℕ}, n < 16 → isXDigit (charValue signed (hexDigit n)) = some true := by
  revert signed
  decide +kernel

theorem unhex_hexDigit {n : ℕ} (h : n < 16) : unhex (hexDigit n) = n := by
  rw [unhex, hexValue_hexDigit h, Option.getD_some]

/-- The encoding of a byte, in front of escaped text. -/
theorem EscapedText.escapeByte_append (b : Byte) {text : Bytes} (h : EscapedText text) :
    EscapedText (escapeByte b ++ text) := by
  have hb := b.toNat_lt
  rw [escapeByte]
  split
  · rename_i hunreserved
    exact .unreserved hunreserved h
  · split
    · exact .plus h
    · exact .percent (isUpperHex_hexDigit (by omega)) (isUpperHex_hexDigit (by omega)) h

/-- **What is written is escaped text.** -/
theorem escapedText_encodeText (s : Bytes) : EscapedText (formCode.encodeText s) := by
  induction s with
  | nil => exact .nil
  | cons b s ih => exact ih.escapeByte_append b

/-- Two nibbles make up their byte. -/
theorem nibbles_join (b : Byte) : UInt8.ofNat ((b.toNat / 16) <<< 4 ||| b.toNat % 16) = b := by
  rw [← Nat.shiftLeft_add_eq_or_of_lt (by omega), Nat.shiftLeft_eq,
    show b.toNat / 16 * 2 ^ 4 + b.toNat % 16 = b.toNat by omega]
  exact UInt8.ofNat_toNat

/-- A byte and its encoding. -/
theorem uriDecode_escapeByte (signed : Bool) {b : Byte} (hb : b ≠ 0) (rest : Bytes) :
    uriDecode signed (escapeByte b ++ rest)
      = (uriDecode signed rest).map (Option.map (b :: ·)) := by
  have hlt := b.toNat_lt
  rw [escapeByte]
  split
  · rename_i hunreserved
    have hkept : b ≠ 37 ∧ b ≠ 43 := by
      constructor
      · rintro rfl
        exact absurd hunreserved (by decide)
      · rintro rfl
        exact absurd hunreserved (by decide)
    rw [List.singleton_append, uriDecode_plain signed hb hkept.1, plainByte, if_neg hkept.2]
  · split
    · rename_i hspace
      rw [List.singleton_append, uriDecode_plain signed (by decide) (by decide), plainByte,
        if_pos rfl, hspace]
    · have hhigh : b.toNat / 16 < 16 := by omega
      have hlow : b.toNat % 16 < 16 := by omega
      rw [List.cons_append, List.cons_append, List.singleton_append,
        uriDecode_digits (isXDigit_hexDigit signed hhigh) (isXDigit_hexDigit signed hlow),
        unhex_hexDigit hhigh, unhex_hexDigit hlow, nibbles_join]

/-- **The decoder undoes the encoding.** -/
theorem uriDecode_encodeText (signed : Bool) {s : Bytes} (hs : 0 ∉ s) (after : Bytes) :
    uriDecode signed (formCode.encodeText s ++ 0 :: after) = some (some s) := by
  induction s with
  | nil => exact uriDecode_nul signed after
  | cons b s ih =>
      have hb : b ≠ 0 := fun h => hs (h ▸ List.mem_cons_self)
      have htail : 0 ∉ s := fun h => hs (List.mem_cons_of_mem _ h)
      have htext : formCode.encodeText (b :: s) = escapeByte b ++ formCode.encodeText s := rfl
      rw [htext, List.append_assoc, uriDecode_escapeByte signed hb, ih htail]
      rfl

/-! ### Escape then decode -/

/-- **Escape then decode is the identity.** For every C string, whatever follows it in memory and
whether `char` is signed or not: the function succeeds when it gets its memory, what it returns is
escaped text and a NUL, and the decoder maps it back to the string. Wherever the loop starts with
three bytes for each byte of the string, no assertion fails, and the write pointer advances by
what `available` decreases. -/
theorem uriDecode_escape (signed : Bool) {s : Bytes} (hs : 0 ∉ s) (after : Bytes) :
    (∃ out, globusUriEscape signed true (s ++ 0 :: after) = some (.success, some (out ++ [0])) ∧
      EscapedText out ∧ uriDecode signed (out ++ [0]) = some (some s)) ∧
    (∀ e : EscapeState, 3 * s.length ≤ e.available →
      (escapeLoop signed (s ++ 0 :: after) e).isSome) ∧
    ∀ e e' : EscapeState, escapeLoop signed (s ++ 0 :: after) e = some e' →
      ∃ out, e'.encoded = e.encoded ++ out ∧ out.length + e'.available = e.available := by
  refine ⟨⟨formCode.encodeText s, ?_, escapedText_encodeText s, uriDecode_encodeText signed hs []⟩,
    ?_, fun e e' h => escapeLoop_advance h⟩
  · have hle := length_encodeText_le s
    have hloop := escapeLoop_of_le signed hs after (e := ⟨[], s.length * 3 + 1⟩) (by
      simp only
      omega)
    rw [globusUriEscape, if_neg (by simp), cstr_append_nul hs]
    simp only [Bool.not_true, Bool.false_eq_true, if_false, hloop, Option.bind_eq_bind,
      Option.bind_some, EscapeState.put]
    rw [if_neg (by omega), Option.bind_some, List.nil_append]
  · intro e hroom
    rw [escapeLoop_of_le signed hs after hroom]
    rfl

/-- The string `ä b` in UTF-8, with signed characters. -/
theorem uriDecode_escape_umlaut :
    (∃ out, globusUriEscape true true ([195, 164, 32, 98] ++ 0 :: [])
        = some (.success, some (out ++ [0])) ∧
      EscapedText out ∧ uriDecode true (out ++ [0]) = some (some [195, 164, 32, 98])) ∧
    (∀ e : EscapeState, 3 * [195, 164, 32, 98].length ≤ e.available →
      (escapeLoop true ([195, 164, 32, 98] ++ 0 :: []) e).isSome) ∧
    ∀ e e' : EscapeState, escapeLoop true ([195, 164, 32, 98] ++ 0 :: []) e = some e' →
      ∃ out, e'.encoded = e.encoded ++ out ∧ out.length + e'.available = e.available :=
  uriDecode_escape true (by decide) []

end DsiRest
