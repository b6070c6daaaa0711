import DsiRest.Prepare
import DsiRest.Request

/-!
# The Boundary Parameter of a Content Type

Both directions take the boundary of a multipart body from a `Content-Type` value: the
header callback from that of a response, the preparation of a multipart writer from that
of the request. `MultipartType` is such a value as MIME writes it; the two extractions
look for the text `boundary=` in it and for an end of what follows.

* The response's is found in any letter case, but an end that is found is taken for the
  last byte of the value, which loses that byte; unquoted text ends at white space only,
  and quoted text at the last quote of the header.
* The request's is found in lower case only, and unquoted text ends at white space only.

## Main results

* `Request.header_boundary_iff` — when the header callback stores the parameter's value.
* `prepareMultipart_boundary_iff` — when the preparation of a writer does.
-/

namespace DsiRest

/-! ### Multipart content types -/

/-- The double quote. -/
abbrev quote : Byte := 34

/-- The backslash. -/
abbrev backslash : Byte := 92

/-- A byte of a token: a printing character other than MIME's separators. -/
def isTokenByte (b : Byte) : Bool :=
  33 ≤ b && b ≤ 126 && !(bytes "()<>@,;:\\\"/[]?=").contains b

/-- A token is not empty and consists of token bytes. -/
def IsToken (s : Bytes) : Prop :=
  s ≠ [] ∧ ∀ b ∈ s, isTokenByte b = true

instance (s : Bytes) : Decidable (IsToken s) :=
  inferInstanceAs (Decidable (s ≠ [] ∧ ∀ b ∈ s, isTokenByte b = true))

/-- Text that can stand between quotes: quotes are escaped, and so is something by every
backslash that escapes. -/
def isQuotedText : Bytes → Bool
  | [] => true
  | [b] => b != backslash && b != quote && b != 0
  | b :: c :: text =>
    if b = backslash then c != 0 && isQuotedText text
    else b != quote && b != 0 && isQuotedText (c :: text)

/-- The value of a parameter; a quoted string is given by what is between its quotes. -/
inductive ParameterValue
  | token (value : Bytes) (formed : IsToken value)
  | quoted (value : Bytes) (formed : isQuotedText value = true)

namespace ParameterValue

/-- The value without quotes. -/
def value : ParameterValue → Bytes
  | token value _ => value
  | quoted value _ => value

/-- The value as it is written. -/
def text : ParameterValue → Bytes
  | token value _ => value
  | quoted value _ => quote :: value ++ [quote]

end ParameterValue

/-- A parameter with the semicolon in front of it, and the white space around that. -/
structure Parameter where
  spaceBefore : Bytes
  spaceAfter : Bytes
  name : Bytes
  value : ParameterValue
  spaced : ∀ b ∈ spaceBefore ++ spaceAfter, b = space ∨ b = tab
  named : IsToken name

/-- A parameter as it is written. -/
def Parameter.text (p : Parameter) : Bytes :=
  p.spaceBefore ++ bytes ";" ++ p.spaceAfter ++ p.name ++ bytes "=" ++ p.value.text

/-- A `Content-Type` value that denotes a multipart type with a boundary parameter, whose
value is a token or a quoted string without backslash. Type and parameter names are in any
letter case. -/
structure MultipartType where
  topLevel : Bytes
  subtype : Bytes
  earlier : List Parameter
  boundary : Parameter
  later : List Parameter
  isMultipart : strcaseeq topLevel (bytes "multipart/") = true
  subtyped : IsToken subtype
  isFirst : ∀ p ∈ earlier, strcaseeq p.name (bytes "boundary") = false
  isBoundary : strcaseeq boundary.name (bytes "boundary") = true
  unescaped : backslash ∉ boundary.value.value

namespace MultipartType

/-- The value as it is written. -/
def text (type : MultipartType) : Bytes :=
  type.topLevel ++ type.subtype ++ type.earlier.flatMap Parameter.text ++ type.boundary.text ++
    type.later.flatMap Parameter.text

/-- The boundary that the value gives. -/
def value (type : MultipartType) : Bytes :=
  type.boundary.value.value

/-- What stands in the value behind the name of the boundary parameter. -/
def rest (type : MultipartType) : Bytes :=
  type.boundary.value.text ++ type.later.flatMap Parameter.text

end MultipartType

/-- The type `multipart/mixed` with a boundary as its first parameter. -/
def mixedType (value : ParameterValue) (unescaped : backslash ∉ value.value)
    (later : List Parameter) : MultipartType where
  topLevel := bytes "multipart/"
  subtype := bytes "mixed"
  earlier := []
  boundary := ⟨[], [space], bytes "boundary", value, by decide +kernel, by decide +kernel⟩
  later := later
  isMultipart := by decide +kernel
  subtyped := by decide +kernel
  isFirst := by decide +kernel
  isBoundary := (by decide +kernel : strcaseeq (bytes "boundary") (bytes "boundary") = true)
  unescaped := unescaped

/-- The parameter `charset=x` behind a semicolon and a space. -/
def charsetParameter : Parameter :=
  ⟨[], [space], bytes "charset", .token (bytes "x") (by decide +kernel), by decide +kernel,
    by decide +kernel⟩

/-- The type `multipart/mixed` with the boundary `abc`. -/
def tokenType (later : List Parameter) : MultipartType :=
  mixedType (.token (bytes "abc") (by decide +kernel)) (by decide +kernel) later

/-- The type `multipart/mixed` with the boundary `"abc"`. -/
def quotedType : MultipartType :=
  mixedType (.quoted (bytes "abc") (by decide +kernel)) (by decide +kernel) []

/-! ### Facts about content types -/

/-- A byte of a token is neither white space nor a quote. -/
theorem not_isSpace_of_isTokenByte {b : Byte} (h : isTokenByte b = true) :
    isSpace b = false ∧ b ≠ quote := by
  have hrange : 33 ≤ b ∧ b ≤ 126 ∧ ¬ b ∈ bytes "()<>@,;:\\\"/[]?=" := by
    simpa [isTokenByte, and_assoc] using h
  obtain ⟨hlo, hhi, hsep⟩ := hrange
  constructor
  · have hlo' : 33 ≤ b.toNat := hlo
    have hnot : ¬ b = 32 := by
      rintro rfl
      exact absurd hlo (by decide)
    have hhi' : ¬ b ≤ 13 := fun h13 => by
      have : b.toNat ≤ 13 := h13
      omega
    simp [isSpace, hnot, hhi']
  · rintro rfl
    exact hsep (by decide)

/-- `strcasestr` finds `boundary=` at the parameter of that name, or at least two bytes
before it. -/
theorem strcasestr_boundary {name rest : Bytes} (hname : name.map toLower = bytes "boundary=") :
    ∀ pre : Bytes, ∃ found,
      strcasestr (pre ++ (name ++ rest)) (bytes "boundary=") = some found ∧
        (found.drop 9 = rest ∨ rest.length + 2 ≤ (found.drop 9).length) := by
  have hlower : (bytes "boundary=").map toLower = bytes "boundary=" := by decide
  have hlen : name.length = 9 := by
    rw [← List.length_map (f := toLower), hname]
    rfl
  intro pre
  induction pre with
  | nil =>
      refine ⟨name ++ rest, ?_, Or.inl (List.drop_left' hlen)⟩
      rw [List.nil_append, strcasestr.eq_def, if_pos]
      rw [hlower, List.map_append, hname, List.isPrefixOf_iff_prefix]
      exact List.prefix_append _ _
  | cons x pre ih =>
      rw [List.cons_append, strcasestr]
      by_cases hhere : ((bytes "boundary=").map toLower).isPrefixOf
          ((x :: (pre ++ (name ++ rest))).map toLower) = true
      · refine ⟨_, if_pos hhere, Or.inr ?_⟩
        have hpre : pre ≠ [] := by
          -- the text cannot start one byte before another start of it
          rintro rfl
          rw [hlower, List.nil_append, List.map_cons, List.map_append, hname] at hhere
          exact absurd hhere (by simp [bytes])
        have hpos := List.length_pos_iff.mpr hpre
        rw [List.length_drop, List.length_cons, List.length_append, List.length_append, hlen]
        omega
      · rw [if_neg hhere]
        exact ih

/-- Printing with a precision shortens a string to one of its prefixes. -/
theorem precise_eq_iff {s v : Bytes} (hne : s ≠ v) (precision : ℤ) :
    precise precision s = v ↔ precision = v.length ∧ v <+: s := by
  rw [precise]
  by_cases hneg : precision < 0
  · rw [if_pos hneg]
    exact iff_of_false hne fun h => by omega
  · rw [if_neg hneg]
    obtain ⟨n, rfl⟩ := Int.eq_ofNat_of_zero_le (not_lt.mp hneg)
    rw [Int.toNat_natCast, Nat.cast_inj]
    constructor
    · rintro rfl
      have hlt : n < s.length := by
        by_contra hge
        exact hne (List.take_of_length_le (not_lt.mp hge)).symm
      exact ⟨by rw [List.length_take, min_eq_left hlt.le], List.take_prefix n s⟩
    · rintro ⟨rfl, hprefix⟩
      exact (List.prefix_iff_eq_take.mp hprefix).symm

/-! ### The response's boundary -/

/-- Every backslash escapes a byte. -/
def escapesComplete : Bytes → Bool
  | [] => true
  | [b] => b != backslash
  | b :: c :: text => if b = backslash then escapesComplete text else escapesComplete (c :: text)

/-- Where the quotes are that are not escaped, the text beginning at position `b`. -/
def quotes : Bytes → ℕ → List ℕ
  | [], _ => []
  | [c], b => if c = quote then [b] else []
  | c :: d :: text, b =>
    if c = backslash then quotes text (b + 2)
    else if c = quote then b :: quotes (d :: text) (b + 1)
    else quotes (d :: text) (b + 1)

/-- The loop over quoted text keeps the last quote it meets. -/
theorem quotedEnd_eq : ∀ (text : Bytes) (b : ℕ) (boundaryEnd : Option ℤ),
    quotedEnd text b boundaryEnd =
      if escapesComplete text then
        some (((quotes text b).getLast?.map fun q : ℕ => (q : ℤ) - 1).or boundaryEnd)
      else none := by
  intro text b boundaryEnd
  fun_induction quotedEnd text b boundaryEnd with
  | case1 => rfl
  | case2 => rfl
  | case3 c text b boundaryEnd ih =>
      rw [ih]
      rfl
  | case4 c text b boundaryEnd hlone hescape ih =>
      have hc : c ≠ backslash := by
        rintro rfl
        cases text with
        | nil => exact hlone rfl rfl
        | cons d text => exact hescape d text rfl rfl
      rw [ih]
      cases text with
      | nil =>
          by_cases hq : c = quote
          · simp [escapesComplete, quotes, hq, show quote ≠ backslash by decide]
          · simp [escapesComplete, quotes, hq, hc]
      | cons d text =>
          by_cases hq : c = quote
          · simp only [escapesComplete, quotes, if_neg hc, if_pos hq, List.getLast?_cons]
            cases (quotes (d :: text) (b + 1)).getLast? <;> rfl
          · simp only [escapesComplete, quotes, if_neg hc, if_neg hq]

/-- **When a boundary is taken right.** With `t` what follows `boundary=` in a response's
header value: unquoted text is the value `v` itself, or it goes on with one byte and the
first white space; quoted text goes on with one byte and the last quote, and all its
escapes are complete. The length of the value passes through an `int`. -/
def TakenRight (t v : Bytes) : Prop :=
  match t with
  | 34 :: text => escapesComplete text = true ∧ ∃ e, (quotes text 0).getLast? = some (e + 1) ∧
      intOfSize e = v.length ∧ v <+: text
  | text => text = v ∨
      ∃ e, text.findIdx? isSpace = some (e + 1) ∧ intOfSize e = v.length ∧ v <+: text

/-- What is printed of a boundary and its end. -/
def printed (boundary : Bytes) (boundaryEnd : Option ℤ) : Bytes :=
  match boundaryEnd with
  | none => boundary
  | some boundaryEnd => precise (boundaryEnd.bmod (2 ^ 32)) boundary

/-- An end right at the start leaves the text as it is. -/
theorem printed_zero (s : Bytes) : printed s (some (((0 : ℕ) : ℤ) - 1)) = s := by
  have hbmod : (((0 : ℕ) : ℤ) - 1).bmod (2 ^ 32) = -1 :=
    Int.bmod_eq_of_le (by omega) (by omega)
  rw [printed, hbmod, precise, if_pos (by omega)]

theorem printed_succ (s : Bytes) (e : ℕ) :
    printed s (some (((e + 1 : ℕ) : ℤ) - 1)) = precise (intOfSize e) s := by
  have hlast : ((e + 1 : ℕ) : ℤ) - 1 = e := by omega
  rw [hlast]
  rfl

/-- Text from which a longer end than its own would be needed is printed as it should be
under the condition on quoted text. -/
theorem printed_quoted_iff {text v : Bytes} (hne : text ≠ v) :
    printed text ((quotes text 0).getLast?.map fun q : ℕ => (q : ℤ) - 1) = v ↔
      ∃ e, (quotes text 0).getLast? = some (e + 1) ∧ intOfSize e = v.length ∧ v <+: text := by
  cases hlast : (quotes text 0).getLast? with
  | none =>
      rw [Option.map_none]
      exact iff_of_false hne (by rintro ⟨e, he, -⟩; cases he)
  | some last =>
      rw [Option.map_some]
      cases last with
      | zero =>
          rw [printed_zero]
          exact iff_of_false hne (by rintro ⟨e, he, -⟩; cases he)
      | succ e =>
          rw [printed_succ, precise_eq_iff hne]
          constructor
          · exact fun h => ⟨e, rfl, h⟩
          · rintro ⟨e', he, h⟩
            obtain rfl : e = e' := Nat.succ.inj (Option.some.inj he)
            exact h

/-- The same for text that is not quoted. -/
theorem printed_token_iff {text v : Bytes} (hv : text = v → ∀ b ∈ v, isSpace b = false) :
    printed text ((text.findIdx? isSpace).map fun b : ℕ => (b : ℤ) - 1) = v ↔
      text = v ∨
        ∃ e, text.findIdx? isSpace = some (e + 1) ∧ intOfSize e = v.length ∧ v <+: text := by
  cases hfirst : text.findIdx? isSpace with
  | none =>
      rw [Option.map_none]
      constructor
      · exact Or.inl
      · rintro (h | ⟨e, he, -⟩)
        · exact h
        · cases he
  | some first =>
      have hne : text ≠ v := by
        intro h
        rw [List.findIdx?_eq_none_iff.mpr (h ▸ hv h)] at hfirst
        cases hfirst
      rw [Option.map_some]
      cases first with
      | zero =>
          rw [printed_zero]
          constructor
          · exact Or.inl
          · rintro (h | ⟨e, he, -⟩)
            · exact h
            · cases he
      | succ e =>
          rw [printed_succ, precise_eq_iff hne]
          constructor
          · exact fun h => Or.inr ⟨e, rfl, h⟩
          · rintro (h | ⟨e', he, h⟩)
            · exact absurd h hne
            · obtain rfl : e = e' := Nat.succ.inj (Option.some.inj he)
              exact h

/-- The boundary of one header value, as it is stored. -/
theorem valueBoundary_iff {value found v : Bytes}
    (hfound : strcasestr value (bytes "boundary=") = some found)
    (hquoted : ∀ text, found.drop 9 = quote :: text → text ≠ v)
    (htoken : found.drop 9 = v → ∀ b ∈ v, isSpace b = false) :
    (∃ boundary boundaryEnd, valueBoundary value = some (boundary, boundaryEnd) ∧
        printed boundary boundaryEnd = v) ↔ TakenRight (found.drop 9) v := by
  rw [valueBoundary, hfound, Option.bind_eq_bind, Option.bind_some]
  by_cases hfirst : ∃ text, found.drop 9 = quote :: text
  · obtain ⟨text, htext⟩ := hfirst
    rw [htext, TakenRight, ← printed_quoted_iff (hquoted text htext)]
    simp only [quotedEnd_eq, Option.or_none]
    by_cases hcomplete : escapesComplete text = true
    · simp [hcomplete]
    · simp [hcomplete]
  · have hunquoted : ∀ text, found.drop 9 = 34 :: text → False := fun text h => hfirst ⟨text, h⟩
    generalize found.drop 9 = t at *
    have htaken : TakenRight t v ↔ t = v ∨
        ∃ e, t.findIdx? isSpace = some (e + 1) ∧ intOfSize e = v.length ∧ v <+: t := by
      rw [TakenRight.eq_def]
      split
      · rename_i text
        exact absurd rfl (hunquoted text)
      · rfl
    rw [htaken, ← printed_token_iff htoken]
    split
    · rename_i text
      exact absurd rfl (hunquoted text)
    · cases t.findIdx? isSpace <;> simp

namespace MultipartType

variable (type : MultipartType)

/-- What stands in front of the name of the boundary parameter. -/
def front : Bytes :=
  type.topLevel ++ type.subtype ++ type.earlier.flatMap Parameter.text ++
    type.boundary.spaceBefore ++ bytes ";" ++ type.boundary.spaceAfter

theorem text_eq : type.text = type.front ++ (type.boundary.name ++ bytes "=" ++ type.rest) := by
  simp only [text, front, rest, Parameter.text, List.append_assoc]

theorem toLower_name : (type.boundary.name ++ bytes "=").map toLower = bytes "boundary=" := by
  have hname : type.boundary.name.map toLower = (bytes "boundary").map toLower := by
    simpa [strcaseeq] using type.isBoundary
  rw [List.map_append, hname]
  decide

/-- The value is tested for a multipart type in any letter case. -/
theorem startsMultipart : strcaseeq (type.text.take 10) (bytes "multipart/") = true := by
  have htop : type.topLevel.map toLower = (bytes "multipart/").map toLower := by
    simpa [strcaseeq] using type.isMultipart
  have hlen : type.topLevel.length = 10 := by
    rw [← List.length_map (f := toLower), htop]
    rfl
  have htake : type.text.take 10 = type.topLevel := by
    simp only [text, List.append_assoc]
    exact List.take_left' hlen
  rw [htake]
  exact type.isMultipart

/-- The parameter's value is not longer than what stands behind its name, and shorter if it
is quoted. -/
theorem length_value_le : type.value.length ≤ type.rest.length ∧
    (type.value.length = type.rest.length → ∀ b ∈ type.value, isSpace b = false) ∧
    ∀ text, type.rest = quote :: text → type.value.length < text.length := by
  rw [value, rest]
  cases type.boundary.value with
  | token v formed =>
      simp only [ParameterValue.value, ParameterValue.text, List.length_append]
      refine ⟨Nat.le_add_right _ _, fun _ b hb => (not_isSpace_of_isTokenByte (formed.2 b hb)).1,
        fun text htext => ?_⟩
      obtain ⟨b, v', rfl⟩ := List.exists_cons_of_ne_nil formed.1
      have hb := (not_isSpace_of_isTokenByte (formed.2 b List.mem_cons_self)).2
      exact absurd (List.cons.inj htext).1 hb
  | quoted v formed =>
      simp only [ParameterValue.value, ParameterValue.text, List.length_append,
        List.length_cons, List.length_nil]
      refine ⟨by omega, fun h => by omega, fun text htext => ?_⟩
      have := congrArg List.length htext
      simp only [List.length_append, List.length_cons, List.length_nil] at this
      omega

/-- The search finds the parameter, or an earlier text that is longer than its value. -/
theorem strcasestr_text : ∃ found, strcasestr type.text (bytes "boundary=") = some found ∧
    (∀ text, found.drop 9 = quote :: text → text ≠ type.value) ∧
    (found.drop 9 = type.value → ∀ b ∈ type.value, isSpace b = false) := by
  obtain ⟨hle, hplain, hquoted⟩ := type.length_value_le
  obtain ⟨found, hfound, hwhere⟩ := strcasestr_boundary type.toLower_name type.front
  rw [← type.text_eq] at hfound
  refine ⟨found, hfound, fun text htext => ?_, fun hvalue => ?_⟩
  · rcases hwhere with hrest | hlong
    · have hlt := hquoted text (hrest ▸ htext)
      rintro rfl
      exact lt_irrefl _ hlt
    · rw [htext, List.length_cons] at hlong
      rintro rfl
      omega
  · rcases hwhere with hrest | hlong
    · exact hplain (by rw [← hrest, hvalue])
    · rw [hvalue] at hlong
      omega

end MultipartType

/-- An array in which one entry is the content type, with a value; every other entry has
another name, and a value. -/
structure OneContentType (headers : KeyArray) (contentType : Bytes) : Prop where
  split : ∃ before key after, headers = before ++ KeyValue.pair key contentType :: after ∧
    strcaseeq key (bytes "Content-Type") = true ∧
    ∀ kv ∈ before ++ after, ∃ name value, kv = .pair name value ∧
      strcaseeq name (bytes "Content-Type") = false

/-- The search of the headers passes those with other names. -/
theorem searchBoundary_others {later : KeyArray} {boundary : Option Bytes}
    {boundaryEnd : Option ℤ} : ∀ headers : KeyArray,
    (∀ kv ∈ headers, ∃ name value, kv = .pair name value ∧
      strcaseeq name (bytes "Content-Type") = false) →
    searchBoundary (headers ++ later) boundary boundaryEnd
      = searchBoundary later boundary boundaryEnd := by
  intro headers
  induction headers with
  | nil =>
      intro h
      rfl
  | cons kv headers ih =>
      intro h
      obtain ⟨name, value, rfl, hname⟩ := h kv List.mem_cons_self
      rw [List.cons_append, searchBoundary, hname, Bool.false_and,
        if_neg Bool.false_ne_true]
      exact ih fun kv hkv => h kv (List.mem_cons_of_mem _ hkv)

/-- With one multipart type among the headers, its boundary is the one that is found. -/
theorem responseBoundary_one {headers : KeyArray} {type : MultipartType}
    (h : OneContentType headers type.text) :
    responseBoundary headers
      = (valueBoundary type.text).map fun taken => some (printed taken.1 taken.2) := by
  obtain ⟨before, key, after, rfl, hkey, hothers⟩ := h.split
  have hafter : ∀ boundary boundaryEnd,
      searchBoundary after boundary boundaryEnd = some (boundary, boundaryEnd) := by
    intro boundary boundaryEnd
    have : searchBoundary (after ++ []) boundary boundaryEnd = some (boundary, boundaryEnd) :=
      searchBoundary_others after fun kv hkv => hothers kv (List.mem_append_right _ hkv)
    rwa [List.append_nil] at this
  rw [responseBoundary, searchBoundary_others before fun kv hkv =>
    hothers kv (List.mem_append_left _ hkv), searchBoundary, hkey, type.startsMultipart,
    Bool.and_self, if_pos rfl]
  cases valueBoundary type.text with
  | none => rfl
  | some taken =>
      obtain ⟨boundary, boundaryEnd⟩ := taken
      cases boundaryEnd <;> simp [hafter, printed]

/-- The value of the parameter is found exactly when it is taken right. -/
theorem responseBoundary_eq_iff {headers : KeyArray} {type : MultipartType}
    (h : OneContentType headers type.text) :
    responseBoundary headers = some (some type.value) ↔
      ∃ found, strcasestr type.text (bytes "boundary=") = some found ∧
        TakenRight (found.drop 9) type.value := by
  obtain ⟨found, hfound, hquoted, htoken⟩ := type.strcasestr_text
  have hiff := valueBoundary_iff hfound hquoted htoken
  rw [responseBoundary_one h, Option.map_eq_some_iff]
  constructor
  · rintro ⟨⟨taken, takenEnd⟩, htaken, hprinted⟩
    exact ⟨found, hfound, hiff.mp ⟨taken, takenEnd, htaken, Option.some.inj hprinted⟩⟩
  · rintro ⟨found', hfound', hright⟩
    obtain rfl : found = found' := Option.some.inj (hfound.symm.trans hfound')
    obtain ⟨taken, takenEnd, htaken, hprinted⟩ := hiff.mpr hright
    exact ⟨(taken, takenEnd), htaken, congrArg some hprinted⟩

namespace Request

/-- The header callback is called for the empty line behind the headers of a response that
is not 100 Continue, with one content type among them, for a request that reads multipart. -/
structure EndsMultipartHead (request : Request) (contentType memory : Bytes)
    (size nitems : ℕ) : Prop where
  reader : ∃ arg, request.dataReadCallback = .multipart arg
  status : ¬ (request.responseCode = 0 ∧ request.responseReason = [])
  final : request.responseCode ≠ 100
  entries : OneContentType request.headers.entries contentType
  line : memory.take 2 = crlf
  total : mul64 size nitems = 2

/-- The boundary in the argument of a multipart reader. -/
def storedBoundary : ReadCallback → Option Bytes
  | .multipart arg => some arg.boundary
  | _ => none

/-- The header callback comes back, with a boundary stored in the argument of the
multipart reader. -/
def StoresBoundary (request : Request) (memory : Bytes) (size nitems : ℕ) (response : Result)
    (boundary : Bytes) : Prop :=
  (request.header memory size nitems response).map
    (fun r => storedBoundary r.request.dataReadCallback) = some (some boundary)

instance (request : Request) (memory : Bytes) (size nitems : ℕ) (response : Result)
    (boundary : Bytes) : Decidable (request.StoresBoundary memory size nitems response boundary) :=
  inferInstanceAs (Decidable (_ = some (some boundary)))

/-- A request that reads multipart, at the end of a response with one header. -/
def finalResponse (contentType : Bytes) : Request where
  result := .success
  responseCode := 200
  responseReason := bytes "OK"
  requestBytesUploaded := 0
  responseBytesDownloaded := 0
  dataWriteCallback := false
  dataReadCallback := .multipart (prepareReadMultipart [] [false])
  headers := HeaderList.empty.grow.push (.pair (bytes "Content-Type") contentType)
    HeaderList.empty.length_lt_capacity_grow
  responseCallback := .none
  progressCallback := false

/-- The blank line behind that header. -/
theorem finalResponse_ends (contentType : Bytes) :
    (finalResponse contentType).EndsMultipartHead contentType crlf 1 2 where
  reader := ⟨_, rfl⟩
  status := fun h => absurd h.1 (by decide : ¬ (200 : ℤ) = 0)
  final := (by decide : (200 : ℤ) ≠ 100)
  entries := ⟨[], bytes "Content-Type", [], by simp [finalResponse, HeaderList.empty],
    by decide, by simp⟩
  line := rfl
  total := by decide

@[simp] theorem updateCounters_dataReadCallback (request : Request) :
    request.updateCounters.dataReadCallback = request.dataReadCallback := by
  rw [updateCounters]
  split <;> rfl

@[simp] theorem updateCounters_headers (request : Request) :
    request.updateCounters.headers = request.headers := by
  rw [updateCounters]
  split <;> rfl

/-- The blank line of the response stores the boundary of the header list, if there is
one, and comes back if the search for it does. -/
theorem endOfHeaders_boundary (request : Request) {arg : ReadMultipartArg}
    (hreader : request.dataReadCallback = .multipart arg) (hfinal : request.responseCode ≠ 100)
    (total : ℕ) (response : Result) :
    (request.endOfHeaders total response).map (fun r => r.request.dataReadCallback)
      = (responseBoundary request.headers.entries).map fun found => .multipart (found.elim arg
          fun boundary => { arg with boundary := boundary, boundaryBuffer := [] }) := by
  rw [endOfHeaders, if_neg hfinal, Option.bind_eq_bind, updateBoundary]
  simp only [updateCounters_dataReadCallback, updateCounters_headers, hreader]
  cases responseBoundary request.headers.entries with
  | none => rfl
  | some found =>
      cases found with
      | none =>
          simp only [Option.bind_eq_bind, Option.bind_some]
          split <;> simp [hreader]
      | some boundary =>
          simp only [Option.bind_eq_bind, Option.bind_some]
          split <;> simp

/-- At the empty line the boundary of the header list is stored. -/
theorem EndsMultipartHead.header_map {request : Request} {contentType memory : Bytes}
    {size nitems : ℕ} (h : request.EndsMultipartHead contentType memory size nitems)
    {arg : ReadMultipartArg} (hreader : request.dataReadCallback = .multipart arg)
    (response : Result) :
    (request.header memory size nitems response).map (fun r => r.request.dataReadCallback)
      = (responseBoundary request.headers.entries).map fun found => .multipart (found.elim arg
          fun boundary => { arg with boundary := boundary, boundaryBuffer := [] }) := by
  have hparse : headerParse request.headers memory 2 = some (.success, request.headers.grow) :=
    headerParse_of_no_colon (by rw [h.line]; decide)
  have hheader : request.header memory size nitems response
      = ({ request with headers := request.headers.grow } : Request).endOfHeaders 2 response := by
    rw [header, if_neg h.status, h.total, hparse, h.line]
    split
    · simp_all
    · simp_all
    · simp_all
    · rfl
  have hboundary := endOfHeaders_boundary
    { request with headers := request.headers.grow } hreader h.final 2 response
  rw [hheader, hboundary, HeaderList.grow_entries]

/-- **When the header callback stores the value of the boundary parameter.** -/
theorem header_boundary_iff {request : Request} {type : MultipartType} {memory : Bytes}
    {size nitems : ℕ} (h : request.EndsMultipartHead type.text memory size nitems)
    (response : Result) :
    request.StoresBoundary memory size nitems response type.value ↔
      ∃ found, strcasestr type.text (bytes "boundary=") = some found ∧
        TakenRight (found.drop 9) type.value := by
  obtain ⟨arg, hreader⟩ := h.reader
  have hmap := h.header_map hreader response
  have hstores : request.StoresBoundary memory size nitems response type.value ↔
      (responseBoundary request.headers.entries).map (fun found => storedBoundary (.multipart
        (found.elim arg fun boundary => { arg with boundary := boundary, boundaryBuffer := [] })))
        = some (some type.value) := by
    have := congrArg (Option.map storedBoundary) hmap
    rw [Option.map_map, Option.map_map] at this
    rw [StoresBoundary]
    exact Eq.congr this rfl
  rw [hstores, ← responseBoundary_eq_iff h.entries, responseBoundary_one h.entries]
  cases valueBoundary type.text with
  | none => simp
  | some taken => simp [storedBoundary]

/-- The value is stored if it is a token at the end of the header. -/
theorem header_boundary_token :
    (finalResponse (tokenType []).text).StoresBoundary
      crlf 1 2 .success (bytes "abc") :=
  (@header_boundary_iff _ (tokenType []) _ _ _ (finalResponse_ends _) .success).mpr
    ⟨bytes "boundary=abc", by decide +kernel, Or.inl rfl⟩

/-- Of a quoted value the last byte is lost. -/
theorem header_boundary_quoted :
    (finalResponse quotedType.text).StoresBoundary crlf 1 2 .success (bytes "ab") ∧
      ¬ (finalResponse quotedType.text).StoresBoundary crlf 1 2 .success quotedType.value := by
  decide +kernel

end Request

/-! ### The request's boundary -/

/-- **When a boundary is copied right.** With `t` what follows `boundary=` in the content
type of a request: quoted text ends with the value, or goes on with a quote; the value has
no white space, and unquoted text ends with it or goes on with white space. -/
def CopiedRight (t v : Bytes) : Prop :=
  match t with
  | 34 :: text => text = v ∨ ∃ after, text = v ++ quote :: after
  | text => (∀ b ∈ v, isSpace b = false) ∧
      (text = v ∨ ∃ b after, isSpace b = true ∧ text = v ++ b :: after)

/-- A scan stops at the end of the text, or at the first byte it does not accept. -/
theorem takeWhile_eq_iff {accept : Byte → Bool} : ∀ {s v : Bytes},
    s.takeWhile accept = v ↔ (∀ b ∈ v, accept b = true) ∧
      (s = v ∨ ∃ b after, accept b = false ∧ s = v ++ b :: after) := by
  intro s v
  constructor
  · rintro rfl
    refine ⟨fun b hb => List.mem_takeWhile_imp hb, ?_⟩
    have hsplit := List.takeWhile_append_dropWhile (p := accept) (l := s)
    cases hrest : s.dropWhile accept with
    | nil =>
        rw [hrest, List.append_nil] at hsplit
        exact Or.inl hsplit.symm
    | cons b after =>
        refine Or.inr ⟨b, after, ?_, ?_⟩
        · have := List.head_dropWhile_not accept (l := s) (by rw [hrest]; exact List.cons_ne_nil _ _)
          simpa [hrest] using this
        · rw [← hrest]
          exact hsplit.symm
  · rintro ⟨hv, rfl | ⟨b, after, hb, rfl⟩⟩
    · exact List.takeWhile_eq_self_iff.mpr hv
    · rw [List.takeWhile_append_of_pos hv, List.takeWhile_cons_of_neg (by simp [hb]),
        List.append_nil]

/-- Quoted text without a backslash has no quote in it. -/
theorem quote_notMem_of_isQuotedText : ∀ {text : Bytes}, isQuotedText text = true →
    backslash ∉ text → quote ∉ text := by
  intro text
  fun_induction isQuotedText text with
  | case1 => simp
  | case2 b =>
      intro h _
      simp only [Bool.and_eq_true, bne_iff_ne, ne_eq] at h
      simpa using fun hb : quote = b => h.1.2 hb.symm
  | case3 c text ih =>
      intro _ hplain
      exact absurd List.mem_cons_self hplain
  | case4 b c text hb ih =>
      intro h hplain
      simp only [Bool.and_eq_true, bne_iff_ne, ne_eq] at h
      rw [List.mem_cons, not_or]
      exact ⟨fun hq => h.1.1 hq.symm, ih h.2 fun hm => hplain (List.mem_cons_of_mem _ hm)⟩

/-- The value of the boundary parameter has no quote in it. -/
theorem MultipartType.quote_notMem_value (type : MultipartType) : quote ∉ type.value := by
  have hplain := type.unescaped
  rw [MultipartType.value]
  cases hvalue : type.boundary.value with
  | token v formed =>
      intro hq
      exact (not_isSpace_of_isTokenByte (formed.2 quote hq)).2 rfl
  | quoted v formed =>
      rw [hvalue] at hplain
      exact quote_notMem_of_isQuotedText formed hplain

/-- The boundary in the content type of a request is the value of its parameter exactly
when it is found there and copied right. -/
theorem contentTypeBoundary_iff (type : MultipartType) :
    contentTypeBoundary type.text = some type.value ↔
      bytes "multipart/" <+: type.text ∧
        ∃ found, strstr type.text (bytes "boundary=") = some found ∧
          CopiedRight (found.drop 9) type.value := by
  have hquote : ∀ b ∈ type.value, (b != 34) = true := by
    intro b hb
    simpa using fun h : b = quote => type.quote_notMem_value (h ▸ hb)
  rw [contentTypeBoundary]
  by_cases hmultipart : (bytes "multipart/").isPrefixOf type.text = true
  · have hcopied : ∀ t : Bytes, (match t with
        | 34 :: quoted => quoted.takeWhile (· != 34)
        | token => token.takeWhile (!isSpace ·)) = type.value ↔ CopiedRight t type.value := by
      intro t
      rw [CopiedRight.eq_def]
      split
      · rw [takeWhile_eq_iff, and_iff_right hquote]
        simp
      · rw [takeWhile_eq_iff]
        simp
    rw [if_pos hmultipart, Option.map_eq_some_iff,
      and_iff_right (List.isPrefixOf_iff_prefix.mp hmultipart)]
    exact exists_congr fun found => and_congr_right fun _ => hcopied _
  · rw [if_neg hmultipart]
    refine iff_of_false (by simp) fun h => hmultipart ?_
    exact List.isPrefixOf_iff_prefix.mpr h.1

/-- The entries in front of the content type that let the search come to it. -/
def PassedBySearch (headers : KeyArray) : Prop :=
  ∀ kv ∈ headers, ∃ name, kv.key = some name ∧ strcaseeq name (bytes "Content-Type") = false

/-- The search finds the content type, or meets a `NULL` key or a content type without a
value before it. -/
theorem headersSearch_split {key : Bytes} (value : Bytes) (after : KeyArray)
    (hkey : strcaseeq key (bytes "Content-Type") = true) : ∀ before : KeyArray,
    (∀ kv ∈ before, ∀ name value, kv = .pair name value →
      strcaseeq name (bytes "Content-Type") = false) →
    (PassedBySearch before ∧
        headersSearch (before ++ .pair key value :: after) = .ok (some value)) ∨
      (¬ PassedBySearch before ∧
        (headersSearch (before ++ .pair key value :: after) = .ok none ∨
          headersSearch (before ++ .pair key value :: after) = .error .badPointer)) := by
  intro before
  induction before with
  | nil =>
      intro h
      refine Or.inl ⟨fun kv hkv => absurd hkv (by simp), ?_⟩
      rw [List.nil_append, headersSearch, if_pos hkey]
  | cons kv before ih =>
      intro h
      have hstop : ∀ P : Prop, (¬ ∃ name, kv.key = some name ∧
          strcaseeq name (bytes "Content-Type") = false) → P → ¬ PassedBySearch (kv :: before) ∧ P :=
        fun P hnot hP => ⟨fun hpass => hnot (hpass kv List.mem_cons_self), hP⟩
      obtain ⟨name, value'⟩ := kv
      cases name with
      | none =>
          exact Or.inr (hstop _ (by simp) (Or.inr rfl))
      | some name =>
          by_cases hname : strcaseeq name (bytes "Content-Type") = true
          · cases value' with
            | none =>
                refine Or.inr (hstop _ (by simp [hname]) (Or.inl ?_))
                rw [List.cons_append, headersSearch, if_pos hname]
            | some value' =>
                have := h _ List.mem_cons_self name value' rfl
                rw [hname] at this
                cases this
          · have hskip : headersSearch (⟨some name, value'⟩ :: before ++ .pair key value :: after)
                = headersSearch (before ++ .pair key value :: after) := by
              rw [List.cons_append, headersSearch, if_neg hname]
            have hpass : PassedBySearch (⟨some name, value'⟩ :: before) ↔ PassedBySearch before := by
              unfold PassedBySearch
              rw [List.forall_mem_cons]
              simp [hname]
            rw [hskip, hpass]
            exact ih fun kv hkv => h kv (List.mem_cons_of_mem _ hkv)

/-- As many parts are prepared as the client gave. -/
theorem length_prepareParts {uuid : ℕ → Bytes} : ∀ {parts : List (ClientPart ClientWriter)}
    {drawn k : ℕ} {prepared : List (WritePart Writer)},
    prepareParts uuid parts drawn = .ok (prepared, k) → prepared.length = parts.length := by
  intro parts
  induction parts with
  | nil =>
      intro drawn k prepared h
      cases h
      rfl
  | cons part parts ih =>
      intro drawn k prepared h
      simp only [prepareParts, bind, Except.bind, pure, Except.pure] at h
      split at h
      · cases h
      split at h
      · cases h
      rename_i more hmore
      cases h
      rw [List.length_cons, List.length_cons, ih hmore]

/-- A multipart writer is prepared with a boundary, and its headers are left as they are. -/
def WritesBoundary (uuid : ℕ → Bytes) (headers : KeyArray)
    (parts : List (ClientPart ClientWriter)) (drawn : ℕ) (boundary : Bytes) : Prop :=
  ∃ arg k, prepareWriteCallbacks uuid headers (.multipart parts) drawn
    = .ok (⟨headers, .multipart arg⟩, k) ∧ arg.boundary = some boundary

/-- **When a multipart writer uses the boundary of its content type.** The parts can be
prepared; the content type is the first one with a value. -/
theorem prepareMultipart_boundary_iff {uuid : ℕ → Bytes} {before after : KeyArray}
    {key : Bytes} (type : MultipartType) {parts : List (ClientPart ClientWriter)}
    {prepared : List (WritePart Writer)} {drawn k : ℕ}
    (hkey : strcaseeq key (bytes "Content-Type") = true)
    (hbefore : ∀ kv ∈ before, ∀ name value, kv = .pair name value →
      strcaseeq name (bytes "Content-Type") = false)
    (hparts : parts ≠ []) (hprepared : prepareParts uuid parts drawn = .ok (prepared, k)) :
    WritesBoundary uuid (before ++ .pair key type.text :: after) parts drawn type.value ↔
      PassedBySearch before ∧ bytes "multipart/" <+: type.text ∧
        ∃ found, strstr type.text (bytes "boundary=") = some found ∧
          CopiedRight (found.drop 9) type.value := by
  rw [← contentTypeBoundary_iff]
  rcases headersSearch_split type.text after hkey before hbefore with
    ⟨hpass, hsearch⟩ | ⟨hpass, hsearch⟩
  · rw [and_iff_right hpass]
    obtain ⟨part, later, rfl⟩ : ∃ part later, prepared = part :: later := by
      cases prepared with
      | nil => exact absurd (List.length_eq_zero_iff.mp (length_prepareParts hprepared).symm) hparts
      | cons part later => exact ⟨part, later, rfl⟩
    obtain ⟨arg, harg⟩ : ∃ arg,
        firstBoundary (contentTypeBoundary type.text) (part :: later) = .ok arg := by
      cases contentTypeBoundary type.text with
      | none => exact ⟨_, rfl⟩
      | some delimiter =>
          simp only [firstBoundary, multipartBoundaryPrepare_eq]
          exact ⟨_, rfl⟩
    have hprepare : prepareWriteCallbacks uuid (before ++ .pair key type.text :: after)
        (.multipart parts) drawn
          = .ok (⟨before ++ .pair key type.text :: after, .multipart arg⟩, k) := by
      simp only [prepareWriteCallbacks, multipartHeaders, hsearch, bind, Except.bind, pure,
        Except.pure, hprepared, harg]
    have hboundary := (firstBoundary_start harg).2.2
    rw [WritesBoundary, hprepare, ← hboundary]
    constructor
    · rintro ⟨arg', k', hok, hvalue⟩
      cases hok
      exact hvalue
    · exact fun hvalue => ⟨arg, k, rfl, hvalue⟩
  · refine iff_of_false ?_ fun h => hpass h.1
    rintro ⟨arg, k', hok, -⟩
    rcases hsearch with hsearch | hsearch
    · -- the library adds a content type of its own
      simp only [prepareWriteCallbacks, multipartHeaders, hsearch, bind, Except.bind, pure,
        Except.pure] at hok
      split at hok
      · cases hok
      split at hok
      · cases hok
      have hheaders := congrArg (fun r => r.1.headers.length) (Except.ok.inj hok)
      simp at hheaders
    · simp only [prepareWriteCallbacks, multipartHeaders, hsearch, bind, Except.bind] at hok
      cases hok

/-- A boundary that white space or the end of the header follows is used. -/
theorem prepareMultipart_boundary_token :
    WritesBoundary (fun _ => []) [.pair (bytes "Content-Type") (tokenType []).text]
      [⟨[], .block []⟩] 0 (bytes "abc") :=
  (@prepareMultipart_boundary_iff _ [] [] _ (tokenType []) _ _ _ _ (by decide +kernel) (by simp)
      (List.cons_ne_nil _ _) rfl).mpr
    ⟨by simp [PassedBySearch], by decide +kernel, bytes "boundary=abc", by decide +kernel,
      by decide +kernel, Or.inl rfl⟩

/-- A semicolon behind the value is taken for a part of it. -/
theorem prepareMultipart_boundary_semicolon :
    let type := tokenType [charsetParameter]
    contentTypeBoundary type.text = some (bytes "abc;") ∧
      ¬ WritesBoundary (fun _ => []) [.pair (bytes "Content-Type") type.text]
        [⟨[], .block []⟩] 0 type.value := by
  intro type
  have hvalue : contentTypeBoundary type.text = some (bytes "abc;") := by decide +kernel
  have hsearch : headersSearch [.pair (bytes "Content-Type") type.text] = .ok (some type.text) := by
    rw [headersSearch, if_pos (by decide +kernel)]
  refine ⟨hvalue, ?_⟩
  rintro ⟨arg, k, hok, hboundary⟩
  simp only [prepareWriteCallbacks, prepareParts, multipartHeaders, hsearch, hvalue, firstBoundary,
    multipartBoundaryPrepare_eq, bind, Except.bind, pure, Except.pure] at hok
  cases hok
  exact absurd hboundary (by decide +kernel)

end DsiRest
