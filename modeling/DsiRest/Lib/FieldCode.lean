import Mathlib.Data.List.Basic

/-!
# Fields in a Text

A field is a key and a value. A list of fields is written as one text, with a symbol between the
fields and another one between key and value. A key or a value may hold any symbol: each one is
written as an encoding in which neither of the two occurs, and is decoded again, symbol by symbol.

Decoding splits a text at the first symbol, each piece at the first occurrence of the second,
and takes the two halves for a key and a value. The text without symbols has no fields. Decoding
undoes encoding (`decodeFields_encodeFields`). Where another symbol stands between a text and
encoded fields, these are not decoded to what both hold (`decodeFields_mark_ne`).
-/

/-- An encoding of symbols, and the two symbols that are kept free of it. -/
structure FieldCode (α : Type*) where
  encode : α → List α
  decode : List α → List α
  separator : α
  equals : α
  decode_nil : decode [] = []
  decode_encode : ∀ a rest, decode (encode a ++ rest) = a :: decode rest
  separator_notMem : ∀ a, separator ∉ encode a
  equals_notMem : ∀ a, equals ∉ encode a
  separator_ne : separator ≠ equals

namespace FieldCode

variable {α : Type*} (c : FieldCode α)

/-- The encodings of the symbols of a text. -/
def encodeText (text : List α) : List α :=
  text.flatMap c.encode

/-- Key and value. -/
def encodeField (field : List α × List α) : List α :=
  c.encodeText field.1 ++ c.equals :: c.encodeText field.2

/-- The fields one behind the other. -/
def encodeFields (fields : List (List α × List α)) : List α :=
  [c.separator].intercalate (fields.map c.encodeField)

@[simp] theorem encodeText_cons (a : α) (text : List α) :
    c.encodeText (a :: text) = c.encode a ++ c.encodeText text := rfl

@[simp] theorem encodeFields_nil : c.encodeFields [] = [] := rfl

/-- The first field, and those behind it. -/
theorem encodeFields_cons (field : List α × List α) (fields : List (List α × List α)) :
    c.encodeFields (field :: fields)
      = c.encodeField field ++ fields.flatMap fun next => c.separator :: c.encodeField next := by
  induction fields generalizing field with
  | nil => simp [encodeFields]
  | cons second fields ih =>
      have hsecond := ih second
      rw [encodeFields] at hsecond ⊢
      rw [List.map_cons, List.map_cons, List.intercalate_cons_cons, ← List.map_cons, hsecond]
      simp

/-! ### Texts -/

/-- Decoding undoes encoding. -/
@[simp] theorem decode_encodeText (text : List α) : c.decode (c.encodeText text) = text := by
  induction text with
  | nil => exact c.decode_nil
  | cons a text ih => rw [encodeText_cons, c.decode_encode, ih]

/-- A symbol that is in no encoding is in no encoded text. -/
theorem notMem_encodeText {a : α} (h : ∀ b, a ∉ c.encode b) (text : List α) :
    a ∉ c.encodeText text := by
  rw [encodeText, List.mem_flatMap]
  rintro ⟨b, -, hmem⟩
  exact h b hmem

/-! ### Fields -/

/-- It is in no field either, if it does not separate key and value. -/
theorem notMem_encodeField {a : α} (h : ∀ b, a ∉ c.encode b) (hequals : a ≠ c.equals)
    (field : List α × List α) : a ∉ c.encodeField field := by
  rw [encodeField, List.mem_append, List.mem_cons, not_or, not_or]
  exact ⟨c.notMem_encodeText h _, hequals, c.notMem_encodeText h _⟩

/-- No separator is inside a field. -/
theorem separator_notMem_encodeField (fields : List (List α × List α)) :
    ∀ piece ∈ fields.map c.encodeField, c.separator ∉ piece := by
  intro piece hpiece
  obtain ⟨field, -, rfl⟩ := List.mem_map.mp hpiece
  exact c.notMem_encodeField c.separator_notMem c.separator_ne field

/-- A symbol that is neither in an encoding nor separates anything is not in the fields. -/
theorem notMem_encodeFields {a : α} (h : ∀ b, a ∉ c.encode b) (hequals : a ≠ c.equals)
    (hsep : a ≠ c.separator) (fields : List (List α × List α)) : a ∉ c.encodeFields fields := by
  cases fields with
  | nil => exact List.not_mem_nil
  | cons field fields =>
      rw [encodeFields_cons, List.mem_append, List.mem_flatMap, not_or]
      refine ⟨c.notMem_encodeField h hequals field, ?_⟩
      rintro ⟨next, -, hmem⟩
      rcases List.mem_cons.mp hmem with heq | hmem
      · exact hsep heq
      · exact c.notMem_encodeField h hequals next hmem

/-- A text with a field in it is not empty. -/
theorem encodeFields_ne_nil (field : List α × List α) (fields : List (List α × List α)) :
    c.encodeFields (field :: fields) ≠ [] := by
  rw [encodeFields_cons, encodeField]
  simp

variable [DecidableEq α]

/-- The halves in front of and behind the first symbol that separates key and value. -/
def decodeField (piece : List α) : List α × List α :=
  (c.decode (piece.takeWhile (· ≠ c.equals)), c.decode ((piece.dropWhile (· ≠ c.equals)).drop 1))

/-- The fields of a text. -/
def decodeFields (text : List α) : List (List α × List α) :=
  if text = [] then [] else (text.splitOn c.separator).map c.decodeField

/-- A text is split at the first occurrence of a symbol. -/
theorem split_first {a : α} {front : List α} (h : a ∉ front) (back : List α) :
    (front ++ a :: back).takeWhile (· ≠ a) = front ∧
      ((front ++ a :: back).dropWhile (· ≠ a)).drop 1 = back := by
  have hfree : ∀ b ∈ front, decide (b ≠ a) = true := by
    intro b hb
    simpa using fun heq : b = a => h (heq ▸ hb)
  rw [List.takeWhile_append_of_pos hfree, List.dropWhile_append_of_pos hfree,
    List.takeWhile_cons_of_neg (by simp), List.dropWhile_cons_of_neg (by simp), List.append_nil,
    List.drop_one, List.tail_cons]
  exact ⟨rfl, rfl⟩

/-- A piece is split where key and value meet. -/
theorem decodeField_append {key : List α} (hkey : c.equals ∉ key) (value : List α) :
    c.decodeField (key ++ c.equals :: value) = (c.decode key, c.decode value) := by
  obtain ⟨hbefore, hbehind⟩ := split_first hkey value
  rw [decodeField, hbefore, hbehind]

/-- A field is decoded again. -/
theorem decodeField_encodeField (field : List α × List α) :
    c.decodeField (c.encodeField field) = field := by
  rw [encodeField, c.decodeField_append (c.notMem_encodeText c.equals_notMem _), decode_encodeText,
    decode_encodeText]

/-- A text of pieces is decoded piece by piece. -/
theorem decodeFields_intercalate {pieces : List (List α)} (hpieces : pieces ≠ [])
    (hsep : ∀ piece ∈ pieces, c.separator ∉ piece)
    (htext : [c.separator].intercalate pieces ≠ []) :
    c.decodeFields ([c.separator].intercalate pieces) = pieces.map c.decodeField := by
  rw [decodeFields, if_neg htext, List.splitOn_intercalate _ hsep hpieces]

/-- **Decoding undoes encoding.** -/
theorem decodeFields_encodeFields (fields : List (List α × List α)) :
    c.decodeFields (c.encodeFields fields) = fields := by
  cases fields with
  | nil => rfl
  | cons field fields =>
      have hsep := c.separator_notMem_encodeField (field :: fields)
      have htext := c.encodeFields_ne_nil field fields
      rw [encodeFields] at htext ⊢
      rw [c.decodeFields_intercalate (by simp) hsep htext, List.map_map]
      have hid : c.decodeField ∘ c.encodeField = id := funext c.decodeField_encodeField
      rw [hid, List.map_id]

/-- A text has as many fields as separators, and one more. -/
theorem length_decodeFields {text : List α} (hne : text ≠ []) :
    (c.decodeFields text).length = text.count c.separator + 1 := by
  have hsplit : ∀ text : List α,
      (text.splitOn c.separator).length = text.count c.separator + 1 := by
    intro text
    induction text with
    | nil => rfl
    | cons a text ih =>
        rw [List.splitOn_cons_eq_if_modifyHead, List.count_cons]
        split <;> simp [ih]
  rw [decodeFields, if_neg hne, List.length_map, hsplit]

/-! ### Marks -/

/-- **A mark is no separator.** Where a symbol that is neither a separator nor part of an encoding
stands between a text and encoded fields, it becomes a part of a field. -/
theorem decodeFields_mark_ne {mark : α} (hsep : mark ≠ c.separator) (hequals : mark ≠ c.equals)
    (hmark : ∀ text, c.decode (mark :: text) = mark :: c.decode text) (text : List α)
    (field : List α × List α) (fields : List (List α × List α)) :
    c.decodeFields (text ++ mark :: c.encodeFields (field :: fields))
      ≠ c.decodeFields text ++ field :: fields := by
  have hcount := c.length_decodeFields (c.encodeFields_ne_nil field fields)
  rw [c.decodeFields_encodeFields] at hcount
  rcases eq_or_ne text [] with rfl | hne
  · -- the first key begins with the mark
    have hfirst : ∀ pieces, [c.separator].intercalate ((mark :: c.encodeField field) :: pieces)
        = mark :: [c.separator].intercalate (c.encodeField field :: pieces) := by
      intro pieces
      cases pieces <;> simp
    have hpieces : ∀ piece ∈ (mark :: c.encodeField field) :: fields.map c.encodeField,
        c.separator ∉ piece := by
      obtain ⟨hfield, hfields⟩ :=
        List.forall_mem_cons.mp (c.separator_notMem_encodeField (field :: fields))
      refine List.forall_mem_cons.mpr ⟨?_, hfields⟩
      rw [List.mem_cons, not_or]
      exact ⟨hsep.symm, hfield⟩
    have hkey : c.equals ∉ mark :: c.encodeText field.1 := by
      rw [List.mem_cons, not_or]
      exact ⟨hequals.symm, c.notMem_encodeText c.equals_notMem _⟩
    intro heq
    rw [List.nil_append, encodeFields, List.map_cons, ← hfirst,
      c.decodeFields_intercalate (List.cons_ne_nil _ _) hpieces
        (by rw [hfirst]; exact List.cons_ne_nil _ _), List.map_cons] at heq
    have hmarked := congrArg Prod.fst (List.cons.inj heq).1
    rw [encodeField, ← List.cons_append, c.decodeField_append hkey, hmark,
      decode_encodeText] at hmarked
    exact absurd (congrArg List.length hmarked) (Nat.succ_ne_self _)
  · -- the mark joins the last field of the text and the first one behind it
    intro heq
    have hlength := congrArg List.length heq
    rw [List.length_append, c.length_decodeFields hne,
      c.length_decodeFields (List.append_ne_nil_of_left_ne_nil hne _), List.count_append,
      List.count_cons_of_ne hsep] at hlength
    omega

end FieldCode
