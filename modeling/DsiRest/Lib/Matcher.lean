import Mathlib.Data.List.Infix

/-!
# A Delimiter Matcher without Backtracking

A scanner looks for a delimiter `d` in a stream with one counter, the length `m` of the
prefix of `d` it holds matched. A symbol that continues the match increments the counter;
any other symbol starts over, and may itself be the first symbol of `d`. Unlike the
automaton of Knuth, Morris and Pratt, the scanner never falls back to a shorter border of
what it has matched, so it can miss an occurrence in general.

`Matcher.feed` runs the scanner until the delimiter is complete or the input is used up.
`feed_spec` describes what is held and what was passed over; `feed_first` says that the
scanner does find the first occurrence when the first symbol of the delimiter does not
occur again in a front part of it that the scanned text does not contain.
-/

namespace Matcher

variable {α : Type*} [DecidableEq α]

/-- The counter after one symbol. -/
def advance (d : List α) (m : ℕ) (a : α) : ℕ :=
  if d[m]? = some a then m + 1 else if d[0]? = some a then 1 else 0

/-- Scan until the delimiter is complete or the input ends: the final counter and the
number of symbols scanned. -/
def feed (d : List α) : ℕ → List α → ℕ × ℕ
  | m, [] => (m, 0)
  | m, a :: as =>
    if m < d.length then ((feed d (advance d m a) as).1, (feed d (advance d m a) as).2 + 1)
    else (m, 0)

@[simp] theorem feed_nil (d : List α) (m : ℕ) : feed d m [] = (m, 0) := rfl

/-- One symbol, while the delimiter is not complete. -/
theorem feed_cons {d : List α} {m : ℕ} (h : m < d.length) (a : α) (as : List α) :
    feed d m (a :: as)
      = ((feed d (advance d m a) as).1, (feed d (advance d m a) as).2 + 1) := by
  rw [feed, if_pos h]

/-- A complete delimiter stops the scan. -/
theorem feed_of_length_le {d : List α} {m : ℕ} (h : d.length ≤ m) (xs : List α) :
    feed d m xs = (m, 0) := by
  cases xs with
  | nil => rfl
  | cons a as => rw [feed, if_neg (by omega)]

/-- A symbol that continues the match. -/
theorem advance_of_eq {d : List α} {m : ℕ} {a : α} (h : d[m]? = some a) :
    advance d m a = m + 1 := if_pos h

/-- A symbol that breaks the match and starts a new one. -/
theorem advance_of_head {d : List α} {m : ℕ} {a : α} (h : d[m]? ≠ some a)
    (h0 : d[0]? = some a) : advance d m a = 1 := by
  rw [advance, if_neg h, if_pos h0]

/-- A symbol that breaks the match and starts none. -/
theorem advance_of_ne {d : List α} {m : ℕ} {a : α} (h : d[m]? ≠ some a)
    (h0 : d[0]? ≠ some a) : advance d m a = 0 := by
  rw [advance, if_neg h, if_neg h0]

omit [DecidableEq α] in
/-- One more matched symbol. -/
theorem take_succ_of_getElem? {d : List α} {m : ℕ} {a : α} (h : d[m]? = some a) :
    d.take (m + 1) = d.take m ++ [a] := by
  rw [List.take_add_one, h]
  rfl

/-- What one symbol shows not to belong to a match: the front of the held match and the
symbol itself, up to where the new match starts. -/
def release (d : List α) (m : ℕ) (a : α) : List α :=
  (d.take m ++ [a]).take (m + 1 - advance d m a)

/-- What is held and what is passed over make up what was read. -/
theorem release_append {d : List α} {m : ℕ} (h : m < d.length) (a : α) :
    release d m a ++ d.take (advance d m a) = d.take m ++ [a] := by
  have hlen : (d.take m).length = m := List.length_take_of_le (by omega)
  rw [release]
  by_cases hma : d[m]? = some a
  · rw [advance_of_eq hma, Nat.sub_self, List.take_zero, List.nil_append,
      take_succ_of_getElem? hma]
  · by_cases h0a : d[0]? = some a
    · rw [advance_of_head hma h0a, Nat.add_sub_cancel, List.take_left' hlen,
        take_succ_of_getElem? h0a, List.take_zero, List.nil_append]
    · rw [advance_of_ne hma h0a, List.take_zero, List.append_nil,
        List.take_of_length_le (by rw [List.length_append, hlen, List.length_singleton]; rfl)]

/-- What a scan shows not to belong to a match. -/
def releases (d : List α) : ℕ → List α → List α
  | _, [] => []
  | m, a :: as =>
    if m < d.length then release d m a ++ releases d (advance d m a) as else []

/-- A match is never longer than the delimiter. -/
theorem advance_le {d : List α} {m : ℕ} (h : m < d.length) (a : α) :
    advance d m a ≤ d.length := by
  unfold advance
  split
  · exact h
  · split
    · omega
    · exact Nat.zero_le _

/-- **What a scan holds and what it passed over.** Either every symbol continued the
match, or the match was broken, and then what is held lies inside the scanned symbols and
at least one symbol or formerly held match lies before it. -/
theorem feed_spec (d : List α) : ∀ (xs : List α) (m : ℕ), m ≤ d.length →
    (feed d m xs).1 ≤ d.length ∧ (feed d m xs).2 ≤ xs.length ∧
    ((feed d m xs).1 < d.length → (feed d m xs).2 = xs.length) ∧
    (((feed d m xs).1 = m + (feed d m xs).2 ∧
        d.take m ++ xs.take (feed d m xs).2 = d.take (feed d m xs).1) ∨
      ((feed d m xs).1 ≤ (feed d m xs).2 ∧ (feed d m xs).1 ≠ m + (feed d m xs).2 ∧
        xs.take (feed d m xs).2
          = xs.take ((feed d m xs).2 - (feed d m xs).1) ++ d.take (feed d m xs).1)) := by
  intro xs
  induction xs with
  | nil => exact fun m hm => ⟨hm, Nat.le_refl _, fun _ => rfl, Or.inl ⟨rfl, by simp⟩⟩
  | cons a as ih =>
      intro m hm
      by_cases hlt : m < d.length
      · rw [feed_cons hlt]
        obtain ⟨hle, hn, hall, hcases⟩ := ih (advance d m a) (advance_le hlt a)
        set m' := (feed d (advance d m a) as).1
        set n := (feed d (advance d m a) as).2
        refine ⟨hle, by simpa using hn, fun h => by simp [hall h], ?_⟩
        have hsub : m' ≤ n → n + 1 - m' = n - m' + 1 := fun h => by omega
        rcases hcases with ⟨heq, hheld⟩ | ⟨hle', hne, hsplit⟩
        · -- the later symbols all continue the match this symbol leaves
          by_cases hma : d[m]? = some a
          · rw [advance_of_eq hma] at heq hheld
            refine Or.inl ⟨by omega, ?_⟩
            rw [← hheld, take_succ_of_getElem? hma, List.take_succ_cons, List.append_assoc]
            rfl
          · by_cases h0a : d[0]? = some a
            · rw [advance_of_head hma h0a] at heq hheld
              have hm0 : m ≠ 0 := fun h => hma (h ▸ h0a)
              refine Or.inr ⟨by omega, by omega, ?_⟩
              rw [← hheld, take_succ_of_getElem? h0a, List.take_succ_cons,
                Nat.sub_eq_zero_of_le (by omega)]
              rfl
            · rw [advance_of_ne hma h0a] at heq hheld
              refine Or.inr ⟨by omega, by omega, ?_⟩
              have hn0 : n + 1 - m' = 1 := by omega
              rw [hn0, ← hheld]
              rfl
        · -- the match is broken later on
          refine Or.inr ⟨by omega, by omega, ?_⟩
          · rw [hsub hle', List.take_succ_cons, List.take_succ_cons, hsplit]
            rfl
      · rw [feed_of_length_le (by omega)]
        exact ⟨hm, Nat.zero_le _, fun h => absurd h hlt, Or.inl ⟨rfl, by simp⟩⟩

/-- The counter grows by at most one with each symbol. -/
theorem feed_fst_le {d : List α} {m : ℕ} (h : m ≤ d.length) (xs : List α) :
    (feed d m xs).1 ≤ m + (feed d m xs).2 := by
  obtain ⟨-, -, -, ⟨heq, -⟩ | ⟨hle, -, -⟩⟩ := feed_spec d xs m h <;> omega

/-- A symbol that breaks the match is told from the counters. -/
theorem feed_ne_of_mismatch {d : List α} {m : ℕ} (h : m < d.length) {a : α}
    (ha : d[m]? ≠ some a) (as : List α) :
    (feed d m (a :: as)).1 ≠ m + (feed d m (a :: as)).2 := by
  have hle := feed_fst_le (advance_le h a) as
  rw [feed_cons h]
  by_cases h0 : d[0]? = some a
  · have hm : m ≠ 0 := fun hm => ha (hm ▸ h0)
    rw [advance_of_head ha h0] at hle ⊢
    simp only
    omega
  · rw [advance_of_ne ha h0] at hle ⊢
    simp only
    omega

/-- A candidate that lies in the scanned text is the end of that text. -/
theorem drop_eq_take {d xs : List α} {m : ℕ} (h : m ≤ d.length)
    (hopen : (feed d m xs).1 < d.length) (hfit : (feed d m xs).1 ≤ xs.length) :
    xs.drop (xs.length - (feed d m xs).1) = d.take (feed d m xs).1 := by
  obtain ⟨-, -, hall, ⟨heq, hheld⟩ | ⟨-, -, hsplit⟩⟩ := feed_spec d xs m h
  · have hlen := hall hopen
    obtain rfl : m = 0 := by omega
    rw [hlen, List.take_length, List.take_zero, List.nil_append] at hheld
    rw [← hheld, show xs.length - (feed d 0 xs).1 = 0 by omega, List.drop_zero]
  · have hlen := hall hopen
    rw [hlen, List.take_length] at hsplit
    calc xs.drop (xs.length - (feed d m xs).1)
        = (xs.take (xs.length - (feed d m xs).1) ++ d.take (feed d m xs).1).drop
            (xs.length - (feed d m xs).1) := by rw [← hsplit]
      _ = d.take (feed d m xs).1 :=
          List.drop_left' (List.length_take_of_le (Nat.sub_le _ _))

/-- A complete match is the end of the scanned text. -/
theorem take_of_found {d xs : List α} (h : (feed d 0 xs).1 = d.length) :
    xs.take (feed d 0 xs).2 = xs.take ((feed d 0 xs).2 - d.length) ++ d := by
  obtain ⟨-, -, -, ⟨heq, hheld⟩ | ⟨-, -, hsplit⟩⟩ := feed_spec d xs 0 (Nat.zero_le _)
  · rw [h, List.take_zero, List.nil_append, List.take_length] at hheld
    rw [hheld, show (feed d 0 xs).2 - d.length = 0 by omega, List.take_zero, List.nil_append]
  · rw [h, List.take_length] at hsplit
    exact hsplit

/-- A scan neither loses nor repeats a symbol. -/
theorem releases_append (d : List α) : ∀ (xs : List α) (m : ℕ), m ≤ d.length →
    releases d m xs ++ d.take (feed d m xs).1 = d.take m ++ xs.take (feed d m xs).2 := by
  intro xs
  induction xs with
  | nil => simp [releases]
  | cons a as ih =>
      intro m hm
      by_cases hlt : m < d.length
      · rw [feed_cons hlt, releases, if_pos hlt, List.append_assoc, ih _ (advance_le hlt a),
          ← List.append_assoc, release_append hlt, List.take_succ_cons]
        simp
      · rw [feed_of_length_le (by omega), releases, if_neg hlt]
        simp

/-- The text a scan passed over: nothing while every symbol continued the match, and
otherwise the match held before and all that was scanned up to the match held now. -/
theorem releases_eq {d xs : List α} {m : ℕ} (h : m ≤ d.length) :
    releases d m xs
      = if (feed d m xs).1 = m + (feed d m xs).2 then []
        else d.take m ++ xs.take ((feed d m xs).2 - (feed d m xs).1) := by
  have hconserve := releases_append d xs m h
  obtain ⟨hle, hn, -, ⟨heq, hheld⟩ | ⟨-, hne, hsplit⟩⟩ := feed_spec d xs m h
  · rw [if_pos heq]
    rw [hheld] at hconserve
    exact List.append_left_eq_self.mp hconserve
  · rw [if_neg hne]
    rw [hsplit, ← List.append_assoc] at hconserve
    exact List.append_cancel_right hconserve

/-- A scan that used up its input continues on what follows it. -/
theorem feed_append {d : List α} : ∀ {xs : List α} {m : ℕ} (ys : List α),
    (feed d m xs).1 < d.length → m < d.length →
      feed d m (xs ++ ys)
        = ((feed d (feed d m xs).1 ys).1, (feed d (feed d m xs).1 ys).2 + xs.length)
  | [], m, ys, _, _ => by simp
  | a :: as, m, ys, h, hm => by
      rw [feed_cons hm] at h
      have hadv : advance d m a < d.length := by
        by_contra hge
        rw [feed_of_length_le (by omega)] at h
        exact hge h
      rw [List.cons_append, feed_cons hm, feed_cons hm, feed_append ys h hadv, List.length_cons]
      simp only [Nat.add_assoc]

/-- A scan that completed the delimiter does not look at what follows. -/
theorem feed_append_of_found {d : List α} : ∀ {xs : List α} {m : ℕ} (ys : List α),
    (feed d m xs).1 = d.length → m ≤ d.length → feed d m (xs ++ ys) = feed d m xs
  | [], m, ys, h, _ => by
      obtain rfl : m = d.length := h
      rw [List.nil_append, feed_of_length_le (Nat.le_refl _), feed_nil]
  | a :: as, m, ys, h, hm => by
      rcases Nat.lt_or_eq_of_le hm with hlt | rfl
      · rw [feed_cons hlt] at h
        rw [List.cons_append, feed_cons hlt, feed_cons hlt,
          feed_append_of_found ys h (advance_le hlt a)]
      · rw [feed_of_length_le (Nat.le_refl _), feed_of_length_le (Nat.le_refl _)]

/-- Where the delimiter is found at the end of the input, it is not found in a front part,
and the scan of the front part is continued on the rest. -/
theorem feed_of_append {d xs ys : List α} {m : ℕ} (hm : m < d.length) (hys : ys ≠ [])
    (h : ∀ rest, feed d m (xs ++ ys ++ rest) = (d.length, (xs ++ ys).length)) :
    (feed d m xs).1 < d.length ∧
      ∀ rest, feed d (feed d m xs).1 (ys ++ rest) = (d.length, ys.length) := by
  have hpos := List.length_pos_iff.mpr hys
  have hopen : (feed d m xs).1 < d.length := by
    obtain ⟨hle, hscanned, -⟩ := feed_spec d xs m hm.le
    refine Nat.lt_of_le_of_ne hle fun hfound => ?_
    have hlen := congrArg Prod.snd (h [])
    rw [List.append_nil, feed_append_of_found ys hfound hm.le, List.length_append] at hlen
    simp only at hlen
    omega
  refine ⟨hopen, fun rest => ?_⟩
  have hall := h rest
  rw [List.append_assoc, feed_append _ hopen hm, List.length_append] at hall
  obtain ⟨hfst, hsnd⟩ := Prod.mk.inj hall
  exact Prod.ext hfst (by simp only; omega)

/-- What completes the delimiter is found at once. -/
theorem feed_drop {d : List α} (rest : List α) : ∀ (k m : ℕ), m + k = d.length →
    feed d m (d.drop m ++ rest) = (d.length, k) := by
  intro k
  induction k with
  | zero =>
      intro m hm
      rw [feed_of_length_le (by omega)]
      exact Prod.ext (by simpa using hm) rfl
  | succ k ih =>
      intro m hm
      have hlt : m < d.length := by omega
      rw [List.drop_eq_getElem_cons hlt, List.cons_append, feed_cons hlt,
        advance_of_eq (List.getElem?_eq_getElem hlt), ih (m + 1) (by omega)]

/-- Symbols that neither continue nor start a match leave nothing held. -/
theorem feed_skip {d : List α} (hd : 0 < d.length) : ∀ {xs : List α} {m : ℕ}, xs ≠ [] →
    m < d.length → (∀ a ∈ xs, d[m]? ≠ some a ∧ d[0]? ≠ some a) →
      feed d m xs = (0, xs.length)
  | [], _, h, _, _ => absurd rfl h
  | [a], m, _, hm, h => by
      obtain ⟨h1, h2⟩ := h a (by simp)
      rw [feed_cons hm, advance_of_ne h1 h2]
      rfl
  | a :: b :: as, m, _, hm, h => by
      obtain ⟨h1, h2⟩ := h a (by simp)
      rw [feed_cons hm, advance_of_ne h1 h2,
        feed_skip hd (List.cons_ne_nil b as) hd fun c hc => ?_]
      · rfl
      · have h0 := (h c (List.mem_cons_of_mem a hc)).2
        exact ⟨h0, h0⟩

/-- Text that does not contain the front part `c :: core` of a delimiter keeps the counter
inside that part, provided `c` does not occur in `core`: what is held is always the end
of what was read. -/
theorem feed_lt_of_not_infix {c : α} {core tail : List α} :
    ∀ (xs pre : List α) (m : ℕ), m ≤ core.length →
      ((c :: core) ++ tail).take m <:+ pre → ¬ (c :: core) <:+: pre ++ xs →
      (feed ((c :: core) ++ tail) m xs).1 ≤ core.length := by
  intro xs
  induction xs with
  | nil => exact fun _ _ hm _ _ => hm
  | cons a as ih =>
      intro pre m hm hheld hnot
      set d := (c :: core) ++ tail with hd
      have hdlen : d.length = core.length + 1 + tail.length := by
          simp only [hd, List.length_append, List.length_cons]
      have hlt : m < d.length := by omega
      have hsplit : pre ++ a :: as = (pre ++ [a]) ++ as := by simp
      rw [feed_cons hlt]
      by_cases hma : d[m]? = some a
      · have hheld' : d.take (m + 1) <:+ pre ++ [a] := by
          rw [take_succ_of_getElem? hma]
          obtain ⟨front, hfront⟩ := hheld
          exact ⟨front, by rw [← hfront, List.append_assoc]⟩
        rw [advance_of_eq hma]
        refine ih (pre ++ [a]) (m + 1) ?_ hheld' (hsplit ▸ hnot)
        -- holding all of `c :: core` would put it into the text
        by_contra hge
        have htake : d.take (m + 1) = c :: core := by
          rw [show m + 1 = (c :: core).length by simp; omega, hd, List.take_left]
        rw [htake] at hheld'
        exact hnot (hsplit ▸ hheld'.isInfix.trans (List.prefix_append _ _).isInfix)
      · by_cases h0a : d[0]? = some a
        · rw [advance_of_head hma h0a]
          have h0c : c = a := by simpa [hd] using h0a
          refine ih (pre ++ [a]) 1 ?_ ?_ (hsplit ▸ hnot)
          · by_contra hge
            have hnil : core = [] := List.length_eq_zero_iff.mp (by omega)
            refine hnot ⟨pre, as, ?_⟩
            rw [hnil, h0c]
            simp
          · rw [take_succ_of_getElem? h0a]
            exact ⟨pre, rfl⟩
        · rw [advance_of_ne hma h0a]
          exact ih (pre ++ [a]) 0 (Nat.zero_le _) (List.nil_suffix) (hsplit ▸ hnot)

/-- **The first occurrence is found.** If `c` does not occur in `core` and the text does
not contain `c :: core`, a delimiter that starts with `c :: core` is found exactly where
it follows the text. -/
theorem feed_first {c : α} {core tail : List α} (hc : c ∉ core) {text : List α}
    (htext : ¬ (c :: core) <:+: text) (rest : List α) :
    feed ((c :: core) ++ tail) 0 (text ++ ((c :: core) ++ tail) ++ rest)
      = (((c :: core) ++ tail).length, text.length + ((c :: core) ++ tail).length) := by
  have hm : (feed ((c :: core) ++ tail) 0 text).1 ≤ core.length :=
    feed_lt_of_not_infix text [] 0 (Nat.zero_le _) List.nil_suffix htext
  set d := (c :: core) ++ tail with hd
  have hdlen : d.length = core.length + 1 + tail.length := by
          simp only [hd, List.length_append, List.length_cons]
  set m := (feed d 0 text).1 with hmdef
  have hlast : feed d m (d ++ rest) = (d.length, d.length) := by
    have hadv : advance d m c = 1 := by
      have h0 : d[0]? = some c := by simp [hd]
      by_cases h : d[m]? = some c
      · have hm0 : m = 0 := by
          by_contra hne
          obtain ⟨k, hk⟩ : ∃ k, m = k + 1 := ⟨m - 1, by omega⟩
          rw [hk, hd, List.cons_append, List.getElem?_cons_succ,
            List.getElem?_append_left (by omega)] at h
          exact hc (List.mem_of_getElem? h)
        rw [advance_of_eq h, hm0]
      · exact advance_of_head h h0
    have hdrop : feed d 1 (d.drop 1 ++ rest) = (d.length, core.length + tail.length) :=
      feed_drop rest _ 1 (by omega)
    have hcons : d ++ rest = c :: (d.drop 1 ++ rest) := by simp [hd]
    rw [hcons, feed_cons (by omega), hadv, hdrop]
    exact Prod.ext rfl (by simp only; omega)
  rw [List.append_assoc, feed_append (d ++ rest) (by omega) (by omega), ← hmdef, hlast]
  exact Prod.ext rfl (by simp only; omega)

end Matcher
