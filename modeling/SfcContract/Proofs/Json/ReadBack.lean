import SfcContract.Json.Basic
import SfcContract.Json.Reader
import SfcContract.Proofs.Text.Progress

/-!
# Written values are read back

A reader that meets a written value reads it and stops right after it. What follows matters for numbers
alone, and in a written text a number is followed by a comma, a line break or nothing. Values inside
other values are written deeper, so that everything is said of all levels at once.
-/

namespace SfcContract.Json

variable {α : Type} {c : Char} {t gap rest : Text}

theorem stringRest_length_append (strict : Bool) (e t : Text) :
    stringRest strict e.length (e ++ t) = stringRest strict 0 t := by
  induction e with
  | nil => rfl
  | cons c e ih => exact ih

theorem hexQuad_of_lt {n : Nat} (hn : n < 0x20) (t : Text) :
    hexQuad ('0' :: '0' :: hexDigit (n / 16) :: hexDigit (n % 16) :: t) = .ok n := by
  have hzero : hexValue? '0' = some 0 := by decide
  have hdigits : ∀ n < 0x20, hexValue? (hexDigit (n / 16)) = some (n / 16) ∧
      hexValue? (hexDigit (n % 16)) = some (n % 16) := by decide
  obtain ⟨hhigh, hlow⟩ := hdigits n hn
  have hvalue : ((0 * 16 + 0) * 16 + n / 16) * 16 + n % 16 = n := by omega
  simp only [hexQuad, hzero, hhigh, hlow, hvalue]

/-- A character is written as itself or as an escape that stands for it. -/
theorem escapeChar_cases (c : Char) :
    (escapeChar c = [c] ∧ c ≠ '\x22' ∧ c ≠ '\\' ∧ ¬ c.toNat < 0x20) ∨
      ∃ e, escapeChar c = '\\' :: e ∧ ∀ t, escape true (e ++ t) = .ok (c, e.length) := by
  rw [escapeChar]
  split_ifs with h₁ h₂ h₃ h₄ h₅ h₆ h₇ h₈
  · exact .inr ⟨['\x22'], rfl, fun t => by subst h₁; rfl⟩
  · exact .inr ⟨['\\'], rfl, fun t => by subst h₂; rfl⟩
  · exact .inr ⟨['b'], rfl, fun t => by subst h₃; rfl⟩
  · exact .inr ⟨['f'], rfl, fun t => by subst h₄; rfl⟩
  · exact .inr ⟨['n'], rfl, fun t => by subst h₅; rfl⟩
  · exact .inr ⟨['r'], rfl, fun t => by subst h₆; rfl⟩
  · exact .inr ⟨['t'], rfl, fun t => by subst h₇; rfl⟩
  · refine .inr ⟨_, rfl, fun t => ?_⟩
    have hquad := hexQuad_of_lt h₈ t
    have hlow : isLowSurrogate c.toNat = false := by
      simp only [isLowSurrogate, Bool.and_eq_false_imp, decide_eq_true_eq, decide_eq_false_iff_not]
      omega
    have hhigh : isHighSurrogate c.toNat = false := by
      simp only [isHighSurrogate, Bool.and_eq_false_imp, decide_eq_true_eq, decide_eq_false_iff_not]
      omega
    simp [escape, hquad, bind, Except.bind, pure, Except.pure, hlow, hhigh, Char.ofNat_toNat]
  · exact .inl ⟨rfl, h₁, h₂, h₈⟩

theorem stringRest_substitute (t rest : Text) :
    stringRest true 0 (Text.substitute escapeChar t ++ '\x22' :: rest) = .ok (t, rest) := by
  induction t with
  | nil => rfl
  | cons c t ih =>
    have hcons : Text.substitute escapeChar (c :: t) ++ '\x22' :: rest =
        escapeChar c ++ (Text.substitute escapeChar t ++ '\x22' :: rest) := by
      simp [Text.substitute]
    rw [hcons]
    rcases escapeChar_cases c with ⟨he, hquote, hslash, hcontrol⟩ | ⟨e, he, hescape⟩
    · simp [he, stringRest, hquote, hslash, hcontrol, ih, bind, Except.bind, pure, Except.pure]
    · rw [he, List.cons_append, stringRest, if_neg (by decide), if_pos rfl, hescape]
      simp only [bind, Except.bind, stringRest_length_append, ih]
      rfl

theorem writeAt_string_append (level : Nat) (t rest : Text) : writeAt level (.string t) ++ rest =
    '\x22' :: (Text.substitute escapeChar t ++ '\x22' :: rest) := by
  simp [writeAt, writeString]

/-- A text with which no number goes on. -/
def EndsNumber (rest : Text) : Prop :=
  ∀ c ∈ rest.head?, c.isDigit = false ∧ c ≠ '.' ∧ c ≠ 'e' ∧ c ≠ 'E'

theorem endsNumber_cons (hc : c.isDigit = false ∧ c ≠ '.' ∧ c ≠ 'e' ∧ c ≠ 'E') (t : Text) :
    EndsNumber (c :: t) := by
  simpa [EndsNumber] using hc

theorem endsNumber_nil : EndsNumber [] := by simp [EndsNumber]

/-- Digits of which only a single zero may lead. -/
structure IsInteger (digits : Text) : Prop where
  isDigit : ∀ c ∈ digits, c.isDigit = true
  ne_nil : digits ≠ []
  lead : digits.head? = some '0' → digits.length = 1

theorem exponent_of_endsNumber (hr : EndsNumber rest) : exponent rest = .ok (none, rest) := by
  cases rest with
  | nil => rfl
  | cons c rest =>
    obtain ⟨-, -, hlower, hupper⟩ := hr c rfl
    simp only [exponent, hlower, hupper, or_self, if_false]

theorem fraction_of_endsNumber (hr : EndsNumber rest) : fraction rest = .ok (none, rest) := by
  cases rest with
  | nil => rfl
  | cons c rest =>
    have hc := (hr c rfl).2.1
    simp [fraction, hc]

theorem decimals_append {digits u : Text} (hd : IsInteger digits) (hu : ∀ c ∈ u.head?, c.isDigit = false)
    {places : Option Text} (hf : fraction u = .ok (places, rest)) (hr : EndsNumber rest) :
    decimals (digits ++ u) = .ok (⟨digits, places, none⟩, rest) := by
  have htake := Text.takeWhile_append_of_head hd.isDigit hu
  have hdrop := Text.dropWhile_append_of_head hd.isDigit hu
  have hempty : ¬ digits.isEmpty = true := by simpa using hd.ne_nil
  have hlead : ¬ (digits.head? = some '0' ∧ digits.length ≠ 1) := fun h => h.2 (hd.lead h.1)
  simp only [decimals, htake, hdrop, if_neg hempty, if_neg hlead, hf, bind, Except.bind,
    exponent_of_endsNumber hr]
  rfl

theorem fraction_cons_append {places : Text} (hp : ∀ c ∈ places, c.isDigit = true) (hne : places ≠ [])
    (hr : EndsNumber rest) : fraction ('.' :: (places ++ rest)) = .ok (some places, rest) := by
  have hstop : ∀ c ∈ rest.head?, c.isDigit = false := fun c hc => (hr c hc).1
  have htake := Text.takeWhile_append_of_head hp hstop
  have hdrop := Text.dropWhile_append_of_head hp hstop
  have hempty : ¬ places.isEmpty = true := by simpa using hne
  simp only [fraction, htake, hdrop, if_neg hempty]

theorem le_ofDigitChars (t : Text) (s : Nat) : s ≤ Nat.ofDigitChars 10 t s := by
  induction t generalizing s with
  | nil => exact Nat.le_refl s
  | cons c t ih =>
    rw [Nat.ofDigitChars_cons]
    exact Nat.le_trans (by omega) (ih _)

/-- A significand that fits 64 bits takes all its digits. -/
theorem absorb_eq (t : Text) (s : Nat) (h : Nat.ofDigitChars 10 t s < Nat.pow 2 64) :
    absorb s t = (Nat.ofDigitChars 10 t s, t.length) := by
  induction t generalizing s with
  | nil => rfl
  | cons c t ih =>
    have hstep : s * 10 + digitValue c = 10 * s + (c.toNat - '0'.toNat) := by
      rw [digitValue, Nat.mul_comm]
    rw [Nat.ofDigitChars_cons] at h ⊢
    have hfits : s * 10 + digitValue c < Nat.pow 2 64 := by
      rw [hstep]
      exact Nat.lt_of_le_of_lt (le_ofDigitChars t _) h
    rw [absorb, if_pos hfits, hstep, ih _ h]
    rfl

/-- Only zero is written with a zero in front. -/
theorem head?_toDigits {n : Nat} (hn : 0 < n) : (Nat.toDigits 10 n).head? ≠ some '0' := by
  induction n using Nat.strongRecOn with
  | ind n ih =>
    by_cases hlt : n < 10
    · rw [Nat.toDigits_of_lt_base hlt]
      have hdigit : ∀ n < 10, 0 < n → [n.digitChar].head? ≠ some '0' := by decide
      exact hdigit n hlt hn
    · have hle : 10 ≤ n := by omega
      have hrest := ih (n / 10) (by omega) (by omega)
      obtain ⟨c, r, hc⟩ : ∃ c r, Nat.toDigits 10 (n / 10) = c :: r :=
        List.exists_cons_of_ne_nil Nat.toDigits_ne_nil
      rw [Nat.toDigits_of_base_le (by decide) hle, hc]
      rwa [hc] at hrest

theorem isInteger_ofNat (n : Nat) : IsInteger (Text.ofNat n) where
  isDigit c hc := Nat.isDigit_of_mem_toDigits (by decide) (by decide) hc
  ne_nil := Nat.toDigits_ne_nil
  lead h := by
    rcases Nat.eq_zero_or_pos n with rfl | hpos
    · rfl
    · exact absurd h (head?_toDigits hpos)

theorem numeral_ofNat {n : Nat} (hn : n < Nat.pow 2 64) (hr : EndsNumber rest) :
    numeral false (Text.ofNat n ++ rest) = .ok (.integer false n, rest) := by
  have hvalue : Nat.ofDigitChars 10 (Text.ofNat n) 0 = n := Nat.ofDigitChars_ten_toDigits
  have habsorb : absorb 0 (Text.ofNat n) = (n, (Text.ofNat n).length) := by
    rw [absorb_eq _ 0 (by rwa [hvalue]), hvalue]
  have hdecimals := decimals_append (isInteger_ofNat n) (fun c hc => (hr c hc).1)
    (fraction_of_endsNumber hr) hr
  rw [numeral, hdecimals]
  simp [bind, Except.bind, pure, Except.pure, Decimals.value?, habsorb]

instance (digits : Text) : Decidable (IsInteger digits) :=
  decidable_of_iff ((∀ c ∈ digits, c.isDigit = true) ∧ digits ≠ [] ∧
      (digits.head? = some '0' → digits.length = 1))
    ⟨fun h => ⟨h.1, h.2.1, h.2.2⟩, fun h => ⟨h.isDigit, h.ne_nil, h.lead⟩⟩

/-- A number of hundredths up to one is written with places that stand for it. -/
theorem write_ofHundredths {k : Nat} (hk : k ≤ 100) : ∃ digits places,
    numberLayout.write (Binary64.ofHundredths k) = digits ++ '.' :: places ∧ IsInteger digits ∧
      (∀ c ∈ places, c.isDigit = true) ∧ places ≠ [] ∧
      (⟨digits, some places, none⟩ : Decimals).value? false = some (.binary (Binary64.ofHundredths k)) := by
  -- There are few such numbers, and each is cut at its point.
  have hall : ∀ k < 101,
      let w := numberLayout.write (Binary64.ofHundredths k)
      let digits := w.takeWhile Char.isDigit
      let places := (w.dropWhile Char.isDigit).drop 1
      w = digits ++ '.' :: places ∧ IsInteger digits ∧ (∀ c ∈ places, c.isDigit = true) ∧ places ≠ [] ∧
        (⟨digits, some places, none⟩ : Decimals).value? false =
          some (.binary (Binary64.ofHundredths k)) := by
    decide +kernel
  exact ⟨_, _, hall k (by omega)⟩

theorem numeral_ofHundredths {k : Nat} (hk : k ≤ 100) (hr : EndsNumber rest) :
    numeral false (numberLayout.write (Binary64.ofHundredths k) ++ rest) =
      .ok (.binary (Binary64.ofHundredths k), rest) := by
  obtain ⟨digits, places, hw, hd, hp, hne, hvalue⟩ := write_ofHundredths hk
  have hpoint : ∀ c ∈ ('.' :: (places ++ rest)).head?, c.isDigit = false := by
    intro c hc
    obtain rfl : '.' = c := by simpa using hc
    decide
  have hdecimals := decimals_append hd hpoint (fraction_cons_append hp hne hr) hr
  rw [numeral, hw, List.append_assoc, List.cons_append, hdecimals]
  simp only [bind, Except.bind, hvalue]
  rfl

def IsSpaces (gap : Text) : Prop := ∀ c ∈ gap, isSpace c = true

theorem isSpaces_nil : IsSpaces [] := fun _ h => absurd h List.not_mem_nil

theorem isSpaces_newLine (level : Nat) : IsSpaces (newLine level) := by
  intro c hc
  rcases List.mem_cons.mp hc with rfl | hc
  · decide
  · obtain rfl := List.eq_of_mem_replicate hc
    decide

theorem skipSpace_append (hg : IsSpaces gap) (hc : isSpace c = false) (t : Text) :
    skipSpace (gap ++ c :: t) = c :: t := by
  rw [skipSpace, List.dropWhile_append_of_pos hg, List.dropWhile_cons_of_neg (by simp [hc])]

theorem skipSpace_cons (hc : isSpace c = false) (t : Text) : skipSpace (c :: t) = c :: t :=
  skipSpace_append isSpaces_nil hc t

theorem isSpace_of_isDigit (hc : c.isDigit = true) : isSpace c = false := by
  cases hs : isSpace c with
  | false => rfl
  | true =>
    simp only [isSpace, Bool.or_eq_true, beq_iff_eq] at hs
    rcases hs with ((rfl | rfl) | rfl) | rfl <;> exact absurd hc (by decide)

theorem endsNumber_spaces (hg : IsSpaces gap) (hr : EndsNumber rest) : EndsNumber (gap ++ rest) := by
  cases gap with
  | nil => exact hr
  | cons d gap =>
    have hd := hg d List.mem_cons_self
    simp only [isSpace, Bool.or_eq_true, beq_iff_eq] at hd
    rcases hd with ((rfl | rfl) | rfl) | rfl <;> exact endsNumber_cons (by decide) _

theorem number_append (hg : IsSpaces gap) (hc : c.isDigit = true) (t : Text) :
    Reader.number (gap ++ c :: t) = numeral false (c :: t) := by
  have hsign : c ≠ '-' := by
    rintro rfl
    exact absurd hc (by decide)
  rw [Reader.number, skipSpace_append hg (isSpace_of_isDigit hc)]
  simp [hc]

theorem first_of_isInteger {digits : Text} (hd : IsInteger digits) (u : Text) :
    ∃ c v, digits ++ u = c :: v ∧ c.isDigit = true := by
  obtain ⟨c, v, rfl⟩ := List.exists_cons_of_ne_nil hd.ne_nil
  exact ⟨c, v ++ u, rfl, hd.isDigit c List.mem_cons_self⟩

theorem ne_bracket_of_isDigit (hc : c.isDigit = true) : c ≠ ']' := by
  rintro rfl
  exact absurd hc (by decide)

/-- Wherever a value is written, the reader reads it and leaves what follows. -/
structure Reads (r : Reader α) (j : Json) (a : α) : Prop where
  first : ∀ level, ∃ c u, writeAt level j = c :: u ∧ isSpace c = false ∧ c ≠ ']'
  read : ∀ level gap rest, IsSpaces gap → EndsNumber rest →
    r (gap ++ (writeAt level j ++ rest)) = .ok (a, rest)

namespace Reads

theorem string (t : Text) : Reads Reader.string (.string t) t where
  first level := ⟨'\x22', _, by rw [writeAt, writeString]; rfl, by decide, by decide⟩
  read level gap rest hg _ := by
    rw [writeAt_string_append, Reader.string, skipSpace_append hg (by decide)]
    simp only [if_true, stringRest_substitute]

/-- A value that is not written like `null` is read where it may be left open. -/
theorem nullable {r : Reader α} {j : Json} {a : α} (h : Reads r j a)
    (hn : ∀ level, (writeAt level j).head? ≠ some 'n') : Reads (Reader.nullable r) j (some a) where
  first := h.first
  read level gap rest hg hr := by
    obtain ⟨c, u, hw, hc, -⟩ := h.first level
    have hne : c ≠ 'n' := by
      rintro rfl
      exact hn level (by rw [hw]; rfl)
    have hread := h.read level [] rest isSpaces_nil hr
    rw [hw, List.nil_append, List.cons_append] at hread
    rw [hw, List.cons_append, Reader.nullable, skipSpace_append hg hc]
    split
    · next heq => exact absurd (List.cons.inj heq).1 hne
    · rw [hread]
      rfl

theorem nullable_string (t : Text) : Reads (Reader.nullable Reader.string) (.string t) (some t) := by
  refine (string t).nullable fun level => ?_
  rw [writeAt, writeString]
  exact of_decide_eq_true rfl

theorem bool (b : Bool) : Reads Reader.bool (.bool b) b where
  first level := by
    cases b
    · exact ⟨'f', _, by rw [writeAt]; rfl, by decide, by decide⟩
    · exact ⟨'t', _, by rw [writeAt]; rfl, by decide, by decide⟩
  read level gap rest hg _ := by
    cases b with
    | false =>
      rw [writeAt]
      change Reader.bool (gap ++ 'f' :: ("alse".toList ++ rest)) = _
      rw [Reader.bool, skipSpace_append hg (by decide)]
      rfl
    | true =>
      rw [writeAt]
      change Reader.bool (gap ++ 't' :: ("rue".toList ++ rest)) = _
      rw [Reader.bool, skipSpace_append hg (by decide)]
      rfl

theorem nat {n bound : Nat} (hn : n < bound) (hb : bound ≤ Nat.pow 2 64) :
    Reads (Reader.nat bound) (.nat n) n where
  first level := by
    obtain ⟨c, u, hw, hc⟩ := first_of_isInteger (isInteger_ofNat n) []
    rw [List.append_nil] at hw
    exact ⟨c, u, by rw [writeAt, hw], isSpace_of_isDigit hc, ne_bracket_of_isDigit hc⟩
  read level gap rest hg hr := by
    obtain ⟨c, u, hw, hc⟩ := first_of_isInteger (isInteger_ofNat n) rest
    have hread := number_append hg hc u
    rw [← hw, numeral_ofNat (Nat.lt_of_lt_of_le hn hb) hr] at hread
    rw [writeAt, Reader.nat, hread]
    simp [bind, Except.bind, pure, Except.pure, hn]

theorem nullable_nat {n bound : Nat} (hn : n < bound) (hb : bound ≤ Nat.pow 2 64) :
    Reads (Reader.nullable (Reader.nat bound)) (.nat n) (some n) := by
  refine (nat hn hb).nullable fun level => ?_
  obtain ⟨c, u, hw, hc⟩ := first_of_isInteger (isInteger_ofNat n) []
  rw [writeAt, ← List.append_nil (Text.ofNat n), hw]
  rintro ⟨rfl⟩
  exact absurd hc (by decide)

theorem binary64 {k : Nat} (hk : k ≤ 100) :
    Reads Reader.binary64 (.number (Binary64.ofHundredths k)) (Binary64.ofHundredths k) := by
  obtain ⟨digits, places, hwrite, hd, -⟩ := write_ofHundredths hk
  constructor
  · intro level
    obtain ⟨c, u, hw, hc⟩ := first_of_isInteger hd ('.' :: places)
    exact ⟨c, u, by rw [writeAt, hwrite, hw], isSpace_of_isDigit hc, ne_bracket_of_isDigit hc⟩
  · intro level gap rest hg hr
    obtain ⟨c, u, hw, hc⟩ := first_of_isInteger hd ('.' :: places ++ rest)
    have hnumeral := numeral_ofHundredths hk hr
    have hread := number_append hg hc u
    rw [hwrite, List.append_assoc] at hnumeral
    rw [← hw, hnumeral] at hread
    rw [writeAt, hwrite, List.append_assoc, Reader.binary64, hread]
    rfl

theorem choice {label : α → Text} {options : List α} {a : α}
    (h : options.find? (label · == label a) = some a) :
    Reads (Reader.choice label options) (.string (label a)) a where
  first := (string (label a)).first
  read level gap rest hg _ := by
    have hquote : isSpace '\x22' = false := by decide
    rw [writeAt_string_append, Reader.choice]
    simp [skipSpace_append hg hquote, stringRest_substitute, bind, Except.bind, pure, Except.pure, h]

end Reads

theorem endArray_append (hg : IsSpaces gap) (rest : Text) : Reader.endArray (gap ++ ']' :: rest) = .ok rest := by
  rw [Reader.endArray, skipSpace_append hg (by decide)]
  rfl

theorem nextItem_end (hg : IsSpaces gap) (first : Bool) (rest : Text) :
    Reader.nextItem first (gap ++ ']' :: rest) = .ok none := by
  rw [Reader.nextItem, skipSpace_append hg (by decide)]
  rfl

/-- What follows an item of an array ends a number. -/
theorem endsNumber_writeItems (level : Nat) (items : List Json) (hr : EndsNumber rest) :
    EndsNumber (writeItems level items ++ rest) := by
  cases items with
  | nil =>
    rw [writeItems]
    exact hr
  | cons item items =>
    rw [writeItems]
    exact endsNumber_cons (by decide) _

theorem length_le_writeItems (level : Nat) (items : List Json) :
    items.length ≤ (writeItems level items).length := by
  induction items with
  | nil => simp
  | cons item items ih =>
    rw [writeItems]
    simp only [List.length_append, List.length_cons]
    omega

theorem Reads.nextItem_value {r : Reader α} {j : Json} {a : α} (h : Reads r j a) (level : Nat) (hg : IsSpaces gap)
    (t : Text) :
    Reader.nextItem true (gap ++ (writeAt level j ++ t)) = .ok (some (writeAt level j ++ t)) ∧
      Reader.nextItem false (',' :: (gap ++ (writeAt level j ++ t))) = .ok (some (writeAt level j ++ t)) := by
  obtain ⟨c, u, hw, hc, hb⟩ := h.first level
  have hcomma : isSpace ',' = false := by decide
  rw [hw, List.cons_append]
  constructor
  · simp [Reader.nextItem, skipSpace_append hg hc]
  · simp [Reader.nextItem, skipSpace_cons hcomma, skipSpace_append hg hc, hb]

theorem Reads.read_here {r : Reader α} {j : Json} {a : α} (h : Reads r j a) (level : Nat) (hr : EndsNumber rest) :
    r (writeAt level j ++ rest) = .ok (a, rest) :=
  h.read level [] rest isSpaces_nil hr

/-- The items after the first, each after a comma, up to the end of the array. -/
theorem items_writeItems {r : Reader α} {f : α → Json} {as : List α} (h : ∀ a ∈ as, Reads r (f a) a)
    (level : Nat) (hg : IsSpaces gap) {fuel : Nat} (hf : as.length < fuel) (rest : Text) :
    Reader.items r fuel false (writeItems level (as.map f) ++ (gap ++ ']' :: rest)) =
      .ok (as, gap ++ ']' :: rest) := by
  have hend : EndsNumber (gap ++ ']' :: rest) := endsNumber_spaces hg (endsNumber_cons (by decide) rest)
  induction as generalizing fuel with
  | nil =>
    obtain ⟨fuel, rfl⟩ := Nat.exists_eq_succ_of_ne_zero (Nat.ne_of_gt hf)
    rw [List.map_nil, writeItems, List.nil_append, Reader.items, nextItem_end hg]
    rfl
  | cons a as ih =>
    obtain ⟨fuel, rfl⟩ := Nat.exists_eq_succ_of_ne_zero (Nat.ne_of_gt (Nat.zero_lt_of_lt hf))
    have ha := h a List.mem_cons_self
    have hrest := ih (fun b hb => h b (List.mem_cons_of_mem _ hb)) (Nat.lt_of_succ_lt_succ hf)
    have hread := ha.read_here level (endsNumber_writeItems level (as.map f) hend)
    have hwrite : writeItems level ((a :: as).map f) ++ (gap ++ ']' :: rest) = ',' :: (newLine level ++
        (writeAt level (f a) ++ (writeItems level (as.map f) ++ (gap ++ ']' :: rest)))) := by
      simp [writeItems]
    rw [hwrite, Reader.items, (ha.nextItem_value level (isSpaces_newLine level) _).2]
    simp only [bind, Except.bind, hread, hrest]
    rfl

theorem list_of_items {r : Reader α} {as : List α} {inner : Text} (hg : IsSpaces gap) (hi : IsSpaces inner)
    (h : Reader.items r (t.length + 1) true t = .ok (as, inner ++ ']' :: rest)) :
    Reader.list r (gap ++ '[' :: t) = .ok (as, rest) := by
  rw [Reader.list, skipSpace_append hg (by decide)]
  simp only [bind, Except.bind, h, endArray_append hi]
  rfl

theorem Reads.list {r : Reader α} {f : α → Json} {as : List α} (h : ∀ a ∈ as, Reads r (f a) a) :
    Reads (Reader.list r) (.array (as.map f)) as where
  first level := by
    cases as with
    | nil => exact ⟨'[', _, by rw [List.map_nil, writeAt], by decide, by decide⟩
    | cons a as => exact ⟨'[', _, by rw [List.map_cons, writeAt]; rfl, by decide, by decide⟩
  read level gap rest hg _ := by
    cases as with
    | nil =>
      rw [List.map_nil, writeAt]
      refine list_of_items hg isSpaces_nil ?_
      change Reader.items r _ true ([] ++ ']' :: rest) = _
      rw [Reader.items, nextItem_end isSpaces_nil]
      rfl
    | cons a as =>
      have ha := h a List.mem_cons_self
      have hline := isSpaces_newLine level
      have hend : EndsNumber (newLine level ++ ']' :: rest) :=
        endsNumber_spaces hline (endsNumber_cons (by decide) rest)
      have hread := ha.read_here (level + 1) (endsNumber_writeItems (level + 1) (as.map f) hend)
      have hwrite : writeAt level (.array ((a :: as).map f)) ++ rest =
          '[' :: (newLine (level + 1) ++ (writeAt (level + 1) (f a) ++
            (writeItems (level + 1) (as.map f) ++ (newLine level ++ ']' :: rest)))) := by
        simp [writeAt]
      rw [hwrite]
      refine list_of_items hg hline ?_
      rw [Reader.items, (ha.nextItem_value (level + 1) (isSpaces_newLine (level + 1)) _).1]
      simp only [bind, Except.bind, hread]
      rw [items_writeItems (fun b hb => h b (List.mem_cons_of_mem _ hb)) (level + 1) hline]
      · rfl
      · have hlen := length_le_writeItems (level + 1) (as.map f)
        simp only [List.length_map] at hlen
        simp only [List.length_append, List.length_cons]
        omega

open Reader (Member)

/-- Members as they are written turn one draft into another: each names a field that is not set yet. -/
inductive ReadsMembers {σ : Type} (fields : List (Member σ)) : List (Text × Json) → σ → σ → Prop
  | nil {draft} : ReadsMembers fields [] draft draft
  | cons {key j members field set draft draft'} : fields.find? (·.key == key) = some field →
      field.isSet draft = false → Reads field.read j set → ReadsMembers fields members (set draft) draft' →
      ReadsMembers fields ((key, j) :: members) draft draft'

theorem Reads.of {σ : Type} {key : String} {r : Reader α} {isSet : σ → Bool} {set : α → σ → σ} {j : Json}
    {a : α} (h : Reads r j a) : Reads (Member.of key r isSet set).read j (set a) where
  first := h.first
  read level gap rest hg hr := by
    change (r _).map _ = _
    rw [h.read level gap rest hg hr]
    rfl

section Record

variable {σ : Type} {fields : List (Member σ)} {members : List (Text × Json)} {draft draft' : σ}

/-- A member up to what follows its value. -/
def writeMember (level : Nat) (key : Text) (j : Json) : Text :=
  writeString key ++ (':' :: ' ' :: writeAt level j)

theorem nextKey_writeMember (hg : IsSpaces gap) (level : Nat) (key : Text) (j : Json) (t : Text) :
    Reader.nextKey true (gap ++ (writeMember level key j ++ t)) = .ok (some (writeMember level key j ++ t)) ∧
      Reader.nextKey false (',' :: (gap ++ (writeMember level key j ++ t))) =
        .ok (some (writeMember level key j ++ t)) := by
  have hquote : isSpace '\x22' = false := by decide
  have hcomma : isSpace ',' = false := by decide
  have hwrite : writeMember level key j ++ t =
      '\x22' :: (Text.substitute escapeChar key ++ '\x22' :: ':' :: ' ' :: (writeAt level j ++ t)) := by
    simp [writeMember, writeString]
  rw [hwrite]
  constructor
  · simp [Reader.nextKey, skipSpace_append hg hquote]
  · simp [Reader.nextKey, skipSpace_cons hcomma, skipSpace_append hg hquote]

theorem members_writeMember {first : Bool} {key : Text} {field : Member σ} {set : σ → σ} {j : Json}
    {level fuel : Nat} (hkey : fields.find? (·.key == key) = some field) (hset : field.isSet draft = false)
    (hread : Reads field.read j set) (hr : EndsNumber rest)
    (hnext : Reader.nextKey first t = .ok (some (writeMember level key j ++ rest))) :
    Reader.members fields (fuel + 1) first draft t = Reader.members fields fuel false (set draft) rest := by
  have hspace : IsSpaces [' '] := by
    intro c hc
    obtain rfl := List.mem_singleton.mp hc
    decide
  have hdrop : (writeMember level key j ++ rest).drop 1 = Text.substitute escapeChar key ++ '\x22' :: ':' ::
      ([' '] ++ (writeAt level j ++ rest)) := by
    simp [writeMember, writeString]
  have hcolon (u : Text) : Reader.colon (':' :: u) = .ok u := rfl
  rw [Reader.members, hnext]
  simp only [bind, Except.bind, hdrop, stringRest_substitute, hkey, hset, hcolon,
    hread.read level [' '] rest hspace hr, Bool.false_eq_true, if_false]

theorem endsNumber_writeMembers (level : Nat) (members : List (Text × Json)) (hr : EndsNumber rest) :
    EndsNumber (writeMembers level members ++ rest) := by
  cases members with
  | nil =>
    rw [writeMembers]
    exact hr
  | cons member members =>
    rw [writeMembers]
    exact endsNumber_cons (by decide) _

theorem length_le_writeMembers (level : Nat) (members : List (Text × Json)) :
    members.length ≤ (writeMembers level members).length := by
  induction members with
  | nil => simp
  | cons member members ih =>
    rw [writeMembers]
    simp only [List.length_append, List.length_cons]
    omega

/-- The members after the first, each after a comma, up to the end of the object. -/
theorem members_writeMembers (h : ReadsMembers fields members draft draft') (level : Nat)
    (hg : IsSpaces gap) {fuel : Nat} (hf : members.length < fuel) (rest : Text) :
    Reader.members fields fuel false draft (writeMembers level members ++ (gap ++ '}' :: rest)) =
      .ok (draft', rest) := by
  have hend : EndsNumber (gap ++ '}' :: rest) :=
    endsNumber_spaces hg (endsNumber_cons (by decide) rest)
  induction h generalizing fuel with
  | nil =>
    obtain ⟨fuel, rfl⟩ := Nat.exists_eq_succ_of_ne_zero (Nat.ne_of_gt hf)
    have hbrace : isSpace '}' = false := by decide
    rw [writeMembers, List.nil_append, Reader.members, Reader.nextKey]
    simp [skipSpace_append hg hbrace, bind, Except.bind, pure, Except.pure]
  | @cons key j members field set draft draft' hkey hset hread _ ih =>
    obtain ⟨fuel, rfl⟩ := Nat.exists_eq_succ_of_ne_zero (Nat.ne_of_gt (Nat.zero_lt_of_lt hf))
    have hwrite : writeMembers level ((key, j) :: members) ++ (gap ++ '}' :: rest) = ',' :: (newLine level ++
        (writeMember level key j ++ (writeMembers level members ++ (gap ++ '}' :: rest)))) := by
      simp [writeMembers, writeMember]
    rw [hwrite, members_writeMember hkey hset hread (endsNumber_writeMembers level members hend)
      (nextKey_writeMember (isSpaces_newLine level) level key j _).2]
    exact ih (Nat.lt_of_succ_lt_succ hf)

theorem record_of_members {finish : σ → Option α} {a : α} (hg : IsSpaces gap)
    (h : Reader.members fields (t.length + 1) true draft t = .ok (draft', rest))
    (hfinish : finish draft' = some a) : Reader.record fields draft finish (gap ++ '{' :: t) = .ok (a, rest) := by
  have hbrace : isSpace '{' = false := by decide
  rw [Reader.record]
  simp [skipSpace_append hg hbrace, h, hfinish, bind, Except.bind, pure, Except.pure]

theorem Reads.record {finish : σ → Option α} {a : α} {key : Text} {j : Json}
    (h : ReadsMembers fields ((key, j) :: members) draft draft') (hfinish : finish draft' = some a) :
    Reads (Reader.record fields draft finish) (.object ((key, j) :: members)) a where
  first level := ⟨'{', _, by rw [writeAt]; rfl, by decide, by decide⟩
  read level gap rest hg _ := by
    have hline := isSpaces_newLine level
    have hend : EndsNumber (newLine level ++ '}' :: rest) :=
      endsNumber_spaces hline (endsNumber_cons (by decide) rest)
    have hwrite : writeAt level (.object ((key, j) :: members)) ++ rest = '{' :: (newLine (level + 1) ++
        (writeMember (level + 1) key j ++ (writeMembers (level + 1) members ++
          (newLine level ++ '}' :: rest)))) := by
      simp [writeAt, writeMember]
    rw [hwrite]
    refine record_of_members hg ?_ hfinish
    cases h with
    | cons hkey hset hread hmembers =>
      rw [members_writeMember hkey hset hread (endsNumber_writeMembers (level + 1) members hend)
        (nextKey_writeMember (isSpaces_newLine (level + 1)) (level + 1) key j _).1]
      refine members_writeMembers hmembers (level + 1) hline ?_ rest
      have hlen := length_le_writeMembers (level + 1) members
      simp only [List.length_append, List.length_cons]
      omega

end Record

/-- A whole text may end with space. -/
theorem whole_of_reads {r : Reader α} {j : Json} {a : α} (h : Reads r j a) (hg : IsSpaces gap) :
    Reader.whole r (j.write ++ gap) = .ok a := by
  have hend : EndsNumber gap := by
    simpa using endsNumber_spaces hg endsNumber_nil
  have hspace : skipSpace gap = [] := List.dropWhile_eq_nil_iff.mpr hg
  rw [Reader.whole, write, h.read_here 0 hend]
  simp [bind, Except.bind, hspace, pure, Except.pure]

end SfcContract.Json
