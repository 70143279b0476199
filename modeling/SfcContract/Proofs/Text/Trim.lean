import Mathlib.Data.List.TakeWhile
import SfcContract.Text.Basic

/-!
# Blanks around a text

Trimming takes the blanks from both ends and nothing else, so the trimmed text is a part of the text,
and blanks written around a text leave no trace in it.
-/

namespace SfcContract.Text

-- There are finitely many characters, but only those of the list are to be looked at.
instance (priority := high) decidableForallMem (t : Text) (p : Char → Prop) [DecidablePred p] :
    Decidable (∀ c ∈ t, p c) := List.decidableBAll p t

def IsBlanks (t : Text) : Prop := ∀ c ∈ t, isBlank c = true

instance (t : Text) : Decidable (IsBlanks t) := decidableForallMem t _

theorem isBlanks_nil : IsBlanks [] := by simp [IsBlanks]

theorem isBlanks_blank : IsBlanks " ".toList := by decide

theorem skipBlanks_isSuffix (t : Text) : skipBlanks t <:+ t := List.dropWhile_suffix _

theorem trimEnd_isPrefix (t : Text) : trimEnd t <+: t := by
  have h := skipBlanks_isSuffix t.reverse
  simpa [trimEnd] using List.reverse_prefix.mpr h

theorem trim_isInfix (t : Text) : trim t <:+: t :=
  (trimEnd_isPrefix _).isInfix.trans (skipBlanks_isSuffix t).isInfix

theorem skipBlanks_append {w : Text} (hw : IsBlanks w) (t : Text) : skipBlanks (w ++ t) = skipBlanks t :=
  List.dropWhile_append_of_pos hw

theorem skipBlanks_cons_of_blank {c : Char} (hc : isBlank c = true) (t : Text) :
    skipBlanks (c :: t) = skipBlanks t := List.dropWhile_cons_of_pos hc

theorem skipBlanks_cons_of_not {c : Char} (hc : isBlank c = false) (t : Text) :
    skipBlanks (c :: t) = c :: t := List.dropWhile_cons_of_neg (by simp [hc])

theorem skipBlanks_head {t r : Text} {c : Char} (h : skipBlanks t = c :: r) : isBlank c = false := by
  induction t with
  | nil => simp [skipBlanks] at h
  | cons d t ih =>
    cases hd : isBlank d with
    | true => exact ih ((skipBlanks_cons_of_blank hd t).symm.trans h)
    | false =>
      rw [skipBlanks_cons_of_not hd] at h
      cases h
      exact hd

theorem skipBlanks_eq_nil_iff {t : Text} : skipBlanks t = [] ↔ IsBlanks t := by
  simp [skipBlanks, IsBlanks, List.dropWhile_eq_nil_iff]

theorem exists_blanks_append (t : Text) : ∃ w, IsBlanks w ∧ t = w ++ skipBlanks t := by
  refine ⟨t.takeWhile isBlank, ?_, ?_⟩
  · intro c hc
    exact List.all_eq_true.mp List.all_takeWhile c hc
  · exact List.takeWhile_append_dropWhile.symm

theorem skipBlanks_append_of_cons {a r : Text} {c : Char} (h : skipBlanks a = c :: r) (t : Text) :
    skipBlanks (a ++ t) = c :: (r ++ t) := by
  obtain ⟨w, hw, ha⟩ := exists_blanks_append a
  rw [ha, List.append_assoc, skipBlanks_append hw, h, List.cons_append,
    skipBlanks_cons_of_not (skipBlanks_head h)]

theorem skipBlanks_append_cons {c : Char} (hc : isBlank c = false) (a t : Text) :
    skipBlanks (a ++ c :: t) = skipBlanks a ++ c :: t := by
  cases h : skipBlanks a with
  | nil => rw [skipBlanks_append (skipBlanks_eq_nil_iff.mp h), skipBlanks_cons_of_not hc, List.nil_append]
  | cons d r => rw [skipBlanks_append_of_cons h, List.cons_append]

theorem trimEnd_append_blanks {w : Text} (hw : IsBlanks w) (t : Text) : trimEnd (t ++ w) = trimEnd t := by
  have hr : IsBlanks w.reverse := fun c hc => hw c (List.mem_reverse.mp hc)
  simp [trimEnd, skipBlanks_append hr]

theorem exists_trimEnd_append (t : Text) : ∃ w, IsBlanks w ∧ t = trimEnd t ++ w := by
  obtain ⟨w, hw, ht⟩ := exists_blanks_append t.reverse
  refine ⟨w.reverse, fun c hc => hw c (List.mem_reverse.mp hc), ?_⟩
  have hreverse := congrArg List.reverse ht
  simpa [trimEnd] using hreverse

theorem trimEnd_append_cons {c : Char} (hc : isBlank c = false) (a t : Text) :
    trimEnd (a ++ c :: t) = a ++ c :: trimEnd t := by
  obtain ⟨w, hw, ht⟩ := exists_blanks_append t.reverse
  have hrev : (a ++ c :: t).reverse = w ++ (skipBlanks t.reverse ++ c :: a.reverse) := by
    rw [← List.append_assoc, ← ht]
    simp
  have hskip : skipBlanks (skipBlanks t.reverse ++ c :: a.reverse) =
      skipBlanks t.reverse ++ c :: a.reverse := by
    cases hs : skipBlanks t.reverse with
    | nil => exact skipBlanks_cons_of_not hc _
    | cons d r => exact skipBlanks_cons_of_not (skipBlanks_head hs) _
  simp only [trimEnd, hrev, skipBlanks_append hw, hskip]
  simp

theorem trimEnd_cons_of_not {c : Char} (hc : isBlank c = false) (t : Text) :
    trimEnd (c :: t) = c :: trimEnd t := trimEnd_append_cons hc [] t

theorem trimEnd_append_singleton {c : Char} (hc : isBlank c = false) (a : Text) :
    trimEnd (a ++ [c]) = a ++ [c] := trimEnd_append_cons hc a []

theorem trimEnd_blanks {w : Text} (hw : IsBlanks w) : trimEnd w = [] := trimEnd_append_blanks hw []

theorem trim_append_left {w : Text} (hw : IsBlanks w) (t : Text) : trim (w ++ t) = trim t := by
  rw [trim, skipBlanks_append hw, trim]

theorem trim_cons_of_blank {c : Char} (hc : isBlank c = true) (t : Text) : trim (c :: t) = trim t := by
  rw [trim, skipBlanks_cons_of_blank hc, trim]

theorem trim_cons_of_not {c : Char} (hc : isBlank c = false) (t : Text) :
    trim (c :: t) = c :: trimEnd t := by
  rw [trim, skipBlanks_cons_of_not hc, trimEnd_cons_of_not hc]

theorem trim_blanks {w : Text} (hw : IsBlanks w) : trim w = [] := by
  rw [trim, skipBlanks_eq_nil_iff.mpr hw]
  rfl

/-- A text that starts and ends with characters other than blanks. -/
structure IsTrimmed (t : Text) : Prop where
  first : ∃ c r, t = c :: r ∧ isBlank c = false
  last : ∃ r c, t = r ++ [c] ∧ isBlank c = false

namespace IsTrimmed

theorem append {a b : Text} (ha : IsTrimmed a) (hb : IsTrimmed b) : IsTrimmed (a ++ b) := by
  obtain ⟨c, r, rfl, hc⟩ := ha.first
  obtain ⟨r', c', rfl, hc'⟩ := hb.last
  exact ⟨⟨c, r ++ (r' ++ [c']), rfl, hc⟩, c :: r ++ r', c', by simp, hc'⟩

theorem trimEnd_eq {t : Text} (h : IsTrimmed t) : trimEnd t = t := by
  obtain ⟨r, c, rfl, hc⟩ := h.last
  exact trimEnd_append_singleton hc r

theorem trim_append {t w : Text} (h : IsTrimmed t) (hw : IsBlanks w) : trim (t ++ w) = t := by
  have hend := h.trimEnd_eq
  obtain ⟨c, r, rfl, hc⟩ := h.first
  rw [trim, List.cons_append, skipBlanks_cons_of_not hc, ← List.cons_append, trimEnd_append_blanks hw, hend]

theorem trim_eq {t : Text} (h : IsTrimmed t) : trim t = t := by
  simpa using h.trim_append isBlanks_nil

end IsTrimmed

/-- Every text is blank, or blanks around a text that starts and ends with something else. -/
theorem isBlanks_or_exists_trim (t : Text) :
    IsBlanks t ∨ ∃ w c r, IsBlanks w ∧ isBlank c = false ∧ t = w ++ c :: r ∧ trim t = c :: trimEnd r := by
  obtain ⟨w, hw, ht⟩ := exists_blanks_append t
  cases hs : skipBlanks t with
  | nil => exact .inl (skipBlanks_eq_nil_iff.mp hs)
  | cons c r =>
    have hc := skipBlanks_head hs
    refine .inr ⟨w, c, r, hw, hc, by rw [ht, hs], ?_⟩
    rw [trim, hs, trimEnd_cons_of_not hc]

/-- There is nothing to trim where no blank is. -/
theorem trim_of_forall {t : Text} (h : ∀ c ∈ t, isBlank c = false) : trim t = t := by
  have hskip {u : Text} (hu : ∀ c ∈ u, isBlank c = false) : skipBlanks u = u := by
    cases u with
    | nil => rfl
    | cons c u => exact skipBlanks_cons_of_not (hu c List.mem_cons_self) u
  have hreverse : ∀ c ∈ t.reverse, isBlank c = false := fun c hc => h c (List.mem_reverse.mp hc)
  rw [trim, hskip h, trimEnd, hskip hreverse, List.reverse_reverse]

theorem trimEnd_trimEnd (t : Text) : trimEnd (trimEnd t) = trimEnd t := by
  obtain ⟨w, hw, ht⟩ := exists_trimEnd_append t
  rw [← trimEnd_append_blanks hw (trimEnd t), ← ht]

theorem trim_trimEnd (t : Text) : trim (trimEnd t) = trim t := by
  rcases isBlanks_or_exists_trim t with h | ⟨w, c, r, hw, hc, rfl, -⟩
  · rw [trimEnd_blanks h, trim_blanks h]
    rfl
  · rw [trimEnd_append_cons hc, trim_append_left hw, trim_append_left hw, trim_cons_of_not hc,
      trim_cons_of_not hc, trimEnd_trimEnd]

theorem trim_trim (t : Text) : trim (trim t) = trim t := by
  obtain ⟨w, hw, ht⟩ := exists_blanks_append t
  have hskip : trim (skipBlanks t) = trim t := by
    rw [← trim_append_left hw, ← ht]
  calc trim (trim t) = trim (skipBlanks t) := trim_trimEnd _
    _ = trim t := hskip

/-- A text is what trimming leaves of it, between blanks. -/
theorem exists_blanks_append_trim (t : Text) : ∃ w w', IsBlanks w ∧ IsBlanks w' ∧ t = w ++ (trim t ++ w') := by
  obtain ⟨w, hw, ht⟩ := exists_blanks_append t
  obtain ⟨w', hw', hend⟩ := exists_trimEnd_append (skipBlanks t)
  refine ⟨w, w', hw, hw', ?_⟩
  rw [trim, ← hend]
  exact ht

theorem trim_eq_nil_iff {t : Text} : trim t = [] ↔ IsBlanks t := by
  constructor
  · intro h
    rcases isBlanks_or_exists_trim t with ht | ⟨w, c, r, -, -, -, hr⟩
    · exact ht
    · rw [h] at hr
      cases hr
  · exact trim_blanks

end SfcContract.Text
