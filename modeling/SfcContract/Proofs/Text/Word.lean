import Mathlib.Data.List.Basic
import SfcContract.Text.Word

/-!
# Characters of names

A property name consists of word characters, dollar signs and dashes, none of which is a blank.
-/

namespace SfcContract.Text

variable {c : Char} {t : Text}

/-- No range of word characters meets a range of blanks. -/
private theorem wordRanges_disjoint :
    (wordRanges.all fun r => blankRanges.all fun b => Nat.blt b.2 r.1 || Nat.blt r.2 b.1) = true := by
  decide +kernel

private theorem toNat_of_isAsciiWord (h : isAsciiWord c = true) : 0x30 ≤ c.toNat ∧ c.toNat < 0x80 := by
  have halpha : c.isAlpha = (decide (c.val ≥ 'A'.val ∧ c.val ≤ 'Z'.val) ||
    decide (c.val ≥ 'a'.val) && decide (c.val ≤ 'z'.val)) := rfl
  simp only [isAsciiWord, Char.isAlphanum, halpha, Char.isDigit, Bool.or_eq_true,
    Bool.and_eq_true, decide_eq_true_eq, beq_iff_eq, ge_iff_le, UInt32.le_iff_toNat_le] at h
  rcases h with ((h | h) | h) | rfl
  · exact ⟨Nat.le_trans (by decide) h.1, Nat.lt_of_le_of_lt h.2 (by decide)⟩
  · exact ⟨Nat.le_trans (by decide) h.1, Nat.lt_of_le_of_lt h.2 (by decide)⟩
  · exact ⟨Nat.le_trans (by decide) h.1, Nat.lt_of_le_of_lt h.2 (by decide)⟩
  · decide

theorem isWord_of_isAsciiWord (h : isAsciiWord c = true) : isWord c = true := by
  simp [isWord, (toNat_of_isAsciiWord h).2, h]

theorem isBlank_of_isWord (h : isWord c = true) : isBlank c = false := by
  cases hb : isBlank c with
  | false => rfl
  | true =>
    simp only [isBlank, inRanges, List.any_eq_true, Bool.and_eq_true, decide_eq_true_eq] at hb
    obtain ⟨b, hmem, hlo, hhi⟩ := hb
    by_cases hc : c.toNat < 0x80
    · have hascii := toNat_of_isAsciiWord (c := c) (by simpa [isWord, hc] using h)
      have hfar : ∀ r ∈ blankRanges, r.2 < 0x30 ∨ 0x80 ≤ r.1 := by decide
      have hr := hfar b hmem
      omega
    · simp only [isWord, hc, if_false, inRanges, List.any_eq_true, Bool.and_eq_true,
        decide_eq_true_eq] at h
      obtain ⟨r, hr, hlo', hhi'⟩ := h
      have hd := List.all_eq_true.mp (List.all_eq_true.mp wordRanges_disjoint r hr) b hmem
      simp only [Bool.or_eq_true, Nat.blt_eq] at hd
      omega

theorem isWord_of_isBlank (h : isBlank c = true) : isWord c = false := by
  cases hw : isWord c with
  | false => rfl
  | true =>
    rw [isBlank_of_isWord hw] at h
    cases h

theorem not_mem_of_isWord (ht : ∀ c ∈ t, isWord c = true) (h : isWord c = false) : c ∉ t := by
  intro hmem
  rw [ht c hmem] at h
  cases h

theorem isWord_of_isNameStart (h : isNameStart c = true) : isWord c = true ∨ c = '$' := by
  simp only [isNameStart, Bool.or_eq_true, beq_iff_eq] at h
  rcases h with (h | rfl) | rfl
  · exact .inl (isWord_of_isAsciiWord (by simp [isAsciiWord, Char.isAlphanum, h]))
  · exact .inl (by decide)
  · exact .inr rfl

/-- A character that may stand in a property name. -/
def isNameChar (c : Char) : Bool := isNamePart c || c == '-'

theorem isNameChar_of_isNameStart (h : isNameStart c = true) : isNameChar c = true := by
  rcases isWord_of_isNameStart h with h | rfl
  · simp [isNameChar, isNamePart, h]
  · decide

theorem isBlank_of_isNameChar (h : isNameChar c = true) : isBlank c = false := by
  simp only [isNameChar, isNamePart, Bool.or_eq_true, beq_iff_eq] at h
  rcases h with (h | rfl) | rfl
  · exact isBlank_of_isWord h
  · decide
  · decide

theorem isPropertyName_iff : isPropertyName t = true ↔
    ∃ c r, t = c :: r ∧ isNameStart c = true ∧ ∀ d ∈ r, isNameChar d = true := by
  cases t with
  | nil => simp [isPropertyName]
  | cons c r => simp [isPropertyName, isNameChar]

theorem isNameChar_of_mem (h : isPropertyName t = true) : ∀ c ∈ t, isNameChar c = true := by
  obtain ⟨c, r, rfl, hc, hr⟩ := isPropertyName_iff.mp h
  intro d hd
  rcases List.mem_cons.mp hd with rfl | hd
  · exact isNameChar_of_isNameStart hc
  · exact hr d hd

end SfcContract.Text
