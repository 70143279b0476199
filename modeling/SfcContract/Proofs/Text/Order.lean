import Mathlib.Data.List.Basic
import SfcContract.Tree

/-!
# The order of texts

Texts are compared by code points. In UTF-8 this is the order of their bytes, since of two characters the
one with the greater number differs first in a greater byte.
-/

namespace SfcContract.Text

def bytes (t : Text) : List UInt8 := (Tree.encode t).data.toList

theorem bytes_of_decode? {content : ByteArray} {t : Text} (h : Tree.decode? content = some t) :
    t.bytes = content.data.toList := by
  rw [Tree.decode?, String.fromUTF8?] at h
  split_ifs at h with hvalid
  · obtain rfl := Option.some.inj h
    rw [bytes, Tree.encode, String.ofList_toList]
    rfl
  · cases h

theorem bytes_eq_flatMap (t : Text) : t.bytes = t.flatMap String.utf8EncodeChar := by
  have hencode : Tree.encode t = (t.flatMap String.utf8EncodeChar).toByteArray := String.toByteArray_ofList
  rw [bytes, hencode, List.toList_data_toByteArray]

theorem bytes_cons (c : Char) (t : Text) : bytes (c :: t) = String.utf8EncodeChar c ++ bytes t := by
  rw [bytes_eq_flatMap, bytes_eq_flatMap, List.flatMap_cons]

theorem length_le_bytes (t : Text) : t.length ≤ t.bytes.length := by
  induction t with
  | nil => exact Nat.le_refl 0
  | cons c t ih =>
    have hpos := List.length_pos_iff.mpr (String.utf8EncodeChar_ne_nil (c := c))
    rw [bytes_cons, List.length_append, List.length_cons]
    omega

theorem utf8EncodeChar_append_lt {c d : Char} (h : c.toNat < d.toNat) (s t : List UInt8) :
    String.utf8EncodeChar c ++ s < String.utf8EncodeChar d ++ t := by
  have hd : d.val.toNat < 0x110000 := by
    have hvalid := d.valid
    simp only [UInt32.isValidChar, Nat.isValidChar] at hvalid
    omega
  change c.val.toNat < d.val.toNat at h
  rw [String.utf8EncodeChar, String.utf8EncodeChar]
  generalize c.val.toNat = m at *
  generalize d.val.toNat = n at *
  split_ifs <;>
    simp only [List.cons_append, List.nil_append, List.cons_lt_cons_iff, UInt8.lt_iff_toNat_lt,
      ← UInt8.toNat_inj, UInt8.toNat_ofNat']
  any_goals omega
  -- Two characters of four bytes differ first in the highest place where their numbers do.
  have h₁ : m / 262144 ≤ n / 262144 := Nat.div_le_div_right (Nat.le_of_lt h)
  have h₂ : m / 4096 ≤ n / 4096 := Nat.div_le_div_right (Nat.le_of_lt h)
  have h₃ : m / 64 ≤ n / 64 := Nat.div_le_div_right (Nat.le_of_lt h)
  rcases Nat.lt_or_eq_of_le h₁ with h₁ | h₁
  · left
    omega
  refine .inr ⟨by omega, ?_⟩
  rcases Nat.lt_or_eq_of_le h₂ with h₂ | h₂
  · left
    omega
  refine .inr ⟨by omega, ?_⟩
  rcases Nat.lt_or_eq_of_le h₃ with h₃ | h₃
  · left
    omega
  · exact .inr ⟨by omega, .inl (by omega)⟩

theorem append_le_append_iff (r s t : List UInt8) : r ++ s ≤ r ++ t ↔ s ≤ t := by
  induction r with
  | nil => rfl
  | cons b r ih =>
    rw [List.cons_append, List.cons_append, List.cons_le_cons_iff, ih]
    exact ⟨fun h => h.elim (fun h => absurd h (UInt8.lt_irrefl b)) And.right, fun h => .inr ⟨rfl, h⟩⟩

theorem isAtMost_iff_bytes_le (s t : Text) : isAtMost s t = true ↔ s.bytes ≤ t.bytes := by
  induction s generalizing t with
  | nil => exact iff_of_true rfl (List.nil_le _)
  | cons c s ih =>
    cases t with
    | nil =>
      have hne : bytes (c :: s) ≠ [] := by
        rw [bytes_cons]
        exact fun h => String.utf8EncodeChar_ne_nil (List.append_eq_nil_iff.mp h).1
      exact iff_of_false Bool.false_ne_true fun h => hne (List.le_nil.mp h)
    | cons d t =>
      rw [isAtMost, bytes_cons, bytes_cons]
      rcases Nat.lt_trichotomy c.toNat d.toNat with h | h | h
      · rw [if_neg (Nat.ne_of_lt h), decide_eq_true_iff]
        exact iff_of_true h (List.le_of_lt (utf8EncodeChar_append_lt h _ _))
      · obtain rfl : c = d := Char.toNat_inj.mp h
        rw [if_pos rfl, append_le_append_iff]
        exact ih t
      · rw [if_neg (Nat.ne_of_gt h), decide_eq_true_iff]
        exact iff_of_false (Nat.not_lt_of_gt h) fun hle => hle (utf8EncodeChar_append_lt h _ _)

theorem isAtMost_trans (r s t : Text) (hrs : isAtMost r s = true) (hst : isAtMost s t = true) :
    isAtMost r t = true := by
  rw [isAtMost_iff_bytes_le] at *
  exact List.le_trans hrs hst

theorem isAtMost_total (s t : Text) : (isAtMost s t || isAtMost t s) = true := by
  rw [Bool.or_eq_true, isAtMost_iff_bytes_le, isAtMost_iff_bytes_le]
  exact List.le_total _ _

theorem isAtMost_antisymm {s t : Text} (hst : isAtMost s t = true) (hts : isAtMost t s = true) : s = t := by
  induction s generalizing t with
  | nil =>
    cases t with
    | nil => rfl
    | cons d t => cases hts
  | cons c s ih =>
    cases t with
    | nil => cases hst
    | cons d t =>
      rw [isAtMost] at hst hts
      by_cases h : c.toNat = d.toNat
      · rw [if_pos h] at hst
        rw [if_pos h.symm] at hts
        rw [Char.toNat_inj.mp h, ih hst hts]
      · rw [if_neg h, decide_eq_true_iff] at hst
        rw [if_neg (Ne.symm h), decide_eq_true_iff] at hts
        omega

theorem isAtMost_append_left (r s t : Text) : isAtMost (r ++ s) (r ++ t) = isAtMost s t := by
  induction r with
  | nil => rfl
  | cons c r ih => rw [List.cons_append, List.cons_append, isAtMost, if_pos rfl, ih]

end SfcContract.Text
