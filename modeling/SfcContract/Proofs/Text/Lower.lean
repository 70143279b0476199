import Mathlib.Data.List.Infix
import SfcContract.Text.Case

/-!
# Lowering a part of a text

All characters are lowered on their own but the capital sigma, whose form tells whether a word ends there. So a
part of a text is lowered as it stands in the text when its sigmas end words in it as they do in the text.
-/

namespace SfcContract.Text

variable {a b part t : Text}

theorem occurs_iff_isInfix : occurs part t = true ↔ part <:+: t := by
  induction t with
  | nil => rw [occurs, List.isEmpty_iff, List.infix_nil]
  | cons c t ih => rw [occurs, Bool.or_eq_true, List.isPrefixOf_iff_prefix, ih, List.infix_cons_iff]

/-- Whether a word ends between two texts: a cased letter stands before that place and none behind it, with the
characters passed over that do not end a word. -/
def endsWord (before after : Text) : Bool := meetsCased before.reverse && !meetsCased after

theorem meetsCased_append (a b : Text) : meetsCased (a ++ b) =
    if (a.dropWhile (inRanges caseIgnorableRanges)).isEmpty then meetsCased b else meetsCased a := by
  rw [meetsCased, meetsCased, meetsCased, List.dropWhile_append]
  cases a.dropWhile (inRanges caseIgnorableRanges) <;> rfl

/-- Whatever is lowered before, the rest of a text is lowered behind it. -/
theorem exists_lowerFrom_append (before a b : Text) :
    ∃ lowered, lowerFrom before (a ++ b) = lowered ++ lowerFrom (a.reverse ++ before) b := by
  induction a generalizing before with
  | nil => exact ⟨[], rfl⟩
  | cons c a ih =>
    obtain ⟨lowered, hlowered⟩ := ih (c :: before)
    rw [List.cons_append, lowerFrom, hlowered, List.reverse_cons, List.append_assoc, ← List.append_assoc]
    exact ⟨_, rfl⟩

/-- Each capital sigma of a part ends a word in the part when it does in the text, and only then. -/
def KeepsSigmas (a part b : Text) : Prop :=
  ∀ u v, part = u ++ '\u03A3' :: v → endsWord (a ++ u) (v ++ b) = endsWord u v

/-- The first text lies further back for the one scan than for the other. -/
private theorem lowerFrom_append_of_keeps {before before' : Text}
    (h : ∀ u v, part = u ++ '\u03A3' :: v → (meetsCased (u.reverse ++ before) && !meetsCased (v ++ b)) =
      (meetsCased (u.reverse ++ before') && !meetsCased v)) :
    lowerFrom before (part ++ b) = lowerFrom before' part ++ lowerFrom (part.reverse ++ before) b := by
  induction part generalizing before before' with
  | nil => rfl
  | cons c part ih =>
    have hrest : lowerFrom (c :: before) (part ++ b) =
        lowerFrom (c :: before') part ++ lowerFrom (part.reverse ++ c :: before) b := by
      refine ih fun u v huv => ?_
      simpa using h (c :: u) v (by rw [huv, List.cons_append])
    rw [List.cons_append, lowerFrom, lowerFrom, hrest, List.append_assoc, List.reverse_cons, List.append_assoc]
    congr 1
    by_cases hc : c = '\u03A3'
    · have hform := h [] part (by rw [hc, List.nil_append])
      rw [if_pos hc, if_pos hc]
      simpa using congrArg (fun final : Bool => if final then ['\u03C2'] else ['\u03C3']) hform
    · rw [if_neg hc, if_neg hc]

/-- A part that keeps its sigmas is lowered as it is alone. -/
theorem lower_isInfix (h : KeepsSigmas a part b) : lower part <:+: lower (a ++ part ++ b) := by
  obtain ⟨lowered, hlowered⟩ := exists_lowerFrom_append [] a (part ++ b)
  have hpart : lowerFrom a.reverse (part ++ b) = lowerFrom [] part ++ lowerFrom (part.reverse ++ a.reverse) b := by
    refine lowerFrom_append_of_keeps fun u v huv => ?_
    simpa [endsWord] using h u v huv
  refine ⟨lowered, lowerFrom (part.reverse ++ a.reverse) b, ?_⟩
  rw [lower, lower, List.append_assoc a, hlowered, List.append_nil, hpart, List.append_assoc]

/-- No sigma, nothing to keep. -/
theorem keepsSigmas_of_not_mem (h : '\u03A3' ∉ part) (a b : Text) : KeepsSigmas a part b := by
  rintro u v rfl
  exact absurd (List.mem_append_right u List.mem_cons_self) h

/-- Nor does a part lose its sigmas when no word goes on over its ends. -/
theorem keepsSigmas_of_apart (ha : meetsCased a.reverse = false) (hb : meetsCased b = false) (part : Text) :
    KeepsSigmas a part b := by
  have hend {s t : Text} (ht : meetsCased t = false) : meetsCased (s ++ t) = meetsCased s := by
    rw [meetsCased_append]
    split
    · next hempty => rw [ht, meetsCased, List.isEmpty_iff.mp hempty]
    · rfl
  intro u v _
  rw [endsWord, endsWord, List.reverse_append, hend ha, hend hb]

end SfcContract.Text
