import SfcContract.Proofs.Markup.Written

/-!
# Tags read with their quotes

The scan for opening tags passes over quoted values. It reads every opening tag as it is written, whatever signs
stand in the values, and reads nothing else.
-/

namespace SfcContract.Markup

variable {a b : Text}

/-- The scan passes over a text that stands outside quotes. -/
private def Skims (a : Text) : Prop :=
  ∀ t, Tag.quotedRest? none (a ++ t) = (Tag.quotedRest? none t).map fun r => (a ++ r.1, r.2)

namespace Skims

private theorem nil : Skims [] := by
  intro t
  simp

private theorem append (ha : Skims a) (hb : Skims b) : Skims (a ++ b) := by
  intro t
  rw [List.append_assoc, ha, hb, Option.map_map]
  congr 1
  funext r
  simp

private theorem of_plain (h : ∀ c ∈ a, c ≠ '>' ∧ c ≠ '\x22' ∧ c ≠ '\x27') : Skims a := by
  intro t
  induction a with
  | nil => exact nil t
  | cons c a ih =>
    have hc := h c List.mem_cons_self
    have hrest := ih fun d hd => h d (List.mem_cons_of_mem _ hd)
    simp only [List.cons_append, Tag.quotedRest?, hc, if_false, or_self, hrest, Option.map_map]
    rfl

/-- The quotes of a value close it, and hide what is between them. -/
private theorem quoted {quote : Char} {text : Text} (hq : quote ∈ ['\x22', '\x27']) (hclosed : quote ∉ text) :
    Skims (quote :: (text ++ [quote])) := by
  have hinside (t : Text) : Tag.quotedRest? (some quote) (text ++ quote :: t) =
      (Tag.quotedRest? none t).map fun r => (text ++ quote :: r.1, r.2) := by
    induction text with
    | nil => simp [Tag.quotedRest?]
    | cons c text ih =>
      have hc : c ≠ quote := by
        rintro rfl
        exact hclosed List.mem_cons_self
      have hrest := ih fun hmem => hclosed (List.mem_cons_of_mem _ hmem)
      simp only [List.cons_append, Tag.quotedRest?, hc, if_false, hrest, Option.map_map]
      rfl
  have hopen : quote ≠ '>' ∧ (quote = '\x22' ∨ quote = '\x27') := by
    simp only [List.mem_cons, List.not_mem_nil, or_false] at hq
    rcases hq with rfl | rfl <;> decide
  intro t
  rw [List.cons_append, List.append_assoc, List.singleton_append, Tag.quotedRest?, if_neg hopen.1, if_pos hopen.2,
    hinside, Option.map_map]
  congr 1
  funext r
  simp

private theorem of_all {p : Char → Bool} (hp : ∀ c ∈ ['>', '\x22', '\x27'], p c = false)
    (ha : ∀ c ∈ a, p c = true) : Skims a := by
  apply of_plain
  intro c hc
  have hpc := ha c hc
  refine ⟨?_, ?_, ?_⟩ <;> rintro rfl <;> rw [hp _ (by decide)] at hpc <;> cases hpc

private theorem assigned (assigned : Assigned) : Skims assigned.text := by
  cases assigned with
  | nothing => exact nil
  | quoted quote text isQuote closed => exact append (a := ['=']) (of_plain (by decide)) (quoted isQuote closed)
  | bare text isBare _ => exact append (a := ['=']) (of_plain (by decide)) (of_all (by decide) isBare.2)

private theorem inner (tag : OpeningTag) : Skims tag.inner := by
  refine append ?_ (of_all (by decide) tag.isGap)
  induction tag.attributes with
  | nil => exact nil
  | cons a attributes ih =>
    have hname : Skims a.name := of_all (by decide) a.isName.2
    exact append (append (of_all (by decide) a.isGap.2) (append hname (assigned a.assigned))) ih

end Skims

namespace OpeningTag

variable {tag : OpeningTag}

/-- A tag that starts with a letter is read up to its own end. -/
theorem opening_text (hletter : tag.name.head?.any Char.isAlpha = true) (prev : Option Char) (t : Text) :
    Tag.opening prev (tag.text ++ t) = some (tag.text, t) := by
  obtain ⟨c, name, hname⟩ : ∃ c name, tag.name = c :: name := by
    cases h : tag.name with
    | nil => simp [h] at hletter
    | cons c name => exact ⟨c, name, rfl⟩
  have hc : c.isAlpha = true := by simpa [hname] using hletter
  have hrest : Skims (name ++ (tag.inner ++ tag.slash)) := by
    refine Skims.append ?_ (Skims.append (Skims.inner tag) ?_)
    · exact Skims.of_all (by decide) fun d hd => tag.isName d (by simp [hname, hd])
    · rcases tag.slash_cases with hs | hs <;> rw [hs]
      · exact Skims.nil
      · exact Skims.of_plain (by decide)
  have hend : Tag.quotedRest? none ('>' :: t) = some (['>'], t) := rfl
  have hread := hrest ('>' :: t)
  rw [hend, Option.map_some] at hread
  have htext : tag.text ++ t = '<' :: c :: (name ++ (tag.inner ++ tag.slash) ++ '>' :: t) := by
    simp [tag.text_append, hname]
  rw [htext, Tag.opening, if_pos hc, hread]
  simp [text, hname]

end OpeningTag

theorem readsTag_opening : ReadsTag Tag.opening := by
  intro prev t x h
  unfold Tag.opening at h
  split at h
  · next c u =>
    refine ⟨c, u, rfl, ?_⟩
    rintro rfl
    exact absurd h (by simp)
  · cases h

/-- The scan finds the opening tags, in their order. -/
theorem findAll_opening_write {pieces : List Piece}
    (hletter : ∀ tag ∈ tags pieces, tag.name.head?.any Char.isAlpha = true) :
    Text.findAll Tag.opening (write pieces) = (tags pieces).map OpeningTag.text := by
  have hfinds (tag : OpeningTag) (htag : tag ∈ tags pieces) (t : Text) :
      Text.Finds Tag.opening tag.text t [tag.text] :=
    Text.Finds.of_some (by simp [OpeningTag.text]) fun prev => OpeningTag.opening_text (hletter tag htag) prev t
  rw [(readsTag_opening.finds_write hfinds []).findAll_eq, ← List.map_eq_flatMap]

end SfcContract.Markup
