import Mathlib.Data.List.Infix
import SfcContract.Proofs.Markup.Opening
import SfcContract.Proofs.Names
import SfcContract.Proofs.Text.Keyword
import SfcContract.Slot

/-!
# Slots of written markup

A `slot` tag declares a slot and an attribute of any tag may consume one. The attributes are looked for in tags
that are read with the quotes of their values, so the slots consumed are those of the attributes as written.
Declaring tags are looked for without regard to quotes. They are found as they were written when no quoted value
looks like a part of one, and when no longer name starts with the word `slot`.
-/

namespace SfcContract.Markup

/-- The value that an attribute has in quotes. -/
def Assigned.quoted? : Assigned → Option Text
  | nothing => none
  | quoted _ text _ _ => some text
  | bare _ _ _ => none

end SfcContract.Markup

namespace SfcContract.Slot

open Markup Text

variable {α : Type} {r : Recognizer α} {prev : Option Char} {a t v w gap : Text} {c d : Char}

/-- The recogniser reads a blank first, and right behind it a name. -/
structure ReadsAttribute (r : Recognizer α) : Prop where
  blank : ∀ prev c t, isBlank c = false → r prev (c :: t) = none
  name : ∀ prev c d t, Attribute.isNamePart d = false → r prev (c :: d :: t) = none

theorem isWord_of_isNamePart (hc : Attribute.isNamePart c = false) : isWord c = false := by
  cases hw : isWord c with
  | false => rfl
  | true =>
    have hblank := isBlank_of_isWord hw
    have hsigns : ∀ d ∈ ['\x22', '\x27', '=', '<', '>', '/'], c ≠ d := by
      rintro d hd rfl
      rw [(by decide : ∀ d ∈ ['\x22', '\x27', '=', '<', '>', '/'], isWord d = false) c hd] at hw
      cases hw
    simp only [List.forall_mem_cons, List.not_mem_nil, false_implies, implies_true, and_true] at hsigns
    simp [Attribute.isNamePart, hblank, hsigns] at hc

theorem isNamePart_of_isBlank (hc : isBlank c = true) : Attribute.isNamePart c = false := by
  simp [Attribute.isNamePart, hc]

theorem isBlank_of_isNamePart (hc : Attribute.isNamePart c = true) : isBlank c = false := by
  cases hblank : isBlank c with
  | false => rfl
  | true =>
    rw [isNamePart_of_isBlank hblank] at hc
    cases hc

namespace ReadsAttribute

theorem misses (hr : ReadsAttribute r) (ha : ∀ c ∈ a, isBlank c = false) : Misses r a t :=
  Misses.of_first fun c hc prev s => hr.blank prev c s (ha c hc)

/-- Of the blanks before a name only the last one is read, and none before a sign. -/
theorem misses_gap (hr : ReadsAttribute r) (hg : IsBlanks gap) (hd : Attribute.isNamePart d = false) :
    Misses r gap (d :: t) := by
  induction gap with
  | nil => exact Misses.nil
  | cons c gap ih =>
    have hrest := ih fun e he => hg e (List.mem_cons_of_mem _ he)
    refine Misses.cons (fun prev => ?_) hrest
    cases gap with
    | nil => exact hr.name prev c d t hd
    | cons e gap =>
      have he : isBlank e = true := hg e (by simp)
      exact hr.name prev c e _ (isNamePart_of_isBlank he)

theorem misses_start (hr : ReadsAttribute r) (tag : OpeningTag) : Misses r ('<' :: tag.name) t := by
  apply hr.misses
  intro c hc
  rcases List.mem_cons.mp hc with rfl | hc
  · decide
  · exact isBlank_of_isNameChar (tag.isName c hc)

theorem misses_end (hr : ReadsAttribute r) (tag : OpeningTag) :
    Misses r (tag.gap ++ (tag.slash ++ ['>'])) t := by
  have hsigns : ∀ c ∈ ['/', '>'], isBlank c = false := by decide
  rcases tag.slash_cases with hs | hs
  · rw [hs]
    exact (hr.misses_gap tag.isGap (by decide)).append (hr.misses (by decide))
  · rw [hs]
    exact (hr.misses_gap tag.isGap (by decide)).append (hr.misses (by decide))

end ReadsAttribute

theorem endsName_end (tag : OpeningTag) : EndsName (tag.gap ++ (tag.slash ++ '>' :: t)) := by
  have hsign : ∀ c ∈ (tag.slash ++ '>' :: t).head?,
      Attribute.isNamePart c = false ∧ isBlank c = false ∧ c ≠ '=' := by
    rcases tag.slash_cases with hs | hs <;> rw [hs]
    · intro c hc
      obtain rfl : '>' = c := by simpa using hc
      decide
    · intro c hc
      obtain rfl : '/' = c := by simpa using hc
      decide
  cases hrest : tag.slash ++ '>' :: t with
  | nil => simp at hrest
  | cons c s =>
    obtain ⟨hpart, hblank, hequals⟩ := hsign c (by rw [hrest]; rfl)
    constructor
    · intro e he
      cases hg : tag.gap with
      | nil =>
        obtain rfl : c = e := by simpa [hg] using he
        exact hpart
      | cons b gap =>
        obtain rfl : b = e := by simpa [hg] using he
        exact isNamePart_of_isBlank (tag.isGap b (by simp [hg]))
    · rw [skipBlanks_append tag.isGap, skipBlanks_cons_of_not hblank]
      simp [expect?, hequals]

theorem text_eq (tag : OpeningTag) : tag.text = '<' :: tag.name ++
    (tag.attributes.flatMap WrittenAttribute.text ++ (tag.gap ++ (tag.slash ++ ['>']))) := by
  simp [OpeningTag.text, OpeningTag.inner]

theorem exists_gap_concat (a : WrittenAttribute) : ∃ gap b, IsBlanks gap ∧ isBlank b = true ∧
    a.text = gap ++ b :: (a.name ++ a.assigned.text) := by
  rcases List.eq_nil_or_concat' a.gap with hnil | ⟨gap, b, hgap⟩
  · exact absurd hnil a.isGap.1
  · refine ⟨gap, b, ?_, a.isGap.2 b (by simp [hgap]), ?_⟩
    · intro c hc
      exact a.isGap.2 c (by simp [hgap, hc])
    · rw [WrittenAttribute.text, hgap]
      simp

theorem readsAttribute_attributeName : ReadsAttribute attributeName where
  blank prev c t hc := by simp [attributeName, hc]
  name prev c d t hd := by
    have hraw : Attribute.raw? (d :: t) = none := by simp [Attribute.raw?, hd]
    simp [attributeName, hraw]

theorem finds_attributeName (a : WrittenAttribute) (hbare : a.assigned.isBare = false) (ht : EndsName t) :
    Finds attributeName a.text t [a.name] := by
  obtain ⟨gap, b, hgap, hb, htext⟩ := exists_gap_concat a
  have hmisses : Misses attributeName gap (b :: (a.name ++ a.assigned.text) ++ t) :=
    readsAttribute_attributeName.misses_gap hgap (isNamePart_of_isBlank hb)
  have hread := raw?_written a ht fun h => by simp [hbare] at h
  rw [htext]
  refine (Finds.of_misses hmisses).append (Finds.of_some (List.cons_ne_nil _ _) fun prev => ?_)
  rw [List.cons_append, List.append_assoc, attributeName, if_pos hb, hread]
  rfl

theorem finds_attributes {attributes : List WrittenAttribute} (hbare : ∀ a ∈ attributes, a.assigned.isBare = false)
    (ht : EndsName t) :
    Finds attributeName (attributes.flatMap WrittenAttribute.text) t (attributes.map WrittenAttribute.name) := by
  induction attributes with
  | nil => exact Finds.of_misses Misses.nil
  | cons a attributes ih =>
    have hfirst := finds_attributeName a (hbare a List.mem_cons_self) (OpeningTag.endsName_attributes attributes ht)
    exact hfirst.append (ih fun b hb => hbare b (List.mem_cons_of_mem _ hb))

theorem findAll_attributeName (tag : OpeningTag) (hbare : ∀ a ∈ tag.attributes, a.assigned.isBare = false) :
    findAll attributeName tag.text = tag.attributes.map WrittenAttribute.name := by
  have hr := readsAttribute_attributeName
  have hend : EndsName (tag.gap ++ (tag.slash ++ ['>']) ++ []) := by
    rw [List.append_nil]
    exact endsName_end tag
  have hfinds := (Finds.of_misses (hr.misses_start tag)).append
    ((finds_attributes hbare hend).append (Finds.of_misses (hr.misses_end tag)))
  rw [← text_eq, List.nil_append, List.append_nil] at hfinds
  exact hfinds.findAll_eq

def consumed? (a : WrittenAttribute) : Option Text :=
  if a.name = "v-slot".toList then some unnamed
  else if "v-slot:".toList <+: a.name ∧ isName (a.name.drop 7) = true then some (a.name.drop 7)
  else if ['#'] <+: a.name ∧ isName (a.name.drop 1) = true then some (a.name.drop 1)
  else none

theorem ofAttribute?_name (a : WrittenAttribute) : ofAttribute? a.name = consumed? a := by
  rw [ofAttribute?, consumed?]
  by_cases hbare : a.name = "v-slot".toList
  · rw [if_pos hbare, if_pos hbare]
  rw [if_neg hbare, if_neg hbare]
  by_cases hlong : "v-slot:".toList <+: a.name
  · obtain ⟨name, hname⟩ := hlong
    have hread : after? "v-slot:".toList a.name = some name := after?_eq_some_iff.mpr hname.symm
    have hhash : ¬ ['#'] <+: a.name := by
      rw [← hname]
      rintro ⟨rest, hrest⟩
      exact absurd (List.cons.inj hrest).1 (by decide)
    have hdrop : a.name.drop 7 = name := by
      rw [← hname]
      rfl
    have hlong : "v-slot:".toList <+: a.name := ⟨name, hname⟩
    simp only [hread, hlong, hhash, hdrop, true_and, false_and, if_false]
    exact Option.filter_some
  · have hnone : after? "v-slot:".toList a.name = none := by
      rw [Option.eq_none_iff_forall_ne_some]
      intro name h
      exact hlong ⟨name, (after?_eq_some_iff.mp h).symm⟩
    by_cases hshort : ['#'] <+: a.name
    · obtain ⟨name, hname⟩ := hshort
      have hread : expect? '#' a.name = some name := expect?_eq_some_iff.mpr hname.symm
      have hdrop : a.name.drop 1 = name := by
        rw [← hname]
        rfl
      have hshort : ['#'] <+: a.name := ⟨name, hname⟩
      simp only [hnone, hread, hlong, hshort, hdrop, true_and, false_and, if_false]
      exact Option.filter_some
    · have hread : expect? '#' a.name = none := by
        rw [Option.eq_none_iff_forall_ne_some]
        intro name h
        exact hshort ⟨name, (expect?_eq_some_iff.mp h).symm⟩
      simp only [hnone, hread, hlong, hshort, false_and, if_false]
      rfl

/-- The slots consumed are those of the attributes, tag by tag. -/
theorem consumed_write {pieces : List Piece} (hletter : ∀ tag ∈ tags pieces, tag.name.head?.any Char.isAlpha = true)
    (hbare : ∀ tag ∈ tags pieces, ∀ a ∈ tag.attributes, a.assigned.isBare = false) :
    ((findAll Tag.opening (write pieces)).flatMap fun tag => (findAll attributeName tag).filterMap ofAttribute?) =
      (tags pieces).flatMap fun tag => tag.attributes.filterMap consumed? := by
  rw [findAll_opening_write hletter, List.flatMap_map]
  apply List.flatMap_congr
  intro tag htag
  rw [findAll_attributeName tag (hbare tag htag), List.filterMap_map]
  apply List.filterMap_congr
  intro a _
  exact ofAttribute?_name a

def StartsSlot (t : Text) : Prop := "slot".toList <+: t ∧ (t.drop 4).head?.any isWord = false

instance (t : Text) : Decidable (StartsSlot t) := inferInstanceAs (Decidable (_ ∧ _))

/-- A value in which no `slot` tag starts. -/
def OpensNoSlot (v : Text) : Prop := ∀ u ∈ v.tails, u.head? = some '<' → ¬ StartsSlot u.tail

instance (v : Text) : Decidable (OpensNoSlot v) := List.decidableBAll _ _

/-- A value in which no attribute `name` is assigned anything. -/
def NamesNothing (v : Text) : Prop :=
  ∀ u ∈ v.tails, u.head?.any isBlank = true → "name".toList <+: u.tail →
    (skipBlanks (u.tail.drop 4)).head? ≠ some '='

instance (v : Text) : Decidable (NamesNothing v) := List.decidableBAll _ _

theorem slotTag_eq_none (hw : ¬ StartsSlot w) (ht : ∀ c ∈ t.head?, isWord c = false) (prev : Option Char) :
    slotTag prev ('<' :: (w ++ t)) = none := by
  rw [Option.eq_none_iff_forall_ne_some]
  intro x hx
  obtain ⟨rest, hrest, hx⟩ := Option.bind_eq_some_iff.mp hx
  have htext : w ++ t = "slot".toList ++ rest := (List.cons.inj (after?_eq_some_iff.mp hrest)).2
  have hhead : ∀ c ∈ t.head?, c ∉ "slot".toList := fun c hc => not_mem_of_isWord (by decide) (ht c hc)
  obtain ⟨name, rfl, rfl⟩ := exists_of_append_eq_append htext hhead
  have hbreak : (name ++ t).head?.any isWord = true := by
    cases name with
    | nil =>
      refine absurd ⟨List.prefix_append _ _, ?_⟩ hw
      rfl
    | cons c name =>
      by_contra hc
      refine hw ⟨List.prefix_append _ _, ?_⟩
      simpa using hc
  rw [hbreak] at hx
  cases hx

theorem readsTag_slotTag : ReadsTag slotTag := by
  intro prev t x h
  obtain ⟨rest, hrest, -⟩ := Option.bind_eq_some_iff.mp h
  exact ⟨'s', _, after?_eq_some_iff.mp hrest, by decide⟩

theorem misses_slotTag (ha : '<' ∉ a) : Misses slotTag a t := by
  apply Misses.of_first
  intro c hc prev s
  rw [Option.eq_none_iff_forall_ne_some]
  intro x hx
  obtain ⟨d, u, hu, -⟩ := readsTag_slotTag prev _ x hx
  rw [(List.cons.inj hu).1] at hc
  exact ha hc

theorem misses_slotTag_value (hv : OpensNoSlot v) (hd : isWord d = false) : Misses slotTag v (d :: t) := by
  rintro b u rfl hu prev
  obtain ⟨c, u, rfl⟩ := List.exists_cons_of_ne_nil hu
  by_cases hc : c = '<'
  · subst hc
    have hnot := hv ('<' :: u) ((List.mem_tails _ _).mpr (List.suffix_append b _)) rfl
    refine slotTag_eq_none hnot ?_ prev
    intro e he
    obtain rfl : d = e := by simpa using he
    exact hd
  · have hmiss : Misses slotTag [c] (u ++ d :: t) := misses_slotTag (by simpa using Ne.symm hc)
    exact hmiss [] [c] rfl (by simp) prev

/-- The tag does not disturb the search for slots. -/
structure IsClear (tag : OpeningTag) : Prop where
  /-- No longer name starts with the word. -/
  name : StartsSlot tag.name → tag.name = "slot".toList
  /-- The values of a slot tag do not end it, and do not read like its name. -/
  slot : tag.name = "slot".toList → ∀ a ∈ tag.attributes, ∀ v ∈ a.assigned.quoted?, '>' ∉ v ∧ NamesNothing v
  /-- In the values of another tag no slot tag starts. -/
  other : tag.name ≠ "slot".toList → ∀ a ∈ tag.attributes, ∀ v ∈ a.assigned.quoted?, OpensNoSlot v

instance (tag : OpeningTag) : Decidable (IsClear tag) :=
  decidable_of_iff ((StartsSlot tag.name → tag.name = "slot".toList) ∧
      (tag.name = "slot".toList → ∀ a ∈ tag.attributes, ∀ v ∈ a.assigned.quoted?, '>' ∉ v ∧ NamesNothing v) ∧
      (tag.name ≠ "slot".toList → ∀ a ∈ tag.attributes, ∀ v ∈ a.assigned.quoted?, OpensNoSlot v))
    ⟨fun h => ⟨h.1, h.2.1, h.2.2⟩, fun h => ⟨h.name, h.slot, h.other⟩⟩

theorem misses_slotTag_assigned {assigned : Assigned} (hv : ∀ v ∈ assigned.quoted?, OpensNoSlot v) (t : Text) :
    Misses slotTag assigned.text t := by
  cases assigned with
  | nothing => exact Misses.nil
  | quoted quote text isQuote closed =>
    have hquote : '<' ∉ [quote] ∧ isWord quote = false :=
      (by decide : ∀ q ∈ ['\x22', '\x27'], '<' ∉ [q] ∧ isWord q = false) quote isQuote
    have hopen : '<' ∉ ['=', quote] := by simpa using hquote.1
    exact (misses_slotTag hopen).append ((misses_slotTag_value (hv text rfl) hquote.2).append
      (misses_slotTag hquote.1))
  | bare text isBare _ =>
    apply misses_slotTag
    intro hmem
    rcases List.mem_cons.mp hmem with h | h
    · exact absurd h (by decide)
    · exact absurd (isBare.2 _ h) (by decide)

theorem misses_slotTag_attributes {attributes : List WrittenAttribute}
    (hvalues : ∀ a ∈ attributes, ∀ v ∈ a.assigned.quoted?, OpensNoSlot v) (t : Text) :
    Misses slotTag (attributes.flatMap WrittenAttribute.text) t := by
  induction attributes with
  | nil => exact Misses.nil
  | cons a attributes ih =>
    have hgap : '<' ∉ a.gap := fun h => absurd (a.isGap.2 _ h) (by decide)
    have hname : '<' ∉ a.name := fun h => absurd (a.isName.2 _ h) (by decide)
    have hassigned := misses_slotTag_assigned (hvalues a List.mem_cons_self)
    have hfirst (t : Text) : Misses slotTag a.text t :=
      (misses_slotTag hgap).append ((misses_slotTag hname).append (hassigned t))
    exact (hfirst _).append (ih fun b hb => hvalues b (List.mem_cons_of_mem _ hb))

theorem misses_slotTag_text {tag : OpeningTag} (hname : ¬ StartsSlot tag.name)
    (hvalues : ∀ a ∈ tag.attributes, ∀ v ∈ a.assigned.quoted?, OpensNoSlot v) (t : Text) :
    Misses slotTag tag.text t := by
  have hend : EndsName (tag.attributes.flatMap WrittenAttribute.text ++ (tag.gap ++ (tag.slash ++ '>' :: t))) :=
    OpeningTag.endsName_attributes tag.attributes (endsName_end tag)
  have hgap : '<' ∉ tag.gap ++ (tag.slash ++ ['>']) := by
    have hblanks : '<' ∉ tag.gap := fun h => absurd (tag.isGap _ h) (by decide)
    rcases tag.slash_cases with hs | hs <;> rw [hs] <;> simp [hblanks]
  rw [text_eq]
  refine Misses.append (Misses.cons (fun prev => ?_) (misses_slotTag (not_mem_name tag.isName)))
    ((misses_slotTag_attributes hvalues _).append (misses_slotTag hgap))
  apply slotTag_eq_none hname
  intro c hc
  apply isWord_of_isNamePart
  apply hend.first c
  simpa using hc

theorem slotTag_text {tag : OpeningTag} (hname : tag.name = "slot".toList)
    (hvalues : ∀ a ∈ tag.attributes, ∀ v ∈ a.assigned.quoted?, '>' ∉ v) (prev : Option Char) (t : Text) :
    slotTag prev (tag.text ++ t) = some (tag.text, t) := by
  have hassigned : ∀ a ∈ tag.attributes, '>' ∉ a.assigned.text := by
    intro a ha
    have hv := hvalues a ha
    cases hassigned : a.assigned with
    | nothing => exact List.not_mem_nil
    | quoted quote text isQuote closed =>
      have hquote : '>' ≠ quote := by
        rintro rfl
        exact absurd isQuote (by decide)
      have htext : '>' ∉ text := hv text (by rw [hassigned]; rfl)
      simp [Assigned.text, hquote, htext]
    | bare text isBare _ =>
      intro hmem
      rcases List.mem_cons.mp hmem with h | h
      · exact absurd h (by decide)
      · exact absurd (isBare.2 _ h) (by decide)
  have hinner : '>' ∉ tag.inner ++ tag.slash := by
    have hnot : '>' ∉ tag.inner := OpeningTag.not_mem_inner (by decide) (by decide) hassigned
    rcases tag.slash_cases with hs | hs <;> rw [hs] <;> simp [hnot]
  have hend : EndsName (tag.inner ++ (tag.slash ++ '>' :: t)) := by
    rw [OpeningTag.inner, List.append_assoc]
    exact OpeningTag.endsName_attributes tag.attributes (endsName_end tag)
  have hbreak : (tag.inner ++ (tag.slash ++ '>' :: t)).head?.any isWord = false := by
    cases hh : (tag.inner ++ (tag.slash ++ '>' :: t)).head? with
    | none => rfl
    | some c => exact isWord_of_isNamePart (hend.first c hh)
  have hread : after? "<slot".toList (tag.text ++ t) = some (tag.inner ++ (tag.slash ++ '>' :: t)) := by
    rw [after?_eq_some_iff, tag.text_append, hname]
    rfl
  have hclose := upToChar?_append hinner t
  rw [List.append_assoc] at hclose
  rw [slotTag, hread]
  have htext : "<slot".toList ++ (tag.inner ++ tag.slash) ++ ['>'] = tag.text := by
    rw [OpeningTag.text, hname, List.append_assoc, List.append_assoc]
    rfl
  simp only [Option.bind_eq_bind, Option.bind_some, hbreak, Bool.false_eq_true, if_false, hclose, Option.pure_def,
    htext]

/-- The value in quotes of an attribute `name`. -/
def nameValue? (a : WrittenAttribute) : Option Text :=
  if a.name = "name".toList then a.assigned.quoted? else none

/-- The slot that a tag declares: the one its name gives, or else the unnamed one. -/
def declared? (tag : OpeningTag) : Option Text :=
  if tag.name = "slot".toList then
    some (((tag.attributes.findSome? nameValue?).map trim).filter (!·.isEmpty) |>.getD unnamed)
  else none

theorem nameAttribute_cons (hb : isBlank c = true) (prev : Option Char) (t : Text) :
    nameAttribute prev (c :: t) = ((after? "name".toList t).bind fun t => expect? '=' (skipBlanks t)).bind fun t =>
      Attribute.quotedValue? (skipBlanks t) := by
  rw [nameAttribute, if_pos hb, Option.bind_assoc]
  rfl

theorem readsAttribute_nameAttribute : ReadsAttribute nameAttribute where
  blank prev c t hc := by simp [nameAttribute, hc]
  name prev c d t hd := by
    have hname : after? "name".toList (d :: t) = none := by
      rw [Option.eq_none_iff_forall_ne_some]
      intro rest h
      obtain ⟨rfl, -⟩ := List.cons.inj (after?_eq_some_iff.mp h)
      exact absurd hd (by decide)
    cases hc : isBlank c with
    | false => simp [nameAttribute, hc]
    | true =>
      rw [nameAttribute_cons hc, hname]
      rfl

/-- A value that names nothing is passed over up to its closing quote. -/
theorem misses_nameAttribute_value (hv : NamesNothing v) (hd : d ∈ ['\x22', '\x27']) :
    Misses nameAttribute v (d :: t) := by
  have hquote : d ∉ "name".toList ∧ isBlank d = false ∧ d ≠ '=' :=
    (by decide : ∀ q ∈ ['\x22', '\x27'], q ∉ "name".toList ∧ isBlank q = false ∧ q ≠ '=') d hd
  rintro b u rfl hu prev
  obtain ⟨c, u, rfl⟩ := List.exists_cons_of_ne_nil hu
  cases hc : isBlank c with
  | false => exact readsAttribute_nameAttribute.blank prev c _ hc
  | true =>
    rw [List.cons_append, nameAttribute_cons hc]
    cases hname : after? "name".toList (u ++ d :: t) with
    | none => rfl
    | some rest =>
      obtain ⟨w, rfl, rfl⟩ := exists_of_append_eq_append (after?_eq_some_iff.mp hname) (by simpa using hquote.1)
      have hnot := hv (c :: ("name".toList ++ w)) ((List.mem_tails _ _).mpr (List.suffix_append b _)) hc
        (List.prefix_append _ w)
      have hexpect : expect? '=' (skipBlanks (w ++ d :: t)) = none := by
        rw [expect?_skipBlanks_append_cons hquote.2.1 hquote.2.2, Option.map_eq_none_iff,
          Option.eq_none_iff_forall_ne_some]
        intro rest hrest
        apply hnot
        change (skipBlanks w).head? = some '='
        rw [expect?_eq_some_iff.mp hrest, List.head?_cons]
      rw [Option.bind_some, hexpect]
      rfl

/-- An attribute that is not `name`, or has no quotes, is not read as one. -/
theorem nameAttribute_eq_none (a : WrittenAttribute) (ha : nameValue? a = none) (hbare : a.assigned.isBare = false)
    (ht : EndsName t) (hb : isBlank c = true) (prev : Option Char) :
    nameAttribute prev (c :: (a.name ++ (a.assigned.text ++ t))) = none := by
  have hend : ∀ c ∈ (a.assigned.text ++ t).head?, c ∉ "name".toList := by
    intro c hc hmem
    have hpart := (by decide : ∀ c ∈ "name".toList, Attribute.isNamePart c = true) c hmem
    rw [isNamePart_head a.assigned ht c hc] at hpart
    cases hpart
  rw [nameAttribute_cons hb]
  cases hname : after? "name".toList (a.name ++ (a.assigned.text ++ t)) with
  | none => rfl
  | some rest =>
    obtain ⟨more, hmore, rfl⟩ := exists_of_append_eq_append (after?_eq_some_iff.mp hname) hend
    have hexpect : expect? '=' (skipBlanks (more ++ (a.assigned.text ++ t))) = none := by
      cases more with
      | nil =>
        rw [nameValue?, if_pos (by rw [hmore, List.append_nil])] at ha
        cases hassigned : a.assigned with
        | nothing => exact ht.unassigned
        | quoted quote text isQuote closed => simp [hassigned, Assigned.quoted?] at ha
        | bare text isBare closed => simp [hassigned, Assigned.isBare] at hbare
      | cons d more =>
        have hd : Attribute.isNamePart d = true := a.isName.2 d (by rw [hmore]; simp)
        have hblank : isBlank d = false := isBlank_of_isNamePart hd
        have hequals : d ≠ '=' := by
          rintro rfl
          exact absurd hd (by decide)
        rw [List.cons_append, skipBlanks_cons_of_not hblank]
        simp [expect?, hequals]
    rw [Option.bind_some, hexpect]
    rfl

theorem nameAttribute_eq_some (a : WrittenAttribute) (ha : nameValue? a = some v) (hb : isBlank c = true)
    (prev : Option Char) (t : Text) :
    nameAttribute prev (c :: (a.name ++ (a.assigned.text ++ t))) = some (v, t) := by
  rw [nameValue?] at ha
  split at ha
  · next hname =>
    cases hassigned : a.assigned with
    | nothing => simp [hassigned, Assigned.quoted?] at ha
    | quoted quote text isQuote closed =>
      obtain rfl : text = v := by simpa [hassigned, Assigned.quoted?] using ha
      have hafter : after? "name".toList (a.name ++ ((Assigned.quoted quote text isQuote closed).text ++ t)) =
          some ('=' :: quote :: (text ++ quote :: t)) := by
        rw [after?_eq_some_iff, hname]
        simp [Assigned.text]
      have hequals : isBlank '=' = false := by decide
      have hquote : isBlank quote = false := (by decide : ∀ q ∈ ['\x22', '\x27'], isBlank q = false) quote isQuote
      rw [nameAttribute_cons hb, hafter, Option.bind_some, skipBlanks_cons_of_not hequals, expect?, if_pos rfl,
        Option.bind_some, skipBlanks_cons_of_not hquote]
      exact quotedValue?_quoted isQuote closed t
    | bare text isBare closed => simp [hassigned, Assigned.quoted?] at ha
  · cases ha

theorem misses_nameAttribute (a : WrittenAttribute) (ha : nameValue? a = none) (hbare : a.assigned.isBare = false)
    (hv : ∀ v ∈ a.assigned.quoted?, NamesNothing v) (ht : EndsName t) : Misses nameAttribute a.text t := by
  have hr := readsAttribute_nameAttribute
  obtain ⟨gap, b, hgap, hb, htext⟩ := exists_gap_concat a
  have hname : Misses nameAttribute a.name (a.assigned.text ++ t) :=
    hr.misses fun c hc => isBlank_of_isNamePart (a.isName.2 c hc)
  have hassigned : Misses nameAttribute a.assigned.text t := by
    cases hassigned : a.assigned with
    | nothing => exact Misses.nil
    | quoted quote text isQuote closed =>
      have hblank : isBlank quote = false := (by decide : ∀ q ∈ ['\x22', '\x27'], isBlank q = false) quote isQuote
      have hequals : isBlank '=' = false := by decide
      have hopen : ∀ c ∈ ['=', quote], isBlank c = false := by simp [hequals, hblank]
      have hnothing : NamesNothing text := hv text (by rw [hassigned]; rfl)
      exact (hr.misses hopen).append ((misses_nameAttribute_value hnothing isQuote).append
        (hr.misses (by simpa using hblank)))
    | bare text isBare closed => simp [hassigned, Assigned.isBare] at hbare
  rw [htext]
  refine (hr.misses_gap hgap (isNamePart_of_isBlank hb)).append (Misses.cons (fun prev => ?_) (hname.append hassigned))
  rw [List.append_assoc]
  exact nameAttribute_eq_none a ha hbare ht hb prev

theorem findFirst?_nameAttribute (tag : OpeningTag) (hbare : ∀ a ∈ tag.attributes, a.assigned.isBare = false)
    (hv : ∀ a ∈ tag.attributes, ∀ v ∈ a.assigned.quoted?, NamesNothing v) :
    findFirst? nameAttribute tag.text = tag.attributes.findSome? nameValue? := by
  have hr := readsAttribute_nameAttribute
  have hmisses {attributes : List WrittenAttribute} (hsub : attributes ⊆ tag.attributes)
      (hnone : ∀ a ∈ attributes, nameValue? a = none) {t : Text} (ht : EndsName t) :
      Misses nameAttribute (attributes.flatMap WrittenAttribute.text) t := by
    induction attributes with
    | nil => exact Misses.nil
    | cons a attributes ih =>
      have ha : a ∈ tag.attributes := hsub List.mem_cons_self
      have hfirst := misses_nameAttribute a (hnone a List.mem_cons_self) (hbare a ha) (hv a ha)
        (OpeningTag.endsName_attributes attributes ht)
      exact hfirst.append (ih (List.subset_of_cons_subset hsub) fun b hb => hnone b (List.mem_cons_of_mem _ hb))
  have hend : EndsName (tag.gap ++ (tag.slash ++ ['>'])) := endsName_end tag
  cases hfound : tag.attributes.findSome? nameValue? with
  | none =>
    have hnone := List.findSome?_eq_none_iff.mp hfound
    apply findFirst?_of_misses
    rw [text_eq]
    refine (hr.misses_start tag).append ((hmisses (List.Subset.refl _) hnone ?_).append (hr.misses_end tag))
    rwa [List.append_nil]
  | some v =>
    obtain ⟨before, a, behind, hattributes, ha, hbefore⟩ := List.findSome?_eq_some_iff.mp hfound
    obtain ⟨gap, b, hgap, hb, htext⟩ := exists_gap_concat a
    have hsub : before ⊆ tag.attributes := by
      rw [hattributes]
      exact List.subset_append_left _ _
    have hwritten : tag.text = ('<' :: tag.name ++ (before.flatMap WrittenAttribute.text ++ gap)) ++
        (b :: (a.name ++ (a.assigned.text ++ (behind.flatMap WrittenAttribute.text ++
          (tag.gap ++ (tag.slash ++ ['>'])))))) := by
      rw [text_eq, hattributes]
      simp [htext]
    rw [hwritten]
    refine findFirst?_append_of_misses ?_ (List.cons_ne_nil _ _) (nameAttribute_eq_some a ha hb _ _)
    refine (hr.misses_start tag).append (Misses.append (hmisses hsub hbefore ?_) ?_)
    · have hnext := (OpeningTag.endsAttribute_cons a behind (tag.gap ++ (tag.slash ++ ['>']))).endsName
      simpa [htext] using hnext
    · exact hr.misses_gap hgap (isNamePart_of_isBlank hb)

/-- A slot tag declares what is read from its text. -/
theorem declared?_eq_ofTag {tag : OpeningTag} (hname : tag.name = "slot".toList)
    (hbare : ∀ a ∈ tag.attributes, a.assigned.isBare = false)
    (hv : ∀ a ∈ tag.attributes, ∀ v ∈ a.assigned.quoted?, NamesNothing v) :
    declared? tag = some (ofTag tag.text) := by
  rw [declared?, if_pos hname, ofTag, findFirst?_nameAttribute tag hbare hv]
  cases (tag.attributes.findSome? nameValue?).map trim with
  | none => rfl
  | some name => cases hempty : name.isEmpty <;> simp [Option.filter, hempty]

/-- The slots declared are those of the slot tags. -/
theorem slots_of_tags {pieces : List Piece}
    (hbare : ∀ tag ∈ tags pieces, ∀ a ∈ tag.attributes, a.assigned.isBare = false)
    (hclear : ∀ tag ∈ tags pieces, IsClear tag) :
    (findAll slotTag (write pieces)).map ofTag = (tags pieces).filterMap declared? := by
  have hfinds (tag : OpeningTag) (htag : tag ∈ tags pieces) (t : Text) :
      Finds slotTag tag.text t (if tag.name = "slot".toList then [tag.text] else []) := by
    have hsafe := hclear tag htag
    by_cases hname : tag.name = "slot".toList
    · rw [if_pos hname]
      have hvalues : ∀ a ∈ tag.attributes, ∀ v ∈ a.assigned.quoted?, '>' ∉ v :=
        fun a ha v hv => (hsafe.slot hname a ha v hv).1
      exact Finds.of_some (by simp [OpeningTag.text]) fun prev => slotTag_text hname hvalues prev t
    · rw [if_neg hname]
      exact Finds.of_misses (misses_slotTag_text (mt hsafe.name hname) (hsafe.other hname) t)
  rw [(readsTag_slotTag.finds_write hfinds []).findAll_eq, List.map_flatMap, List.filterMap_eq_flatMap_toList]
  apply List.flatMap_congr
  intro tag htag
  by_cases hname : tag.name = "slot".toList
  · have hread := declared?_eq_ofTag hname (hbare tag htag) fun a ha v hv =>
      ((hclear tag htag).slot hname a ha v hv).2
    rw [if_pos hname, hread]
    rfl
  · rw [if_neg hname, declared?, if_neg hname]
    rfl

/-- The slots that are written: those the slot tags declare, then those the attributes consume, each once. -/
def slotsOf (pieces : List Piece) : Names :=
  ((tags pieces).filterMap declared? ++
    (tags pieces).flatMap fun tag => tag.attributes.filterMap consumed?).eraseDups

/-- The slots of markup are those that are written in it. -/
theorem declared_write (pieces : List Piece)
    (hletter : ∀ tag ∈ tags pieces, tag.name.head?.any Char.isAlpha = true)
    (hbare : ∀ tag ∈ tags pieces, ∀ a ∈ tag.attributes, a.assigned.isBare = false)
    (hclear : ∀ tag ∈ tags pieces, IsClear tag) : declared (write pieces) = slotsOf pieces := by
  rw [declared, slots_of_tags hbare hclear, consumed_write hletter hbare, Names.ofList_eq_eraseDups, slotsOf]

section Examples

open Assigned (isQuote_double isQuote_single)
open WrittenAttribute (isGap_blank isGap_newLine)

-- The value of `title` has the signs of tags in it, and that of `#row` a brace.
def rowTag : OpeningTag where
  name := "div".toList
  attributes := [
    ⟨" ".toList, "title".toList, .quoted '\x22' "a > b <slots name='c'>".toList isQuote_double (by decide),
      isGap_blank, by decide⟩,
    ⟨"\n".toList, "#row".toList, .quoted '\x27' "\x7b a \x7d".toList isQuote_single (by decide),
      isGap_newLine, by decide⟩]
  isName := by decide
  isGap := isBlanks_nil

def headSlot : OpeningTag where
  name := "slot".toList
  attributes := [
    ⟨" ".toList, ":name".toList, .quoted '\x22' "n".toList isQuote_double (by decide), isGap_blank, by decide⟩,
    ⟨"  ".toList, "name".toList, .quoted '\x27' " head ".toList isQuote_single (by decide), by decide, by decide⟩]
  selfClosing := true
  isName := by decide
  isGap := isBlanks_nil

def listTag : OpeningTag where
  name := "List".toList
  attributes := [
    ⟨" ".toList, "v-slot:item".toList, .nothing, isGap_blank, by decide⟩,
    ⟨" ".toList, "#a.b".toList, .nothing, isGap_blank, by decide⟩,
    ⟨" ".toList, "v-slot".toList, .nothing, isGap_blank, by decide⟩]
  gap := " ".toList
  isName := by decide
  isGap := isBlanks_blank

theorem declared_write_row :
    declared ("<div title=\"a > b <slots name='c'>\"\n#row='\x7b a \x7d'>it's #here".toList ++
        "<slot :name=\"n\"  name=' head '/><List v-slot:item #a.b v-slot ></List>".toList) =
      ["head".toList, "row".toList, "item".toList, unnamed] := by
  have hmarkup : "<div title=\"a > b <slots name='c'>\"\n#row='\x7b a \x7d'>it's #here".toList ++
      "<slot :name=\"n\"  name=' head '/><List v-slot:item #a.b v-slot ></List>".toList =
        write [.opening rowTag, .chunk "it's #here".toList (by decide), .opening headSlot, .opening listTag,
          .closing "List".toList (by decide)] := by
    decide +kernel
  rw [hmarkup, declared_write _ (by decide +kernel) (by decide +kernel) (by decide +kernel)]
  decide +kernel

def cardTag : OpeningTag where
  name := "slot-card".toList
  attributes := []
  isName := by decide
  isGap := isBlanks_nil

def textTag : OpeningTag where
  name := "p".toList
  attributes := [
    ⟨" ".toList, "title".toList, .quoted '\x22' "<slot name='x'>".toList isQuote_double (by decide),
      isGap_blank, by decide⟩]
  isName := by decide
  isGap := isBlanks_nil

def titledSlot : OpeningTag where
  name := "slot".toList
  attributes := [
    ⟨" ".toList, "title".toList, .quoted '\x22' "a > b".toList isQuote_double (by decide), isGap_blank, by decide⟩,
    ⟨" ".toList, "name".toList, .quoted '\x22' "x".toList isQuote_double (by decide), isGap_blank, by decide⟩]
  isName := by decide
  isGap := isBlanks_nil

/-- A longer name and a quoted text are taken for slots, and a quoted sign ends a slot before its name. -/
theorem declared_ne_of_unclear :
    (slotsOf [.opening cardTag] = [] ∧ declared (write [.opening cardTag]) = [unnamed]) ∧
    (slotsOf [.opening textTag] = [] ∧ declared (write [.opening textTag]) = ["x".toList]) ∧
    (slotsOf [.opening titledSlot] = ["x".toList] ∧ declared (write [.opening titledSlot]) = [unnamed]) := by
  decide +kernel

end Examples

end SfcContract.Slot
