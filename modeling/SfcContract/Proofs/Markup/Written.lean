import SfcContract.Markup.Attribute
import SfcContract.Markup.Tag
import SfcContract.Proofs.Text.Progress
import SfcContract.Proofs.Text.Word

/-!
# Markup as it is written

Markup is a sequence of tags with text between them. An opening tag has attributes, each after blanks, and
reading it gives these attributes back, with the names and values they were written with.
-/

namespace SfcContract.Markup

/-- How an attribute is given its value: not at all, in quotes, or without them. -/
inductive Assigned where
  | nothing
  | quoted (quote : Char) (text : Text) (isQuote : quote ∈ ['\x22', '\x27']) (closed : quote ∉ text)
  | bare (text : Text) (isBare : text ≠ [] ∧ ∀ c ∈ text, Attribute.isBarePart c = true)
      (closed : text.getLast? ≠ some '/')

namespace Assigned

theorem isQuote_double : '\x22' ∈ ['\x22', '\x27'] := by simp

theorem isQuote_single : '\x27' ∈ ['\x22', '\x27'] := by simp

def text : Assigned → Text
  | nothing => []
  | quoted quote text _ _ => '=' :: quote :: (text ++ [quote])
  | bare text _ _ => '=' :: text

def value? : Assigned → Option Text
  | nothing => none
  | quoted _ text _ _ => some text
  | bare text _ _ => some text

def isBare : Assigned → Bool
  | nothing => false
  | quoted _ _ _ _ => false
  | bare _ _ _ => true

end Assigned

structure WrittenAttribute where
  gap : Text
  name : Text
  assigned : Assigned
  isGap : gap ≠ [] ∧ Text.IsBlanks gap
  isName : name ≠ [] ∧ ∀ c ∈ name, Attribute.isNamePart c = true

namespace WrittenAttribute

theorem isGap_blank : " ".toList ≠ [] ∧ Text.IsBlanks " ".toList := ⟨by decide, Text.isBlanks_blank⟩

theorem isGap_newLine : "\n".toList ≠ [] ∧ Text.IsBlanks "\n".toList := by decide

def text (a : WrittenAttribute) : Text := a.gap ++ (a.name ++ a.assigned.text)

def isBound (a : WrittenAttribute) : Bool := "v-bind:".toList <+: a.name ∨ [':'] <+: a.name

def plainName (a : WrittenAttribute) : Text :=
  if "v-bind:".toList <+: a.name then a.name.drop 7
  else if [':'] <+: a.name then a.name.drop 1
  else a.name

def meaning (a : WrittenAttribute) : Attribute := ⟨a.plainName, a.assigned.value?, a.isBound⟩

end WrittenAttribute

structure OpeningTag where
  name : Text
  attributes : List WrittenAttribute
  gap : Text := []
  selfClosing : Bool := false
  isName : ∀ c ∈ name, Text.isNameChar c = true
  isGap : Text.IsBlanks gap

namespace OpeningTag

/-- The part of a tag after its name, without the signs that end it. -/
def inner (tag : OpeningTag) : Text := tag.attributes.flatMap WrittenAttribute.text ++ tag.gap

def slash (tag : OpeningTag) : Text := if tag.selfClosing then ['/'] else []

def text (tag : OpeningTag) : Text := '<' :: (tag.name ++ (tag.inner ++ (tag.slash ++ ['>'])))

end OpeningTag

theorem ofRaw_written (a : WrittenAttribute) : Attribute.ofRaw (a.name, a.assigned.value?) = a.meaning := by
  rw [Attribute.ofRaw, WrittenAttribute.meaning, WrittenAttribute.plainName, WrittenAttribute.isBound]
  by_cases hlong : "v-bind:".toList <+: a.name
  · obtain ⟨name, hname⟩ := hlong
    have hread : Text.after? "v-bind:".toList a.name = some name := Text.after?_eq_some_iff.mpr hname.symm
    simp only [hread]
    rw [← hname]
    simp
  · have hnone := Text.after?_eq_none_iff.mpr hlong
    by_cases hshort : [':'] <+: a.name
    · obtain ⟨name, hname⟩ := hshort
      have hread : Text.expect? ':' a.name = some name := Text.expect?_eq_some_iff.mpr hname.symm
      simp only [hnone, hread, hlong, if_false]
      rw [← hname]
      simp
    · have hplain : Text.expect? ':' a.name = none := by
        rw [Option.eq_none_iff_forall_ne_some]
        intro name h
        exact hshort ⟨name, (Text.expect?_eq_some_iff.mp h).symm⟩
      simp only [hnone, hplain, hlong, hshort, if_false, or_self, decide_false]
      rfl

/-- What goes on with no name and assigns no value. -/
structure EndsName (t : Text) : Prop where
  first : ∀ c ∈ t.head?, Attribute.isNamePart c = false
  unassigned : Text.expect? '=' (Text.skipBlanks t) = none

/-- Nothing, or a blank in front of something that assigns no value. -/
structure EndsAttribute (t : Text) : Prop where
  first : ∀ c ∈ t.head?, Text.isBlank c = true
  unassigned : Text.expect? '=' (Text.skipBlanks t) = none

theorem EndsAttribute.endsName {t : Text} (h : EndsAttribute t) : EndsName t where
  first c hc := by simp [Attribute.isNamePart, h.first c hc]
  unassigned := h.unassigned

theorem quotedValue?_quoted {quote : Char} {text : Text} (hq : quote ∈ ['\x22', '\x27']) (hclosed : quote ∉ text)
    (t : Text) : Attribute.quotedValue? (quote :: (text ++ quote :: t)) = some (text, t) := by
  have hend := Text.upToChar?_append hclosed t
  simp only [List.mem_cons, List.not_mem_nil, or_false] at hq
  rcases hq with rfl | rfl
  · simp [Attribute.quotedValue?, Text.expect?, hend]
  · simp [Attribute.quotedValue?, Text.expect?, hend]

theorem value?_quoted {quote : Char} {text : Text} (hq : quote ∈ ['\x22', '\x27']) (hclosed : quote ∉ text)
    (t : Text) : Attribute.value? (quote :: (text ++ quote :: t)) = some (text, t) := by
  simp [Attribute.value?, quotedValue?_quoted hq hclosed t]

theorem value?_bare {text t : Text} (hne : text ≠ []) (hb : ∀ c ∈ text, Attribute.isBarePart c = true)
    (ht : ∀ c ∈ t.head?, Attribute.isBarePart c = false) :
    Attribute.value? (text ++ t) = some (text, t) := by
  have htake := Text.takeWhile_append_of_head hb ht
  have hdrop := Text.dropWhile_append_of_head hb ht
  obtain ⟨c, text, rfl⟩ := List.exists_cons_of_ne_nil hne
  have hunquoted : Attribute.quotedValue? (c :: (text ++ t)) = none := by
    have hc : Attribute.isBarePart c = true := hb c List.mem_cons_self
    have hquotes : c ≠ '\x22' ∧ c ≠ '\x27' := by
      constructor <;> rintro rfl <;> exact absurd hc (by decide)
    simp [Attribute.quotedValue?, Text.expect?, hquotes]
  rw [List.cons_append] at htake hdrop ⊢
  simp only [Attribute.value?, hunquoted, htake, hdrop]
  rfl

theorem isBarePart_of_isBlank {c : Char} (hc : Text.isBlank c = true) : Attribute.isBarePart c = false := by
  simp [Attribute.isBarePart, hc]

theorem assignment?_cons {c : Char} (hc : Text.isBlank c = false) (t : Text) :
    Attribute.assignment? ('=' :: c :: t) = Attribute.value? (c :: t) := by
  have hequals : Text.isBlank '=' = false := by decide
  simp [Attribute.assignment?, Text.skipBlanks_cons_of_not hequals, Text.expect?,
    Text.skipBlanks_cons_of_not hc]

/-- Without quotes, a value also needs an end of its own. -/
theorem assignment?_text {assigned : Assigned} {t : Text} (ht : EndsName t)
    (hbare : assigned.isBare = true → ∀ c ∈ t.head?, Attribute.isBarePart c = false) :
    Attribute.assignment? (assigned.text ++ t) = assigned.value?.map fun value => (value, t) := by
  cases assigned with
  | nothing => simp [Attribute.assignment?, Assigned.text, Assigned.value?, ht.unassigned]
  | quoted quote text isQuote closed =>
    have hquote : ∀ q ∈ ['\x22', '\x27'], Text.isBlank q = false := by decide
    have hvalue := value?_quoted isQuote closed t
    rw [← assignment?_cons (hquote quote isQuote)] at hvalue
    simpa [Assigned.text, Assigned.value?] using hvalue
  | bare text isBare closed =>
    have hvalue := value?_bare isBare.1 isBare.2 (hbare rfl)
    obtain ⟨c, text, rfl⟩ := List.exists_cons_of_ne_nil isBare.1
    have hc : Text.isBlank c = false := by
      by_contra hblank
      have hpart := isBare.2 c List.mem_cons_self
      rw [isBarePart_of_isBlank (Bool.of_not_eq_false hblank)] at hpart
      cases hpart
    rw [List.cons_append, ← assignment?_cons hc] at hvalue
    exact hvalue

theorem isNamePart_head (assigned : Assigned) {t : Text} (ht : EndsName t) :
    ∀ c ∈ (assigned.text ++ t).head?, Attribute.isNamePart c = false := by
  cases assigned with
  | nothing => exact ht.first
  | quoted quote text _ _ =>
    intro c hc
    obtain rfl : '=' = c := by simpa [Assigned.text] using hc
    decide
  | bare text _ _ =>
    intro c hc
    obtain rfl : '=' = c := by simpa [Assigned.text] using hc
    decide

theorem raw?_written (a : WrittenAttribute) {t : Text} (ht : EndsName t)
    (hbare : a.assigned.isBare = true → ∀ c ∈ t.head?, Attribute.isBarePart c = false) :
    Attribute.raw? (a.name ++ (a.assigned.text ++ t)) = some ((a.name, a.assigned.value?), t) := by
  have htake := Text.takeWhile_append_of_head a.isName.2 (isNamePart_head a.assigned ht)
  have hdrop := Text.dropWhile_append_of_head a.isName.2 (isNamePart_head a.assigned ht)
  have hempty : a.name.isEmpty = false := by simpa using a.isName.1
  rw [Attribute.raw?, htake, hdrop, hempty, assignment?_text ht hbare]
  cases a.assigned <;> rfl

namespace OpeningTag

variable (tag : OpeningTag)

/-- Attributes start with a blank, whatever follows them. -/
theorem endsAttribute_cons (a : WrittenAttribute) (attributes : List WrittenAttribute) (t : Text) :
    EndsAttribute ((a :: attributes).flatMap WrittenAttribute.text ++ t) := by
  obtain ⟨c, gap, hgap⟩ := List.exists_cons_of_ne_nil a.isGap.1
  obtain ⟨d, name, hname⟩ := List.exists_cons_of_ne_nil a.isName.1
  have hd := a.isName.2 d (by simp [hname])
  have hblank : Text.isBlank d = false := by
    cases hb : Text.isBlank d with
    | false => rfl
    | true => simp [Attribute.isNamePart, hb] at hd
  have hsign : d ≠ '=' := by
    rintro rfl
    exact absurd hd (by decide)
  constructor
  · intro e he
    obtain rfl : c = e := by simpa [WrittenAttribute.text, hgap] using he
    exact a.isGap.2 _ (by simp [hgap])
  · rw [List.flatMap_cons, WrittenAttribute.text, List.append_assoc, List.append_assoc,
      Text.skipBlanks_append a.isGap.2, hname]
    simp [Text.skipBlanks_cons_of_not hblank, Text.expect?, hsign]

theorem endsAttribute_inner (attributes : List WrittenAttribute) {gap : Text} (hg : Text.IsBlanks gap) :
    EndsAttribute (attributes.flatMap WrittenAttribute.text ++ gap) := by
  cases attributes with
  | nil =>
    refine ⟨fun c hc => hg c (List.mem_of_mem_head? hc), ?_⟩
    rw [List.flatMap_nil, List.nil_append, Text.skipBlanks_eq_nil_iff.mpr hg]
    rfl
  | cons a attributes => exact endsAttribute_cons a attributes gap

theorem endsName_attributes (attributes : List WrittenAttribute) {t : Text} (ht : EndsName t) :
    EndsName (attributes.flatMap WrittenAttribute.text ++ t) := by
  cases attributes with
  | nil => exact ht
  | cons a attributes => exact (endsAttribute_cons a attributes t).endsName

private theorem misses_blanks {gap t : Text} (hg : Text.IsBlanks gap) :
    Text.Misses (fun _ t => Attribute.raw? t) gap t := by
  refine Text.Misses.of_first ?_
  intro c hc prev s
  have hpart : Attribute.isNamePart c = false := by simp [Attribute.isNamePart, hg c hc]
  simp [Attribute.raw?, hpart]

theorem findFrom_inner (attributes : List WrittenAttribute) {gap : Text} (hg : Text.IsBlanks gap)
    (prev : Option Char) :
    Text.findFrom (fun _ t => Attribute.raw? t) prev 0 (attributes.flatMap WrittenAttribute.text ++ gap) =
      attributes.map fun a => (a.name, a.assigned.value?) := by
  induction attributes generalizing prev with
  | nil => exact Text.findFrom_of_misses (misses_blanks hg)
  | cons a attributes ih =>
    have hne : a.name ++ a.assigned.text ≠ [] := List.append_ne_nil_of_left_ne_nil a.isName.1 _
    have hend := endsAttribute_inner attributes hg
    have hread := raw?_written a hend.endsName fun _ c hc => isBarePart_of_isBlank (hend.first c hc)
    rw [← List.append_assoc] at hread
    rw [List.flatMap_cons, WrittenAttribute.text, List.append_assoc, List.append_assoc,
      Text.findFrom_append_of_misses (misses_blanks a.isGap.2), Text.findFrom_append_of_some hne hread, ih]
    rfl

end OpeningTag

/-- A text whose last character is not taken for an end of a tag. -/
private def EndsPlain (t : Text) : Prop := ∀ c ∈ t.getLast?, c ≠ '>' ∧ c ≠ '/'

private theorem EndsPlain.append {a b : Text} (ha : EndsPlain a) (hb : EndsPlain b) : EndsPlain (a ++ b) := by
  intro c hc
  rw [List.getLast?_append] at hc
  rcases Option.or_eq_some_iff.mp hc with h | ⟨-, h⟩
  · exact hb c h
  · exact ha c h

private theorem EndsPlain.of_all {p : Char → Bool} {t : Text} (hp : p '>' = false ∧ p '/' = false)
    (ht : ∀ c ∈ t, p c = true) : EndsPlain t := by
  intro c hc
  have hpc := ht c (List.mem_of_getLast? hc)
  constructor <;> rintro rfl <;> simp_all

private theorem EndsPlain.strip {t slash : Text} (ht : EndsPlain t) (hs : slash = [] ∨ slash = ['/']) :
    (((t ++ (slash ++ ['>'])).reverse.dropWhile (· == '>')).dropWhile (· == '/')).reverse = t := by
  have hrev : (t ++ (slash ++ ['>'])).reverse = '>' :: (slash.reverse ++ t.reverse) := by simp
  have hsign : t.reverse.dropWhile (· == '>') = t.reverse ∧ t.reverse.dropWhile (· == '/') = t.reverse := by
    cases hr : t.reverse with
    | nil => exact ⟨rfl, rfl⟩
    | cons c r =>
      have hlast : t.getLast? = some c := by rw [← List.head?_reverse, hr]; rfl
      obtain ⟨hclose, hslash⟩ := ht c hlast
      simp [hclose, hslash]
  rw [hrev]
  rcases hs with rfl | rfl
  · simp [hsign]
  · simp [hsign]

private theorem endsPlain_assigned (assigned : Assigned) : EndsPlain assigned.text := by
  cases assigned with
  | nothing => simp [EndsPlain, Assigned.text]
  | quoted quote text isQuote closed =>
    have hends : ∀ q ∈ ['\x22', '\x27'], q ≠ '>' ∧ q ≠ '/' := by decide
    intro c hc
    obtain rfl : quote = c := by simpa [Assigned.text, List.getLast?_cons] using hc
    exact hends _ isQuote
  | bare text isBare closed =>
    refine EndsPlain.append (a := ['=']) (by simp [EndsPlain]) ?_
    intro c hc
    have hpart := isBare.2 c (List.mem_of_getLast? hc)
    constructor
    · rintro rfl
      exact absurd hpart (by decide)
    · rintro rfl
      exact closed hc

namespace OpeningTag

variable (tag : OpeningTag)

theorem slash_cases : tag.slash = [] ∨ tag.slash = ['/'] := by
  cases hs : tag.selfClosing <;> simp [slash, hs]

private theorem endsPlain_inner : EndsPlain (tag.name ++ tag.inner) := by
  have hblanks {gap : Text} (hg : Text.IsBlanks gap) : EndsPlain gap := .of_all (by decide) hg
  refine (EndsPlain.of_all (by decide) tag.isName).append (EndsPlain.append ?_ (hblanks tag.isGap))
  induction tag.attributes with
  | nil => simp [EndsPlain]
  | cons a attributes ih =>
    have hname : EndsPlain a.name := .of_all (by decide) a.isName.2
    exact (((hblanks a.isGap.2).append (hname.append (endsPlain_assigned a.assigned)))).append ih

theorem region_text : Attribute.region tag.text = tag.inner := by
  have hstrip := tag.endsPlain_inner.strip tag.slash_cases
  rw [List.append_assoc] at hstrip
  have hname : ∀ c ∈ tag.name, (!Text.isBlank c) = true := by
    intro c hc
    rw [Text.isBlank_of_isNameChar (tag.isName c hc)]
    rfl
  have hinner : ∀ c ∈ tag.inner.head?, (!Text.isBlank c) = false := by
    intro c hc
    rw [(endsAttribute_inner tag.attributes tag.isGap).first c hc]
    rfl
  simp only [Attribute.region, text, Text.expect?, if_true, Option.getD_some, hstrip]
  exact Text.dropWhile_append_of_head hname hinner

theorem ofTag_text : Attribute.ofTag tag.text = tag.attributes.map WrittenAttribute.meaning := by
  rw [Attribute.ofTag, tag.region_text, Text.findAll, inner, findFrom_inner _ tag.isGap, List.map_map]
  refine List.map_congr_left ?_
  intro a _
  exact ofRaw_written a

end OpeningTag

/-- A value in quotes that does not look as if it held a tag. -/
def Assigned.IsFlat : Assigned → Prop
  | nothing => True
  | quoted _ text _ _ => '<' ∉ text ∧ '>' ∉ text
  | bare _ _ _ => True

instance : DecidablePred Assigned.IsFlat
  | .nothing => .isTrue trivial
  | .quoted _ text _ _ => inferInstanceAs (Decidable ('<' ∉ text ∧ '>' ∉ text))
  | .bare _ _ _ => .isTrue trivial

theorem Assigned.IsFlat.not_mem_text {assigned : Assigned} (h : assigned.IsFlat) {c : Char}
    (hc : c = '<' ∨ c = '>') : c ∉ assigned.text := by
  have hequals : c ≠ '=' := by rcases hc with rfl | rfl <;> decide
  cases assigned with
  | nothing => exact List.not_mem_nil
  | quoted quote text isQuote closed =>
    have hquote : c ≠ quote := by
      rintro rfl
      rcases hc with rfl | rfl <;> simp at isQuote
    have htext : c ∉ text := by
      rcases hc with rfl | rfl
      · exact h.1
      · exact h.2
    simp [Assigned.text, hequals, hquote, htext]
  | bare text isBare closed =>
    have hpart : Attribute.isBarePart c = false := by rcases hc with rfl | rfl <;> decide
    have htext : c ∉ text := by
      intro hmem
      rw [isBare.2 c hmem] at hpart
      cases hpart
    simp [Assigned.text, hequals, htext]

namespace OpeningTag

def IsFlat (tag : OpeningTag) : Prop := ∀ a ∈ tag.attributes, a.assigned.IsFlat

instance (tag : OpeningTag) : Decidable tag.IsFlat :=
  inferInstanceAs (Decidable (∀ a ∈ tag.attributes, a.assigned.IsFlat))

variable {tag : OpeningTag}

/-- A sign that is in no value is nowhere among the attributes. -/
theorem not_mem_inner {c : Char} (hblank : Text.isBlank c = false) (hname : Attribute.isNamePart c = false)
    (hassigned : ∀ a ∈ tag.attributes, c ∉ a.assigned.text) : c ∉ tag.inner := by
  have hgap {gap : Text} (hg : Text.IsBlanks gap) : c ∉ gap := by
    intro hmem
    rw [hg c hmem] at hblank
    cases hblank
  intro hmem
  rcases List.mem_append.mp hmem with hmem | hmem
  · obtain ⟨a, ha, hmem⟩ := List.mem_flatMap.mp hmem
    simp only [WrittenAttribute.text, List.mem_append] at hmem
    rcases hmem with hmem | hmem | hmem
    · exact hgap a.isGap.2 hmem
    · rw [a.isName.2 c hmem] at hname
      cases hname
    · exact hassigned a ha hmem
  · exact hgap tag.isGap hmem

theorem IsFlat.not_mem_inner (h : tag.IsFlat) {c : Char} (hc : c = '<' ∨ c = '>') : c ∉ tag.inner := by
  apply OpeningTag.not_mem_inner
  · rcases hc with rfl | rfl <;> decide
  · rcases hc with rfl | rfl <;> decide
  · intro a ha
    exact (h a ha).not_mem_text hc

theorem IsFlat.rest?_written (h : tag.IsFlat) (t : Text) :
    Tag.rest? (tag.inner ++ (tag.slash ++ '>' :: t)) = some (tag.inner ++ (tag.slash ++ ['>']), t) := by
  have hslash := tag.slash_cases
  have hclosed := h.not_mem_inner (.inr rfl)
  cases hi : tag.inner with
  | nil =>
    rcases hslash with hs | hs <;> rw [hs] <;> rfl
  | cons c r =>
    have hblank : Text.isBlank c = true := by
      refine (endsAttribute_inner tag.attributes tag.isGap).first c ?_
      rw [← inner, hi]
      rfl
    have hend : '>' ∉ r ++ tag.slash := by
      rw [hi] at hclosed
      rcases hslash with hs | hs <;> simp_all
    have hread := Text.upToChar?_append hend t
    rw [List.append_assoc] at hread
    rw [List.cons_append, Tag.rest?, if_pos hblank, hread]
    simp

theorem text_append (tag : OpeningTag) (t : Text) :
    tag.text ++ t = '<' :: (tag.name ++ (tag.inner ++ (tag.slash ++ '>' :: t))) := by
  simp [text]

theorem IsFlat.named_text (h : tag.IsFlat) (prev : Option Char) (t : Text) :
    Tag.named tag.name prev (tag.text ++ t) = some (tag.text, t) := by
  have hread : Text.after? ('<' :: tag.name) (tag.text ++ t) =
      some (tag.inner ++ (tag.slash ++ '>' :: t)) :=
    Text.after?_eq_some_iff.mpr (tag.text_append t)
  rw [Tag.named, hread]
  simp only [Option.bind_eq_bind, Option.bind_some, h.rest?_written]
  rfl

end OpeningTag

/-- A tag ends its name with a character that cannot stand in it. -/
theorem isNameChar_of_rest? {t : Text} {hit : Text × Text} (h : Tag.rest? t = some hit) :
    ∀ c ∈ t.head?, Text.isNameChar c = false := by
  cases t with
  | nil => simp
  | cons d r =>
    intro c hc
    obtain rfl : d = c := by simpa using hc
    cases hn : Text.isNameChar d with
    | false => rfl
    | true =>
      have hblank := Text.isBlank_of_isNameChar hn
      have hsigns : d ≠ '/' ∧ d ≠ '>' := by
        constructor <;> rintro rfl <;> exact absurd hn (by decide)
      simp [Tag.rest?, hblank, Text.after?, List.isPrefixOf?, Text.expect?, hsigns, Ne.symm hsigns.1] at h

/-- The name of a tag is read as a whole. -/
theorem named_eq_none {name written t : Text} (hname : ∀ c ∈ name, Text.isNameChar c = true)
    (hwritten : ∀ c ∈ written, Text.isNameChar c = true) (ht : ∀ c ∈ t.head?, Text.isNameChar c = false)
    (hne : name ≠ written) (prev : Option Char) : Tag.named name prev ('<' :: (written ++ t)) = none := by
  by_contra hread
  obtain ⟨hit, hhit⟩ := Option.ne_none_iff_exists'.mp hread
  obtain ⟨rest, hrest, hhit⟩ := Option.bind_eq_some_iff.mp hhit
  obtain ⟨inner, hinner, -⟩ := Option.bind_eq_some_iff.mp hhit
  have hsame : written ++ t = name ++ rest := (List.cons.inj (Text.after?_eq_some_iff.mp hrest)).2
  have hleft := Text.takeWhile_append_of_head hwritten ht
  rw [hsame, Text.takeWhile_append_of_head hname (isNameChar_of_rest? hinner)] at hleft
  exact hne hleft

theorem misses_of_no_sign {name a t : Text} (ha : '<' ∉ a) : Text.Misses (Tag.named name) a t := by
  refine Text.Misses.of_first ?_
  intro c hc prev s
  have hne : '<' ≠ c := fun h => ha (h ▸ hc)
  simp [Tag.named, Text.after?, List.isPrefixOf?, hne]

theorem not_mem_name {name : Text} (hname : ∀ c ∈ name, Text.isNameChar c = true) : '<' ∉ name := by
  intro h
  exact absurd (hname _ h) (by decide)

theorem OpeningTag.IsFlat.misses_text {tag : OpeningTag} (h : tag.IsFlat) {name : Text}
    (hname : ∀ c ∈ name, Text.isNameChar c = true) (hne : name ≠ tag.name) (t : Text) :
    Text.Misses (Tag.named name) tag.text t := by
  have hend := isNameChar_of_rest? (h.rest?_written t)
  refine Text.Misses.cons ?_ (misses_of_no_sign ?_)
  · intro prev
    have hnone := named_eq_none hname tag.isName hend hne prev
    rwa [← tag.text_append t] at hnone
  · have hinner := h.not_mem_inner (.inl rfl)
    have hwritten := not_mem_name tag.isName
    rcases tag.slash_cases with hs | hs <;> simp [hs, hinner, hwritten]

inductive Piece where
  | chunk (text : Text) (isFlat : '<' ∉ text)
  | closing (name : Text) (isName : ∀ c ∈ name, Text.isNameChar c = true)
  | opening (tag : OpeningTag)

namespace Piece

def text : Piece → Text
  | chunk text _ => text
  | closing name _ => '<' :: '/' :: (name ++ ['>'])
  | opening tag => tag.text

def tag? : Piece → Option OpeningTag
  | chunk _ _ => none
  | closing _ _ => none
  | opening tag => some tag

end Piece

def write (pieces : List Piece) : Text := pieces.flatMap Piece.text

def tags (pieces : List Piece) : List OpeningTag := pieces.filterMap Piece.tag?

/-- The recogniser reads only from the sign of an opening tag. -/
def ReadsTag {α : Type} (r : Recognizer α) : Prop :=
  ∀ prev t x, r prev t = some x → ∃ c u, t = '<' :: c :: u ∧ c ≠ '/'

/-- A search finds in markup what it finds in the tags one by one. -/
theorem ReadsTag.finds_write {α : Type} {r : Recognizer α} (hr : ReadsTag r) {found : OpeningTag → List α}
    {pieces : List Piece} (htag : ∀ tag ∈ tags pieces, ∀ t, Text.Finds r tag.text t (found tag)) (t : Text) :
    Text.Finds r (write pieces) t ((tags pieces).flatMap found) := by
  have hflat {a t : Text} (ha : '<' ∉ a) : Text.Misses r a t := by
    apply Text.Misses.of_first
    intro c hc prev s
    rw [Option.eq_none_iff_forall_ne_some]
    intro x hx
    obtain ⟨d, u, hu, -⟩ := hr prev _ x hx
    rw [(List.cons.inj hu).1] at hc
    exact ha hc
  induction pieces with
  | nil => exact Text.Finds.of_misses Text.Misses.nil
  | cons piece pieces ih =>
    rw [write, List.flatMap_cons, ← write]
    cases piece with
    | chunk text isFlat => exact (Text.Finds.of_misses (hflat isFlat)).append (ih htag)
    | closing name isName =>
      have hrest : '<' ∉ '/' :: (name ++ ['>']) := by simpa using not_mem_name isName
      have hclosing (t : Text) : Text.Misses r (Piece.closing name isName).text t := by
        refine Text.Misses.cons ?_ (hflat hrest)
        intro prev
        rw [Option.eq_none_iff_forall_ne_some]
        intro x hx
        obtain ⟨c, u, hu, hc⟩ := hr prev _ x hx
        exact hc (List.cons.inj (List.cons.inj hu).2).1.symm
      exact (Text.Finds.of_misses (hclosing _)).append (ih htag)
    | opening tag =>
      exact (htag tag List.mem_cons_self _).append (ih fun other hmem => htag other (List.mem_cons_of_mem _ hmem))

theorem readsTag_named {name : Text} (hname : name ≠ [] ∧ ∀ c ∈ name, Text.isNameChar c = true) :
    ReadsTag (Tag.named name) := by
  intro prev t x h
  obtain ⟨rest, hrest, -⟩ := Option.bind_eq_some_iff.mp h
  obtain ⟨c, name, rfl⟩ := List.exists_cons_of_ne_nil hname.1
  refine ⟨c, name ++ rest, Text.after?_eq_some_iff.mp hrest, ?_⟩
  rintro rfl
  exact absurd (hname.2 '/' List.mem_cons_self) (by decide)

/-- The tags of a name are found in their order, and nothing else is. -/
theorem findFrom_write {name : Text} (hname : name ≠ [] ∧ ∀ c ∈ name, Text.isNameChar c = true)
    {pieces : List Piece} (hflat : ∀ tag ∈ tags pieces, tag.IsFlat) (prev : Option Char) :
    Text.findFrom (Tag.named name) prev 0 (write pieces) =
      ((tags pieces).filter fun tag => tag.name = name).map OpeningTag.text := by
  have hfinds (tag : OpeningTag) (htag : tag ∈ tags pieces) (t : Text) :
      Text.Finds (Tag.named name) tag.text t (if tag.name = name then [tag.text] else []) := by
    by_cases hn : tag.name = name
    · rw [if_pos hn]
      refine Text.Finds.of_some (by simp [OpeningTag.text]) fun prev => ?_
      rw [← hn]
      exact (hflat tag htag).named_text prev t
    · rw [if_neg hn]
      exact Text.Finds.of_misses ((hflat tag htag).misses_text hname.2 (Ne.symm hn) t)
  have hall := (readsTag_named hname).finds_write hfinds [] prev
  rw [List.append_nil, Text.findFrom, List.append_nil] at hall
  rw [hall, ← List.filterMap_eq_map, List.filterMap_filter, List.filterMap_eq_flatMap_toList]
  apply List.flatMap_congr
  intro tag _
  by_cases hn : tag.name = name <;> simp [hn]

end SfcContract.Markup
