import SfcContract.Proofs.Markup.Written
import SfcContract.Usage

/-!
# Branches as they are counted

The branches of a template are the places where the text of a branch directive stands. No sign of a tag and no
blank is part of such a text, so the branches of markup are those of its names, its values and the text between
its tags, each on its own. Attributes that are branch directives are among these names.
-/

namespace SfcContract

def branchWords : List Text := ["v-if".toList, "v-else-if".toList, "v-for".toList]

/-- How many branch directives are read in a text, whatever they are part of. -/
def branchReadings (t : Text) : Nat := (Text.findAll branchDirective t).length

/-- No branch directive has the character in it. -/
def IsBranchSign (c : Char) : Prop := ∀ word ∈ branchWords, c ∉ word

instance (c : Char) : Decidable (IsBranchSign c) := inferInstanceAs (Decidable (∀ word ∈ branchWords, c ∉ word))

variable {a t e : Text} {c : Char} {prev : Option Char} {n : Nat}

theorem isBranchSign_of_isBlank (hc : Text.isBlank c = true) : IsBranchSign c := by
  have hletters : ∀ word ∈ branchWords, ∀ d ∈ word, Text.isBlank d = false := by decide
  intro word hword hmem
  rw [hletters word hword c hmem] at hc
  cases hc

theorem branchWord_ne_nil : ∀ word ∈ branchWords, word ≠ [] := by decide

theorem branchDirective_eq (prev : Option Char) (t : Text) :
    branchDirective prev t = (branchWords.findSome? (Text.after? · t)).map fun rest => ((), rest) := rfl

theorem branchDirective_isSome_iff :
    (branchDirective prev t).isSome = true ↔ ∃ word ∈ branchWords, word <+: t := by
  rw [branchDirective_eq, Option.isSome_map, List.findSome?_isSome_iff]
  refine exists_congr fun word => and_congr_right fun _ => ?_
  rw [Option.isSome_iff_ne_none, ne_eq, Text.after?_eq_none_iff, not_not]

theorem readsWithin_branchDirective (ht : ∀ c ∈ t.head?, IsBranchSign c) :
    Text.ReadsWithin branchDirective a t := by
  intro b u _ _ prev
  have hcut : ∀ word ∈ branchWords, Text.after? word (u ++ t) = (Text.after? word u).map (· ++ t) :=
    fun word hword => Text.after?_append_of_head fun c hc => ht c hc word hword
  have hread : branchWords.findSome? (Text.after? · (u ++ t)) =
      (branchWords.findSome? (Text.after? · u)).map (· ++ t) := by
    rw [List.map_findSome?, ← List.head?_filterMap, ← List.head?_filterMap, List.filterMap_congr hcut]
    rfl
  rw [branchDirective_eq, branchDirective_eq, hread, Option.map_map, Option.map_map]
  rfl

theorem findFrom_branchDirective (prev : Option Char) (t : Text) :
    Text.findFrom branchDirective prev 0 t = Text.findAll branchDirective t := by
  cases t <;> rfl

theorem branchReadings_cons (hc : IsBranchSign c) (t : Text) : branchReadings (c :: t) = branchReadings t := by
  have hnone : branchDirective none (c :: t) = none := by
    rw [← Option.not_isSome_iff_eq_none, branchDirective_isSome_iff]
    rintro ⟨word, hword, hlead⟩
    obtain ⟨d, letters, rfl⟩ := List.exists_cons_of_ne_nil (branchWord_ne_nil word hword)
    obtain ⟨rfl, -⟩ := List.cons_prefix_cons.mp hlead
    exact hc _ hword List.mem_cons_self
  rw [branchReadings, Text.findAll, Text.findFrom, hnone]
  dsimp only
  rw [findFrom_branchDirective, branchReadings]

/-- The readings on both sides of a sign do not depend on each other. -/
theorem branchReadings_append_cons (hc : IsBranchSign c) (a t : Text) :
    branchReadings (a ++ c :: t) = branchReadings a + branchReadings t := by
  have hcut : ∀ d ∈ (c :: t).head?, IsBranchSign d := by simpa using hc
  rw [branchReadings, Text.findAll, (readsWithin_branchDirective hcut).findFrom_append (Nat.zero_le a.length),
    List.length_append, findFrom_branchDirective, findFrom_branchDirective, ← branchReadings, ← branchReadings,
    branchReadings_cons hc]

theorem branchReadings_eq_zero_iff : branchReadings t = 0 ↔ ∀ word ∈ branchWords, ¬ word <:+: t := by
  have hfirst : branchReadings t = 0 ↔ ¬ (Text.find? branchDirective ([] : Text).getLast? t).isSome = true := by
    rw [branchReadings, List.length_eq_zero_iff, ← List.head?_eq_none_iff, ← Text.findFirst?_eq_head?,
      Text.findFirst?, Option.map_eq_none_iff, Option.not_isSome_iff_eq_none]
    rfl
  rw [hfirst, Text.find?_isSome_iff]
  constructor
  · rintro hnone word hword ⟨b, s, rfl⟩
    have hread : (branchDirective b.getLast? (word ++ s)).isSome = true :=
      branchDirective_isSome_iff.mpr ⟨word, hword, List.prefix_append word s⟩
    have hne : word ++ s ≠ [] := List.append_ne_nil_of_left_ne_nil (branchWord_ne_nil word hword) s
    exact hnone ⟨b, word ++ s, List.append_assoc b word s, hne, hread⟩
  · rintro hnone ⟨b, u, rfl, -, hsome⟩
    obtain ⟨word, hword, hlead⟩ := branchDirective_isSome_iff.mp hsome
    exact hnone word hword (hlead.isInfix.trans (List.suffix_append b u).isInfix)

/-- All readings in some texts, each on its own. -/
def readingsIn : List Text → Nat
  | [] => 0
  | part :: parts => branchReadings part + readingsIn parts

theorem readingsIn_cons (part : Text) (parts : List Text) :
    readingsIn (part :: parts) = branchReadings part + readingsIn parts := rfl

theorem readingsIn_append (parts parts' : List Text) :
    readingsIn (parts ++ parts') = readingsIn parts + readingsIn parts' := by
  induction parts with
  | nil => exact (Nat.zero_add _).symm
  | cons part parts ih => rw [List.cons_append, readingsIn_cons, readingsIn_cons, ih, Nat.add_assoc]

/-- No reading reaches from elsewhere into a text with so many readings. -/
def Stands (e : Text) (n : Nat) : Prop := ∀ a, branchReadings (a ++ e) = branchReadings a + n

theorem Stands.readings (h : Stands e n) : branchReadings e = n := by
  have hall := h []
  rwa [List.nil_append, show branchReadings [] = 0 from rfl, Nat.zero_add] at hall

theorem stands_cons (hc : IsBranchSign c) (h : branchReadings e = n) : Stands (c :: e) n := fun a => by
  rw [branchReadings_append_cons hc, h]

theorem stands_blanks {gap : Text} (hne : gap ≠ []) (hgap : Text.IsBlanks gap) (h : branchReadings e = n) :
    Stands (gap ++ e) n := by
  induction gap with
  | nil => exact absurd rfl hne
  | cons c gap ih =>
    have hc := isBranchSign_of_isBlank (hgap c List.mem_cons_self)
    refine stands_cons hc ?_
    by_cases hnil : gap = []
    · subst hnil
      exact h
    · exact (ih hnil fun d hd => hgap d (List.mem_cons_of_mem c hd)).readings

namespace Markup

def WrittenAttribute.IsBranch (a : WrittenAttribute) : Prop := a.name ∈ branchWords

instance : DecidablePred WrittenAttribute.IsBranch := fun a => inferInstanceAs (Decidable (a.name ∈ branchWords))

/-- What an attribute holds beside the name of a branch directive. -/
def WrittenAttribute.others (a : WrittenAttribute) : List Text :=
  (if a.IsBranch then [] else [a.name]) ++ a.assigned.value?.toList

def OpeningTag.others (tag : OpeningTag) : List Text := tag.name :: tag.attributes.flatMap WrittenAttribute.others

/-- The texts of markup that are no names of branch directives: the names of tags and of other attributes, the
values, and the text between two tags, which may be made of several chunks. -/
def others : List Piece → List Text
  | [] => [[]]
  | .chunk text _ :: pieces => (others pieces).modifyHead (text ++ ·)
  | .closing name _ :: pieces => [] :: name :: others pieces
  | .opening tag :: pieces => [] :: (tag.others ++ others pieces)

def branches (pieces : List Piece) : List WrittenAttribute :=
  ((tags pieces).flatMap OpeningTag.attributes).filter (·.IsBranch)

/-- A branch directive is read once in its own name. -/
theorem branchReadings_name (a : WrittenAttribute) :
    branchReadings a.name = (if a.IsBranch then 1 else 0) + readingsIn (if a.IsBranch then [] else [a.name]) := by
  have hwords : ∀ word ∈ branchWords, branchReadings word = 1 := by decide
  split_ifs with hbranch
  · exact hwords a.name hbranch
  · rw [Nat.zero_add]
    rfl

theorem stands_assigned (assigned : Assigned) (h : Stands e n) :
    Stands (assigned.text ++ e) (readingsIn assigned.value?.toList + n) := by
  have hequals : IsBranchSign '=' := by decide
  cases assigned with
  | nothing => simpa [Assigned.text, Assigned.value?, readingsIn] using h
  | quoted quote text isQuote closed =>
    have hquotes : ∀ q ∈ ['\x22', '\x27'], IsBranchSign q := by decide
    have hquote := hquotes quote isQuote
    have hvalue : branchReadings (quote :: (text ++ quote :: e)) = branchReadings text + n := by
      rw [branchReadings_cons hquote, branchReadings_append_cons hquote, h.readings]
    simpa [Assigned.text, Assigned.value?, readingsIn] using stands_cons hequals hvalue
  | bare text isBare closed => simpa [Assigned.text, Assigned.value?, readingsIn] using stands_cons hequals (h text)

theorem stands_attribute (a : WrittenAttribute) (h : Stands e n) :
    Stands (a.text ++ e) ((if a.IsBranch then 1 else 0) + readingsIn a.others + n) := by
  have hname := stands_assigned a.assigned h a.name
  have hgap := stands_blanks a.isGap.1 a.isGap.2 hname
  rw [WrittenAttribute.text, List.append_assoc, List.append_assoc, WrittenAttribute.others, readingsIn_append,
    ← Nat.add_assoc, ← branchReadings_name, Nat.add_assoc]
  exact hgap

theorem stands_attributes (attributes : List WrittenAttribute) (h : Stands e n) :
    Stands (attributes.flatMap WrittenAttribute.text ++ e)
      (attributes.countP (·.IsBranch) + readingsIn (attributes.flatMap WrittenAttribute.others) + n) := by
  induction attributes with
  | nil => simpa [readingsIn] using h
  | cons a attributes ih =>
    have ha := stands_attribute a ih
    rw [← List.append_assoc, ← List.flatMap_cons] at ha
    intro x
    rw [ha x, List.countP_cons, List.flatMap_cons, readingsIn_append]
    simp only [decide_eq_true_eq]
    omega

theorem stands_tag (tag : OpeningTag) (h : branchReadings e = n) :
    Stands (tag.text ++ e) (tag.attributes.countP (·.IsBranch) + readingsIn tag.others + n) := by
  have hend : Stands ('>' :: e) n := stands_cons (by decide) h
  have hslash : Stands (tag.slash ++ '>' :: e) n := by
    rcases tag.slash_cases with hs | hs
    · rwa [hs, List.nil_append]
    · rw [hs]
      exact stands_cons (by decide) hend.readings
  have hgap : Stands (tag.gap ++ (tag.slash ++ '>' :: e)) n := by
    by_cases hnil : tag.gap = []
    · rwa [hnil, List.nil_append]
    · exact stands_blanks hnil tag.isGap hslash.readings
  have hname := stands_attributes tag.attributes hgap tag.name
  have hsign := stands_cons (c := '<') (by decide) hname
  rw [tag.text_append, OpeningTag.inner, List.append_assoc]
  intro x
  rw [hsign x, OpeningTag.others, readingsIn_cons]
  omega

theorem branches_opening (tag : OpeningTag) (pieces : List Piece) :
    (branches (.opening tag :: pieces)).length = tag.attributes.countP (·.IsBranch) + (branches pieces).length := by
  rw [branches, branches, ← List.countP_eq_length_filter, ← List.countP_eq_length_filter]
  exact List.countP_append

theorem modifyHead_nil_append (parts : List Text) : parts.modifyHead ([] ++ ·) = parts := by cases parts <;> rfl

theorem branchReadings_append_write (a : Text) (pieces : List Piece) : branchReadings (a ++ write pieces) =
    (branches pieces).length + readingsIn ((others pieces).modifyHead (a ++ ·)) := by
  induction pieces generalizing a with
  | nil => simp [write, branches, tags, others, readingsIn]
  | cons piece pieces ih =>
    have hrest := ih []
    rw [List.nil_append, modifyHead_nil_append] at hrest
    rw [write, List.flatMap_cons, ← write]
    cases piece with
    | chunk text isFlat =>
      have hchunk := ih (a ++ text)
      simp only [List.append_assoc] at hchunk
      rw [others, List.modifyHead_modifyHead]
      exact hchunk
    | closing name isName =>
      have hname : branchReadings (name ++ '>' :: write pieces) = branchReadings name + branchReadings (write pieces) :=
        branchReadings_append_cons (by decide) name (write pieces)
      have hslash := (stands_cons (c := '/') (by decide) hname).readings
      have hsign := stands_cons (c := '<') (by decide) hslash a
      have hwritten : (Piece.closing name isName).text ++ write pieces =
          '<' :: '/' :: (name ++ '>' :: write pieces) := by simp [Piece.text]
      rw [hwritten, hsign, hrest, others, List.modifyHead_cons, List.append_nil, readingsIn_cons, readingsIn_cons,
        Nat.add_left_comm (branchReadings name), Nat.add_left_comm (branchReadings a)]
      rfl
    | opening tag =>
      rw [Piece.text, stands_tag tag hrest, branches_opening, others, List.modifyHead_cons, List.append_nil,
        readingsIn_cons, readingsIn_append]
      omega

theorem readingsIn_eq_zero_iff {parts : List Text} :
    readingsIn parts = 0 ↔ ∀ part ∈ parts, ∀ word ∈ branchWords, ¬ word <:+: part := by
  induction parts with
  | nil => exact iff_of_true rfl nofun
  | cons part parts ih => rw [readingsIn, Nat.add_eq_zero_iff, branchReadings_eq_zero_iff, ih, List.forall_mem_cons]

/-- The branches are the attributes that are branch directives and all that reads like one elsewhere. -/
theorem branches_write (pieces : List Piece) (setup plain : Text) (usage : Usage) :
    (Metrics.of ⟨write pieces, setup, plain⟩ usage).branches = (branches pieces).length + readingsIn (others pieces) ∧
      ((Metrics.of ⟨write pieces, setup, plain⟩ usage).branches = (branches pieces).length ↔
        ∀ part ∈ others pieces, ∀ word ∈ branchWords, ¬ word <:+: part) := by
  have hall : branchReadings (write pieces) = (branches pieces).length + readingsIn (others pieces) := by
    have h := branchReadings_append_write [] pieces
    rwa [List.nil_append, modifyHead_nil_append] at h
  have hbranches : (Metrics.of ⟨write pieces, setup, plain⟩ usage).branches = _ := hall
  refine ⟨hbranches, ?_⟩
  rw [hbranches, ← readingsIn_eq_zero_iff]
  omega

def labelledForm : OpeningTag where
  name := "v-form".toList
  attributes := [
    ⟨" ".toList, "label".toList, .quoted '\x22' "v-if".toList Assigned.isQuote_double (by decide),
      WrittenAttribute.isGap_blank, by decide⟩]
  isName := by decide
  isGap := Text.isBlanks_nil

def labelledPieces : List Piece := [.opening labelledForm, .chunk "v-else-if".toList (by decide)]

/-- The name of a tag, a value and a text are counted, none of which is a branch directive. -/
theorem branches_ne_of_form : (branches labelledPieces).length = 0 ∧
    (Metrics.of ⟨write labelledPieces, [], []⟩ ⟨[], []⟩).branches = 3 := by
  decide +kernel

end Markup

end SfcContract
