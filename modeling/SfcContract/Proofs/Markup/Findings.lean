import SfcContract.Proofs.Markup.Written
import SfcContract.Rule

/-!
# The rules on markup find what violates them

In markup that is written tag by tag, every rule reports each of the tags that violate it, in their order,
and nothing else.
-/

namespace SfcContract.Markup

namespace OpeningTag

def Has (tag : OpeningTag) (name : Text) : Prop := ∃ a ∈ tag.attributes, a.plainName = name

instance (tag : OpeningTag) (name : Text) : Decidable (tag.Has name) :=
  inferInstanceAs (Decidable (∃ a ∈ tag.attributes, a.plainName = name))

def unbound? (tag : OpeningTag) (name : Text) : Option WrittenAttribute :=
  tag.attributes.find? fun a => a.plainName = name ∧ a.isBound = false

/-- What the rules on markup forbid. -/
def Violates (tag : OpeningTag) : RuleId → Prop
  | .imgAlt => tag.name = "img".toList ∧ ¬ tag.Has "alt".toList
  | .buttonType => tag.name = "button".toList ∧ ¬ tag.Has "type".toList
  | .linkHash => tag.name = "a".toList ∧
      (∃ a ∈ tag.unbound? "href".toList, a.assigned.value? = some ['#']) ∧ ¬ tag.Has "role".toList
  | .inputLabel => tag.name = "input".toList ∧
      ¬ tag.Has "aria-label".toList ∧ ¬ tag.Has "aria-labelledby".toList
  | .propUnused => False

instance (tag : OpeningTag) (id : RuleId) : Decidable (tag.Violates id) :=
  match id with
  | .imgAlt => inferInstanceAs (Decidable (_ ∧ _))
  | .buttonType => inferInstanceAs (Decidable (_ ∧ _))
  | .linkHash => inferInstanceAs (Decidable (_ ∧ _))
  | .inputLabel => inferInstanceAs (Decidable (_ ∧ _))
  | .propUnused => .isFalse fun h => h

variable (tag : OpeningTag)

theorem given_iff_has (name : Text) :
    Attribute.given (tag.attributes.map WrittenAttribute.meaning) name = true ↔ tag.Has name := by
  simp [Attribute.given, Has, WrittenAttribute.meaning]

theorem static?_eq (name : Text) : Attribute.static? (tag.attributes.map WrittenAttribute.meaning) name =
    (tag.unbound? name).bind fun a => a.assigned.value? := by
  have hsame : (fun a : Attribute => a.name == name && !a.bound) ∘ WrittenAttribute.meaning =
      fun a => decide (a.plainName = name ∧ a.isBound = false) := by
    funext a
    rw [Bool.eq_iff_iff]
    simp [WrittenAttribute.meaning]
  rw [Attribute.static?, List.find?_map, hsame, unbound?]
  cases tag.attributes.find? fun a => decide (a.plainName = name ∧ a.isBound = false) <;> rfl

/-- A rule decides by name and attributes what is said of the tag as it is written. -/
theorem violates_iff {rule : MarkupRule} (hrule : rule ∈ MarkupRule.all) :
    tag.name = rule.tag ∧ rule.violates (tag.attributes.map WrittenAttribute.meaning) = true ↔
      tag.Violates rule.id := by
  simp only [MarkupRule.all, List.mem_cons, List.not_mem_nil, or_false] at hrule
  rcases hrule with rfl | rfl | rfl | rfl
  · simp only [MarkupRule.imgAlt, Violates, Bool.not_eq_true', ← Bool.not_eq_true, given_iff_has]
  · simp only [MarkupRule.buttonType, Violates, Bool.not_eq_true', ← Bool.not_eq_true, given_iff_has]
  · simp only [MarkupRule.linkHash, Violates, Bool.and_eq_true, Bool.not_eq_true', ← Bool.not_eq_true,
      given_iff_has, beq_iff_eq, static?_eq, Option.bind_eq_some_iff]
    rfl
  · simp only [MarkupRule.inputLabel, Violates, Bool.and_eq_true, Bool.not_eq_true', ← Bool.not_eq_true,
      given_iff_has]

end OpeningTag

theorem check_write {rule : MarkupRule} (hrule : rule ∈ MarkupRule.all) {pieces : List Piece}
    (hflat : ∀ tag ∈ tags pieces, tag.IsFlat) :
    rule.check (write pieces) = ((tags pieces).filter fun tag => tag.Violates rule.id).map fun tag =>
      Diagnostic.onTag rule.id rule.message tag.text := by
  have hname : rule.tag ≠ [] ∧ ∀ c ∈ rule.tag, Text.isNameChar c = true := by
    have hall : ∀ tag ∈ MarkupRule.all.map MarkupRule.tag, tag ≠ [] ∧ ∀ c ∈ tag, Text.isNameChar c = true := by
      decide
    exact hall rule.tag (List.mem_map_of_mem hrule)
  have hsame : (fun tag : OpeningTag => rule.violates (Attribute.ofTag tag.text) && decide (tag.name = rule.tag)) =
      fun tag => decide (tag.Violates rule.id) := by
    funext tag
    rw [Bool.eq_iff_iff, tag.ofTag_text, Bool.and_eq_true, decide_eq_true_eq, decide_eq_true_eq, and_comm,
      tag.violates_iff hrule]
  have hfound := findFrom_write hname hflat none
  rw [MarkupRule.check, Text.findAll, hfound, List.filter_map, List.filter_filter, List.map_map]
  simp only [Function.comp_apply, hsame]
  rfl

/-- The rules report exactly the violating tags, rule by rule and in the order of the tags. -/
theorem checkAll_write (pieces : List Piece) (hflat : ∀ tag ∈ tags pieces, tag.IsFlat) :
    MarkupRule.checkAll (write pieces) =
      [MarkupRule.imgAlt, .buttonType, .linkHash, .inputLabel].flatMap fun rule =>
        ((tags pieces).filter fun tag => tag.Violates rule.id).map fun tag =>
          Diagnostic.onTag rule.id rule.message tag.text := by
  rw [MarkupRule.checkAll]
  refine List.flatMap_congr ?_
  intro rule hrule
  exact check_write hrule hflat

-- A bound `href` before the one that counts, and a value right before the end of its tag.
def hashLink : OpeningTag where
  name := "a".toList
  attributes := [
    ⟨" ".toList, ":href".toList, .quoted '\x22' "'/'".toList (by decide) (by decide), by decide, by decide⟩,
    ⟨"\n".toList, "href".toList, .bare "#".toList (by decide) (by decide), by decide, by decide⟩]
  selfClosing := true
  isName := by decide
  isGap := Text.isBlanks_nil

def labelledInput : OpeningTag where
  name := "input".toList
  attributes := [⟨" ".toList, "v-bind:aria-label".toList, .nothing, by decide, by decide⟩]
  gap := " ".toList
  isName := by decide
  isGap := by decide

-- The text of a value is no attribute.
def plainImage : OpeningTag where
  name := "img".toList
  attributes := [
    ⟨" ".toList, "src".toList, .quoted '\x27' "a alt=\"b\"".toList (by decide) (by decide), by decide, by decide⟩]
  isName := by decide
  isGap := Text.isBlanks_nil

theorem checkAll_write_links :
    MarkupRule.checkAll "<a :href=\"'/'\"\nhref=#/>x > y</a-b><input v-bind:aria-label ><img src='a alt=\"b\"'>".toList =
      [Diagnostic.onTag .imgAlt MarkupRule.imgAlt.message plainImage.text,
        Diagnostic.onTag .linkHash MarkupRule.linkHash.message hashLink.text] := by
  have hmarkup : "<a :href=\"'/'\"\nhref=#/>x > y</a-b><input v-bind:aria-label ><img src='a alt=\"b\"'>".toList =
      write [.opening hashLink, .chunk "x > y".toList (by decide), .closing "a-b".toList (by decide),
        .opening labelledInput, .opening plainImage] := by
    decide +kernel
  rw [hmarkup, checkAll_write _ (by decide +kernel)]
  decide +kernel

end SfcContract.Markup
