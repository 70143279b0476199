import SfcContract.Proofs.Text.Progress
import SfcContract.Rule

/-!
# Findings are local

A tag ends at the first `>` after its sign `<`. So no tag reaches over a place at which none is open, and what
a rule finds on one side of that place does not depend on the other side.
-/

namespace SfcContract

namespace Tag

variable {name a : Text} {prev : Option Char}

/-- The end of a tag is read in `a` when `a` holds a `>`, whatever follows. -/
theorem rest?_append (ha : '>' ∈ a) (t : Text) :
    rest? (a ++ t) = (rest? a).map fun hit => (hit.1, hit.2 ++ t) := by
  have hslash : Text.after? ['/', '>'] (a ++ t) = _ := Text.after?_append (by decide) ha t
  obtain ⟨c, r, rfl⟩ := List.exists_cons_of_ne_nil (List.ne_nil_of_mem ha)
  have hend : Text.expect? '>' (c :: r ++ t) = (Text.expect? '>' (c :: r)).map (· ++ t) := by
    by_cases hc : c = '>' <;> simp [Text.expect?, hc]
  rw [List.cons_append] at hslash hend ⊢
  cases hc : Text.isBlank c with
  | true =>
    have hne : '>' ≠ c := by
      rintro rfl
      exact absurd hc (by decide)
    obtain ⟨x, y, rfl, hx⟩ := List.eq_append_cons_of_mem (List.mem_of_ne_of_mem hne ha)
    rw [List.append_assoc, List.cons_append]
    simp only [rest?, hc, if_true, Text.upToChar?_append hx]
    rfl
  | false =>
    simp only [rest?, hc, Bool.false_eq_true, if_false, hslash, hend]
    cases Text.after? ['/', '>'] (c :: r) <;> cases Text.expect? '>' (c :: r) <;> rfl

theorem named_append (hname : '>' ∉ name) (ha : '>' ∈ a) (t : Text) :
    named name prev (a ++ t) = (named name prev a).map fun hit => (hit.1, hit.2 ++ t) := by
  have hlead : '>' ∉ '<' :: name := by simpa using hname
  have hstart := Text.after?_append (fun h => hlead (List.dropLast_subset _ h)) ha t
  cases hr : Text.after? ('<' :: name) a with
  | none =>
    rw [hr] at hstart
    simp [named, hr, hstart]
  | some rest =>
    rw [hr] at hstart
    have hrest : '>' ∈ rest := by
      rw [Text.after?_eq_some_iff.mp hr] at ha
      exact (List.mem_append.mp ha).resolve_left hlead
    simp only [named, hstart, hr, Option.map_some, Option.bind_eq_bind, Option.bind_some, rest?_append hrest t]
    cases rest? rest <;> rfl

end Tag

namespace Markup

variable {a u v : Text}

/-- No tag is open at the end: there is no sign `<`, or a `>` stands after the last one. -/
def EndsOutsideTags (a : Text) : Prop := '<' ∉ a ∨ ∃ u v, a = u ++ '<' :: v ∧ '<' ∉ v ∧ '>' ∈ v

theorem EndsOutsideTags.mem_of_append (h : EndsOutsideTags (u ++ '<' :: v)) : '>' ∈ v := by
  rcases h with hnone | ⟨u', v', he, hlast, hend⟩
  · exact absurd (by simp) hnone
  · rcases List.append_eq_append_iff.mp he with ⟨w, -, hw⟩ | ⟨w, -, hw⟩
    · cases w with
      | nil =>
        obtain ⟨-, rfl⟩ := List.cons.inj hw
        exact hend
      | cons d w =>
        obtain ⟨-, rfl⟩ := List.cons.inj hw
        exact List.mem_append_right _ (List.mem_cons_of_mem _ hend)
    · cases w with
      | nil =>
        obtain ⟨-, rfl⟩ := List.cons.inj hw
        exact hend
      | cons d w =>
        obtain ⟨-, rfl⟩ := List.cons.inj hw
        exact absurd (by simp) hlast

theorem endsOutsideTags_of_getLast? (ha : a.getLast? = some '>') : EndsOutsideTags a := by
  obtain ⟨r, rfl⟩ := List.getLast?_eq_some_iff.mp ha
  by_cases hopen : '<' ∈ r
  · obtain ⟨v, u, he, hv⟩ := List.eq_append_cons_of_mem (List.mem_reverse.mpr hopen)
    have hr : r = u.reverse ++ '<' :: v.reverse := by simpa using congrArg List.reverse he
    refine .inr ⟨u.reverse, v.reverse ++ ['>'], by simp [hr], ?_, by simp⟩
    simpa using hv
  · exact .inl (by simpa using hopen)

theorem readsWithin_named {name : Text} (hname : '>' ∉ name) (ha : EndsOutsideTags a) (b : Text) :
    Text.ReadsWithin (Tag.named name) a b := by
  rintro u v rfl hv prev
  obtain ⟨c, v, rfl⟩ := List.exists_cons_of_ne_nil hv
  by_cases hc : c = '<'
  · subst hc
    exact Tag.named_append hname (List.mem_cons_of_mem _ ha.mem_of_append) b
  · have hnone (s : Text) : Tag.named name prev (c :: s) = none := by
      simp [Tag.named, Text.after?, List.isPrefixOf?, Ne.symm hc]
    rw [List.cons_append, hnone, hnone, Option.map_none]

theorem findAll_named_append {name : Text} (hname : '>' ∉ name) (ha : EndsOutsideTags a) (b : Text) :
    Text.findAll (Tag.named name) (a ++ b) =
      Text.findAll (Tag.named name) a ++ Text.findAll (Tag.named name) b := by
  -- A tag is read alike after every character, so the search may start anew behind `a`.
  have hprev (p : Option Char) : Text.findFrom (Tag.named name) p 0 b = Text.findAll (Tag.named name) b := by
    cases b <;> rfl
  rw [Text.findAll, (readsWithin_named hname ha b).findFrom_append (Nat.zero_le _), hprev]
  rfl

theorem check_append {rule : MarkupRule} (hrule : rule ∈ MarkupRule.all) (ha : EndsOutsideTags a) (b : Text) :
    rule.check (a ++ b) = rule.check a ++ rule.check b := by
  have hname : '>' ∉ rule.tag := by
    have hall : ∀ tag ∈ MarkupRule.all.map MarkupRule.tag, '>' ∉ tag := by decide
    exact hall rule.tag (List.mem_map_of_mem hrule)
  rw [MarkupRule.check, findAll_named_append hname ha, List.filter_append, List.map_append]
  rfl

/-- Where no tag is open, markup can be cut without changing what a rule finds. So the findings for a complete
tag are those for the tag alone, whatever stands behind it and whatever ended before it. -/
theorem check_isLocal {rule : MarkupRule} (hrule : rule ∈ MarkupRule.all) {a : Text} (ha : EndsOutsideTags a)
    (b : Text) : rule.check (a ++ b) = rule.check a ++ rule.check b ∧
      ∀ tag : Text, tag.getLast? = some '>' →
        rule.check (a ++ (tag ++ b)) = rule.check a ++ (rule.check tag ++ rule.check b) := by
  refine ⟨check_append hrule ha b, ?_⟩
  intro tag htag
  rw [check_append hrule ha, check_append hrule (endsOutsideTags_of_getLast? htag)]

/-- A tag that is left open on the right of the cut takes in the sign behind it, and nothing on the left. -/
theorem check_isLocal_link :
    MarkupRule.linkHash.check ("<a href='#'>x > y".toList ++ ("<a role>".toList ++ "<a <a\nhref=#>".toList)) =
      [.onTag .linkHash MarkupRule.linkHash.message "<a href='#'>".toList,
        .onTag .linkHash MarkupRule.linkHash.message "<a <a\nhref=#>".toList] := by
  have hrule : MarkupRule.linkHash ∈ MarkupRule.all := by simp [MarkupRule.all]
  have hcut : EndsOutsideTags "<a href='#'>x > y".toList :=
    .inr ⟨[], "a href='#'>x > y".toList, by decide, by decide, by decide⟩
  rw [(check_isLocal hrule hcut "<a <a\nhref=#>".toList).2 "<a role>".toList (by decide)]
  decide +kernel

end Markup

end SfcContract
