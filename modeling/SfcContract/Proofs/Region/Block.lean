import SfcContract.Proofs.Text.Progress
import SfcContract.Region

/-!
# Blocks

A block is read where an opening tag stands, up to the first closing tag of its kind, whatever else its body
holds.
-/

namespace SfcContract

namespace Text

theorem afterFolded?_eq_some_iff {word t rest : Text} :
    afterFolded? word t = some rest ↔ ∃ w, t = w ++ rest ∧ w.map fold = word := by
  induction word generalizing t with
  | nil => simp [afterFolded?]
  | cons c word ih =>
    cases t with
    | nil => simp [afterFolded?]
    | cons d t =>
      by_cases h : fold d = c
      · rw [afterFolded?, if_pos h, ih]
        constructor
        · rintro ⟨w, rfl, rfl⟩
          exact ⟨d :: w, rfl, by rw [List.map_cons, h]⟩
        · rintro ⟨w, ht, hw⟩
          obtain ⟨e, v, rfl, -, hv⟩ := List.map_eq_cons_iff.mp hw
          obtain ⟨rfl, rfl⟩ := List.cons.inj ht
          exact ⟨v, rfl, hv⟩
      · rw [afterFolded?, if_neg h]
        simp only [reduceCtorEq, false_iff]
        rintro ⟨w, ht, hw⟩
        obtain ⟨e, w, rfl, he, -⟩ := List.map_eq_cons_iff.mp hw
        obtain ⟨rfl, -⟩ := List.cons.inj ht
        exact h he

/-- A word that starts in `a` ends there when its later letters cannot go on after `a`. -/
theorem isPrefix_of_isPrefix_append {word a b : Text} (h : word <+: a ++ b) (ha : a ≠ [])
    (hb : ∀ c ∈ b.head?, c ∉ word.tail) : word <+: a := by
  rcases isPrefix_or_of_isPrefix_append h with hword | ⟨c, hc, s, rfl⟩
  · exact hword
  · obtain ⟨d, a, rfl⟩ := List.exists_cons_of_ne_nil ha
    exact absurd (by simp) (hb c hc)

end Text

inductive BlockKind where
  | template
  | script
  deriving DecidableEq

def BlockKind.tag : BlockKind → Text
  | template => "template".toList
  | script => "script".toList

/-- An opening tag, regardless of case. Its attributes go up to the first `>`. -/
def BlockKind.IsOpening (kind : BlockKind) (attributes tag : Text) : Prop :=
  ∃ name, name.map Text.fold = kind.tag ∧ attributes.head?.any Text.isWord = false ∧ '>' ∉ attributes ∧
    tag = '<' :: (name ++ (attributes ++ ['>']))

def BlockKind.IsClosing (kind : BlockKind) (tag : Text) : Prop :=
  ∃ name gap, name.map Text.fold = kind.tag ∧ Text.IsBlanks gap ∧ tag = '<' :: '/' :: (name ++ (gap ++ ['>']))

namespace Block

variable {kind : BlockKind} {attributes tag body t rest : Text} {prev : Option Char} {block : Block}

theorem fold_tag (kind : BlockKind) : kind.tag.map Text.fold = kind.tag := by cases kind <;> decide

theorem not_mem_tag (kind : BlockKind) : '<' ∉ '/' :: kind.tag := by cases kind <;> decide

theorem closing?_eq_some_iff : closing? kind.tag t = some rest ↔ ∃ tag, kind.IsClosing tag ∧ t = tag ++ rest := by
  constructor
  · intro h
    obtain ⟨u, hu, h⟩ := Option.bind_eq_some_iff.mp h
    obtain ⟨v, hv, hend⟩ := Option.bind_eq_some_iff.mp h
    obtain ⟨name, rfl, hname⟩ := Text.afterFolded?_eq_some_iff.mp hv
    obtain ⟨gap, hgap, hgaps⟩ := Text.exists_blanks_append v
    rw [Text.expect?_eq_some_iff.mp hend] at hgaps
    refine ⟨_, ⟨name, gap, hname, hgap, rfl⟩, ?_⟩
    rw [Text.after?_eq_some_iff.mp hu, hgaps]
    simp
  · rintro ⟨tag, ⟨name, gap, hname, hgap, rfl⟩, rfl⟩
    have htag : Text.afterFolded? kind.tag (name ++ (gap ++ '>' :: rest)) = some (gap ++ '>' :: rest) :=
      Text.afterFolded?_eq_some_iff.mpr ⟨name, rfl, hname⟩
    have hend : Text.skipBlanks (gap ++ '>' :: rest) = '>' :: rest := by
      rw [Text.skipBlanks_append hgap, Text.skipBlanks_cons_of_not (by decide)]
    simp [closing?, Text.after?, List.isPrefixOf?, htag, hend, Text.expect?]

theorem not_mem_tail_of_isClosing (h : kind.IsClosing tag) : '<' ∉ tag.tail := by
  obtain ⟨name, gap, hname, hgap, rfl⟩ := h
  have hword : '<' ∉ name := by
    intro hmem
    have hfold := List.mem_map_of_mem (f := Text.fold) hmem
    rw [hname] at hfold
    exact not_mem_tag kind (List.mem_cons_of_mem _ hfold)
  have hblank : '<' ∉ gap := fun hmem => absurd (hgap _ hmem) (by decide)
  simp [hword, hblank]

theorem exists_sign_of_isClosing (h : kind.IsClosing tag) : ∃ u, tag = '<' :: u := by
  obtain ⟨name, gap, -, -, rfl⟩ := h
  exact ⟨_, rfl⟩

/-- A body is read up to a closing tag if it holds none itself: no tag reaches from the body into the next. -/
theorem upTo?_closing_eq_some_iff : Text.upTo? (closing? kind.tag) t = some (body, rest) ↔
    ∃ tag, kind.IsClosing tag ∧ t = body ++ (tag ++ rest) ∧ ∀ part, part <:+: body → ¬ kind.IsClosing part := by
  rw [Text.upTo?_eq_some_iff]
  constructor
  · rintro ⟨s, rfl, hs, hearlier⟩
    obtain ⟨tag, htag, rfl⟩ := closing?_eq_some_iff.mp hs
    refine ⟨tag, htag, rfl, ?_⟩
    rintro part ⟨u, v, rfl⟩ hpart
    have hnone := hearlier u (part ++ v) (List.append_assoc u part v)
    obtain ⟨w, rfl⟩ := exists_sign_of_isClosing hpart
    rw [List.append_assoc, closing?_eq_some_iff.mpr ⟨_, hpart, rfl⟩] at hnone
    simp at hnone
  · rintro ⟨tag, htag, rfl, hbody⟩
    refine ⟨_, rfl, closing?_eq_some_iff.mpr ⟨tag, htag, rfl⟩, ?_⟩
    rintro u v rfl hv
    rw [Option.eq_none_iff_forall_ne_some]
    intro after hread
    obtain ⟨early, hearly, he⟩ := closing?_eq_some_iff.mp hread
    obtain ⟨w, rfl⟩ := exists_sign_of_isClosing htag
    have hpart : early <+: v := Text.isPrefix_of_isPrefix_append ⟨after, he.symm⟩ hv (by
      rintro c hc
      obtain rfl := Option.some.inj hc
      exact not_mem_tail_of_isClosing hearly)
    exact hbody early (hpart.isInfix.trans (List.suffix_append u v).isInfix) hearly

/-- A block is read where it is written, up to its first closing tag, and nowhere else. -/
theorem recognizer_eq_some_iff : recognizer kind.tag prev t = some (block, rest) ↔
    ∃ opening closing, kind.IsOpening block.attributes opening ∧ kind.IsClosing closing ∧
      (∀ part, part <:+: block.body → ¬ kind.IsClosing part) ∧
      t = opening ++ (block.body ++ (closing ++ rest)) := by
  constructor
  · intro h
    obtain ⟨u, hu, h⟩ := Option.bind_eq_some_iff.mp h
    obtain ⟨v, hv, h⟩ := Option.bind_eq_some_iff.mp h
    split at h
    · cases h
    · rename_i hend
      obtain ⟨⟨attributes, w⟩, hw, h⟩ := Option.bind_eq_some_iff.mp h
      obtain ⟨⟨body, after⟩, hbody, h⟩ := Option.bind_eq_some_iff.mp h
      obtain ⟨rfl, rfl⟩ := Prod.mk.inj (Option.some.inj h)
      obtain ⟨name, rfl, hname⟩ := Text.afterFolded?_eq_some_iff.mp hv
      obtain ⟨rfl, hflat⟩ := Text.upToChar?_eq_some_iff.mp hw
      obtain ⟨closing, hclosing, rfl, hfirst⟩ := upTo?_closing_eq_some_iff.mp hbody
      have hseparate : attributes.head?.any Text.isWord = false := by
        cases attributes with
        | nil => rfl
        | cons c r => simpa using hend
      refine ⟨_, closing, ⟨name, hname, hseparate, hflat, rfl⟩, hclosing, hfirst, ?_⟩
      rw [Text.expect?_eq_some_iff.mp hu]
      simp
  · rintro ⟨opening, closing, ⟨name, hname, hseparate, hflat, rfl⟩, hclosing, hfirst, rfl⟩
    have htag : Text.afterFolded? kind.tag
        (name ++ (block.attributes ++ '>' :: (block.body ++ (closing ++ rest)))) = some _ :=
      Text.afterFolded?_eq_some_iff.mpr ⟨name, rfl, hname⟩
    have hend : (block.attributes ++ '>' :: (block.body ++ (closing ++ rest))).head?.any Text.isWord = false := by
      cases ha : block.attributes with
      | nil => rfl
      | cons c r => simpa [ha] using hseparate
    have hbody : Text.upTo? (closing? kind.tag) (block.body ++ (closing ++ rest)) = some (block.body, rest) :=
      upTo?_closing_eq_some_iff.mpr ⟨closing, hclosing, rfl, hfirst⟩
    have htext : '<' :: (name ++ (block.attributes ++ ['>'])) ++ (block.body ++ (closing ++ rest)) =
        '<' :: (name ++ (block.attributes ++ '>' :: (block.body ++ (closing ++ rest)))) := by simp
    rw [htext]
    simp only [recognizer, Text.expect?, if_true, Option.bind_eq_bind, Option.bind_some, htag, hend,
      Bool.false_eq_true, if_false, Text.upToChar?_append hflat, hbody]
    rfl

theorem advances_recognizer (kind : BlockKind) : Text.Advances (recognizer kind.tag) := by
  intro prev t block rest h
  obtain ⟨opening, closing, ⟨name, -, -, -, rfl⟩, -, -, rfl⟩ := recognizer_eq_some_iff.mp h
  refine ⟨'<' :: (name ++ (block.attributes ++ ['>'])) ++ (block.body ++ closing), by simp, ?_⟩
  rw [List.append_assoc, List.append_assoc]

end Block

end SfcContract
