import Mathlib.Data.List.Induction
import Mathlib.Data.List.Nodup
import SfcContract.Names
import SfcContract.Property

/-!
# Each name once

Adding names one by one keeps a list of them free of repetition. Merging declarations does the same to
their names, whichever declaration of a name is kept.
-/

namespace SfcContract

namespace Names

theorem mem_insert {names : Names} {name other : Text} :
    other ∈ insert names name ↔ other ∈ names ∨ other = name := by
  by_cases h : name ∈ names
  · rw [insert, if_pos h]
    constructor
    · exact .inl
    · rintro (hmem | rfl)
      · exact hmem
      · exact h
  · rw [insert, if_neg h, List.mem_append, List.mem_singleton]

theorem nodup_insert {names : Names} (h : names.Nodup) (name : Text) : (insert names name).Nodup := by
  by_cases hmem : name ∈ names
  · rwa [insert, if_pos hmem]
  · rw [insert, if_neg hmem, List.nodup_append]
    refine ⟨h, List.nodup_singleton _, ?_⟩
    intro a ha b hb hab
    rw [List.mem_singleton] at hb
    exact hmem (hb ▸ hab ▸ ha)

theorem insert_cons_of_ne {first name : Text} (h : first ≠ name) (names : Names) :
    insert (first :: names) name = first :: insert names name := by
  by_cases hmem : name ∈ names
  · simp [insert, hmem]
  · simp [insert, hmem, h.symm]

theorem nodup_ofList (names : List Text) : (ofList names).Nodup :=
  List.foldlRecOn names insert List.nodup_nil fun _ hkept name _ => nodup_insert hkept name

theorem mem_ofList {names : List Text} {name : Text} : name ∈ ofList names ↔ name ∈ names := by
  have hfold : ∀ kept : Names, name ∈ names.foldl insert kept ↔ name ∈ kept ∨ name ∈ names := by
    induction names with
    | nil => simp
    | cons first names ih =>
      intro kept
      rw [List.foldl_cons, ih, mem_insert, List.mem_cons, or_assoc]
  rw [ofList, hfold, or_iff_right List.not_mem_nil]

theorem ofList_concat (names : List Text) (name : Text) :
    ofList (names ++ [name]) = insert (ofList names) name := by
  rw [ofList, List.foldl_append, List.foldl_cons, List.foldl_nil, ofList]

theorem ofList_eq_eraseDups (names : List Text) : ofList names = names.eraseDups := by
  induction names using List.reverseRecOn with
  | nil => rfl
  | append_singleton names name ih =>
    rw [ofList_concat, ih, List.eraseDups_append]
    by_cases h : name ∈ names
    · simp [insert, h, List.removeAll]
    · simp [insert, h, List.removeAll, List.eraseDups_cons]

/-- What is named before adds nothing when it is named again, wherever that is. -/
theorem ofList_append_of_subset {names again : List Text} (h : again ⊆ names) (more : List Text) :
    ofList (names ++ again ++ more) = ofList (names ++ more) := by
  have hsame : ofList (names ++ again) = ofList names := by
    induction again using List.reverseRecOn with
    | nil => rw [List.append_nil]
    | append_singleton again name ih =>
      obtain ⟨hagain, hname⟩ := List.append_subset.mp h
      have hmem : name ∈ ofList names := mem_ofList.mpr (hname List.mem_cons_self)
      rw [← List.append_assoc, ofList_concat, ih hagain, insert, if_pos hmem]
  rw [ofList, List.foldl_append, ← ofList, hsame, ofList, ← List.foldl_append, ← ofList]

/-- A list with some of the given names put in at one place. -/
def Repeats (names more less : List Text) : Prop :=
  ∃ a again b, again ⊆ names ∧ more = a ++ again ++ b ∧ less = a ++ b

theorem ofList_append_two_of_repeats {names more less more' less' : List Text} (h : Repeats names more less)
    (h' : Repeats names more' less') (a b c : List Text) :
    ofList (names ++ a ++ b ++ more ++ c ++ more') = ofList (names ++ (a ++ b ++ less ++ c ++ less')) := by
  obtain ⟨d, again, e, hagain, rfl, rfl⟩ := h
  obtain ⟨d', again', e', hagain', rfl, rfl⟩ := h'
  have hfirst : again ⊆ names ++ (a ++ b ++ d) := List.subset_append_of_subset_left _ hagain
  have hsecond : again' ⊆ names ++ (a ++ b ++ d ++ e ++ c ++ d') := List.subset_append_of_subset_left _ hagain'
  calc ofList (names ++ a ++ b ++ (d ++ again ++ e) ++ c ++ (d' ++ again' ++ e'))
      = ofList (names ++ (a ++ b ++ d) ++ again ++ (e ++ c ++ d' ++ again' ++ e')) := by
        simp only [List.append_assoc]
    _ = ofList (names ++ (a ++ b ++ d) ++ (e ++ c ++ d' ++ again' ++ e')) := ofList_append_of_subset hfirst _
    _ = ofList (names ++ (a ++ b ++ d ++ e ++ c ++ d') ++ again' ++ e') := by simp only [List.append_assoc]
    _ = ofList (names ++ (a ++ b ++ d ++ e ++ c ++ d') ++ e') := ofList_append_of_subset hsecond _
    _ = ofList (names ++ (a ++ b ++ (d ++ e) ++ c ++ (d' ++ e'))) := by simp only [List.append_assoc]

theorem ofList_append_self (names : List Text) : ofList (names ++ names) = ofList names := by
  simpa using ofList_append_of_subset (List.Subset.refl names) []

end Names

namespace Property

theorem map_name_place (p : Property) (kept : List Property) :
    (place p kept).map name = Names.insert (kept.map name) p.name := by
  induction kept with
  | nil => rfl
  | cons q kept ih =>
    by_cases h : q.name = p.name
    · by_cases hrank : q.origin.rank ≤ p.origin.rank <;> simp [place, h, hrank, Names.insert]
    · rw [place, if_neg h, List.map_cons, ih, List.map_cons, Names.insert_cons_of_ne h]

/-- The names of merged declarations are theirs, each at its first place. -/
theorem map_name_merge (candidates : List Property) :
    (merge candidates).map name = Names.ofList (candidates.map name) := by
  have hfold : ∀ kept : List Property, (candidates.foldl (fun kept p => place p kept) kept).map name =
      (candidates.map name).foldl Names.insert (kept.map name) := by
    induction candidates with
    | nil => intro kept; rfl
    | cons p candidates ih =>
      intro kept
      rw [List.foldl_cons, ih, map_name_place, List.map_cons, List.foldl_cons]
  exact hfold []

theorem mem_place {p q : Property} {kept : List Property} (h : q ∈ place p kept) : q = p ∨ q ∈ kept := by
  induction kept with
  | nil => exact .inl (List.mem_singleton.mp h)
  | cons first kept ih =>
    rw [place] at h
    split_ifs at h with hname hrank
    · rcases List.mem_cons.mp h with rfl | hmem
      · exact .inl rfl
      · exact .inr (List.mem_cons_of_mem _ hmem)
    · exact .inr h
    · rcases List.mem_cons.mp h with rfl | hmem
      · exact .inr List.mem_cons_self
      · exact (ih hmem).imp_right (List.mem_cons_of_mem _)

theorem mem_merge {candidates : List Property} {p : Property} (h : p ∈ merge candidates) :
    p ∈ candidates := by
  refine List.foldlRecOn candidates _ (motive := fun kept => ∀ q ∈ kept, q ∈ candidates) (by simp) ?_ p h
  intro kept hkept candidate hmem q hq
  rcases mem_place hq with rfl | hq
  · exact hmem
  · exact hkept q hq

end Property

end SfcContract
