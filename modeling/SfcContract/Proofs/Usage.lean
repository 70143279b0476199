import SfcContract.Proofs.Text.Progress
import SfcContract.Usage

/-!
# Names as tokens

A name is looked for from left to right, and the search goes on after the end of each occurrence. An
occurrence that is no token may therefore cover one that is. Whether that can happen depends on the name
alone.
-/

namespace SfcContract

/-- A name stands somewhere in a text with no identifier character next to it. -/
def OccursAsToken (name text : Text) : Prop :=
  ∃ before after, text = before ++ (name ++ after) ∧ before.getLast?.any Text.isAsciiWord = false ∧
    after.head?.any Text.isAsciiWord = false

/-- A name begins again inside itself, after a character that may stand before a token. -/
def CoversItself (name : Text) : Prop :=
  ∃ lead tail, name = lead ++ tail ∧ lead ≠ [] ∧ tail ≠ [] ∧ tail <+: name ∧
    lead.getLast?.any Text.isAsciiWord = false

variable {name text rest : Text} {prev : Option Char} {token : Bool}

theorem coversItself_iff_exists_drop : CoversItself name ↔
    ∃ i ∈ List.range name.length, i ≠ 0 ∧ (name.drop i).isPrefixOf name = true ∧
      (name.take i).getLast?.any Text.isAsciiWord = false := by
  constructor
  · rintro ⟨lead, tail, rfl, hlead, htail, hprefix, hboundary⟩
    refine ⟨lead.length, List.mem_range.mpr ?_, mt List.length_eq_zero_iff.mp hlead, ?_, ?_⟩
    · rw [List.length_append]
      exact Nat.lt_add_of_pos_right (List.length_pos_iff.mpr htail)
    · rwa [List.drop_left, List.isPrefixOf_iff_prefix]
    · rwa [List.take_left]
  · rintro ⟨i, hi, hzero, hprefix, hboundary⟩
    have hi := List.mem_range.mp hi
    refine ⟨name.take i, name.drop i, (List.take_append_drop i name).symm, ?_, ?_,
      List.isPrefixOf_iff_prefix.mp hprefix, hboundary⟩
    · exact List.length_pos_iff.mp (by rw [List.length_take]; omega)
    · exact List.length_pos_iff.mp (by rw [List.length_drop]; omega)

instance (name : Text) : Decidable (CoversItself name) := decidable_of_iff _ coversItself_iff_exists_drop.symm

theorem tokenOccurrence_eq_some_iff : tokenOccurrence name prev text = some (token, rest) ↔
    text = name ++ rest ∧ (!prev.any Text.isAsciiWord && !rest.head?.any Text.isAsciiWord) = token := by
  simp only [tokenOccurrence, Option.map_eq_some_iff, Text.after?_eq_some_iff, Prod.mk.injEq]
  constructor
  · rintro ⟨r, hr, htoken, rfl⟩
    exact ⟨hr, htoken⟩
  · rintro ⟨hr, htoken⟩
    exact ⟨rest, hr, htoken, rfl⟩

theorem isReferenced_iff_mem (hne : name ≠ []) :
    isReferenced text name = true ↔ true ∈ Text.findAll (tokenOccurrence name) text := by
  simp [isReferenced, hne]

theorem occursAsToken_of_isReferenced (hne : name ≠ []) (h : isReferenced text name = true) :
    OccursAsToken name text := by
  have hmem : true ∈ Text.findFrom (tokenOccurrence name) (List.getLast? []) 0 text :=
    (isReferenced_iff_mem hne).mp h
  obtain ⟨before, u, rest, rfl, hread⟩ := Text.exists_of_mem_findFrom hmem
  obtain ⟨rfl, htoken⟩ := tokenOccurrence_eq_some_iff.mp hread
  exact ⟨before, rest, rfl, by simpa using htoken⟩

/-- A token that is not found is covered by an earlier occurrence of its name. -/
theorem coversItself_of_not_isReferenced (hne : name ≠ []) (h : OccursAsToken name text)
    (hnot : ¬ isReferenced text name = true) : CoversItself name := by
  obtain ⟨before, after, rfl, hbefore, hafter⟩ := h
  have hread : tokenOccurrence name before.getLast? (name ++ after) = some (true, after) :=
    tokenOccurrence_eq_some_iff.mpr ⟨rfl, by simp [hbefore, hafter]⟩
  have hu : name ++ after ≠ [] := List.append_ne_nil_of_left_ne_nil hne after
  rcases @Text.mem_findFrom_or_covered _ _ _ [] _ _ _ 0 (Nat.zero_le _) hu hread with hfound | hcovered
  · exact absurd ((isReferenced_iff_mem hne).mpr hfound) hnot
  · obtain ⟨d, lead, token, rest, rfl, hlead, hearlier, hlen⟩ := hcovered
    obtain ⟨heq, -⟩ := tokenOccurrence_eq_some_iff.mp hearlier
    have hlengths : lead.length + (name ++ after).length = name.length + rest.length := by
      rw [← List.length_append, ← List.length_append]
      exact congrArg List.length heq
    obtain ⟨tail, rfl⟩ : lead <+: name := by
      apply List.prefix_of_prefix_length_le ⟨name ++ after, rfl⟩ ⟨rest, heq.symm⟩
      omega
    have hagain : lead ++ tail ++ after = tail ++ rest := by
      rw [List.append_assoc lead tail rest] at heq
      exact List.append_cancel_left heq
    refine ⟨lead, tail, rfl, hlead, ?_, ?_, ?_⟩
    · rintro rfl
      rw [List.append_nil] at hlen hlengths
      omega
    · apply List.prefix_of_prefix_length_le ⟨rest, rfl⟩ ⟨after, hagain⟩
      simp
    · rwa [List.getLast?_append_of_ne_nil d hlead] at hbefore

theorem isReferenced_iff_of_not_coversItself (hne : name ≠ []) (h : ¬ CoversItself name) :
    isReferenced text name = true ↔ OccursAsToken name text := by
  refine ⟨occursAsToken_of_isReferenced hne, fun htoken => ?_⟩
  by_contra hnot
  exact h (coversItself_of_not_isReferenced hne htoken hnot)

/-- A name of identifier characters cannot begin again after a character that may stand before a token. -/
theorem not_coversItself_of_word (h : ∀ c ∈ name, Text.isAsciiWord c = true) : ¬ CoversItself name := by
  rintro ⟨lead, tail, rfl, hlead, -, -, hboundary⟩
  rw [List.getLast?_eq_some_getLast hlead, Option.any_some] at hboundary
  rw [h _ (List.mem_append_left tail (List.getLast_mem hlead))] at hboundary
  cases hboundary

theorem isReferenced_iff_of_word (hne : name ≠ []) (h : ∀ c ∈ name, Text.isAsciiWord c = true) :
    isReferenced text name = true ↔ OccursAsToken name text :=
  isReferenced_iff_of_not_coversItself hne (not_coversItself_of_word h)

/-- A text that starts a copy of itself, moved by one letter, repeats that letter. -/
theorem eq_of_isPrefix_cons {c : Char} {t : Text} (h : t <+: c :: t) : ∀ d ∈ t, d = c := by
  induction t with
  | nil => simp
  | cons e t ih =>
    obtain ⟨rfl, ht⟩ := List.cons_prefix_cons.mp h
    intro d hd
    rcases List.mem_cons.mp hd with rfl | hd
    · rfl
    · exact ih ht d hd

/-- A letter in front of the first of two occurrences that overlap hides both. -/
theorem exists_hidden_of_coversItself (h : CoversItself name) :
    ∃ text, OccursAsToken name text ∧ ¬ isReferenced text name = true := by
  obtain ⟨lead, tail, hname, hlead, htail, hprefix, hboundary⟩ := h
  obtain ⟨rest, hrest⟩ := hprefix
  have hne : name ≠ [] := by
    rw [hname]
    exact List.append_ne_nil_of_left_ne_nil hlead tail
  refine ⟨'x' :: (lead ++ name), ⟨'x' :: lead, [], by simp, ?_, rfl⟩, ?_⟩
  · rwa [List.getLast?_cons_of_ne_nil hlead]
  have htwice : lead ++ name = name ++ rest := by
    conv_lhs => rw [← hrest, ← List.append_assoc, ← hname]
  -- The letter itself starts no occurrence: the overlap would consist of that letter alone.
  have hfirst : tokenOccurrence name none ('x' :: (lead ++ name)) = none := by
    rw [Option.eq_none_iff_forall_ne_some]
    rintro ⟨token, r⟩ hr
    obtain ⟨heq, -⟩ := tokenOccurrence_eq_some_iff.mp hr
    have hshift : lead <+: 'x' :: lead := by
      have hname' : lead <+: 'x' :: (lead ++ name) := by
        rw [heq, hname, List.append_assoc]
        exact List.prefix_append _ _
      apply List.prefix_of_prefix_length_le hname' (List.prefix_append ('x' :: lead) name)
      simp
    have hlast := eq_of_isPrefix_cons hshift _ (List.getLast_mem hlead)
    rw [List.getLast?_eq_some_getLast hlead, hlast] at hboundary
    exact absurd hboundary (by decide)
  have hsecond : tokenOccurrence name (some 'x') (name ++ rest) = some (false, rest) :=
    tokenOccurrence_eq_some_iff.mpr ⟨rfl, by simp [show Text.isAsciiWord 'x' = true by decide]⟩
  have hlengths := congrArg List.length htwice
  rw [List.length_append, List.length_append] at hlengths
  have hshort : rest.length < name.length := by
    have hlengths' := congrArg List.length hname
    have hpos := List.length_pos_iff.mpr htail
    rw [List.length_append] at hlengths'
    omega
  rw [isReferenced_iff_mem hne, Text.findAll, Text.findFrom, hfirst]
  simp only
  rw [htwice, Text.findFrom_append_of_some hne hsecond, List.mem_cons, not_or]
  refine ⟨Bool.false_ne_true.symm, ?_⟩
  intro hmem
  obtain ⟨p, s, r, hs, hr⟩ := Text.mem_findFrom hmem
  obtain ⟨rfl, -⟩ := tokenOccurrence_eq_some_iff.mp hr
  have hle := hs.length_le
  rw [List.length_append] at hle
  omega

/-- References are tokens, and all tokens of a name are found exactly when the name does not begin again
inside itself after a character that may stand before a token. -/
theorem isReferenced_iff_occursAsToken (hne : name ≠ []) :
    (∀ text, isReferenced text name = true → OccursAsToken name text) ∧
      ((∀ text, isReferenced text name = true ↔ OccursAsToken name text) ↔ ¬ CoversItself name) := by
  refine ⟨fun text => occursAsToken_of_isReferenced hne, ?_, ?_⟩
  · intro hall hcovers
    obtain ⟨text, htoken, hnot⟩ := exists_hidden_of_coversItself hcovers
    exact hnot ((hall text).mpr htoken)
  · intro hcovers text
    exact isReferenced_iff_of_not_coversItself hne hcovers

/-- A name that begins again inside itself, though not behind its dash. -/
theorem isReferenced_iff_occursAsToken_on_button : "on-button".toList ≠ [] ∧
    ∀ text, isReferenced text "on-button".toList = true ↔ OccursAsToken "on-button".toList text := by
  have hne : "on-button".toList ≠ [] := List.cons_ne_nil _ _
  have hcovers : ¬ CoversItself "on-button".toList := by decide
  exact ⟨hne, (isReferenced_iff_occursAsToken hne).2.mpr hcovers⟩

/-- The second occurrence of `a-a` is a token, but the first one, which is none, reaches over its start. -/
theorem not_isReferenced_of_covered : OccursAsToken "a-a".toList "xa-a-a".toList ∧
    isReferenced "xa-a-a".toList "a-a".toList = false :=
  ⟨⟨"xa-".toList, [], rfl, rfl, rfl⟩, by decide⟩

end SfcContract
