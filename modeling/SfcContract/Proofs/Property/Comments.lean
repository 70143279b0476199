import SfcContract.Proofs.Code.Comment
import SfcContract.Proofs.Property.ObjectReadBack
import SfcContract.Property.Declared

/-!
# Comments before entries

The entries of an object are told apart in spite of the comments between them. A comment before an entry
stays in its piece though, and so in its key, which is then no name: the entry declares nothing.
-/

namespace SfcContract.Property

open Code

def remarkedText (e : Remarked ObjectEntry) : Text := e.remarks ++ e.item.text

variable {e : Remarked ObjectEntry} {es : List (Remarked ObjectEntry)} {body body' : Text}

theorem passes_remarkedText (e : Remarked ObjectEntry) : Passes .generic [','] (remarkedText e) :=
  e.isRemarks.passes_append (by decide) (by decide) e.item.passes

theorem trim_remarkedText_ne_nil (e : Remarked ObjectEntry) : Text.trim (remarkedText e) ≠ [] := by
  have hcolon : ':' ∈ remarkedText e := by simp [remarkedText, Entry.text]
  intro h
  have hblank := Text.trim_eq_nil_iff.mp h _ hcolon
  exact absurd hblank (by decide)

/-- The piece of an entry after a comment starts with the comment, and no name does. -/
theorem propertyOfObject?_remarked (origin : Origin) (h : e.remarks ≠ []) :
    propertyOfObject? origin (Text.trim (remarkedText e)) = none := by
  obtain ⟨r, hr⟩ := e.isRemarks.exists_of_ne_nil h
  have hslash : Text.isBlank '/' = false := by decide
  have htext : remarkedText e =
      (e.remarks ++ (e.item.key.text ++ e.item.gap)) ++ ':' :: e.item.value.text := by
    simp [remarkedText, Entry.text]
  have htrim : Text.trim (remarkedText e) =
      (e.remarks ++ (e.item.key.text ++ e.item.gap)) ++ ':' :: Text.trimEnd e.item.value.text := by
    rw [htext]
    exact trim_key_colon ⟨'/', r ++ (e.item.key.text ++ e.item.gap), by rw [hr, List.cons_append], hslash⟩ _
  have hkey : Passes .brackets [':'] (e.remarks ++ (e.item.key.text ++ e.item.gap)) :=
    e.isRemarks.passes_append (by decide) (by decide) e.item.passes_key
  obtain ⟨u, hu⟩ : ∃ u, Text.trim (e.remarks ++ (e.item.key.text ++ e.item.gap)) = '/' :: u := by
    rw [hr, List.cons_append, Text.trim_cons_of_not hslash]
    exact ⟨_, rfl⟩
  have hname : unquote ('/' :: u) = '/' :: u := by
    refine unquote_of_not ?_
    rintro q hq v ⟨⟩
    exact absurd hq (by decide)
  have hread := keyValue?_of_passes hkey (by rw [hu, hname]; exact List.cons_ne_nil _ _)
    (Text.trimEnd e.item.value.text)
  rw [hu, hname] at hread
  have hno : Text.isPropertyName ('/' :: u) = false := by
    simp [Text.isPropertyName, show Text.isNameStart '/' = false by decide]
  rw [propertyOfObject?, htrim, hread]
  simp [hno]

theorem ofObjectBody_remarked (origin : Origin) (h : Layout [','] (es.map remarkedText) body)
    (h' : Layout [','] ((es.filter (·.remarks.isEmpty)).map fun e => e.item.text) body') :
    ofObjectBody origin body = ofObjectBody origin body' := by
  have hpieces : ∀ t ∈ es.map remarkedText, Passes .generic [','] t ∧ Text.trim t ≠ [] := by
    intro t ht
    obtain ⟨e, -, rfl⟩ := List.mem_map.mp ht
    exact ⟨passes_remarkedText e, trim_remarkedText_ne_nil e⟩
  have hmap : (es.filter (·.remarks.isEmpty)).map (fun e => e.item.text) =
      ((es.filter (·.remarks.isEmpty)).map (·.item)).map Entry.text := by
    rw [List.map_map]
    rfl
  rw [hmap] at h'
  rw [ofObjectBody, ofObjectBody, h.splitTop_eq areSeparators_comma hpieces, splitTop_objectBody h']
  clear h h' hpieces hmap
  induction es with
  | nil => rfl
  | cons e es ih =>
    cases hr : e.remarks.isEmpty with
    | true =>
      have htext : remarkedText e = e.item.text := by
        rw [remarkedText, List.isEmpty_iff.mp hr, List.nil_append]
      simp only [List.filter_cons, hr, if_true, List.map_cons, List.filterMap_cons, htext, ih]
    | false =>
      have hnone : propertyOfObject? origin (Text.trim (remarkedText e)) = none :=
        propertyOfObject?_remarked origin (by simpa using hr)
      simp only [List.filter_cons, hr, Bool.false_eq_true, if_false, List.map_cons, List.filterMap_cons, hnone, ih]

theorem passes_remarkedBody (h : Layout [','] (es.map remarkedText) body) : Passes .ignore [] body := by
  refine h.passes areSeparators_comma ?_
  intro t ht
  obtain ⟨e, -, rfl⟩ := List.mem_map.mp ht
  exact e.isRemarks.passes_append List.not_mem_nil (by simp) e.item.passes_braced

section Script

variable {script before gap₁ gap₂ after : Text}

/-- Where the only `defineProps` is a call with an argument, no type is given to it. -/
theorem inTypeLiteral_eq_nil (h₁ : Text.IsBlanks gap₁)
    (hplace : Text.places (Text.literally "defineProps".toList)
      (before ++ ObjectIdiom.call.written gap₁ gap₂ body after) = [before.length]) :
    inTypeLiteral (before ++ ObjectIdiom.call.written gap₁ gap₂ body after) = [] := by
  have hne := ObjectIdiom.call.written_ne_nil gap₁ gap₂ body after
  have hnone : Text.findAll typeArgument (before ++ ObjectIdiom.call.written gap₁ gap₂ body after) = [] := by
    refine Text.findAll_of_places_nil (List.eq_nil_iff_forall_not_mem.mpr fun n hn => ?_)
    have hword := Text.places_wordStart_subset _ _ hn
    rw [hplace, List.mem_singleton] at hword
    subst hword
    obtain ⟨hit, hhit⟩ := Option.isSome_iff_exists.mp ((Text.mem_places hne).mp hn)
    obtain ⟨t, ht, hrest⟩ := Option.bind_eq_some_iff.mp hhit
    have htext := (Text.wordStart?_eq_some_iff.mp ht).2
    obtain rfl : gap₁ ++ '(' :: (gap₂ ++ '{' :: body ++ '}' :: after) = t := List.append_cancel_left htext
    rw [Text.skipBlanks_append h₁, Text.skipBlanks_cons_of_not (by decide)] at hrest
    cases hrest
  rw [inTypeLiteral, hnone]
  rw [applyDefaults]
  split
  · rfl
  · next defaults _ =>
    generalize (splitTop [','] .generic defaults).filterMap keyValue? = entries
    induction entries with
    | nil => rfl
    | cons entry entries ih => exact ih

/-- An object whose idiom stands at the only `defineProps` is read unless the word goes on to the left. -/
theorem inObjectLiteral_written (h₁ : Text.IsBlanks gap₁) (h₂ : Text.IsBlanks gap₂)
    (hbody : Passes .ignore [] body)
    (hplace : Text.places (Text.literally "defineProps".toList)
      (before ++ ObjectIdiom.call.written gap₁ gap₂ body after) = [before.length]) :
    inObjectLiteral (before ++ ObjectIdiom.call.written gap₁ gap₂ body after) =
      if before.getLast?.any Text.isWord then [] else ofObjectBody .objectLiteral body := by
  have hne := ObjectIdiom.call.written_ne_nil gap₁ gap₂ body after
  have honly : ∀ n ∈ Text.places ObjectIdiom.call.opening
      (before ++ ObjectIdiom.call.written gap₁ gap₂ body after), n = before.length := by
    intro n hn
    have hword : n ∈ Text.places (Text.literally "defineProps".toList) _ := Text.places_wordStart_subset _ _ hn
    rwa [hplace, List.mem_singleton] at hword
  split
  · next hprev =>
    have hnone : Text.findAll ObjectIdiom.call.opening
        (before ++ ObjectIdiom.call.written gap₁ gap₂ body after) = [] := by
      refine Text.findAll_of_places_nil (List.eq_nil_iff_forall_not_mem.mpr fun n hn => ?_)
      obtain rfl := honly n hn
      obtain ⟨hit, hhit⟩ := Option.isSome_iff_exists.mp ((Text.mem_places hne).mp hn)
      obtain ⟨t, ht, -⟩ := Option.bind_eq_some_iff.mp hhit
      exact Bool.false_ne_true ((Text.wordStart?_eq_some_iff.mp ht).1.symm.trans hprev)
    change ((Text.findAll ObjectIdiom.call.opening _).filterMap bracedBody?).flatMap _ = _
    rw [hnone]
    rfl
  · next hprev =>
    exact ObjectIdiom.call.declared_written_of_only h₁ h₂ hbody (by simpa using hprev) honly

/-- Remarks before the entries of `defineProps` take those entries away, and change nothing else. -/
theorem declared_remarked (markup plain : Text) (h₁ : Text.IsBlanks gap₁) (h₂ : Text.IsBlanks gap₂)
    (h : Layout [','] (es.map remarkedText) body)
    (h' : Layout [','] ((es.filter (·.remarks.isEmpty)).map fun e => e.item.text) body')
    (hplace : Text.places (Text.literally "defineProps".toList)
      (before ++ ObjectIdiom.call.written gap₁ gap₂ body after) = [before.length])
    (hplace' : Text.places (Text.literally "defineProps".toList)
      (before ++ ObjectIdiom.call.written gap₁ gap₂ body' after) = [before.length]) :
    declared { markup, plain, setup := before ++ ObjectIdiom.call.written gap₁ gap₂ body after } =
      declared { markup, plain, setup := before ++ ObjectIdiom.call.written gap₁ gap₂ body' after } := by
  have hbody' : Passes .ignore [] body' := by
    refine h'.passes areSeparators_comma ?_
    intro t ht
    obtain ⟨e, -, rfl⟩ := List.mem_map.mp ht
    exact e.item.passes_braced
  simp only [declared, inTypeLiteral_eq_nil h₁ hplace, inTypeLiteral_eq_nil h₁ hplace',
    inObjectLiteral_written h₁ h₂ (passes_remarkedBody h) hplace,
    inObjectLiteral_written h₁ h₂ hbody' hplace', ofObjectBody_remarked .objectLiteral h h']

end Script

end SfcContract.Property
