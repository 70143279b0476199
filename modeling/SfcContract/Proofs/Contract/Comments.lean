import SfcContract.Proofs.Event.Comments
import SfcContract.Proofs.Property.Comments

/-!
# Comments in declarations

What comments do to the two lists a component declares. Before an entry of `defineProps` a comment of any kind
takes the entry away. Before a name of `defineEmits` it changes nothing as long as it is quiet: it has no
quotes, does not end the list and does not name the declaration.
-/

namespace SfcContract

open Code

/-- Scripts with comments before entries or names declare what they declare without those entries, and with
those names. -/
theorem declared_beside_comments (markup plain before body body' after : Text) :
    (∀ (gap₁ gap₂ : Text) (es : List (Remarked Property.ObjectEntry)),
      Text.IsBlanks gap₁ → Text.IsBlanks gap₂ → Layout [','] (es.map Property.remarkedText) body →
      Layout [','] ((es.filter (·.remarks.isEmpty)).map fun e => e.item.text) body' →
      (∀ inner ∈ [body, body'], Text.places (Text.literally "defineProps".toList)
        (before ++ Property.ObjectIdiom.call.written gap₁ gap₂ inner after) = [before.length]) →
      Property.declared
          { markup, plain, setup := before ++ Property.ObjectIdiom.call.written gap₁ gap₂ body after } =
        Property.declared
          { markup, plain, setup := before ++ Property.ObjectIdiom.call.written gap₁ gap₂ body' after }) ∧
    ∀ es : List (Remarked Event.QuotedName), Event.Leads before → (∀ e ∈ es, Event.Quiet e.remarks) →
      Layout [','] (es.map Event.remarkedText) body → Layout [','] (es.map fun e => e.item.text) body' →
      Event.declared { markup, plain, setup := Event.listScript before body after } =
        Event.declared { markup, plain, setup := Event.listScript before body' after } := by
  constructor
  · intro gap₁ gap₂ es h₁ h₂ h h' hplace
    exact Property.declared_remarked markup plain h₁ h₂ h h' (hplace body (by simp)) (hplace body' (by simp))
  · intro es hb hq h h'
    exact Event.declared_remarked hb hq h h' markup plain after

def setupOnly (script : String) : Regions := { markup := [], setup := script.toList, plain := [] }

def noisyEntry : Remarked Property.ObjectEntry where
  remarks := (Comment.block " the title, first: ".toList (by decide)).text ++ (" ".toList ++ [])
  isRemarks := .cons _ (by decide) .nil
  item := Property.titleEntry

-- The call in the comment reads the name after it, which the list names anyway.
def quietName : Remarked Event.QuotedName where
  remarks := (Comment.line " then $emit(".toList (by decide)).text ++ ([] ++ [])
  isRemarks := .cons _ (by decide) .nil
  item := { name := Event.saveName, isQuote := by decide }

theorem declared_beside_comments_title :
    Property.declared (setupOnly "defineProps(\x7b/* the title, first: */ title: String\x7d)") =
      Property.declared (setupOnly "defineProps(\x7b\x7d)") ∧
    Event.declared (setupOnly "defineProps(['title']); const emit = defineEmits([// then $emit(\n'save'])") =
      Event.declared (setupOnly "defineProps(['title']); const emit = defineEmits(['save'])") := by
  have hleads : Event.Leads "defineProps(['title']); const emit = ".toList := ⟨by decide, by decide, by decide +kernel⟩
  have hquiet : ∀ e ∈ [quietName], Event.Quiet e.remarks := by
    intro e he
    obtain rfl := List.mem_singleton.mp he
    exact ⟨by decide, by decide, by decide⟩
  have hnone : IsFiller [','] [] := by decide
  have halone (e : Text) : Layout [','] [e] e := .last (e := e) hnone
  constructor
  · have h := (declared_beside_comments [] [] [] (Property.remarkedText noisyEntry) [] ")".toList).1 [] []
      [noisyEntry] (by decide) (by decide) (halone _) (.filler hnone) (by decide +kernel)
    have hscript : "defineProps(\x7b/* the title, first: */ title: String\x7d)".toList =
        [] ++ Property.ObjectIdiom.call.written [] [] (Property.remarkedText noisyEntry) ")".toList := by decide
    have hscript' : "defineProps(\x7b\x7d)".toList =
        [] ++ Property.ObjectIdiom.call.written [] [] [] ")".toList := by decide
    rw [setupOnly, setupOnly, hscript, hscript']
    exact h
  · have h := (declared_beside_comments [] [] "defineProps(['title']); const emit = ".toList
      (Event.remarkedText quietName) quietName.item.text []).2 [quietName] hleads hquiet (halone _) (halone _)
    have hscript : "defineProps(['title']); const emit = defineEmits([// then $emit(\n'save'])".toList =
        Event.listScript "defineProps(['title']); const emit = ".toList (Event.remarkedText quietName) [] := by
      decide +kernel
    have hscript' : "defineProps(['title']); const emit = defineEmits(['save'])".toList =
        Event.listScript "defineProps(['title']); const emit = ".toList quietName.item.text [] := by decide +kernel
    rw [setupOnly, setupOnly, hscript, hscript']
    exact h

/-- The comment stays in the key of the first script, and its apostrophe is read as a quote in the second. -/
theorem declared_ne_of_comment :
    Property.declared (setupOnly "defineProps({ /* the title */ title: String })") ≠
      Property.declared (setupOnly "defineProps({ title: String })") ∧
    Event.declared (setupOnly "defineEmits([// don't
'save', 'close'])") ≠
      Event.declared (setupOnly "defineEmits(['save', 'close'])") := by
  decide +kernel

end SfcContract
