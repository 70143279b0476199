import Mathlib.Data.List.Forall2
import SfcContract.Proofs.Code.Written
import SfcContract.Property.ObjectLiteral

/-!
# Objects read back

An object of entries `name: value` after `defineProps(` or `props:` declares one property for each entry,
in their order. A plain value is the type of its property; an object of options gives type, default and
whether the property is required.
-/

namespace SfcContract.Property

open Code

inductive ObjectIdiom where
  /-- The argument of `defineProps`. -/
  | call
  /-- The field `props`. -/
  | field

namespace ObjectIdiom

def word : ObjectIdiom → Text
  | call => "defineProps".toList
  | field => "props".toList

def sign : ObjectIdiom → Char
  | call => '('
  | field => ':'

def origin : ObjectIdiom → Origin
  | call => .objectLiteral
  | field => .optionsStyle

def declared : ObjectIdiom → Text → List Property
  | call => inObjectLiteral
  | field => inOptions

def opening (idiom : ObjectIdiom) : Recognizer Text := objectAfter idiom.word idiom.sign

/-- The idiom around a body, with blanks before and after its sign and any text after its brace. -/
def written (idiom : ObjectIdiom) (gap₁ gap₂ body after : Text) : Text :=
  idiom.word ++ (gap₁ ++ idiom.sign :: (gap₂ ++ '{' :: body ++ '}' :: after))

theorem opening_written (idiom : ObjectIdiom) {gap₁ gap₂ : Text} (h₁ : Text.IsBlanks gap₁)
    (h₂ : Text.IsBlanks gap₂) (body after : Text) {prev : Option Char} (hp : prev.any Text.isWord = false) :
    idiom.opening prev (idiom.written gap₁ gap₂ body after) =
      some ('{' :: body ++ '}' :: after, body ++ '}' :: after) := by
  have hsign : Text.isBlank idiom.sign = false := by cases idiom <;> decide
  have hbrace : Text.isBlank '{' = false := by decide
  have hword : Text.wordStart? idiom.word prev (idiom.written gap₁ gap₂ body after) =
      some (gap₁ ++ idiom.sign :: (gap₂ ++ '{' :: body ++ '}' :: after)) :=
    Text.wordStart?_eq_some_iff.mpr ⟨hp, rfl⟩
  have hskip : Text.skipBlanks (gap₂ ++ '{' :: body ++ '}' :: after) = '{' :: body ++ '}' :: after := by
    rw [List.append_assoc, Text.skipBlanks_append h₂, List.cons_append, Text.skipBlanks_cons_of_not hbrace]
  simp only [opening, objectAfter, hword, Option.bind_eq_bind, Option.bind_some,
    Text.skipBlanks_append h₁, Text.skipBlanks_cons_of_not hsign, Text.expect?, if_true, hskip]
  rfl

theorem written_ne_nil (idiom : ObjectIdiom) (gap₁ gap₂ body after : Text) :
    idiom.written gap₁ gap₂ body after ≠ [] := by
  have hword : idiom.word ≠ [] := by cases idiom <;> decide
  exact List.append_ne_nil_of_left_ne_nil hword _

/-- In an idiom found at one place, the declarations are those of the object there. -/
theorem declared_of_findAll (idiom : ObjectIdiom) {script object body : Text}
    (hall : Text.findAll idiom.opening script = [object]) (hbody : bracedBody? object = some body) :
    idiom.declared script = ofObjectBody idiom.origin body := by
  cases idiom with
  | call =>
    change ((Text.findAll (opening call) script).filterMap bracedBody?).flatMap
      (ofObjectBody .objectLiteral) = _
    rw [hall]
    simp [hbody, origin]
  | field =>
    change (((Text.findFirst? (opening field) script).bind bracedBody?).map
      (ofObjectBody .optionsStyle)).getD [] = _
    rw [Text.findFirst?_eq_head?, hall]
    simp [hbody, origin]

/-- An object is read where its idiom stands, when the opening is met nowhere else. -/
theorem declared_written_of_only (idiom : ObjectIdiom) {before gap₁ gap₂ body after : Text}
    (h₁ : Text.IsBlanks gap₁) (h₂ : Text.IsBlanks gap₂) (hbody : Passes .ignore [] body)
    (hprev : before.getLast?.any Text.isWord = false)
    (honly : ∀ n ∈ Text.places idiom.opening (before ++ idiom.written gap₁ gap₂ body after), n = before.length) :
    idiom.declared (before ++ idiom.written gap₁ gap₂ body after) = ofObjectBody idiom.origin body := by
  have hne := idiom.written_ne_nil gap₁ gap₂ body after
  have hall := Text.findAll_of_places honly (idiom.opening_written h₁ h₂ body after hprev) hne
  exact idiom.declared_of_findAll hall (bracedBody?_of_passes (by decide) (by decide) hbody)

theorem declared_written (idiom : ObjectIdiom) {before gap₁ gap₂ body after : Text}
    (h₁ : Text.IsBlanks gap₁) (h₂ : Text.IsBlanks gap₂) (hbody : Passes .ignore [] body)
    (hplace : Text.places idiom.opening (before ++ idiom.written gap₁ gap₂ body after) = [before.length]) :
    idiom.declared (before ++ idiom.written gap₁ gap₂ body after) = ofObjectBody idiom.origin body := by
  have hne := idiom.written_ne_nil gap₁ gap₂ body after
  have hmem : before.length ∈ Text.places idiom.opening (before ++ idiom.written gap₁ gap₂ body after) := by
    rw [hplace]
    exact List.mem_singleton_self _
  have hprev : before.getLast?.any Text.isWord = false := by
    obtain ⟨hit, hhit⟩ := Option.isSome_iff_exists.mp ((Text.mem_places hne).mp hmem)
    obtain ⟨t, ht, -⟩ := Option.bind_eq_some_iff.mp hhit
    exact (Text.wordStart?_eq_some_iff.mp ht).1
  refine idiom.declared_written_of_only h₁ h₂ hbody hprev ?_
  intro n hn
  rwa [hplace, List.mem_singleton] at hn

end ObjectIdiom

/-- An entry of an object: of the object of all properties, or of the options of one. -/
abbrev ObjectEntry := Code.Entry [','] .generic

theorem areSeparators_comma : AreSeparators [','] := by
  intro c hc
  obtain rfl := List.mem_singleton.mp hc
  decide

private theorem trim_text_ne_nil (entry : ObjectEntry) : Text.trim entry.text ≠ [] := by
  rw [entry.trim_text]
  simp

theorem splitTop_objectBody {entries : List ObjectEntry} {body : Text}
    (h : Layout [','] (entries.map Entry.text) body) :
    splitTop [','] .generic body = entries.map fun entry => Text.trim entry.text := by
  have hpasses : ∀ e ∈ entries.map Entry.text, Passes .generic [','] e ∧ Text.trim e ≠ [] := by
    intro e he
    obtain ⟨entry, -, rfl⟩ := List.mem_map.mp he
    exact ⟨entry.passes, trim_text_ne_nil entry⟩
  rw [h.splitTop_eq areSeparators_comma hpasses, List.map_map]
  rfl

theorem passes_objectBody {entries : List ObjectEntry} {body : Text}
    (h : Layout [','] (entries.map Entry.text) body) : Passes .ignore [] body := by
  refine h.passes areSeparators_comma ?_
  intro e he
  obtain ⟨entry, -, rfl⟩ := List.mem_map.mp he
  exact entry.passes_braced

/-- The trimmed value of the field with the given key. -/
def fieldValue? (fields : List ObjectEntry) (key : Text) : Option Text :=
  (fields.find? fun field => field.key.name == key).map fun field => Text.trim field.value.text

theorem fieldValue?_cons (field : ObjectEntry) (fields : List ObjectEntry) (key : Text) :
    fieldValue? (field :: fields) key =
      if field.key.name = key then some (Text.trim field.value.text) else fieldValue? fields key := by
  by_cases h : field.key.name = key <;> simp [fieldValue?, h]

theorem fieldValue?_eq_none {fields : List ObjectEntry} {key : Text}
    (h : key ∉ fields.map fun field => field.key.name) : fieldValue? fields key = none := by
  induction fields with
  | nil => rfl
  | cons field fields ih =>
    simp only [List.map_cons, List.mem_cons, not_or] at h
    rw [fieldValue?_cons, if_neg (Ne.symm h.1)]
    exact ih h.2

theorem addField_text (o : Options) (field : ObjectEntry) :
    o.addField (Text.trim field.text) =
      if field.key.name = "type".toList then { o with type := some (Text.trim field.value.text) }
      else if field.key.name = "required".toList then
        { o with required := Text.trim field.value.text = "true".toList }
      else if field.key.name = "default".toList then
        { o with defaultValue := some (Text.trim field.value.text) }
      else o := by
  rw [Options.addField, field.keyValue?_text]

/-- Each key speaks for one part of the options; with distinct keys no field overrides another. -/
theorem foldl_addField {fields : List ObjectEntry} (hn : (fields.map fun field => field.key.name).Nodup)
    (o : Options) :
    (fields.map fun field => Text.trim field.text).foldl Options.addField o =
      { type := (fieldValue? fields "type".toList).or o.type
        required := ((fieldValue? fields "required".toList).map fun v => decide (v = "true".toList)).getD
          o.required
        defaultValue := (fieldValue? fields "default".toList).or o.defaultValue } := by
  have htr : "type".toList ≠ "required".toList := by decide
  have htd : "type".toList ≠ "default".toList := by decide
  have hrd : "required".toList ≠ "default".toList := by decide
  induction fields generalizing o with
  | nil => rfl
  | cons field fields ih =>
    obtain ⟨hnot, hrest⟩ := List.nodup_cons.mp hn
    have hnone : fieldValue? fields field.key.name = none := fieldValue?_eq_none hnot
    rw [List.map_cons, List.foldl_cons, ih hrest, addField_text]
    simp only [fieldValue?_cons]
    by_cases ht : field.key.name = "type".toList
    · rw [ht] at hnone
      simp only [ht, hnone, htr, htd, if_true, if_false]
      rfl
    · by_cases hr : field.key.name = "required".toList
      · rw [hr] at hnone
        simp only [hr, hnone, htr.symm, hrd, if_true, if_false]
        rfl
      · by_cases hd : field.key.name = "default".toList
        · rw [hd] at hnone
          simp only [hd, hnone, htd.symm, hrd.symm, if_true, if_false]
          rfl
        · simp only [ht, hr, hd, if_false]

/-- What the options of an object of fields say. -/
theorem ofBody_layout {fields : List ObjectEntry} {body : Text}
    (hn : (fields.map fun field => field.key.name).Nodup)
    (h : Layout [','] (fields.map Entry.text) body) :
    Options.ofBody body =
      { type := fieldValue? fields "type".toList
        required := decide (fieldValue? fields "required".toList = some "true".toList)
        defaultValue := fieldValue? fields "default".toList } := by
  rw [Options.ofBody, splitTop_objectBody h, foldl_addField hn, Option.or_none, Option.or_none]
  cases fieldValue? fields "required".toList with
  | none => rfl
  | some v => simp only [Option.map_some, Option.getD_some, Option.some.injEq]

/-- The property that an entry declares. A value is either a type or, when it starts with a brace, an
object of options. -/
structure Declares (origin : Origin) (entry : ObjectEntry) (p : Property) : Prop where
  name : p.name = entry.key.name
  origin : p.origin = origin
  plain : Text.startsWith '{' (Text.trim entry.value.text) = false →
    (Text.trim entry.value.text ≠ [] → p.type = Text.trim entry.value.text) ∧
      p.required = false ∧ p.defaultValue = none
  options : ∀ (fields : List ObjectEntry) (body : Text), (fields.map fun field => field.key.name).Nodup →
    Layout [','] (fields.map Entry.text) body → Text.trim entry.value.text = '{' :: body ++ ['}'] →
    p.type = (fieldValue? fields "type".toList).getD unknownType ∧
      (p.required = true ↔ fieldValue? fields "required".toList = some "true".toList) ∧
      p.defaultValue = fieldValue? fields "default".toList

theorem propertyOfObject?_text (origin : Origin) (entry : ObjectEntry) :
    ∃ p, propertyOfObject? origin (Text.trim entry.text) = some p ∧ Declares origin entry p := by
  rw [propertyOfObject?, entry.keyValue?_text]
  simp only [Option.bind_eq_bind, Option.bind_some, entry.key.isName, if_true]
  cases hv : Text.startsWith '{' (Text.trim entry.value.text) with
  | false =>
    simp only [Bool.false_eq_true, if_false]
    refine ⟨_, rfl, rfl, rfl, fun _ => ⟨fun hne => ?_, rfl, rfl⟩, ?_⟩
    · simp [typeOr, hne]
    · intro fields body _ _ he
      rw [he] at hv
      simp [Text.startsWith, Text.expect?] at hv
  | true =>
    simp only [if_true]
    refine ⟨_, rfl, rfl, rfl, fun h => by simp [hv] at h, ?_⟩
    intro fields body hn hl he
    have hbody : bracedBody? (Text.trim entry.value.text) = some body := by
      rw [he]
      exact bracedBody?_of_passes (by decide) (by decide) (passes_objectBody hl)
    simp only [hbody, Option.getD_some, ofBody_layout hn hl, decide_eq_true_eq, and_true]

/-- An object declares its entries, one property for each and in their order. -/
theorem ofObjectBody_layout (origin : Origin) {entries : List ObjectEntry} {body : Text}
    (h : Layout [','] (entries.map Entry.text) body) :
    List.Forall₂ (Declares origin) entries (ofObjectBody origin body) := by
  rw [ofObjectBody, splitTop_objectBody h]
  clear h
  induction entries with
  | nil => exact List.Forall₂.nil
  | cons entry entries ih =>
    obtain ⟨p, hp, hd⟩ := propertyOfObject?_text origin entry
    rw [List.map_cons, List.filterMap_cons_some hp]
    exact List.Forall₂.cons hd ih

/-- Object declarations are read back. The script may hold anything before and after the object, as long
as the opening of the idiom is met nowhere else. -/
theorem object_declarations_read_back (idiom : ObjectIdiom) (entries : List ObjectEntry)
    (before gap₁ gap₂ body after : Text) (h₁ : Text.IsBlanks gap₁) (h₂ : Text.IsBlanks gap₂)
    (hbody : Layout [','] (entries.map Entry.text) body)
    (hplace : Text.places idiom.opening (before ++ idiom.written gap₁ gap₂ body after) = [before.length]) :
    List.Forall₂ (Declares idiom.origin) entries
      (idiom.declared (before ++ idiom.written gap₁ gap₂ body after)) := by
  rw [idiom.declared_written h₁ h₂ (passes_objectBody hbody) hplace]
  exact ofObjectBody_layout idiom.origin hbody

def titleEntry : ObjectEntry where
  key := { name := "title".toList, isName := by decide, isQuote := Key.isQuote_none }
  value := { text := " String".toList, braced := by decide, balanced := by decide, uncut := by decide }
  isGap := Text.isBlanks_nil

private theorem isPropertyName_size : Text.isPropertyName "max-size".toList = true := by decide

-- Commas, an arrow and a generic type stand inside the options.
def sizeEntry : ObjectEntry where
  key := { name := "max-size".toList, quote := some '\x27', isName := isPropertyName_size
           isQuote := Key.isQuote_single }
  value := { text := " \x7b type: Map<a, b>, default: (x, y) => x \x7d".toList
             braced := by decide +kernel, balanced := by decide +kernel, uncut := by decide +kernel }
  isGap := Text.isBlanks_nil

theorem object_declarations_read_back_call :
    List.Forall₂ (Declares .objectLiteral) [titleEntry, sizeEntry]
      (inObjectLiteral ("x = defineProps (\x7b title: String, ".toList ++
        "'max-size': \x7b type: Map<a, b>, default: (x, y) => x \x7d\x7d)".toList)) := by
  have hscript : "x = defineProps (\x7b title: String, ".toList ++
      "'max-size': \x7b type: Map<a, b>, default: (x, y) => x \x7d\x7d)".toList = "x = ".toList ++
        ObjectIdiom.call.written " ".toList []
          (" ".toList ++ (titleEntry.text ++ ',' :: (" ".toList ++ sizeEntry.text))) ")".toList := by
    decide +kernel
  rw [hscript]
  exact object_declarations_read_back .call [titleEntry, sizeEntry] _ _ _ _ _ (by decide) (by decide)
    (.more (by decide) (by decide) (.last (by decide))) (by decide +kernel)

end SfcContract.Property
