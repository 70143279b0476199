import SfcContract.Contract
import SfcContract.Proofs.Names
import SfcContract.Proofs.Property.Provenance
import SfcContract.Proofs.Region.Block

/-!
# Nothing in a contract is invented

Regions are parts of the source, and what a contract names stands in the region it was read from. The
two exceptions are the type of a property that names none and the slot without a name.
-/

namespace SfcContract

namespace Event

theorem readsPart_quotedName : Text.ReadsPart quotedName := by
  intro prev t name rest h
  exact Text.between?_isInfix h

theorem nameArgument?_isInfix {t name rest : Text} (h : nameArgument? t = some (name, rest)) :
    name <:+: t := by
  obtain ⟨u, hu, h⟩ := Option.bind_eq_some_iff.mp h
  have hopen := (Text.skipBlanks_isSuffix u).trans (Text.expect?_skipBlanks_isSuffix hu)
  exact (Text.between?_isInfix h).trans hopen.isInfix

theorem readsPart_listDeclaration : Text.ReadsPart listDeclaration := by
  intro prev t inner rest h
  obtain ⟨u, hu, h⟩ := Option.bind_eq_some_iff.mp h
  obtain ⟨v, hv, h⟩ := Option.bind_eq_some_iff.mp h
  obtain ⟨w, hw, h⟩ := Option.bind_eq_some_iff.mp h
  have hparen := (Text.expect?_skipBlanks_isSuffix hv).trans (Text.wordStart?_isSuffix hu)
  have hbracket := (Text.expect?_skipBlanks_isSuffix hw).trans hparen
  exact (Text.upTo?_isPrefix h).isInfix.trans hbracket.isInfix

theorem inLists_isInfix {script event : Text} (h : event ∈ inLists script) : event <:+: script := by
  obtain ⟨inner, hinner, hevent⟩ := List.mem_flatMap.mp h
  exact (readsPart_quotedName.mem_findAll hevent).trans (readsPart_listDeclaration.mem_findAll hinner)

theorem readsPart_typeDeclaration : Text.ReadsPart typeDeclaration := by
  intro prev t literal rest h
  obtain ⟨u, hu, h⟩ := Option.bind_eq_some_iff.mp h
  obtain ⟨v, hv, h⟩ := Option.bind_eq_some_iff.mp h
  obtain ⟨w, -, h⟩ := Option.bind_eq_some_iff.mp h
  obtain ⟨rfl, -⟩ := Prod.mk.inj (Option.some.inj h)
  have hangle := (Text.expect?_skipBlanks_isSuffix hv).trans (Text.wordStart?_isSuffix hu)
  exact ((Text.skipBlanks_isSuffix v).trans hangle).isInfix

theorem eventOfSignature?_isInfix {entry event : Text} (h : eventOfSignature? entry = some event) :
    event <:+: entry := by
  obtain ⟨u, hu, h⟩ := Option.bind_eq_some_iff.mp h
  simp only at h
  split at h
  · cases h
  · obtain ⟨v, hv, h⟩ := Option.bind_eq_some_iff.mp h
    obtain ⟨⟨name, rest⟩, hname, h⟩ := Option.bind_eq_some_iff.mp h
    obtain rfl := Option.some.inj h
    have hopen := (Text.skipBlanks_isSuffix u).trans (Text.expect?_isSuffix hu)
    have hparameter := (List.dropWhile_suffix Text.isNamePart).trans hopen
    have hcolon := (Text.expect?_skipBlanks_isSuffix hv).trans hparameter
    exact (Text.between?_isInfix hname).trans ((Text.skipBlanks_isSuffix v).trans hcolon).isInfix

theorem eventOfType?_isInfix {entry event : Text} (h : eventOfType? entry = some event) :
    event <:+: entry := by
  rw [eventOfType?] at h
  split at h
  · exact eventOfSignature?_isInfix h
  · split at h
    · rename_i key value hkv
      split at h
      · obtain rfl := Option.some.inj h
        exact (Code.unquote_isInfix key).trans (Code.keyValue?_isInfix hkv).1
      · cases h
    · cases h

theorem inTypes_isInfix {script event : Text} (h : event ∈ inTypes script) : event <:+: script := by
  obtain ⟨body, hbody, h⟩ := List.mem_flatMap.mp h
  obtain ⟨literal, hliteral, hb⟩ := List.mem_filterMap.mp hbody
  obtain ⟨entry, hentry, hevent⟩ := List.mem_filterMap.mp h
  have hread := (Code.bracedBody?_isInfix hb).trans (readsPart_typeDeclaration.mem_findAll hliteral)
  exact (eventOfType?_isInfix hevent).trans ((Code.splitTop_isInfix hentry).trans hread)

theorem readsPart_emitCall : Text.ReadsPart emitCall := by
  intro prev t name rest h
  obtain ⟨u, hu, h⟩ := Option.bind_eq_some_iff.mp h
  exact (nameArgument?_isInfix h).trans (Text.after?_isSuffix hu).isInfix

theorem readsPart_boundCall (emitter : Text) : Text.ReadsPart (boundCall emitter) := by
  have hcall {t name rest : Text} (h : (Text.after? emitter t).bind nameArgument? = some (name, rest)) :
      name <:+: t := by
    obtain ⟨u, hu, h⟩ := Option.bind_eq_some_iff.mp h
    exact (nameArgument?_isInfix h).trans (Text.after?_isSuffix hu).isInfix
  refine Text.ReadsPart.orElse ?_ ?_
  · intro prev t name rest h
    beta_reduce at h
    split at h
    · exact hcall h
    · cases h
  · intro prev t name rest h
    beta_reduce at h
    split at h
    · cases h
    · rename_i c u
      split at h
      · cases h
      · exact List.infix_cons (hcall h)

theorem inBoundCalls_isInfix {script event : Text} (h : event ∈ inBoundCalls script) : event <:+: script := by
  rw [inBoundCalls] at h
  split at h
  · cases h
  · exact (readsPart_boundCall _).mem_findAll h

theorem declared_isInfix {regions : Regions} {event : Text} (h : event ∈ declared regions) :
    event <:+: regions.setup ∨ event <:+: regions.plain := by
  have hmem := Names.mem_ofList.mp h
  simp only [List.mem_append] at hmem
  rcases hmem with (((h | h) | h) | h) | h
  · exact .inl (inLists_isInfix h)
  · exact .inl (inTypes_isInfix h)
  · exact .inl (readsPart_emitCall.mem_findAll h)
  · exact .inr (readsPart_emitCall.mem_findAll h)
  · exact .inl (inBoundCalls_isInfix h)

end Event

namespace Tag

theorem quotedRest?_eq_some {quote : Option Char} {t a rest : Text}
    (h : quotedRest? quote t = some (a, rest)) : t = a ++ rest := by
  induction t generalizing quote a with
  | nil => cases quote <;> cases h
  | cons c t ih =>
    cases quote with
    | none =>
      rw [quotedRest?] at h
      split at h
      · obtain ⟨rfl, rfl⟩ := Prod.mk.inj (Option.some.inj h)
        rfl
      · obtain ⟨⟨b, u⟩, hb, h⟩ := Option.map_eq_some_iff.mp h
        obtain ⟨rfl, rfl⟩ := Prod.mk.inj h
        rw [ih hb, List.cons_append]
    | some q =>
      rw [quotedRest?] at h
      obtain ⟨⟨b, u⟩, hb, h⟩ := Option.map_eq_some_iff.mp h
      obtain ⟨rfl, rfl⟩ := Prod.mk.inj h
      rw [ih hb, List.cons_append]

theorem readsPart_opening : Text.ReadsPart opening := by
  intro prev t tag rest h
  unfold opening at h
  split at h
  · rename_i c t
    split at h
    · obtain ⟨⟨a, u⟩, ha, h⟩ := Option.map_eq_some_iff.mp h
      obtain ⟨rfl, rfl⟩ := Prod.mk.inj h
      rw [quotedRest?_eq_some ha]
      exact (List.prefix_append ('<' :: c :: a) u).isInfix
    · cases h
  · cases h

end Tag

theorem Attribute.quotedValue?_isInfix {t value rest : Text} (h : quotedValue? t = some (value, rest)) :
    value <:+: t := by
  have hquoted {q : Char} (h : (Text.expect? q t).bind (Text.upToChar? q) = some (value, rest)) :
      value <:+: t := by
    obtain ⟨u, hu, h⟩ := Option.bind_eq_some_iff.mp h
    exact (Text.upTo?_isPrefix h).isInfix.trans (Text.expect?_isSuffix hu).isInfix
  simp only [quotedValue?, Option.orElse_eq_orElse, Option.orElse_eq_or, Option.or_eq_some_iff] at h
  rcases h with h | ⟨-, h⟩
  · exact hquoted h
  · exact hquoted h

namespace Slot

/-- A slot without a name, or one whose name is a part of the text. -/
def IsPartOf (markup slot : Text) : Prop := slot = unnamed ∨ slot ≠ [] ∧ slot <:+: markup

theorem IsPartOf.mono {s t slot : Text} (h : IsPartOf s slot) (hs : s <:+: t) : IsPartOf t slot :=
  h.imp_right fun hpart => ⟨hpart.1, hpart.2.trans hs⟩

theorem readsPart_slotTag : Text.ReadsPart slotTag := by
  intro prev t tag rest h
  obtain ⟨u, hu, h⟩ := Option.bind_eq_some_iff.mp h
  split at h
  · cases h
  · obtain ⟨⟨inner, v⟩, hinner, h⟩ := Option.bind_eq_some_iff.mp h
    obtain ⟨rfl, rfl⟩ := Prod.mk.inj (Option.some.inj h)
    rw [Text.after?_eq_some_iff.mp hu, Text.upToChar?_eq_some hinner]
    exact ⟨[], v, by simp only [List.nil_append, List.append_assoc, List.cons_append]⟩

theorem readsPart_nameAttribute : Text.ReadsPart nameAttribute := by
  intro prev t value rest h
  cases t with
  | nil => cases h
  | cons c t =>
    rw [nameAttribute] at h
    split at h
    · obtain ⟨u, hu, h⟩ := Option.bind_eq_some_iff.mp h
      obtain ⟨v, hv, h⟩ := Option.bind_eq_some_iff.mp h
      have hequals := (Text.expect?_skipBlanks_isSuffix hv).trans (Text.after?_isSuffix hu)
      have hvalue := (Text.skipBlanks_isSuffix v).trans hequals
      exact List.infix_cons ((Attribute.quotedValue?_isInfix h).trans hvalue.isInfix)
    · cases h

theorem isPartOf_ofTag (tag : Text) : IsPartOf tag (ofTag tag) := by
  cases hf : Text.findFirst? nameAttribute tag with
  | none => exact .inl (by rw [ofTag, hf]; rfl)
  | some value =>
    have hpart := (Text.trim_isInfix value).trans (readsPart_nameAttribute.findFirst? hf)
    rw [ofTag, hf, Option.map_some]
    cases hempty : (Text.trim value).isEmpty with
    | true => exact .inl (by simp only [hempty, if_true])
    | false =>
      simp only [hempty, Bool.false_eq_true, if_false]
      exact .inr ⟨by simpa using hempty, hpart⟩

theorem readsPart_attributeName : Text.ReadsPart attributeName := by
  intro prev t name rest h
  cases t with
  | nil => cases h
  | cons c t =>
    rw [attributeName] at h
    split at h
    · obtain ⟨⟨⟨written, value⟩, u⟩, hraw, h⟩ := Option.map_eq_some_iff.mp h
      obtain ⟨rfl, rfl⟩ := Prod.mk.inj h
      have hname : written = t.takeWhile Attribute.isNamePart := by
        rw [Attribute.raw?] at hraw
        split at hraw
        · cases hraw
        · split at hraw <;> exact (Prod.mk.inj (Prod.mk.inj (Option.some.inj hraw)).1).1.symm
      rw [hname]
      exact List.infix_cons (List.takeWhile_prefix _).isInfix
    · cases h

theorem isPartOf_ofAttribute? {written slot : Text} (h : ofAttribute? written = some slot) :
    IsPartOf written slot := by
  rw [ofAttribute?] at h
  split at h
  · exact .inl (Option.some.inj h).symm
  · obtain ⟨hread, hname⟩ := Option.filter_eq_some_iff.mp h
    have hne : slot ≠ [] := by
      rintro rfl
      simp [isName] at hname
    simp only [Option.orElse_eq_orElse, Option.orElse_eq_or, Option.or_eq_some_iff] at hread
    rcases hread with hread | ⟨-, hread⟩
    · exact .inr ⟨hne, (Text.after?_isSuffix hread).isInfix⟩
    · exact .inr ⟨hne, (Text.expect?_isSuffix hread).isInfix⟩

theorem declared_isPartOf {markup slot : Text} (h : slot ∈ declared markup) : IsPartOf markup slot := by
  rcases List.mem_append.mp (Names.mem_ofList.mp h) with h | h
  · obtain ⟨tag, htag, rfl⟩ := List.mem_map.mp h
    exact (isPartOf_ofTag tag).mono (readsPart_slotTag.mem_findAll htag)
  · obtain ⟨tag, htag, h⟩ := List.mem_flatMap.mp h
    obtain ⟨written, hwritten, hslot⟩ := List.mem_filterMap.mp h
    have hread := (readsPart_attributeName.mem_findAll hwritten).trans
      (Tag.readsPart_opening.mem_findAll htag)
    exact (isPartOf_ofAttribute? hslot).mono hread

end Slot

theorem Block.body_isInfix (kind : BlockKind) {t rest : Text} {prev : Option Char} {block : Block}
    (h : recognizer kind.tag prev t = some (block, rest)) : block.body <:+: t := by
  obtain ⟨opening, closing, -, -, -, rfl⟩ := recognizer_eq_some_iff.mp h
  exact ⟨opening, closing ++ rest, List.append_assoc _ _ _⟩

namespace Regions

def scriptOf (regions : Regions) : Origin → Text
  | .typeLiteral => regions.setup
  | .objectLiteral => regions.setup
  | .optionsStyle => regions.plain

structure ArePartsOf (source : Text) (regions : Regions) : Prop where
  markup : regions.markup <:+: source
  setup : regions.setup <:+: source
  plain : regions.plain <:+: source

theorem bodyOf_isInfix {source : Text} {block : Option Block} (h : ∀ b ∈ block, b.body <:+: source) :
    bodyOf block <:+: source := by
  cases block with
  | none => exact List.nil_infix
  | some b => exact h b rfl

theorem arePartsOf_ofSource (source : Text) : (ofSource source).ArePartsOf source := by
  have hscript : ∀ p : Block → Bool,
      bodyOf ((Text.findAll (Block.recognizer "script".toList) source).find? p) <:+: source := by
    intro p
    refine bodyOf_isInfix ?_
    intro b hb
    obtain ⟨prev, s, rest, hs, hread⟩ := Text.mem_findAll (List.mem_of_find?_eq_some hb)
    exact (Block.body_isInfix .script hread).trans hs.isInfix
  refine ⟨bodyOf_isInfix ?_, hscript _, hscript _⟩
  intro b hb
  obtain ⟨prev, s, rest, hs, hread⟩ := Text.findFirst?_eq_some hb
  exact (Block.body_isInfix .template hread).trans hs.isInfix

end Regions

theorem Property.declared_isPartOf {regions : Regions} {p : Property} (h : p ∈ declared regions) :
    p.IsPartOf (regions.scriptOf p.origin) := by
  have hmem := mem_merge h
  simp only [List.mem_append] at hmem
  rcases hmem with (h | h) | h
  · obtain ⟨hpart, horigin⟩ := inTypeLiteral_isPartOf h
    rwa [horigin]
  · obtain ⟨hpart, horigin⟩ := inObjectLiteral_isPartOf h
    rwa [horigin]
  · obtain ⟨hpart, horigin⟩ := inOptions_isPartOf h
    rwa [horigin]

namespace Contract

/-- A contract all of whose texts stand in the regions they were read from. -/
structure ComesFrom (regions : Regions) (c : Contract) : Prop where
  properties : ∀ p ∈ c.properties, p.IsPartOf (regions.scriptOf p.origin)
  events : ∀ event ∈ c.events, event <:+: regions.setup ∨ event <:+: regions.plain
  slots : ∀ slot ∈ c.slots, slot = "default".toList ∨ slot ≠ [] ∧ slot <:+: regions.markup

/-- Nothing in a contract is invented, whatever the source. -/
theorem analyze_comesFrom (source path : Text) :
    (Regions.ofSource source).ArePartsOf source ∧
      (analyze source path).ComesFrom (Regions.ofSource source) := by
  refine ⟨Regions.arePartsOf_ofSource source, ?_, ?_, ?_⟩
  · intro p hp
    exact Property.declared_isPartOf hp
  · intro event hevent
    exact Event.declared_isInfix hevent
  · intro slot hslot
    exact Slot.declared_isPartOf hslot

end Contract

end SfcContract
