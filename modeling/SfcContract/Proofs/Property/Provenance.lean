import SfcContract.Proofs.Code.Part
import SfcContract.Property.TypeLiteral

/-!
# Where properties come from

The name, the type and the default of a property are parts of the script that declares it. Only a type
that is left out is put in. This holds of any script, also of one that is not well-formed.
-/

namespace SfcContract.Property

/-- A property that is well named and whose texts are parts of the script. -/
structure IsPartOf (script : Text) (p : Property) : Prop where
  isName : Text.isPropertyName p.name = true
  name : p.name <:+: script
  type : p.type = unknownType ∨ p.type <:+: script
  defaultValue : ∀ v ∈ p.defaultValue, v <:+: script

theorem IsPartOf.mono {s t : Text} {p : Property} (h : p.IsPartOf s) (hs : s <:+: t) : p.IsPartOf t where
  isName := h.isName
  name := h.name.trans hs
  type := h.type.imp_right (List.IsInfix.trans · hs)
  defaultValue v hv := (h.defaultValue v hv).trans hs

theorem typeOr_isPart {type script : Text} (h : type <:+: script) :
    typeOr type = unknownType ∨ typeOr type <:+: script := by
  cases hempty : type.isEmpty with
  | true => exact .inl (by simp [typeOr, hempty])
  | false => exact .inr (by simpa [typeOr, hempty] using h)

namespace Options

structure ArePartsOf (body : Text) (o : Options) : Prop where
  type : ∀ v ∈ o.type, v <:+: body
  defaultValue : ∀ v ∈ o.defaultValue, v <:+: body

theorem defaultMethod?_isInfix {field value : Text} (h : defaultMethod? field = some value) :
    value <:+: field := by
  obtain ⟨rest, hrest, hvalue⟩ := Option.bind_eq_some_iff.mp h
  split at hvalue
  · obtain rfl := Option.some.inj hvalue
    exact (Text.trim_isInfix rest).trans (Text.after?_isSuffix hrest).isInfix
  · cases hvalue

theorem ArePartsOf.addField {body field : Text} {o : Options} (ho : o.ArePartsOf body)
    (hf : field <:+: body) : (o.addField field).ArePartsOf body := by
  have hsome {value : Text} (hv : value <:+: field) : ∀ v ∈ some value, v <:+: body := by
    intro v hmem
    obtain rfl := Option.some.inj hmem
    exact hv.trans hf
  rw [Options.addField]
  split
  · rename_i key value hkv
    have hvalue := hsome (Code.keyValue?_isInfix hkv).2
    split
    · exact ⟨hvalue, ho.defaultValue⟩
    · split
      · exact ⟨ho.type, ho.defaultValue⟩
      · split
        · exact ⟨ho.type, hvalue⟩
        · exact ho
  · split
    · rename_i value hm
      exact ⟨ho.type, hsome (defaultMethod?_isInfix hm)⟩
    · exact ho

theorem arePartsOf_ofBody (body : Text) : (ofBody body).ArePartsOf body := by
  refine List.foldlRecOn _ addField (motive := ArePartsOf body) ?_ ?_
  · exact ⟨by simp, by simp⟩
  · intro o ho field hmem
    exact ho.addField (Code.splitTop_isInfix hmem)

end Options

theorem propertyOfObject?_isPartOf {origin : Origin} {entry : Text} {p : Property}
    (h : propertyOfObject? origin entry = some p) : p.IsPartOf entry ∧ p.origin = origin := by
  obtain ⟨⟨name, value⟩, hkv, hp⟩ := Option.bind_eq_some_iff.mp h
  obtain ⟨hname, hvalue⟩ := Code.keyValue?_isInfix hkv
  simp only at hp
  split at hp
  · rename_i hvalid
    split at hp
    · obtain rfl := Option.some.inj hp
      have hbody : (Code.bracedBody? value).getD [] <:+: entry := by
        cases hb : Code.bracedBody? value with
        | none => exact List.nil_infix
        | some body => exact (Code.bracedBody?_isInfix hb).trans hvalue
      have hoptions := Options.arePartsOf_ofBody ((Code.bracedBody? value).getD [])
      refine ⟨⟨hvalid, hname, ?_, fun v hv => (hoptions.defaultValue v hv).trans hbody⟩, rfl⟩
      cases ht : (Options.ofBody ((Code.bracedBody? value).getD [])).type with
      | none => exact .inl rfl
      | some type => exact .inr (by simpa [ht] using (hoptions.type type ht).trans hbody)
    · obtain rfl := Option.some.inj hp
      exact ⟨⟨hvalid, hname, typeOr_isPart hvalue, by simp⟩, rfl⟩
  · cases hp

theorem ofObjectBody_isPartOf {origin : Origin} {body : Text} {p : Property}
    (h : p ∈ ofObjectBody origin body) : p.IsPartOf body ∧ p.origin = origin := by
  obtain ⟨entry, hmem, hp⟩ := List.mem_filterMap.mp h
  obtain ⟨hpart, horigin⟩ := propertyOfObject?_isPartOf hp
  exact ⟨hpart.mono (Code.splitTop_isInfix hmem), horigin⟩

theorem readsPart_objectAfter (word : Text) (sign : Char) : Text.ReadsPart (objectAfter word sign) := by
  intro prev t object rest h
  obtain ⟨u, hu, h⟩ := Option.bind_eq_some_iff.mp h
  obtain ⟨v, hv, h⟩ := Option.bind_eq_some_iff.mp h
  obtain ⟨w, -, h⟩ := Option.bind_eq_some_iff.mp h
  obtain ⟨rfl, -⟩ := Prod.mk.inj (Option.some.inj h)
  have hsign := (Text.expect?_skipBlanks_isSuffix hv).trans (Text.wordStart?_isSuffix hu)
  exact ((Text.skipBlanks_isSuffix v).trans hsign).isInfix

theorem inObjectLiteral_isPartOf {script : Text} {p : Property} (h : p ∈ inObjectLiteral script) :
    p.IsPartOf script ∧ p.origin = .objectLiteral := by
  obtain ⟨body, hbody, hp⟩ := List.mem_flatMap.mp h
  obtain ⟨object, hobject, hb⟩ := List.mem_filterMap.mp hbody
  obtain ⟨hpart, horigin⟩ := ofObjectBody_isPartOf hp
  have hfound := (readsPart_objectAfter _ _).mem_findAll hobject
  exact ⟨hpart.mono ((Code.bracedBody?_isInfix hb).trans hfound), horigin⟩

theorem inOptions_isPartOf {script : Text} {p : Property} (h : p ∈ inOptions script) :
    p.IsPartOf script ∧ p.origin = .optionsStyle := by
  rw [inOptions] at h
  cases hb : (Text.findFirst? (objectAfter "props".toList ':') script).bind Code.bracedBody? with
  | none =>
    rw [hb] at h
    cases h
  | some body =>
    rw [hb, Option.map_some, Option.getD_some] at h
    obtain ⟨object, hobject, hbody⟩ := Option.bind_eq_some_iff.mp hb
    obtain ⟨hpart, horigin⟩ := ofObjectBody_isPartOf h
    have hfound := (readsPart_objectAfter _ _).findFirst? hobject
    exact ⟨hpart.mono ((Code.bracedBody?_isInfix hbody).trans hfound), horigin⟩

theorem propertyOfType?_isPartOf {entry : Text} {p : Property} (h : propertyOfType? entry = some p) :
    p.IsPartOf entry ∧ p.origin = .typeLiteral := by
  obtain ⟨⟨written, value⟩, hkv, hp⟩ := Option.bind_eq_some_iff.mp h
  obtain ⟨hwritten, hvalue⟩ := Code.keyValue?_isInfix hkv
  simp only at hp
  generalize hkey : Text.trim ((Text.after? "readonly ".toList written).getD written) = key at hp
  have hkey' : key <:+: entry := by
    rw [← hkey]
    refine (Text.trim_isInfix _).trans ?_
    cases ha : Text.after? "readonly ".toList written with
    | none => exact hwritten
    | some rest => exact (Text.after?_isSuffix ha).isInfix.trans hwritten
  have hname : Code.unquote (((Text.before? ['?'] key).map Text.trimEnd).getD key) <:+: entry := by
    refine (Code.unquote_isInfix _).trans ?_
    cases hb : Text.before? ['?'] key with
    | none => exact hkey'
    | some bare =>
      exact (Text.trimEnd_isPrefix bare).isInfix.trans ((Text.before?_isPrefix hb).isInfix.trans hkey')
  split at hp
  · rename_i hvalid
    obtain rfl := Option.some.inj hp
    exact ⟨⟨hvalid, hname, typeOr_isPart hvalue, by simp⟩, rfl⟩
  · cases hp

theorem ofTypeBody_isPartOf {body : Text} {p : Property} (h : p ∈ ofTypeBody body) :
    p.IsPartOf body ∧ p.origin = .typeLiteral := by
  obtain ⟨entry, hmem, hp⟩ := List.mem_filterMap.mp h
  obtain ⟨hpart, horigin⟩ := propertyOfType?_isPartOf hp
  exact ⟨hpart.mono (Code.splitTop_isInfix hmem), horigin⟩

theorem readsPart_typeArgument : Text.ReadsPart typeArgument := by
  intro prev t argument rest h
  obtain ⟨u, hu, h⟩ := Option.bind_eq_some_iff.mp h
  obtain ⟨v, hv, h⟩ := Option.bind_eq_some_iff.mp h
  have hangle := (Text.expect?_skipBlanks_isSuffix hv).trans (Text.wordStart?_isSuffix hu)
  exact (Text.upTo?_isPrefix h).isInfix.trans hangle.isInfix

theorem typeHead?_isSuffix {keyword name t rest : Text} {prev : Option Char}
    (h : typeHead? keyword name prev t = some rest) : rest <:+ t := by
  obtain ⟨u, hu, h⟩ := Option.bind_eq_some_iff.mp h
  split at h
  · obtain ⟨v, hv, h⟩ := Option.bind_eq_some_iff.mp h
    split at h
    · obtain rfl := Option.some.inj h
      exact (Text.after?_isSuffix hv).trans ((Text.skipBlanks_isSuffix u).trans (Text.wordStart?_isSuffix hu))
    · cases h
  · cases h

theorem readsPart_interfaceDefinition (name : Text) : Text.ReadsPart (interfaceDefinition name) := by
  intro prev t literal rest h
  obtain ⟨u, hu, h⟩ := Option.bind_eq_some_iff.mp h
  have hbrace := List.dropWhile_suffix (· != '{') (l := u)
  split at h
  · cases h
  · rename_i brace after hdrop
    obtain ⟨rfl, -⟩ := Prod.mk.inj (Option.some.inj h)
    rw [hdrop] at hbrace
    exact (hbrace.trans (typeHead?_isSuffix hu)).isInfix

theorem readsPart_aliasDefinition (name : Text) : Text.ReadsPart (aliasDefinition name) := by
  intro prev t literal rest h
  obtain ⟨u, hu, h⟩ := Option.bind_eq_some_iff.mp h
  obtain ⟨⟨a, v⟩, hv, h⟩ := Option.bind_eq_some_iff.mp h
  obtain ⟨w, -, h⟩ := Option.bind_eq_some_iff.mp h
  obtain ⟨rfl, -⟩ := Prod.mk.inj (Option.some.inj h)
  have hequals := (Text.upToChar?_isSuffix hv).trans (typeHead?_isSuffix hu)
  exact ((Text.skipBlanks_isSuffix v).trans hequals).isInfix

theorem namedTypeBody?_isInfix {script reference body : Text}
    (h : namedTypeBody? script reference = some body) : body <:+: script := by
  obtain ⟨⟨name, tail⟩, -, h⟩ := Option.bind_eq_some_iff.mp h
  obtain ⟨literal, hfind, hbody⟩ := Option.bind_eq_some_iff.mp h
  have hreads := (readsPart_interfaceDefinition name).orElse (readsPart_aliasDefinition name)
  exact (Code.bracedBody?_isInfix hbody).trans (hreads.findFirst? hfind)

theorem argumentBody?_isInfix {script argument body : Text} (ha : argument <:+: script)
    (h : argumentBody? script argument = some body) : body <:+: script := by
  have hbrace := List.dropWhile_suffix (· != '{') (l := argument)
  rw [argumentBody?] at h
  split at h
  · exact namedTypeBody?_isInfix h
  · exact (Code.bracedBody?_isInfix h).trans (hbrace.isInfix.trans ha)

theorem readsPart_withDefaultsCall : Text.ReadsPart withDefaultsCall := by
  intro prev t arguments rest h
  obtain ⟨u, hu, h⟩ := Option.bind_eq_some_iff.mp h
  obtain ⟨v, -, h⟩ := Option.bind_eq_some_iff.mp h
  obtain ⟨rfl, -⟩ := Prod.mk.inj (Option.some.inj h)
  exact ((Text.skipBlanks_isSuffix u).trans (Text.wordStart?_isSuffix hu)).isInfix

theorem defaultsBody?_isInfix {script body : Text} (h : defaultsBody? script = some body) :
    body <:+: script := by
  obtain ⟨call, hcall, h⟩ := Option.bind_eq_some_iff.mp h
  obtain ⟨arguments, harguments, h⟩ := Option.bind_eq_some_iff.mp h
  obtain ⟨second, hsecond, hbody⟩ := Option.bind_eq_some_iff.mp h
  have hpiece := Code.splitTop_isInfix (List.mem_of_getElem? hsecond)
  have hread := (Code.bracedBody?_isInfix harguments).trans (readsPart_withDefaultsCall.findFirst? hcall)
  exact (Code.bracedBody?_isInfix hbody).trans (hpiece.trans hread)

/-- Giving a default changes nothing else. -/
theorem setDefault_isPartOf {name value script : Text} {props : List Property} (hv : value <:+: script)
    (hprops : ∀ p ∈ props, p.IsPartOf script ∧ p.origin = .typeLiteral) :
    ∀ p ∈ setDefault name value props, p.IsPartOf script ∧ p.origin = .typeLiteral := by
  induction props with
  | nil => simp [setDefault]
  | cons q props ih =>
    obtain ⟨hq, horigin⟩ := hprops q List.mem_cons_self
    have hrest := ih fun p hp => hprops p (List.mem_cons_of_mem _ hp)
    intro p hp
    rw [setDefault] at hp
    split at hp
    · rcases List.mem_cons.mp hp with rfl | hp
      · refine ⟨⟨hq.isName, hq.name, hq.type, ?_⟩, horigin⟩
        intro v hmem
        obtain rfl := Option.some.inj hmem
        exact hv
      · exact hprops p (List.mem_cons_of_mem _ hp)
    · rcases List.mem_cons.mp hp with rfl | hp
      · exact ⟨hq, horigin⟩
      · exact hrest p hp

theorem applyDefaults_isPartOf {script : Text} {props : List Property}
    (hprops : ∀ p ∈ props, p.IsPartOf script ∧ p.origin = .typeLiteral) :
    ∀ p ∈ applyDefaults script props, p.IsPartOf script ∧ p.origin = .typeLiteral := by
  rw [applyDefaults]
  split
  · exact hprops
  · rename_i body hbody
    refine List.foldlRecOn _ _
      (motive := fun ps => ∀ p : Property, p ∈ ps → p.IsPartOf script ∧ p.origin = .typeLiteral) hprops ?_
    intro ps hps ⟨key, value⟩ hmem
    obtain ⟨entry, hentry, hkv⟩ := List.mem_filterMap.mp hmem
    have hpart := (Code.splitTop_isInfix hentry).trans (defaultsBody?_isInfix hbody)
    exact setDefault_isPartOf ((Code.keyValue?_isInfix hkv).2.trans hpart) hps

theorem inTypeLiteral_isPartOf {script : Text} {p : Property} (h : p ∈ inTypeLiteral script) :
    p.IsPartOf script ∧ p.origin = .typeLiteral := by
  refine applyDefaults_isPartOf ?_ p h
  intro q hq
  obtain ⟨body, hbody, hq⟩ := List.mem_flatMap.mp hq
  obtain ⟨argument, hargument, hb⟩ := List.mem_filterMap.mp hbody
  obtain ⟨hpart, horigin⟩ := ofTypeBody_isPartOf hq
  have hfound := readsPart_typeArgument.mem_findAll hargument
  exact ⟨hpart.mono (argumentBody?_isInfix hfound hb), horigin⟩

end SfcContract.Property
