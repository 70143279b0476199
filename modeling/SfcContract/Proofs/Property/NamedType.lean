import SfcContract.Proofs.Property.TypeReadBack
import SfcContract.Proofs.Text.Keyword

/-!
# Named types

`defineProps<Props>()` declares what `defineProps<{ … }>()` declares when the script defines `Props` by that
literal, as an interface or as an alias, on either side of the call. The first way finds the body behind the
name, the second one between the signs of the call, and both have to end at the same brace.
-/

namespace SfcContract.Property

open Code Text

structure TypeName where
  text : Text
  isStart : text.head?.any (fun c => c.isAlpha || c == '_') = true
  chars : ∀ c ∈ text, isWord c = true

inductive TypeForm where
  | interface
  | typeAlias

namespace TypeForm

def keyword : TypeForm → Text
  | interface => "interface".toList
  | typeAlias => "type".toList

/-- What stands between the name and the brace, after a blank. -/
def signs : TypeForm → Text
  | interface => []
  | typeAlias => "= ".toList

def definition (form : TypeForm) (name : TypeName) (body : Text) : Text :=
  form.keyword ++ ' ' :: (name.text ++ ' ' :: (form.signs ++ '{' :: (body ++ ['}'])))

end TypeForm

/-- The call with an argument that is no more than a text between angle brackets. -/
def callWith (argument after : Text) : Text :=
  "defineProps".toList ++ '<' :: (argument ++ '>' :: '(' :: ')' :: after)

variable {α : Type} {r : Recognizer α} {word body gap argument script t : Text} {follows : Text → Prop} {sign c : Char}
  {prev : Option Char}

namespace TypeName

variable (name : TypeName)

theorem not_mem (hc : isWord c = false) : c ∉ name.text := not_mem_of_isWord name.chars hc

theorem name?_text : name? name.text = some (name.text, []) := by
  have hstart := name.isStart
  have hword := name.chars
  cases ht : name.text with
  | nil => simp [ht] at hstart
  | cons c t =>
    rw [ht] at hstart hword
    have hc : isNameStart c = true := by
      rw [List.head?_cons, Option.any_some, Bool.or_eq_true, beq_iff_eq] at hstart
      simp [isNameStart, hstart]
    have hpart : ∀ d ∈ t, isNamePart d = true := by
      intro d hd
      simp [isNamePart, hword d (List.mem_cons_of_mem _ hd)]
    have htake := takeWhile_append_of_head (t := []) hpart (by simp)
    have hdrop := dropWhile_append_of_head (t := []) hpart (by simp)
    rw [List.append_nil] at htake hdrop
    rw [name?, if_pos hc, htake, hdrop]

theorem trim_text : trim name.text = name.text :=
  trim_of_forall fun c hc => isBlank_of_isWord (name.chars c hc)

theorem getLast?_any_isWord : name.text.getLast?.any isWord = true := by
  have hstart := name.isStart
  cases hl : name.text.getLast? with
  | none =>
    rw [List.getLast?_eq_none_iff.mp hl] at hstart
    cases hstart
  | some c => exact name.chars c (List.mem_of_getLast? hl)

end TypeName

theorem callWith_append (argument after t : Text) : callWith argument after ++ t = callWith argument (after ++ t) := by
  unfold callWith
  generalize "defineProps".toList = keyword
  simp only [List.append_assoc, List.cons_append]

theorem callWith_literal (body : Text) : callWith ('{' :: (body ++ ['}'])) [] = typeCall body [] := by
  unfold callWith typeCall
  generalize "defineProps".toList = keyword
  simp only [List.append_assoc, List.cons_append, List.nil_append]

/-- The argument of a call ends at the first end of a call. -/
theorem typeArgument_callWith (hp : prev.any isWord = false) (after : Text)
    (h : ∀ v, v <:+ argument → v ≠ [] → callEnd? (v ++ '>' :: '(' :: ')' :: after) = none) :
    typeArgument prev (callWith argument after) = some (argument, after) := by
  apply typeArgument_of_upTo? hp
  exact upTo?_append_of_some (fun u v he => h v ⟨u, he.symm⟩) (callEnd?_end after)

/-- A brace ends no call, and no call goes on behind it. -/
theorem callEnd?_append_brace (a t : Text) : callEnd? (a ++ '}' :: t) = (callEnd? a).map (· ++ '}' :: t) := by
  have hexpect {c : Char} (hc : '}' ≠ c) (u : Text) :
      expect? c (skipBlanks (u ++ '}' :: t)) = (expect? c (skipBlanks u)).map (· ++ '}' :: t) :=
    expect?_skipBlanks_append_cons (by decide) hc u t
  simp only [callEnd?, Option.bind_eq_bind, expect?_append_cons (show '}' ≠ '>' by decide)]
  cases expect? '>' a with
  | none => rfl
  | some u =>
    simp only [Option.map_some, Option.bind_some, hexpect (show '}' ≠ '(' by decide)]
    cases expect? '(' (skipBlanks u) with
    | none => rfl
    | some v => simp only [Option.map_some, Option.bind_some, hexpect (show '}' ≠ ')' by decide)]

theorem typeArgument_literal (hcall : ∀ u ∈ body.tails, callEnd? u = none) (hp : prev.any isWord = false)
    (after : Text) :
    typeArgument prev (callWith ('{' :: (body ++ ['}'])) after) = some ('{' :: (body ++ ['}']), after) := by
  apply typeArgument_callWith hp
  intro v hv hne
  rcases List.suffix_cons_iff.mp hv with rfl | hv
  · simp [callEnd?, expect?]
  · -- What is left ends with the brace, so an end of a call in it would stand in the body.
    rcases List.suffix_concat_iff.mp hv with rfl | ⟨a, rfl, ha⟩
    · exact absurd rfl hne
    · have hnone := hcall a ((List.mem_tails _ _).mpr ha)
      rw [List.append_assoc, List.singleton_append, callEnd?_append_brace, hnone]
      rfl

theorem typeArgument_named (name : TypeName) (hp : prev.any isWord = false) (after : Text) :
    typeArgument prev (callWith name.text after) = some (name.text, after) := by
  apply typeArgument_callWith hp
  intro v hv hne
  obtain ⟨c, v, rfl⟩ := List.exists_cons_of_ne_nil hne
  have hc : c ≠ '>' := by
    rintro rfl
    exact name.not_mem (by decide) (hv.subset List.mem_cons_self)
  simp [callEnd?, expect?, hc]

theorem readsKeyword_typeArgument : ReadsKeyword "defineProps".toList (LeadsTo '<') typeArgument := by
  intro prev s x h
  obtain ⟨rest, hrest, h⟩ := Option.bind_eq_some_iff.mp h
  obtain ⟨u, hu, -⟩ := Option.bind_eq_some_iff.mp h
  exact ⟨rest, (wordStart?_eq_some_iff.mp hrest).2, u, expect?_eq_some_iff.mp hu⟩

theorem readsKeyword_withDefaultsCall : ReadsKeyword "withDefaults".toList (LeadsTo '(') withDefaultsCall := by
  intro prev s x h
  obtain ⟨rest, hrest, h⟩ := Option.bind_eq_some_iff.mp h
  obtain ⟨u, hu, -⟩ := Option.bind_eq_some_iff.mp h
  exact ⟨rest, (wordStart?_eq_some_iff.mp hrest).2, u, expect?_eq_some_iff.mp hu⟩

theorem exists_of_typeHead? {keyword name rest : Text} (h : typeHead? keyword name prev t = some rest) :
    ∃ u, t = keyword ++ u ∧ LeadsToBlank u := by
  obtain ⟨u, hu, h⟩ := Option.bind_eq_some_iff.mp h
  split at h
  · next hblank => exact ⟨u, (wordStart?_eq_some_iff.mp hu).2, hblank⟩
  · cases h

theorem readsKeyword_interfaceDefinition (name : Text) :
    ReadsKeyword "interface".toList LeadsToBlank (interfaceDefinition name) := by
  intro prev s x h
  obtain ⟨u, hu, -⟩ := Option.bind_eq_some_iff.mp h
  exact exists_of_typeHead? hu

theorem readsKeyword_aliasDefinition (name : Text) :
    ReadsKeyword "type".toList LeadsToBlank (aliasDefinition name) := by
  intro prev s x h
  obtain ⟨u, hu, -⟩ := Option.bind_eq_some_iff.mp h
  exact exists_of_typeHead? hu

/-- A definition holds no call, wherever the words of one are not in its body. -/
theorem misses_definition (hr : ReadsKeyword word (LeadsTo sign) r)
    (hword : word = "defineProps".toList ∨ word = "withDefaults".toList) (hsign : sign = '<' ∨ sign = '(')
    (form : TypeForm) (name : TypeName) (hbody : ¬ word <:+: body) (t : Text) :
    Misses r (form.definition name body) t := by
  have hchars : ∀ c ∈ word, isWord c = true := by rcases hword with rfl | rfl <;> decide
  have hne : word ≠ [] := by rcases hword with rfl | rfl <;> decide
  have hkeyword : ¬ word <:+: form.keyword := by
    rcases hword with rfl | rfl <;> cases form <;> decide +kernel
  have hsigns : ∀ c ∈ ' ' :: form.signs ++ ['{'], c ∉ word := by
    rcases hword with rfl | rfl <;> cases form <;> decide
  have hblank : ' ' ∉ word := not_mem_of_isWord hchars (by decide)
  have hbrace : '}' ∉ word := not_mem_of_isWord hchars (by decide)
  have hpart (c : Char) (s : Text) (hc : isWord c = true) : ¬ LeadsTo sign (c :: s) := by
    rw [leadsTo_cons_iff (isBlank_of_isWord hc)]
    rintro rfl
    rcases hsign with rfl | rfl <;> exact absurd hc (by decide)
  have hstop (s : Text) : ¬ LeadsTo sign (' ' :: (form.signs ++ '{' :: s)) := by
    rw [leadsTo_cons_of_blank (by decide)]
    cases form with
    | interface =>
      apply mt (leadsTo_cons_iff (by decide)).mp
      rcases hsign with rfl | rfl <;> decide
    | typeAlias =>
      apply mt (leadsTo_cons_iff (by decide)).mp
      rcases hsign with rfl | rfl <;> decide
  have htext : form.definition name body =
      form.keyword ++ ([' '] ++ (name.text ++ (' ' :: form.signs ++ ['{'] ++ (body ++ ['}'])))) := by
    simp [TypeForm.definition]
  rw [htext]
  refine (hr.misses_of_not_infix hkeyword (by simpa using hblank)).append ?_
  refine (hr.misses_of_not_mem hne (by simpa using hblank)).append ?_
  refine Misses.append ?_ ((hr.misses_of_not_mem hne hsigns).append ?_)
  · refine hr.misses_word hchars hpart name.chars ?_ ?_
    · simpa using (by decide : isWord ' ' = false)
    · simpa using hstop _
  · refine (hr.misses_of_not_infix hbody (by simpa using hbrace)).append ?_
    exact hr.misses_of_not_mem hne (by simpa using hbrace)

/-- A call with a name holds no other keyword, even when the name ends with one. -/
theorem misses_namedCall (hr : ReadsKeyword word follows r)
    (hword : word = "withDefaults".toList ∨ word = "interface".toList ∨ word = "type".toList)
    (hfollows : ∀ c s, isWord c = true ∨ c = '>' → ¬ follows (c :: s)) (name : TypeName) (t : Text) :
    Misses r (callWith name.text []) t := by
  have hchars : ∀ c ∈ word, isWord c = true := by rcases hword with rfl | rfl | rfl <;> decide
  have hne : word ≠ [] := by rcases hword with rfl | rfl | rfl <;> decide
  have hdefine : ¬ word <:+: "defineProps".toList := by rcases hword with rfl | rfl | rfl <;> decide +kernel
  have hangle : '<' ∉ word := not_mem_of_isWord hchars (by decide)
  have hend : ∀ c ∈ ['>', '(', ')'], c ∉ word := by
    intro c hc
    exact not_mem_of_isWord hchars ((by decide : ∀ c ∈ ['>', '(', ')'], isWord c = false) c hc)
  have htext : callWith name.text [] =
      "defineProps".toList ++ (['<'] ++ (name.text ++ ['>', '(', ')'])) := rfl
  rw [htext]
  refine (hr.misses_of_not_infix hdefine (by simpa using hangle)).append ?_
  refine (hr.misses_of_not_mem hne (by simpa using hangle)).append ?_
  refine Misses.append ?_ (hr.misses_of_not_mem hne hend)
  refine hr.misses_word hchars (fun c s hc => hfollows c s (.inl hc)) name.chars ?_ ?_
  · simpa using (by decide : isWord '>' = false)
  · exact hfollows '>' _ (.inr rfl)

theorem misses_withDefaultsCall_literal (hbody : ¬ "withDefaults".toList <:+: body) :
    Misses withDefaultsCall (typeCall body []) [] := by
  have hr := readsKeyword_withDefaultsCall
  have htext : typeCall body [] =
      "defineProps".toList ++ (['<', '{'] ++ (body ++ ['}', '>', '(', ')'])) := rfl
  rw [htext]
  refine (hr.misses_of_not_infix (by decide +kernel) (by simp)).append ?_
  refine (hr.misses_of_not_mem (by decide) (by decide)).append ?_
  exact (hr.misses_of_not_infix hbody (by simp)).append (hr.misses_of_not_mem (by decide) (by decide))

theorem typeHead?_definition (form : TypeForm) (name : TypeName) (body : Text) (hp : prev.any isWord = false)
    (t : Text) : typeHead? form.keyword name.text prev (form.definition name body ++ t) =
      some (' ' :: (form.signs ++ '{' :: (body ++ '}' :: t))) := by
  have hword : wordStart? form.keyword prev (form.definition name body ++ t) =
      some (' ' :: (name.text ++ ' ' :: (form.signs ++ '{' :: (body ++ '}' :: t)))) :=
    wordStart?_eq_some_iff.mpr ⟨hp, by simp [TypeForm.definition]⟩
  have hblank : isBlank ' ' = true := by decide
  have hskip : skipBlanks (name.text ++ ' ' :: (form.signs ++ '{' :: (body ++ '}' :: t))) =
      name.text ++ ' ' :: (form.signs ++ '{' :: (body ++ '}' :: t)) := by
    have hstart := name.isStart
    cases hn : name.text with
    | nil => simp [hn] at hstart
    | cons c n =>
      have hc : isBlank c = false := isBlank_of_isWord (name.chars c (by simp [hn]))
      exact skipBlanks_cons_of_not hc _
  have hname : after? name.text (name.text ++ ' ' :: (form.signs ++ '{' :: (body ++ '}' :: t))) =
      some (' ' :: (form.signs ++ '{' :: (body ++ '}' :: t))) := after?_eq_some_iff.mpr rfl
  have hbreak : isWordBreak name.text.getLast? (some ' ') = true := by
    rw [isWordBreak, name.getLast?_any_isWord]
    decide
  simp only [typeHead?, hword, Option.bind_eq_bind, Option.bind_some, List.head?_cons, Option.any_some,
    hblank, if_true, skipBlanks_cons_of_blank hblank, hskip, hname, hbreak]

theorem interfaceDefinition_of_typeHead? {name u v : Text}
    (h : typeHead? "interface".toList name prev t = some u) (hbrace : u.dropWhile (· != '{') = '{' :: v) :
    interfaceDefinition name prev t = some ('{' :: v, v) := by
  simp only [interfaceDefinition, h, Option.bind_eq_bind, Option.bind_some, hbrace]

theorem aliasDefinition_of_typeHead? {name u v w : Text} (h : typeHead? "type".toList name prev t = some u)
    (hequals : upToChar? '=' u = some (w, v)) {rest : Text} (hbrace : skipBlanks v = '{' :: rest) :
    aliasDefinition name prev t = some ('{' :: rest, rest) := by
  have hread : expect? '{' ('{' :: rest) = some rest := expect?_eq_some_iff.mpr rfl
  simp only [aliasDefinition, h, Option.bind_eq_bind, Option.bind_some, hequals, hbrace, hread,
    Option.pure_def]

theorem definition_read (form : TypeForm) (name : TypeName) (body : Text) (hp : prev.any isWord = false)
    (t : Text) : (interfaceDefinition name.text prev (form.definition name body ++ t) <|>
      aliasDefinition name.text prev (form.definition name body ++ t)) =
        some ('{' :: (body ++ '}' :: t), body ++ '}' :: t) := by
  have hhead := typeHead?_definition form name body hp t
  cases form with
  | interface =>
    rw [interfaceDefinition_of_typeHead? hhead rfl]
    rfl
  | typeAlias =>
    have hnone : interfaceDefinition name.text prev (TypeForm.typeAlias.definition name body ++ t) = none := by
      rw [Option.eq_none_iff_forall_ne_some]
      intro x hx
      obtain ⟨rest, hrest, -⟩ := readsKeyword_interfaceDefinition name.text prev _ x hx
      have hfirst : some 't' = some 'i' := congrArg List.head? hrest
      exact absurd hfirst (by decide)
    rw [hnone, aliasDefinition_of_typeHead? hhead rfl rfl]
    rfl

/-- A named type has the body of its definition, when nothing before it reads like one. -/
theorem namedTypeBody?_definition (form : TypeForm) (name : TypeName) (hbody : Balanced .ignore body)
    {before : Text} (hb : Misses (interfaceDefinition name.text) before (form.definition name body ++ t))
    (hb' : Misses (aliasDefinition name.text) before (form.definition name body ++ t))
    (hlast : before.getLast?.any isWord = false) :
    namedTypeBody? (before ++ (form.definition name body ++ t)) name.text = some body := by
  have hne : form.definition name body ++ t ≠ [] := by simp [TypeForm.definition]
  have hfound := findFirst?_append_of_misses (hb.orElse hb') hne (definition_read form name body hlast t)
  have hbraced : bracedBody? ('{' :: body ++ '}' :: t) = some body :=
    bracedBody?_of_passes (by decide) (by decide) hbody.passes
  rw [namedTypeBody?, name.name?_text]
  simp only [Option.bind_eq_bind, Option.bind_some, hfound]
  exact hbraced

/-- The declarations of a script with one call are those of the body its argument stands for. -/
theorem inTypeLiteral_of_findAll (hall : findAll typeArgument script = [argument])
    (hbody : argumentBody? script argument = some body) (hdefaults : Misses withDefaultsCall script []) :
    inTypeLiteral script = ofTypeBody body := by
  rw [inTypeLiteral, applyDefaults_of_findFirst? (findFirst?_of_misses hdefaults), hall, List.filterMap_cons_some hbody,
    List.filterMap_nil, List.flatMap_singleton]

theorem inTypeLiteral_literal (hbody : Balanced .ignore body) (hcall : ∀ u ∈ body.tails, callEnd? u = none)
    (hdefaults : ¬ "withDefaults".toList <:+: body) : inTypeLiteral (typeCall body []) = ofTypeBody body := by
  have hread : typeArgument none (typeCall body [] ++ []) = some ('{' :: (body ++ ['}']), []) := by
    rw [List.append_nil, ← callWith_literal]
    exact typeArgument_literal hcall rfl []
  have hne : typeCall body [] ≠ [] := List.append_ne_nil_of_left_ne_nil (by decide) _
  have hall := findAll_of_misses (a := []) Misses.nil hne hread Misses.nil
  rw [List.nil_append, List.append_nil] at hall
  apply inTypeLiteral_of_findAll hall
  · exact bracedBody?_of_passes (by decide) (by decide) hbody.passes
  · exact misses_withDefaultsCall_literal hdefaults

section Named

variable (form : TypeForm) (name : TypeName)

theorem argumentBody?_named (h : namedTypeBody? script name.text = some body) :
    argumentBody? script name.text = some body := by
  have hbrace : name.text.dropWhile (· != '{') = [] := by
    rw [List.dropWhile_eq_nil_iff]
    intro c hc
    simp only [bne_iff_ne, ne_eq]
    rintro rfl
    exact name.not_mem (by decide) hc
  rw [argumentBody?, hbrace, name.trim_text]
  exact h

private theorem any_isWord_definition (body : Text) : (form.definition name body).getLast?.any isWord = false := by
  have htext : form.definition name body =
      form.keyword ++ ' ' :: (name.text ++ ' ' :: (form.signs ++ '{' :: body)) ++ ['}'] := by
    simp [TypeForm.definition]
  rw [htext, List.getLast?_concat]
  decide

private theorem any_isWord_namedCall : (callWith name.text []).getLast?.any isWord = false := by
  have hlast (keyword : Text) : (keyword ++ '<' :: (name.text ++ ['>', '(', ')'])).getLast? = some ')' := by
    simp [List.getLast?_append, List.getLast?_cons]
  unfold callWith
  rw [hlast]
  decide

private theorem isBlank_of_named (hc : isWord c = true ∨ c = '>') : isBlank c = false := by
  rcases hc with hc | rfl
  · exact isBlank_of_isWord hc
  · decide

private theorem not_leadsToBlank_named (c : Char) (s : Text) (hc : isWord c = true ∨ c = '>') :
    ¬ LeadsToBlank (c :: s) := by
  simp [LeadsToBlank, isBlank_of_named hc]

private theorem misses_withDefaultsCall_named (t : Text) : Misses withDefaultsCall (callWith name.text []) t := by
  apply misses_namedCall readsKeyword_withDefaultsCall (.inl rfl)
  intro c s hc
  rw [leadsTo_cons_iff (isBlank_of_named hc)]
  rintro rfl
  rcases hc with hc | hc
  · exact absurd hc (by decide)
  · exact absurd hc (by decide)

theorem inTypeLiteral_definition_call (hg : IsBlanks gap) (hbody : Balanced .ignore body)
    (hprops : ¬ "defineProps".toList <:+: body) (hdefaults : ¬ "withDefaults".toList <:+: body) :
    inTypeLiteral (form.definition name body ++ gap ++ callWith name.text []) = ofTypeBody body := by
  have hmisses : Misses typeArgument (form.definition name body ++ gap) (callWith name.text [] ++ []) :=
    (misses_definition readsKeyword_typeArgument (.inl rfl) (.inl rfl) form name hprops _).append
      (readsKeyword_typeArgument.misses_blanks (by decide) (by decide) hg)
  have hlast := any_isWord_append_blanks (any_isWord_definition form name body) hg
  have hread : typeArgument (form.definition name body ++ gap).getLast? (callWith name.text [] ++ []) =
      some (name.text, []) := by
    rw [List.append_nil]
    exact typeArgument_named name hlast []
  have hne : callWith name.text [] ≠ [] := List.append_ne_nil_of_left_ne_nil (by decide) _
  have hall := findAll_of_misses hmisses hne hread Misses.nil
  rw [List.append_nil] at hall
  apply inTypeLiteral_of_findAll hall
  · apply argumentBody?_named
    rw [List.append_assoc]
    exact namedTypeBody?_definition form name hbody Misses.nil Misses.nil rfl
  · have hdefinition : Misses withDefaultsCall (form.definition name body ++ gap) (callWith name.text [] ++ []) :=
      (misses_definition readsKeyword_withDefaultsCall (.inr rfl) (.inr rfl) form name hdefaults _).append
        (readsKeyword_withDefaultsCall.misses_blanks (by decide) (by decide) hg)
    exact hdefinition.append (misses_withDefaultsCall_named name [])

theorem inTypeLiteral_call_definition (hg : IsBlanks gap) (hbody : Balanced .ignore body)
    (hprops : ¬ "defineProps".toList <:+: body) (hdefaults : ¬ "withDefaults".toList <:+: body) :
    inTypeLiteral (callWith name.text [] ++ gap ++ form.definition name body) = ofTypeBody body := by
  have hmisses : Misses typeArgument (gap ++ form.definition name body) [] :=
    (readsKeyword_typeArgument.misses_blanks (by decide) (by decide) hg).append
      (misses_definition readsKeyword_typeArgument (.inl rfl) (.inl rfl) form name hprops [])
  have hread : typeArgument none (callWith name.text [] ++ (gap ++ form.definition name body)) =
      some (name.text, gap ++ form.definition name body) := by
    rw [callWith_append, List.nil_append]
    exact typeArgument_named name rfl _
  have hne : callWith name.text [] ≠ [] := List.append_ne_nil_of_left_ne_nil (by decide) _
  have hall := findAll_of_misses (a := []) Misses.nil hne hread hmisses
  rw [List.nil_append, ← List.append_assoc] at hall
  apply inTypeLiteral_of_findAll hall
  · apply argumentBody?_named
    have hkeyword {word : Text} {r : Recognizer Text} (hr : ReadsKeyword word LeadsToBlank r)
        (hw : word = "interface".toList ∨ word = "type".toList) (t : Text) :
        Misses r (callWith name.text [] ++ gap) t := by
      refine (misses_namedCall hr (.inr hw) not_leadsToBlank_named name _).append ?_
      exact hr.misses_blanks (by rcases hw with rfl | rfl <;> decide) (by rcases hw with rfl | rfl <;> decide) hg
    have hfound := namedTypeBody?_definition form name (t := []) hbody
      (hkeyword (readsKeyword_interfaceDefinition name.text) (.inl rfl) _)
      (hkeyword (readsKeyword_aliasDefinition name.text) (.inr rfl) _)
      (any_isWord_append_blanks (any_isWord_namedCall name) hg)
    rwa [List.append_nil] at hfound
  · rw [List.append_assoc]
    refine (misses_withDefaultsCall_named name _).append ?_
    refine (readsKeyword_withDefaultsCall.misses_blanks (by decide) (by decide) hg).append ?_
    exact misses_definition readsKeyword_withDefaultsCall (.inr rfl) (.inr rfl) form name hdefaults []

end Named

/-- A named type is read like the literal it stands for, from a definition of either form on either side of the
call. Of its body no more is needed than that it closes what it opens, ends no call, and holds no words of one. -/
theorem named_type_read_as_literal (form : TypeForm) (name : TypeName) (hg : IsBlanks gap)
    (hbody : Balanced .ignore body) (hcall : ∀ u ∈ body.tails, callEnd? u = none)
    (hprops : ¬ "defineProps".toList <:+: body) (hdefaults : ¬ "withDefaults".toList <:+: body) :
    inTypeLiteral (form.definition name body ++ gap ++ callWith name.text []) = inTypeLiteral (typeCall body []) ∧
    inTypeLiteral (callWith name.text [] ++ gap ++ form.definition name body) = inTypeLiteral (typeCall body []) ∧
    inTypeLiteral (typeCall body []) = ofTypeBody body := by
  have hliteral := inTypeLiteral_literal hbody hcall hdefaults
  refine ⟨?_, ?_, hliteral⟩
  · rw [hliteral]
    exact inTypeLiteral_definition_call form name hg hbody hprops hdefaults
  · rw [hliteral]
    exact inTypeLiteral_call_definition form name hg hbody hprops hdefaults

/-- A body with a brace in a string, a nested literal, an arrow, and a text that reads like another definition. -/
theorem named_type_read_as_literal_card :
    let name : TypeName := ⟨"Card_type".toList, by decide, by decide⟩
    let body := "\n  kind: '\x7d' | \"type Card_type = \x7b\";\n  at?: \x7b x: number \x7d;\n  pick: (n: T<a>) => void\n".toList
    inTypeLiteral (TypeForm.typeAlias.definition name body ++ "\n".toList ++ callWith name.text []) =
      inTypeLiteral (typeCall body []) ∧
    inTypeLiteral (callWith name.text [] ++ "\n".toList ++ TypeForm.typeAlias.definition name body) =
      inTypeLiteral (typeCall body []) ∧
    inTypeLiteral (typeCall body []) = ofTypeBody body :=
  named_type_read_as_literal .typeAlias _ (by decide) (by decide +kernel) (by decide +kernel) (by decide +kernel)
    (by decide +kernel)

end SfcContract.Property
