import SfcContract.Proofs.Property.NamedType
import SfcContract.Proofs.Property.ObjectReadBack

/-!
# Defaults of a type literal

`withDefaults(defineProps<{ … }>(), { … })` gives each property the default that the object has for its name.
The object is found by cutting the arguments of the call where every angle bracket counts as a bracket. There
the `>` of a comparison closes the brace of the object, and a comma behind it cuts the object in two. Then no
property gets a default. In all other objects every default is found.
-/

namespace SfcContract.Property

open Code Text

variable {props : List Property} {fields : List ObjectEntry} {gap gap₁ gap₂ gap₃ typeBody body a b t : Text}
  {s : State} {avoid : List Char}

/-- The property with the default that the fields have for its name. -/
def withDefault (fields : List ObjectEntry) (p : Property) : Property :=
  { p with defaultValue := fieldValue? fields p.name }

theorem setDefault_eq_map {name value : Text} (hn : (props.map Property.name).Nodup) :
    setDefault name value props =
      props.map fun p => if p.name = name then { p with defaultValue := some value } else p := by
  induction props with
  | nil => rfl
  | cons p props ih =>
    rw [List.map_cons, List.nodup_cons] at hn
    rw [setDefault, List.map_cons]
    by_cases hp : p.name = name
    · have hrest : props.map (fun q => if q.name = name then { q with defaultValue := some value } else q) =
          props := by
        conv_rhs => rw [← List.map_id props]
        apply List.map_congr_left
        intro q hq
        apply if_neg
        rintro rfl
        apply hn.1
        rw [hp]
        exact List.mem_map_of_mem hq
      rw [if_pos hp, if_pos hp, hrest]
    · rw [if_neg hp, if_neg hp, ih hn.2]

/-- With distinct names and keys, each property gets the value of its own field. -/
theorem foldl_setDefault (hn : (props.map Property.name).Nodup)
    (hk : (fields.map fun field => field.key.name).Nodup) :
    (fields.map fun field => (field.key.name, trim field.value.text)).foldl
        (fun ps entry => setDefault entry.1 entry.2 ps) props =
      props.map fun p => { p with defaultValue := (fieldValue? fields p.name).or p.defaultValue } := by
  induction fields generalizing props with
  | nil => simp [fieldValue?]
  | cons field fields ih =>
    obtain ⟨hnot, hrest⟩ := List.nodup_cons.mp hk
    have hnone : fieldValue? fields field.key.name = none := fieldValue?_eq_none hnot
    have hnames : (props.map fun p => if p.name = field.key.name then
        { p with defaultValue := some (trim field.value.text) } else p).map Property.name =
          props.map Property.name := by
      rw [List.map_map]
      apply List.map_congr_left
      intro p _
      rw [Function.comp_apply]
      split <;> rfl
    rw [List.map_cons, List.foldl_cons, setDefault_eq_map hn, ih (by rwa [hnames]) hrest, List.map_map]
    apply List.map_congr_left
    intro p _
    rw [Function.comp_apply, fieldValue?_cons]
    by_cases hp : p.name = field.key.name
    · rw [if_pos hp, if_pos hp.symm]
      simp only [hp, hnone, Option.none_or, Option.some_or]
    · rw [if_neg hp, if_neg (Ne.symm hp)]

theorem defaultValue_of_propertyOfType? {entry : Text} {p : Property} (h : propertyOfType? entry = some p) :
    p.defaultValue = none := by
  obtain ⟨⟨key, value⟩, -, h⟩ := Option.bind_eq_some_iff.mp h
  simp only at h
  split at h
  · obtain rfl := Option.some.inj h
    rfl
  · cases h

theorem defaultValue_of_mem_ofTypeBody {p : Property} (hp : p ∈ ofTypeBody body) : p.defaultValue = none := by
  obtain ⟨entry, -, hentry⟩ := List.mem_filterMap.mp hp
  exact defaultValue_of_propertyOfType? hentry

/-- The fields of an object give the properties of a type literal their defaults. -/
theorem foldl_setDefault_objectBody (hfields : Layout [','] (fields.map Entry.text) body)
    (hk : (fields.map fun field => field.key.name).Nodup)
    (hn : ((ofTypeBody typeBody).map Property.name).Nodup) :
    ((splitTop [','] .generic body).filterMap keyValue?).foldl
        (fun ps entry => setDefault entry.1 entry.2 ps) (ofTypeBody typeBody) =
      (ofTypeBody typeBody).map (withDefault fields) := by
  have hread : (splitTop [','] .generic body).filterMap keyValue? =
      fields.map fun field => (field.key.name, trim field.value.text) := by
    rw [splitTop_objectBody hfields, List.filterMap_map, ← List.filterMap_eq_map]
    apply List.filterMap_congr
    intro field _
    exact field.keyValue?_text
  rw [hread, foldl_setDefault hn hk]
  apply List.map_congr_left
  intro p hp
  rw [withDefault, defaultValue_of_mem_ofTypeBody hp, Option.or_none]

/-- No comma cuts the object where every angle bracket counts. -/
def IsWhole (body : Text) : Prop :=
  ∀ m ∈ marks .brackets ('{' :: (body ++ ['}'])), m.depth = some 0 → m.char ≠ ','

instance (body : Text) : Decidable (IsWhole body) := List.decidableBAll _ _

/-- A scan at rest reads an object as a new one does. -/
theorem marksFrom_object (hs : State.AtRest 0 s) (t : Text) :
    marksFrom .brackets s ('{' :: t) = marks .brackets ('{' :: t) := by
  obtain ⟨mode, depth, angleDepth, prev⟩ := s
  obtain ⟨rfl, rfl, rfl⟩ := hs
  rfl

theorem splitTop_second (ha : Passes .brackets [','] a) (hne : trim a ≠ []) (hg : IsBlanks gap) (t : Text) :
    ∃ s, State.AtRest 0 s ∧ (splitTop [','] .brackets (a ++ ',' :: (gap ++ t)))[1]? =
      (pieces [','] (marksFrom .brackets s t)).head? := by
  have hcomma : IsPlain ',' := by decide
  have hrest := ha.atRest State.AtRest.initial
  have hcut : isCut [','] ⟨',', some 0⟩ = true := by decide
  obtain ⟨s, hs, hpieces⟩ := pieces_filler_append .brackets t areSeparators_comma (fun c hc => .inl (hg c hc))
    (hrest.withPrev ',')
  refine ⟨s, hs, ?_⟩
  have hsplit : splitTop [','] .brackets (a ++ ',' :: (gap ++ t)) =
      pieces [','] (marks .brackets (a ++ ',' :: (gap ++ t))) := rfl
  rw [hsplit, marks, marksFrom_append (completesNoComment_cons (by decide) _), hrest.marks_plain hcomma,
    pieces_append_cons hcut, pieces_passage ha hne State.AtRest.initial, hpieces]
  cases pieces [','] (marksFrom .brackets s t) <;> rfl

private theorem object_isTrimmed (body : Text) : IsTrimmed ('{' :: (body ++ ['}'])) where
  first := ⟨'{', body ++ ['}'], rfl, by decide⟩
  last := ⟨'{' :: body, '}', rfl, by decide⟩

theorem pieces_of_isWhole (h : IsWhole body) (hg : IsBlanks gap) (hs : State.AtRest 0 s) :
    pieces [','] (marksFrom .brackets s ('{' :: (body ++ ['}']) ++ gap)) = ['{' :: (body ++ ['}'])] := by
  have htrim := (object_isTrimmed body).trim_append hg
  have hcut : ∀ m ∈ marksFrom .brackets s ('{' :: (body ++ ['}']) ++ gap), isCut [','] m = false := by
    intro m hm
    rw [marksFrom_append (completesNoComment_of_isBlanks hg), marksFrom_object hs] at hm
    have hchar : m.depth = some 0 → m.char ≠ ',' := by
      rcases List.mem_append.mp hm with hm | hm
      · exact h m hm
      · intro _ hcomma
        have hmem : m.char ∈ gap := by
          rw [← map_char_marksFrom .brackets _ gap]
          exact List.mem_map_of_mem hm
        rw [hcomma] at hmem
        exact absurd (hg _ hmem) (by decide)
    cases hd : m.depth with
    | none => simp [isCut, hd]
    | some d =>
      rw [hd] at hchar
      by_cases hz : d = 0
      · simp [isCut, hchar (congrArg some hz)]
      · simp [isCut, hd, hz]
  have hone := pieces_of_no_cut hcut
  rw [map_char_marksFrom, htrim] at hone
  exact hone (List.cons_ne_nil _ _)

/-- Of another object, only what stands before a comma of its body is an argument. -/
theorem exists_cut_of_not_isWhole (h : ¬ IsWhole body) (hg : IsBlanks gap) (hs : State.AtRest 0 s) :
    ∃ p q, body = p ++ ',' :: q ∧
      (pieces [','] (marksFrom .brackets s ('{' :: (body ++ ['}']) ++ gap))).head? = some (trim ('{' :: p)) := by
  have hfound : ((marks .brackets ('{' :: (body ++ ['}']))).find? (isCut [','])).isSome = true := by
    rw [List.find?_isSome]
    simp only [IsWhole, not_forall, not_not] at h
    obtain ⟨m, hm, hd, hc⟩ := h
    exact ⟨m, hm, by simp [isCut, hd, hc]⟩
  obtain ⟨n, hn⟩ := Option.isSome_iff_exists.mp hfound
  obtain ⟨hcut, before, behind, hmarks, hbefore⟩ := List.find?_eq_some_iff_append.mp hn
  have hcomma : n.char = ',' := by simpa [isCut] using (Bool.and_eq_true_iff.mp hcut).2
  have htext : '{' :: (body ++ ['}']) = before.map Mark.char ++ ',' :: behind.map Mark.char := by
    rw [← hcomma, ← List.map_cons, ← List.map_append, ← hmarks, marks, map_char_marksFrom]
  obtain ⟨m, ms, rfl⟩ : ∃ m ms, before = m :: ms := by
    apply List.exists_cons_of_ne_nil
    rintro rfl
    exact absurd (List.cons.inj htext).1 (by decide)
  obtain ⟨hbrace, hrest⟩ := List.cons.inj htext
  obtain ⟨q, c, hq⟩ : ∃ q c, behind.map Mark.char = q ++ [c] := by
    rcases List.eq_nil_or_concat' (behind.map Mark.char) with hnil | hconcat
    · rw [hnil] at hrest
      exact absurd (List.append_inj' hrest rfl).2 (by decide)
    · exact hconcat
  have hbody : body ++ ['}'] = (ms.map Mark.char ++ ',' :: q) ++ [c] := by
    rw [List.append_assoc, List.cons_append, ← hq]
    exact hrest
  refine ⟨ms.map Mark.char, q, (List.append_inj' hbody rfl).1, ?_⟩
  have huncut : ∀ k ∈ m :: ms, isCut [','] k = false := by
    intro k hk
    simpa using hbefore k hk
  have hfirst : trim ((m :: ms).map Mark.char) ≠ [] := by
    rw [List.map_cons, ← hbrace, trim_cons_of_not (by decide)]
    exact List.cons_ne_nil _ _
  rw [marksFrom_append (completesNoComment_of_isBlanks hg), marksFrom_object hs, hmarks, List.append_assoc,
    List.cons_append (a := n), pieces_append_cons hcut, pieces_of_no_cut huncut hfirst, List.map_cons, ← hbrace]
  rfl

/-- Inside some bracket the text is scanned without leaving it, whatever `<` stands open there. -/
private def StaysInside (t : Text) : Prop :=
  ∀ s : State, s.mode = .code → 0 < s.depth → (s.run .brackets t).mode = .code ∧
    0 < (s.run .brackets t).depth ∧ ∀ m ∈ marksFrom .brackets s t, m.depth ≠ some 0

namespace StaysInside

private theorem append (ha : StaysInside a) (hb : StaysInside b) (hn : CompletesNoComment b) :
    StaysInside (a ++ b) := by
  intro s hmode hdepth
  obtain ⟨hmode, hdepth, hmarks⟩ := ha s hmode hdepth
  obtain ⟨hmode', hdepth', hmarks'⟩ := hb _ hmode hdepth
  rw [State.run_append hn, marksFrom_append hn]
  refine ⟨hmode', hdepth', fun m hm => ?_⟩
  rcases List.mem_append.mp hm with hm | hm
  · exact hmarks m hm
  · exact hmarks' m hm

/-- What a scan does with no angle bracket open decides. -/
private theorem of_atRest (h : ∀ {k s}, State.AtRest k s → 0 < k → (s.run .brackets t).mode = .code ∧
    0 < (s.run .brackets t).depth ∧ ∀ m ∈ marksFrom .brackets s t, m.depth ≠ some 0) : StaysInside t := by
  intro s hmode hdepth
  obtain ⟨⟨n, -, hrun⟩, hmarks⟩ := run_brackets_withAngleDepth { s with angleDepth := 0 } s.angleDepth t
  obtain ⟨hmode', hdepth', hmarks'⟩ := @h s.depth { s with angleDepth := 0 } ⟨hmode, rfl, rfl⟩ hdepth
  change State.run .brackets s t = _ at hrun
  change marksFrom .brackets s t = _ at hmarks
  rw [hrun, hmarks]
  exact ⟨hmode', hdepth', hmarks'⟩

private theorem of_passes (h : Passes .brackets avoid t) : StaysInside t := by
  apply of_atRest
  intro k s hs hk
  have hend := h.atRest hs
  refine ⟨hend.mode, ?_, fun m hm hzero => ?_⟩
  · rw [hend.depth]
    exact hk
  · have hle := (h.above hs m hm 0 hzero).1
    omega

/-- A value stays inside when no `>` of it closes what was open before. -/
private theorem colon_cons {value : Value [','] .generic} (hv : State.staysOpen .brackets {} value.text = true) :
    StaysInside (':' :: value.text) := by
  have hplain : IsPlain ':' := by decide
  apply of_atRest
  intro k s hs hk
  obtain ⟨hrun, hmarks⟩ := (hs.deeper (c := ':') (by decide) (by decide)).run hv
  have hmode : (State.run .brackets {} value.text).mode = .code := by
    rw [State.mode_run rfl, value.braced.outside]
  rw [hs.run_plain hplain, hs.marks_plain hplain]
  refine ⟨hrun.mode.trans hmode, ?_, fun m hm hzero => ?_⟩
  · rw [hrun.depth]
    omega
  · rcases List.mem_cons.mp hm with rfl | hm
    · obtain rfl : k = 0 := by simpa using hzero
      omega
    · rw [hmarks] at hm
      obtain ⟨n, -, rfl⟩ := List.mem_map.mp hm
      obtain ⟨d, -, hd⟩ := Option.map_eq_some_iff.mp hzero
      omega

private theorem entry {field : ObjectEntry} (hv : State.staysOpen .brackets {} field.value.text = true) :
    StaysInside field.text := by
  have hkey : StaysInside (field.key.text ++ field.gap) := of_passes field.passes_key
  rw [Entry.text, ← List.append_assoc]
  exact hkey.append (colon_cons hv) (completesNoComment_cons (by decide) _)

private theorem plain_append (ha : ∀ c ∈ a, IsPlain c) (hb : StaysInside b) : StaysInside (a ++ b) := by
  induction a with
  | nil => exact hb
  | cons c a ih =>
    have hc : IsPlain c := ha c List.mem_cons_self
    have hrest : StaysInside (a ++ b) := ih fun d hd => ha d (List.mem_cons_of_mem _ hd)
    intro s hmode hdepth
    obtain ⟨hmode', hdepth', hmarks⟩ := hrest { s with prev := c } hmode hdepth
    rw [List.cons_append, State.run, marksFrom, State.step_plain hmode hc]
    refine ⟨hmode', hdepth', fun m hm => ?_⟩
    rcases List.mem_cons.mp hm with rfl | hm
    · simp only [ne_eq, Option.some.injEq]
      omega
    · exact hmarks m hm

private theorem layout {texts : List Text} (h : Layout [','] texts body) (ht : ∀ t ∈ texts, StaysInside t) :
    StaysInside body := by
  have hnil : StaysInside [] := fun s hmode hdepth => ⟨hmode, hdepth, by simp [marksFrom]⟩
  induction h with
  | filler hg =>
    have hfiller := plain_append (hg.isPlain areSeparators_comma) hnil
    rwa [List.append_nil] at hfiller
  | last hg => exact plain_append (hg.isPlain areSeparators_comma) (ht _ List.mem_cons_self)
  | @more gap e c es body hg hc _ ih =>
    have hrest : StaysInside ([c] ++ body) :=
      plain_append (fun d hd => List.mem_singleton.mp hd ▸ (areSeparators_comma c hc).1)
        (ih fun t hmem => ht t (List.mem_cons_of_mem _ hmem))
    apply plain_append (hg.isPlain areSeparators_comma)
    exact (ht e List.mem_cons_self).append hrest (areSeparators_comma.completesNoComment hc body)

end StaysInside

/-- An object is whole when no value of it has a `>` that closes more than was opened in the value. -/
theorem isWhole_of_staysOpen (hfields : Layout [','] (fields.map Entry.text) body)
    (hv : ∀ field ∈ fields, State.staysOpen .brackets {} field.value.text = true) : IsWhole body := by
  have hbody : StaysInside body := by
    apply StaysInside.layout hfields
    intro t ht
    obtain ⟨field, hfield, rfl⟩ := List.mem_map.mp ht
    exact StaysInside.entry (hv field hfield)
  intro m hm hzero
  have hsplit : marks .brackets ('{' :: (body ++ ['}'])) = ⟨'{', some 0⟩ ::
      (marksFrom .brackets { depth := 1, prev := '{' } body ++
        marksFrom .brackets (State.run .brackets { depth := 1, prev := '{' } body) ['}']) := by
    rw [← marksFrom_append (completesNoComment_cons (by decide) [])]
    rfl
  rw [hsplit] at hm
  rcases List.mem_cons.mp hm with rfl | hm
  · simp
  rcases List.mem_append.mp hm with hm | hm
  · exact absurd hzero ((hbody _ rfl Nat.one_pos).2.2 m hm)
  · have hchar : m.char ∈ ['}'] := by
      rw [← map_char_marksFrom .brackets _ ['}']]
      exact List.mem_map_of_mem hm
    rw [List.mem_singleton.mp hchar]
    decide

/-- The literal and the object, with blanks around them. -/
def defaultsArguments (gap₁ typeBody gap₂ body gap₃ : Text) : Text :=
  gap₁ ++ typeCall typeBody [] ++ ',' :: (gap₂ ++ ('{' :: (body ++ ['}']) ++ gap₃))

def defaultsCall (arguments after : Text) : Text :=
  "withDefaults".toList ++ ('(' :: arguments ++ ')' :: after)

theorem passes_ignore_typeCall (h : Balanced .ignore typeBody) (ht : Passes .ignore [] t) :
    Passes .ignore [] (typeCall typeBody t) := by
  have hcall : Passes .ignore [] ('(' :: [] ++ ')' :: t) :=
    Passes.bracketed_append (by decide) (by decide) Passes.nil ht
  have hliteral : Passes .ignore [] ('{' :: typeBody ++ '}' :: '>' :: ('(' :: [] ++ ')' :: t)) :=
    h.bracketed_append (by decide) (by decide) (hcall.angle_cons (.inr rfl) List.not_mem_nil)
  exact Passes.plain_append (by decide) (hliteral.angle_cons (.inl rfl) List.not_mem_nil)

theorem passes_brackets_typeCall (h : Balanced .brackets typeBody) :
    Passes .brackets [','] (typeCall typeBody []) := by
  have hcall : Passes .brackets [','] ('(' :: [] ++ ')' :: []) :=
    Passes.bracketed_append (by decide) (by decide) Passes.nil Passes.nil
  have hliteral : Passes .brackets [] ('{' :: typeBody ++ ['}']) :=
    h.bracketed_append (by decide) (by decide) Passes.nil
  have harrow {k : Nat} {s : State} (hs : State.AtRest k s) :
      (s.run .brackets ('{' :: typeBody ++ ['}'])).prev ≠ '=' := by
    rw [h.prev_bracketed (by decide) (by decide) hs]
    decide
  have hangled := hliteral.angled_append (by decide) (by decide) harrow hcall
  rw [List.cons_append, List.append_assoc] at hangled
  exact Passes.plain_append (by decide) hangled

theorem passes_defaultsArguments (h₁ : IsBlanks gap₁) (h₂ : IsBlanks gap₂) (h₃ : IsBlanks gap₃)
    (htype : Balanced .ignore typeBody) (hbody : Passes .ignore [] body) :
    Passes .ignore [] (defaultsArguments gap₁ typeBody gap₂ body gap₃) := by
  have hblank {gap : Text} (hg : IsBlanks gap) : ∀ c ∈ gap, IsPlain c ∧ c ∉ ([] : List Char) :=
    fun c hc => ⟨isPlain_of_isBlank (hg c hc), List.not_mem_nil⟩
  have hobject : Passes .ignore [] ('{' :: body ++ '}' :: gap₃) :=
    Passes.bracketed_append (by decide) (by decide) hbody (Passes.plain (hblank h₃))
  have hsecond : Passes .ignore [] (',' :: (gap₂ ++ ('{' :: body ++ '}' :: gap₃))) :=
    Passes.cons (by decide) List.not_mem_nil (Passes.plain_append (hblank h₂) hobject)
  have hfirst := Passes.append (passes_ignore_typeCall htype Passes.nil) hsecond (completesNoComment_cons (by decide) _)
  have htext : defaultsArguments gap₁ typeBody gap₂ body gap₃ =
      gap₁ ++ (typeCall typeBody [] ++ ',' :: (gap₂ ++ ('{' :: body ++ '}' :: gap₃))) := by
    simp only [defaultsArguments, List.append_assoc, List.cons_append, List.nil_append]
  rw [htext]
  exact Passes.plain_append (hblank h₁) hfirst

theorem trim_typeCall_ne_nil (hg : IsBlanks gap) (typeBody : Text) : trim (gap ++ typeCall typeBody []) ≠ [] := by
  rw [trim_append_left hg, ne_eq, trim_eq_nil_iff]
  intro h
  exact absurd (h 'd' (List.mem_append_left _ (by decide))) (by decide)

/-- The object that the call gives its defaults from: the second argument, or none of what is left of it. -/
theorem second_argument (h₁ : IsBlanks gap₁) (h₂ : IsBlanks gap₂) (h₃ : IsBlanks gap₃)
    (htype : Balanced .brackets typeBody) (hbody : Passes .ignore [] body) :
    (splitTop [','] .brackets (defaultsArguments gap₁ typeBody gap₂ body gap₃))[1]?.bind bracedBody? =
      if IsWhole body then some body else none := by
  have hcall := passes_brackets_typeCall htype
  have hfirst : Passes .brackets [','] (gap₁ ++ typeCall typeBody []) := by
    apply Passes.plain_append ?_ hcall
    intro c hc
    refine ⟨isPlain_of_isBlank (h₁ c hc), ?_⟩
    rw [List.mem_singleton]
    rintro rfl
    exact absurd (h₁ _ hc) (by decide)
  obtain ⟨s, hs, hsecond⟩ := splitTop_second hfirst (trim_typeCall_ne_nil h₁ typeBody) h₂
    ('{' :: (body ++ ['}']) ++ gap₃)
  rw [defaultsArguments, hsecond]
  by_cases hwhole : IsWhole body
  · rw [if_pos hwhole, pieces_of_isWhole hwhole h₃ hs]
    exact bracedBody?_of_passes (by decide) (by decide) hbody
  · obtain ⟨p, q, rfl, hcut⟩ := exists_cut_of_not_isWhole hwhole h₃ hs
    rw [if_neg hwhole, hcut, Option.bind_some, trim_cons_of_not (by decide)]
    -- The piece lost its brace: it ends in the middle of the body.
    obtain ⟨blanks, hblanks, hp⟩ := exists_trimEnd_append p
    generalize trimEnd p = kept at hp
    subst hp
    rw [List.append_assoc] at hbody
    exact bracedBody?_eq_none_of_passes (by decide) hbody
      (completesNoComment_append hblanks (completesNoComment_cons (by decide) q))

theorem defaultsBody?_call {before arguments : Text} (after : Text) (hlast : before.getLast?.any isWord = false)
    (hb : ¬ "withDefaults".toList <:+: before) (hargs : Passes .ignore [] arguments) :
    defaultsBody? (before ++ defaultsCall arguments after) =
      (splitTop [','] .brackets arguments)[1]?.bind bracedBody? := by
  have hmisses : Misses withDefaultsCall before (defaultsCall arguments after) :=
    readsKeyword_withDefaultsCall.misses_of_wordBreak (by decide) (by decide) hb hlast
  have hne : defaultsCall arguments after ≠ [] := List.append_ne_nil_of_left_ne_nil (by decide) _
  have hparen : isBlank '(' = false := by decide
  have hread : withDefaultsCall before.getLast? (defaultsCall arguments after) =
      some ('(' :: arguments ++ ')' :: after, arguments ++ ')' :: after) := by
    have hword : wordStart? "withDefaults".toList before.getLast? (defaultsCall arguments after) =
        some ('(' :: arguments ++ ')' :: after) := wordStart?_eq_some_iff.mpr ⟨hlast, rfl⟩
    rw [withDefaultsCall, hword]
    simp only [Option.bind_eq_bind, Option.bind_some, List.cons_append, skipBlanks_cons_of_not hparen, expect?,
      if_true, Option.pure_def]
  have hbody : bracedBody? ('(' :: arguments ++ ')' :: after) = some arguments :=
    bracedBody?_of_passes (by decide) (by decide) hargs
  rw [defaultsBody?, findFirst?_append_of_misses hmisses hne hread]
  simp only [Option.bind_eq_bind, Option.bind_some, hbody]

theorem findAll_typeArgument_call {before : Text} (after : Text) (hlast : before.getLast?.any isWord = false)
    (hcall : ∀ u ∈ typeBody.tails, callEnd? u = none) (h₁ : IsBlanks gap₁) (h₂ : IsBlanks gap₂) (h₃ : IsBlanks gap₃)
    (hb : ¬ "defineProps".toList <:+: before) (hbody : ¬ "defineProps".toList <:+: body)
    (ha : ¬ "defineProps".toList <:+: after) :
    findAll typeArgument (before ++ defaultsCall (defaultsArguments gap₁ typeBody gap₂ body gap₃) after) =
      ['{' :: (typeBody ++ ['}'])] := by
  have hr := readsKeyword_typeArgument
  have hne : "defineProps".toList ≠ [] := by decide
  have hblank {gap : Text} (hg : IsBlanks gap) (t : Text) : Misses typeArgument gap t :=
    hr.misses_blanks hne (by decide) hg
  have hbefore (t : Text) : Misses typeArgument (before ++ ("withDefaults".toList ++ ['(']) ++ gap₁) t := by
    refine Misses.append ((hr.misses_of_wordBreak hne (by decide) hb hlast).append ?_) (hblank h₁ t)
    refine (hr.misses_of_not_infix (by decide +kernel) ?_).append (hr.misses_of_not_mem hne (by decide))
    simp
  have hafter : Misses typeArgument (',' :: (gap₂ ++ ('{' :: (body ++ ['}']) ++ gap₃)) ++ ')' :: after) [] := by
    have htext : ',' :: (gap₂ ++ ('{' :: (body ++ ['}']) ++ gap₃)) ++ ')' :: after =
        [','] ++ (gap₂ ++ (['{'] ++ (body ++ (['}'] ++ (gap₃ ++ ([')'] ++ after)))))) := by simp
    rw [htext]
    refine (hr.misses_of_not_mem hne (by decide)).append ((hblank h₂ _).append ?_)
    refine (hr.misses_of_not_mem hne (by decide)).append ?_
    refine (hr.misses_of_not_infix hbody (by simp)).append ?_
    refine (hr.misses_of_not_mem hne (by decide)).append ((hblank h₃ _).append ?_)
    exact (hr.misses_of_not_mem hne (by decide)).append (hr.misses_of_not_infix ha (by simp))
  have hbreak : (before ++ ("withDefaults".toList ++ ['(']) ++ gap₁).getLast?.any isWord = false := by
    apply any_isWord_append_blanks ?_ h₁
    rw [← List.append_assoc, List.getLast?_concat]
    decide
  have hread (t : Text) : typeArgument (before ++ ("withDefaults".toList ++ ['(']) ++ gap₁).getLast?
      (typeCall typeBody [] ++ t) = some ('{' :: (typeBody ++ ['}']), t) := by
    rw [← callWith_literal, callWith_append, List.nil_append]
    exact typeArgument_literal hcall hbreak t
  have hscript : before ++ defaultsCall (defaultsArguments gap₁ typeBody gap₂ body gap₃) after =
      before ++ ("withDefaults".toList ++ ['(']) ++ gap₁ ++ (typeCall typeBody [] ++
        (',' :: (gap₂ ++ ('{' :: (body ++ ['}']) ++ gap₃)) ++ ')' :: after)) := by
    unfold defaultsCall defaultsArguments
    generalize "withDefaults".toList = word
    simp only [List.append_assoc, List.cons_append, List.nil_append]
  rw [hscript]
  exact findAll_of_misses (hbefore _) (List.append_ne_nil_of_left_ne_nil (by decide) _) (hread _) hafter

/-- What the call declares: the properties of its literal, with defaults from all fields or from none. -/
theorem defaults_filled_unless_cut (fields : List ObjectEntry) (before gap₁ typeBody gap₂ body gap₃ after : Text)
    (hlast : before.getLast?.any isWord = false) (h₁ : IsBlanks gap₁) (h₂ : IsBlanks gap₂) (h₃ : IsBlanks gap₃)
    (hignore : Balanced .ignore typeBody) (hbrackets : Balanced .brackets typeBody)
    (hcall : ∀ u ∈ typeBody.tails, callEnd? u = none)
    (hnames : ((inTypeLiteral (typeCall typeBody [])).map Property.name).Nodup)
    (hfields : Layout [','] (fields.map Entry.text) body) (hkeys : (fields.map fun field => field.key.name).Nodup)
    (hprops : ∀ t ∈ [before, body, after], ¬ "defineProps".toList <:+: t)
    (hdefaults : ∀ t ∈ [before, typeBody], ¬ "withDefaults".toList <:+: t) :
    (IsWhole body →
      inTypeLiteral (before ++ defaultsCall (defaultsArguments gap₁ typeBody gap₂ body gap₃) after) =
        (inTypeLiteral (typeCall typeBody [])).map (withDefault fields)) ∧
    (¬ IsWhole body →
      inTypeLiteral (before ++ defaultsCall (defaultsArguments gap₁ typeBody gap₂ body gap₃) after) =
        inTypeLiteral (typeCall typeBody [])) := by
  simp only [List.forall_mem_cons, List.not_mem_nil, false_implies, implies_true, and_true] at hprops hdefaults
  have hliteral : inTypeLiteral (typeCall typeBody []) = ofTypeBody typeBody :=
    inTypeLiteral_literal hignore hcall hdefaults.2
  have hobject := passes_objectBody hfields
  have hall := findAll_typeArgument_call after hlast hcall h₁ h₂ h₃ hprops.1 hprops.2.1 hprops.2.2
  have hfound : defaultsBody? (before ++ defaultsCall (defaultsArguments gap₁ typeBody gap₂ body gap₃) after) =
      if IsWhole body then some body else none := by
    rw [defaultsBody?_call after hlast hdefaults.1 (passes_defaultsArguments h₁ h₂ h₃ hignore hobject)]
    exact second_argument h₁ h₂ h₃ hbrackets hobject
  have hargument (script : Text) : argumentBody? script ('{' :: (typeBody ++ ['}'])) = some typeBody :=
    bracedBody?_of_passes (by decide) (by decide) hignore.passes
  rw [hliteral] at hnames ⊢
  rw [inTypeLiteral, hall, List.filterMap_cons_some (hargument _), List.filterMap_nil, List.flatMap_singleton,
    applyDefaults, hfound]
  constructor
  · intro hwhole
    rw [if_pos hwhole]
    exact foldl_setDefault_objectBody hfields hkeys hnames
  · intro hcut
    rw [if_neg hcut]

def labelsField : ObjectEntry where
  key := { name := "labels".toList, isName := by decide, isQuote := Key.isQuote_none }
  value := { text := " () => ['one, two', \x7b n: 1 \x7d]".toList
             braced := by decide +kernel, balanced := by decide +kernel, uncut := by decide +kernel }
  isGap := isBlanks_nil

-- The sign stays open to the end of the arguments and cuts nothing.
def atLeastField : ObjectEntry where
  key := { name := "at-least".toList, quote := some '\x27', isName := by decide, isQuote := Key.isQuote_single }
  value := { text := " low < high".toList
             braced := by decide +kernel, balanced := by decide +kernel, uncut := by decide +kernel }
  isGap := isBlanks_nil

def cardBody : Text :=
  " ".toList ++ (labelsField.text ++ ',' :: ("\n  ".toList ++ (atLeastField.text ++ ',' :: "\n".toList)))

theorem defaults_filled_unless_cut_card :
    let typeBody := " labels?: Map<a, b>; 'at-least'?: boolean\n  pick: (n: T) => void ".toList
    IsWhole cardBody ∧
      inTypeLiteral ("const props = ".toList ++
          defaultsCall (defaultsArguments [] typeBody " ".toList cardBody []) "\n".toList) =
        (inTypeLiteral (typeCall typeBody [])).map (withDefault [labelsField, atLeastField]) := by
  have hfields : Layout [','] ([labelsField, atLeastField].map Entry.text) cardBody :=
    .more (by decide) (by decide) (.more (by decide) (by decide) (.filler (by decide)))
  have hwhole : IsWhole cardBody := isWhole_of_staysOpen hfields (by decide +kernel)
  exact ⟨hwhole, (defaults_filled_unless_cut [labelsField, atLeastField] _ [] _ _ _ [] _ (by decide) (by decide)
    (by decide) (by decide) (by decide +kernel) (by decide +kernel) (by decide +kernel) (by decide +kernel) hfields
    (by decide) (by decide +kernel) (by decide +kernel)).1 hwhole⟩

def isMoreField : ObjectEntry where
  key := { name := "x".toList, isName := by decide, isQuote := Key.isQuote_none }
  value := { text := " a > b".toList
             braced := by decide +kernel, balanced := by decide +kernel, uncut := by decide +kernel }
  isGap := isBlanks_nil

def countField : ObjectEntry where
  key := { name := "y".toList, isName := by decide, isQuote := Key.isQuote_none }
  value := { text := " 1 ".toList
             braced := by decide +kernel, balanced := by decide +kernel, uncut := by decide +kernel }
  isGap := isBlanks_nil

/-- A comparison in one value takes the defaults of all properties. -/
theorem defaults_lost_of_comparison :
    " x: a > b, y: 1 ".toList = " ".toList ++ (isMoreField.text ++ ',' :: (" ".toList ++ countField.text)) ∧
    inTypeLiteral "withDefaults(defineProps<\x7b x?: boolean; y?: number \x7d>(), \x7b x: a > b, y: 1 \x7d)".toList =
      inTypeLiteral "defineProps<\x7b x?: boolean; y?: number \x7d>()".toList ∧
    inTypeLiteral "withDefaults(defineProps<\x7b x?: boolean; y?: number \x7d>(), \x7b x: a > b, y: 1 \x7d)".toList ≠
      (inTypeLiteral "defineProps<\x7b x?: boolean; y?: number \x7d>()".toList).map
        (withDefault [isMoreField, countField]) := by
  decide +kernel

end SfcContract.Property
