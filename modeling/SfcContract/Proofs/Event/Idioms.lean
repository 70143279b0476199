import SfcContract.Proofs.Event.Call
import SfcContract.Proofs.Names
import SfcContract.Proofs.Property.TypeReadBack

/-!
# Event idioms agree

A component may name its events in a list, by call signatures or tuples of a type, by calls of `$emit` in
either script, or by calls of a variable that holds the result of `defineEmits`. The readers of all idioms
run over the same script. Each reads the names of its own idiom, and the others read either nothing there
or the same names once more, so that all idioms declare the same events.
-/

namespace SfcContract.Event

open Code Text

inductive Idiom where
  /-- `defineEmits(['save', 'close'])` -/
  | list
  /-- `defineEmits<{ (e: 'save'): void; (e: 'close'): void }>()` -/
  | signatures
  /-- `defineEmits<{ 'save': []; 'close': [] }>()` -/
  | tuples
  /-- `$emit('save'); $emit('close')` -/
  | calls
  /-- The same in the script without `setup`. -/
  | plainCalls
  /-- `const emit = defineEmits()` before `emit('save')` and `emit('close')` -/
  | boundCalls (emitter : Identifier)

namespace Idiom

def separators : Idiom → List Char
  | list => [',']
  | signatures | tuples => Property.typeSeparators
  | calls | plainCalls | boundCalls _ => [';', '\n']

def entry : Idiom → Text → Text
  | list, name => quoted name
  | signatures, name => '(' :: ("e: ".toList ++ quoted name) ++ ')' :: ": void".toList
  | tuples, name => quoted name ++ ": []".toList
  | calls, name | plainCalls, name => call "$emit".toList name
  | boundCalls b, name => call b.text name

/-- The script around the entries. -/
def before : Idiom → Text
  | list => "defineEmits([".toList
  | signatures | tuples => "defineEmits<\x7b".toList
  | calls | plainCalls => []
  | boundCalls b => "const ".toList ++ (b.text ++ " = defineEmits()".toList)

def after : Idiom → Text
  | list => "])".toList
  | signatures | tuples => "\x7d>()".toList
  | calls | plainCalls | boundCalls _ => []

def script (idiom : Idiom) (body : Text) : Text := idiom.before ++ (body ++ idiom.after)

def regions (idiom : Idiom) (markup body : Text) : Regions :=
  match idiom with
  | plainCalls => { markup, setup := [], plain := idiom.script body }
  | _ => { markup, setup := idiom.script body, plain := [] }

/-- What is written after the declaration of a variable starts with a separator. -/
def Begins : Idiom → Text → Prop
  | boundCalls _, body => ∀ c ∈ body.head?, c ∈ [';', '\n']
  | _, _ => True

/-- The entries for the given names, in their order, are written between the brackets of the idiom or on
its lines. -/
structure Writes (idiom : Idiom) (names : List Name) (body : Text) : Prop where
  layout : Layout idiom.separators (names.map fun name => idiom.entry name.text) body
  begins : idiom.Begins body

end Idiom

variable {idiom : Idiom} {names : List Name} {body t : Text} {c : Char}

theorem mem_entry {name : Text} (h : c ∈ idiom.entry name) : c ∈ name ∨ c ∈ idiom.entry [] := by
  cases idiom <;>
    simp only [Idiom.entry, call, quoted, List.mem_append, List.mem_cons, List.not_mem_nil] at h ⊢ <;>
    tauto

theorem not_mem_body (h : idiom.Writes names body) (hf : ¬ IsFiller idiom.separators [c])
    (hn : isEventChar c = false) (he : c ∉ idiom.entry []) : c ∉ body := by
  refine h.layout.not_mem hf ?_
  intro e hmem hc
  obtain ⟨name, -, rfl⟩ := List.mem_map.mp hmem
  rcases mem_entry hc with hc | hc
  · rw [name.chars c hc] at hn
    cases hn
  · exact he hc

/-- The idiom has no use for a character, and neither have the names. -/
def Idiom.Lacks (idiom : Idiom) (c : Char) : Prop :=
  ¬ IsFiller idiom.separators [c] ∧ isEventChar c = false ∧ c ∉ idiom.before ++ (idiom.entry [] ++ idiom.after)

instance (idiom : Idiom) (c : Char) : Decidable (idiom.Lacks c) :=
  inferInstanceAs (Decidable (_ ∧ _ ∧ _))

theorem not_mem_script (h : idiom.Writes names body) (hc : idiom.Lacks c) : c ∉ idiom.script body := by
  obtain ⟨hfiller, hname, hidiom⟩ := hc
  simp only [List.mem_append, not_or] at hidiom
  obtain ⟨hbefore, hentry, hafter⟩ := hidiom
  simp only [Idiom.script, List.mem_append, not_or]
  exact ⟨hbefore, not_mem_body h hfiller hname hentry, hafter⟩

/-- A list declaration has a bracket after a parenthesis. -/
theorem listDeclaration_eq_some {prev : Option Char} {x : Text × Text}
    (h : listDeclaration prev t = some x) : ∃ u v, t = u ++ '(' :: v ∧ '[' ∈ v := by
  simp only [listDeclaration, Option.bind_eq_bind, Option.bind_eq_some_iff, wordStart?_eq_some_iff,
    expect?_eq_some_iff] at h
  obtain ⟨r, ⟨-, rfl⟩, u, hu, v, hv, -⟩ := h
  obtain ⟨w, -, hr⟩ := exists_blanks_append r
  obtain ⟨w', -, hu'⟩ := exists_blanks_append u
  refine ⟨"defineEmits".toList ++ w, u, ?_, ?_⟩
  · rw [hr, hu]
    simp
  · rw [hu', hv]
    simp

theorem inLists_eq_nil (h : '[' ∉ t) : inLists t = [] := by
  have hnone : findAll listDeclaration t = [] := by
    refine findFrom_eq_nil_of_not_mem ?_ h
    intro prev s x hs
    obtain ⟨u, v, rfl, hv⟩ := listDeclaration_eq_some hs
    simp [hv]
  rw [inLists, hnone, List.flatMap_nil]

/-- The brackets of a script are no list when the only parenthesis stands after them. -/
theorem inLists_eq_nil_of_paren {rest : Text} (ht : '(' ∉ t) (hp : '(' ∉ rest) (hb : '[' ∉ rest) :
    inLists (t ++ '(' :: rest) = [] := by
  have hnone : findAll listDeclaration (t ++ '(' :: rest) = [] := by
    rw [List.eq_nil_iff_forall_not_mem]
    intro x hx
    obtain ⟨p, s, r, ⟨w, hw⟩, hread⟩ := mem_findAll hx
    obtain ⟨u, v, rfl, hv⟩ := listDeclaration_eq_some hread
    rw [← List.append_assoc] at hw
    obtain ⟨-, -, rfl⟩ := (List.append_cons_inj_of_notMem ht hp).mp hw.symm
    exact hb hv
  rw [inLists, hnone, List.flatMap_nil]

theorem typeDeclaration_eq_some {prev : Option Char} {x : Text × Text}
    (h : typeDeclaration prev t = some x) : '<' ∈ t := by
  simp only [typeDeclaration, Option.bind_eq_bind, Option.bind_eq_some_iff, wordStart?_eq_some_iff,
    expect?_eq_some_iff] at h
  obtain ⟨r, ⟨-, rfl⟩, u, hu, -⟩ := h
  have hmem : '<' ∈ skipBlanks r := by simp [hu]
  exact List.mem_append_right _ ((skipBlanks_isSuffix r).subset hmem)

theorem inTypes_eq_nil (h : '<' ∉ t) : inTypes t = [] := by
  have hnone : findAll typeDeclaration t = [] :=
    findFrom_eq_nil_of_not_mem (fun _ _ _ hs => typeDeclaration_eq_some hs) h
  rw [inTypes, hnone, List.filterMap_nil, List.flatMap_nil]

theorem name?_isSuffix {name rest : Text} (h : name? t = some (name, rest)) : rest <:+ t := by
  cases t with
  | nil => simp [name?] at h
  | cons c t =>
    simp only [name?, Option.ite_none_right_eq_some, Option.some.injEq, Prod.mk.injEq] at h
    obtain ⟨-, -, rfl⟩ := h
    exact (List.dropWhile_suffix _).trans (List.suffix_cons c t)

theorem inBoundCalls_eq_nil (h : '=' ∉ t) : inBoundCalls t = [] := by
  have hnone : findAll binding t = [] := by
    refine findFrom_eq_nil_of_not_mem ?_ h
    intro prev s x hs
    simp only [binding, Option.bind_eq_bind, Option.bind_eq_some_iff, Option.ite_none_right_eq_some] at hs
    obtain ⟨r, hr, -, ⟨name, u⟩, hu, v, hv, -⟩ := hs
    obtain ⟨word, -, hword⟩ := List.exists_of_findSome?_eq_some hr
    have hsuffix : skipBlanks u <:+ s :=
      (skipBlanks_isSuffix u).trans <| (name?_isSuffix hu).trans <| (skipBlanks_isSuffix r).trans <|
        (wordStart?_eq_some_iff.mp hword).2 ▸ List.suffix_append _ _
    rw [expect?_eq_some_iff] at hv
    exact hsuffix.subset (by simp [hv])
  rw [inBoundCalls, findFirst?_eq_head?, hnone, List.head?_nil]

/-- A search over a layout reads what it reads in the entries, when it reads nothing in the filler. -/
theorem finds_layout {ι : Type} {r : Recognizer Text} {separators : List Char} {items : List ι}
    {entry : ι → Text} {found : ι → List Text} (hl : Layout separators (items.map entry) body)
    (hgap : ∀ gap u, IsFiller separators gap → Finds r gap u [])
    (hentry : ∀ i ∈ items, ∀ u, Finds r (entry i) u (found i)) (t : Text) :
    Finds r body t (items.flatMap found) := by
  generalize he : items.map entry = entries at hl
  induction hl generalizing items with
  | filler hg =>
    obtain rfl := List.map_eq_nil_iff.mp he
    exact hgap _ t hg
  | last hg =>
    obtain ⟨i, rest, rfl, rfl, hrest⟩ := List.map_eq_cons_iff.mp he
    obtain rfl := List.map_eq_nil_iff.mp hrest
    simpa using (hgap _ _ hg).append (hentry i List.mem_cons_self t)
  | @more gap e c es body hg hc _ ih =>
    obtain ⟨i, rest, rfl, rfl, hrest⟩ := List.map_eq_cons_iff.mp he
    have hsep : IsFiller separators [c] := fun d hd => .inr (List.mem_singleton.mp hd ▸ hc)
    have hnext := ih (fun i hi => hentry i (List.mem_cons_of_mem _ hi)) hrest
    have hafter := (hgap [c] _ hsep).append hnext
    simpa using (hgap _ _ hg).append ((hentry i List.mem_cons_self _).append hafter)

theorem findAll_listDeclaration (hb : ']' ∉ body) :
    findAll listDeclaration (Idiom.list.script body) = [body] := by
  have hread : upTo? listEnd? (body ++ "])".toList) = some (body, []) := by
    refine upTo?_append_of_some ?_ rfl
    rintro u v rfl hv
    obtain ⟨c, v, rfl⟩ := List.exists_cons_of_ne_nil hv
    have hc : c ≠ ']' := by
      rintro rfl
      exact hb (by simp)
    simp [listEnd?, expect?, hc]
  have hdeclared : listDeclaration none (Idiom.list.script body) = some (body, []) := by
    have hword : wordStart? "defineEmits".toList none (Idiom.list.script body) =
        some ('(' :: '[' :: (body ++ "])".toList)) := wordStart?_eq_some_iff.mpr ⟨rfl, rfl⟩
    have hparen : isBlank '(' = false := by decide
    have hopen : isBlank '[' = false := by decide
    simp only [listDeclaration, hword, Option.bind_eq_bind, Option.bind_some, skipBlanks_cons_of_not hparen,
      skipBlanks_cons_of_not hopen, expect?, if_true, hread]
  have hne : Idiom.list.script body ≠ [] := List.cons_ne_nil _ _
  rw [← List.append_nil (Idiom.list.script body)] at hdeclared ⊢
  rw [findAll, findFrom_append_of_some hne hdeclared, findFrom]

theorem findAll_quotedName (h : Idiom.list.Writes names body) :
    findAll quotedName body = names.map Name.text := by
  have hgap (gap u : Text) (hg : IsFiller Idiom.list.separators gap) : Finds quotedName gap u [] := by
    refine Finds.of_misses (Misses.of_first ?_)
    intro c hc prev s
    have hnot : c ∉ quotes := by
      intro hq
      have hquote : ∀ c ∈ quotes, ¬ IsFiller Idiom.list.separators [c] := by decide
      exact hquote c hq fun d hd => List.mem_singleton.mp hd ▸ hg c hc
    simp [quotedName, between?, hnot]
  have hname : ∀ name ∈ names, ∀ u, Finds quotedName (Idiom.list.entry name.text) u [name.text] := by
    intro name _ u
    exact Finds.of_some (by simp [Idiom.entry, quoted]) fun prev =>
      name.between?_quoted (by decide) (by simp) u
  rw [← List.flatMap_pure_eq_map]
  exact (finds_layout h.layout hgap hname []).findAll_eq

theorem inLists_script (h : Idiom.list.Writes names body) :
    inLists (Idiom.list.script body) = names.map Name.text := by
  have hbracket : ']' ∉ body := not_mem_body h (by decide) (by decide) (by decide)
  rw [inLists, findAll_listDeclaration hbracket, List.flatMap_singleton, findAll_quotedName h]

/-- An entry of a type literal that is read as the given event. -/
structure DeclaresType (entry : Text) (name : Name) : Prop where
  braced : Passes .ignore [] entry
  passes : Passes .brackets Property.typeSeparators entry
  trimmed : IsTrimmed entry
  event : eventOfType? entry = some name.text

theorem findAll_typeDeclaration (hb : '<' ∉ body) :
    findAll typeDeclaration ("defineEmits<\x7b".toList ++ (body ++ "\x7d>()".toList)) =
      ['\x7b' :: body ++ '\x7d' :: ">()".toList] := by
  have hopen : isBlank '<' = false := by decide
  have hbrace : isBlank '\x7b' = false := by decide
  have hword : wordStart? "defineEmits".toList none
      ("defineEmits<\x7b".toList ++ (body ++ "\x7d>()".toList)) =
        some ('<' :: '\x7b' :: (body ++ "\x7d>()".toList)) := wordStart?_eq_some_iff.mpr ⟨rfl, rfl⟩
  have hread : typeDeclaration none ("defineEmits<\x7b".toList ++ (body ++ "\x7d>()".toList)) =
      some ('\x7b' :: body ++ '\x7d' :: ">()".toList, body ++ "\x7d>()".toList) := by
    simp only [typeDeclaration, hword, Option.bind_eq_bind, Option.bind_some,
      skipBlanks_cons_of_not hopen, skipBlanks_cons_of_not hbrace, expect?, if_true]
    rfl
  have hrest : '<' ∉ body ++ "\x7d>()".toList := List.not_mem_append hb (by decide)
  rw [findAll, findFrom_append_of_some (by decide) hread,
    findFrom_eq_nil_of_not_mem (fun _ _ _ hs => typeDeclaration_eq_some hs) hrest]

theorem inTypes_literal {entry : Text → Text} (hl : Layout Property.typeSeparators
      (names.map fun name => entry name.text) body)
    (he : ∀ name : Name, DeclaresType (entry name.text) name) (hangle : '<' ∉ body) :
    inTypes ("defineEmits<\x7b".toList ++ (body ++ "\x7d>()".toList)) = names.map Name.text := by
  have hmem {P : Text → Prop} (h : ∀ name : Name, P (entry name.text)) :
      ∀ e ∈ names.map fun name => entry name.text, P e := by
    intro e hmem
    obtain ⟨name, -, rfl⟩ := List.mem_map.mp hmem
    exact h name
  have hbody : bracedBody? ('\x7b' :: body ++ '\x7d' :: ">()".toList) = some body :=
    bracedBody?_of_passes (by decide) (by decide)
      (hl.passes Property.areSeparators_type (hmem fun name => (he name).braced))
  have hpieces : splitTop Property.typeSeparators .brackets body =
      names.map fun name => entry name.text := by
    rw [hl.splitTop_eq Property.areSeparators_type (hmem fun name => ⟨(he name).passes, ?_⟩), List.map_map]
    · refine List.map_congr_left ?_
      intro name _
      exact (he name).trimmed.trim_eq
    · rw [(he name).trimmed.trim_eq]
      obtain ⟨c, r, hr, -⟩ := (he name).trimmed.first
      simp [hr]
  rw [inTypes, findAll_typeDeclaration hangle, List.filterMap_cons_some hbody, List.filterMap_nil,
    List.flatMap_singleton, hpieces, List.filterMap_map, ← List.filterMap_eq_map]
  refine List.filterMap_congr ?_
  intro name _
  exact (he name).event

namespace Name

variable (name : Name) {angles : Angles} {avoid : List Char}

theorem passes_quoted_append (ht : Passes angles avoid t) : Passes angles avoid (quoted name.text ++ t) := by
  have hin : ∀ c ∈ name.text, c ≠ '\\' ∧ c ≠ '\x27' := by
    intro c hc
    constructor <;> rintro rfl <;> exact name.not_mem (by decide) hc
  simpa [quoted] using Passes.quoted_append (q := '\x27') (by decide) hin ht

theorem passes_quoted : Passes angles avoid (quoted name.text) := by
  have h : Passes angles avoid (quoted name.text ++ []) := name.passes_quoted_append Passes.nil
  rwa [List.append_nil] at h

theorem quoted_isTrimmed : IsTrimmed (quoted name.text) := by
  have hquote : isBlank '\x27' = false := by decide
  exact ⟨⟨_, _, rfl, hquote⟩, '\x27' :: name.text, _, rfl, hquote⟩

end Name

theorem declaresType_signature (name : Name) : DeclaresType (Idiom.signatures.entry name.text) name := by
  have hpasses {angles avoid} (h : ∀ c ∈ "(e: ): void".toList, c ∉ avoid) :
      Passes angles avoid (Idiom.signatures.entry name.text) := by
    have hin : Passes angles [] ("e: ".toList ++ quoted name.text) :=
      Passes.plain_append (by decide) name.passes_quoted
    have hafter : ∀ c ∈ ": void".toList, IsPlain c ∧ c ∉ avoid := by
      intro c hc
      have hplain : ∀ c ∈ ": void".toList, IsPlain c ∧ c ∈ "(e: ): void".toList := by decide
      exact ⟨(hplain c hc).1, h c (hplain c hc).2⟩
    exact Passes.bracketed_append ⟨by decide, h _ (by decide)⟩ ⟨by decide, h _ (by decide)⟩ hin
      (Passes.plain hafter)
  refine ⟨hpasses (by simp), hpasses (by decide), ⟨⟨'(', _, rfl, by decide⟩, ?_⟩, ?_⟩
  · refine ⟨'(' :: ("e: ".toList ++ quoted name.text) ++ ')' :: ": voi".toList, 'd', ?_, by decide⟩
    simp [Idiom.entry]
  · have hquote : isBlank '\x27' = false := by decide
    have hblank : isBlank ' ' = true := by decide
    have hcolon : isNamePart ':' = false ∧ isBlank ':' = false := by decide
    have hletter : isNamePart 'e' = true ∧ isBlank 'e' = false := by decide
    have hskip : skipBlanks (' ' :: (quoted name.text ++ ')' :: ": void".toList)) =
        quoted name.text ++ ')' :: ": void".toList := by
      rw [skipBlanks_cons_of_blank hblank]
      exact skipBlanks_cons_of_not hquote _
    have hread : between? ['\x22', '\x27'] (quoted name.text ++ ')' :: ": void".toList) =
        some (name.text, ')' :: ": void".toList) := name.between?_quoted (by decide) (by decide) _
    have hentry : Idiom.signatures.entry name.text =
        '(' :: 'e' :: ':' :: ' ' :: (quoted name.text ++ ')' :: ": void".toList) := rfl
    simp only [hentry, eventOfType?, startsWith, expect?, if_true, Option.isSome_some, eventOfSignature?,
      Option.bind_eq_bind, Option.bind_some, skipBlanks_cons_of_not hletter.2,
      List.takeWhile_cons_of_pos hletter.1, List.dropWhile_cons_of_pos hletter.1, List.isEmpty_cons,
      List.dropWhile_cons, hcolon.1, skipBlanks_cons_of_not hcolon.2, hskip, hread, Bool.false_eq_true, if_false]
    rfl

theorem declaresType_tuple (name : Name) : DeclaresType (Idiom.tuples.entry name.text) name := by
  have hpasses {angles avoid} (hb : Balanced angles " []".toList)
      (hn : ∀ m ∈ marks angles " []".toList, m.depth = some 0 → m.char ∉ avoid) (hc : ':' ∉ avoid) :
      Passes angles avoid (Idiom.tuples.entry name.text) :=
    name.passes_quoted_append (Passes.colon_cons hb hn hc)
  refine ⟨hpasses (by decide) (by simp) (by simp), hpasses (by decide) (by decide) (by decide),
    ⟨⟨'\x27', _, rfl, by decide⟩, quoted name.text ++ ": [".toList, ']', ?_, by decide⟩, ?_⟩
  · simp [Idiom.entry]
  · have hname : unquote (trim (quoted name.text)) = name.text := by
      rw [name.quoted_isTrimmed.trim_eq]
      exact unquote_of_quoted (by decide) name.text
    have hread : keyValue? (quoted name.text ++ ':' :: " []".toList) = some (name.text, "[]".toList) := by
      rw [keyValue?_of_passes name.passes_quoted (by rw [hname]; exact name.ne_nil), hname]
      rfl
    have hentry : Idiom.tuples.entry name.text = quoted name.text ++ ':' :: " []".toList := rfl
    have hfirst : startsWith '(' (quoted name.text ++ ':' :: " []".toList) = false := rfl
    have hlast : unquote name.text = name.text := by
      refine unquote_of_not ?_
      intro q hq r he
      exact name.not_mem_quotes q (by simp [he]) hq
    rw [hentry, eventOfType?, hfirst, hread]
    simp [startsWith, expect?, hlast]

theorem finds_emitCalls {emitter : Text} {found : Name → List Text}
    (hl : Layout [';', '\n'] (names.map fun name => call emitter name.text) body)
    (hcall : ∀ name ∈ names, ∀ u, Finds emitCall (call emitter name.text) u (found name)) :
    Finds emitCall body [] (names.flatMap found) := by
  refine finds_layout hl ?_ hcall []
  intro gap u hg
  exact Finds.of_misses <| misses_callOf_signs isNamePart_of_mem_emit (by decide)
    fun c hc => (isNamePart_of_isFiller hg c hc).1

theorem findAll_emitCall_calls (h : Idiom.calls.Writes names body) :
    findAll emitCall (Idiom.calls.script body) = names.map Name.text := by
  have hnil : ∀ c ∈ ([] : Text), isNamePart c = true := by simp
  have hfinds : Finds emitCall body [] (names.flatMap fun name => [name.text]) :=
    finds_emitCalls h.layout fun name _ u => finds_emitCall hnil name u
  have hscript : Idiom.calls.script body = body := List.append_nil body
  rw [hscript, hfinds.findAll_eq]
  exact List.flatMap_pure_eq_map _ _

section BoundCalls

variable {b : Identifier}

theorem isNamePart_of_begins (h : (Idiom.boundCalls b).Begins body) : ∀ c ∈ body.head?, isNamePart c = false := by
  intro c hc
  have hsigns : ∀ c ∈ [';', '\n'], isNamePart c = false := by decide
  exact hsigns c (h c hc)

theorem gap_ne_nil {gap : Text} (name : Text)
    (h : ∀ c ∈ (gap ++ (call b.text name ++ t)).head?, isNamePart c = false) : gap ≠ [] := by
  rintro rfl
  have hpart := b.isNamePart_of_mem b.first List.mem_cons_self
  rw [h b.first rfl] at hpart
  cases hpart

theorem finds_boundCalls {lead : Text} (hlead : IsFiller [';', '\n'] lead)
    (hl : Layout [';', '\n'] (names.map fun name => call b.text name.text) body)
    (hhead : ∀ c ∈ (lead ++ body).head?, isNamePart c = false) :
    Finds (boundCall b.text) (lead ++ body) [] (names.map Name.text) := by
  -- The separator after a call is the lead of the calls that follow it.
  generalize he : (names.map fun name => call b.text name.text) = entries at hl
  induction hl generalizing names lead with
  | filler hg =>
    obtain rfl := List.map_eq_nil_iff.mp he
    exact Finds.of_misses (misses_boundCall_filler (hlead.append hg) (by simp))
  | @last gap e hg =>
    obtain ⟨name, rest, rfl, rfl, hrest⟩ := List.map_eq_cons_iff.mp he
    obtain rfl := List.map_eq_nil_iff.mp hrest
    rw [← List.append_assoc] at hhead ⊢
    rw [← List.append_nil (call b.text name.text)] at hhead
    exact finds_boundCall (hlead.append hg) (gap_ne_nil name.text hhead) name (by simp)
  | @more gap e c es body hg hc _ ih =>
    obtain ⟨name, rest, rfl, rfl, hrest⟩ := List.map_eq_cons_iff.mp he
    have hsep : IsFiller [';', '\n'] [c] := fun d hd => .inr (List.mem_singleton.mp hd ▸ hc)
    have hsign : ∀ d ∈ ([c] ++ body).head?, isNamePart d = false :=
      isNamePart_head (isNamePart_of_isFiller hsep c (List.mem_singleton_self c)).1 _
    rw [← List.append_assoc] at hhead
    have hfirst : Finds (boundCall b.text) (lead ++ gap ++ call b.text name.text) ([c] ++ body ++ [])
        [name.text] := by
      refine finds_boundCall (hlead.append hg) (gap_ne_nil name.text hhead) name ?_
      rwa [List.append_nil]
    simpa using hfirst.append (ih hsep hsign hrest)

theorem inBoundCalls_script (h : (Idiom.boundCalls b).Writes names body) :
    inBoundCalls ((Idiom.boundCalls b).script body) = names.map Name.text := by
  have hhead := isNamePart_of_begins h.begins
  have hbefore : Misses (boundCall b.text) (Idiom.boundCalls b).before (body ++ []) := by
    rw [List.append_nil]
    exact misses_boundCall (misses_binding b.isNamePart_of_mem b.text_ne_nil b _)
      (callOf_eq_none_of_head b.isNamePart_of_mem b.text_ne_nil hhead)
  have hcalls : Finds (boundCall b.text) ([] ++ body) [] (names.map Name.text) :=
    finds_boundCalls (by simp [IsFiller]) h.layout hhead
  have hfirst : findFirst? binding ((Idiom.boundCalls b).before ++ body) = some b.text := by
    have hassoc : (Idiom.boundCalls b).before ++ body =
        "const ".toList ++ (b.text ++ (" = defineEmits()".toList ++ body)) := by
      change "const ".toList ++ (b.text ++ " = defineEmits()".toList) ++ body = _
      rw [List.append_assoc, List.append_assoc]
    rw [hassoc, findFirst?_binding]
  rw [Idiom.script, Idiom.after, List.append_nil, inBoundCalls, hfirst]
  exact ((Finds.of_misses hbefore).append hcalls).findAll_eq

/-- The calls of the variable are calls of `$emit` as well, all of them or none. -/
theorem findAll_emitCall_boundCalls (h : (Idiom.boundCalls b).Writes names body) :
    findAll emitCall ((Idiom.boundCalls b).script body) = [] ∨
      findAll emitCall ((Idiom.boundCalls b).script body) = names.map Name.text := by
  have hbefore : Finds emitCall (Idiom.boundCalls b).before (body ++ []) [] :=
    Finds.of_misses (misses_binding isNamePart_of_mem_emit (by decide) b _)
  rw [Idiom.script, Idiom.after, List.append_nil]
  by_cases hs : "$emit".toList <:+ b.text
  · obtain ⟨lead, hlead⟩ := hs
    have hbody : Finds emitCall body [] (names.flatMap fun name => [name.text]) := by
      refine finds_emitCalls h.layout ?_
      intro name _ u
      rw [← hlead]
      exact finds_emitCall (fun c hc => b.isNamePart_of_mem c (by simp [← hlead, hc])) name u
    right
    rw [(hbefore.append hbody).findAll_eq]
    exact List.flatMap_pure_eq_map _ _
  · have hbody : Finds emitCall body [] (names.flatMap fun _ => []) :=
      finds_emitCalls h.layout fun name _ u => Finds.of_misses (misses_emitCall b.isNamePart_of_mem hs name u)
    left
    rw [(hbefore.append hbody).findAll_eq]
    simp

theorem lacks_boundCalls (hc : c ∈ ['[', '<']) : (Idiom.boundCalls b).Lacks c := by
  have hsigns : ∀ c ∈ ['[', '<'], ¬ IsFiller [';', '\n'] [c] ∧ isEventChar c = false ∧
    isNamePart c = false ∧ c ∉ "const ".toList ∧ c ∉ " = defineEmits()".toList ∧ c ∉ "('')".toList := by
    decide
  obtain ⟨hfiller, hname, hpart, hconst, hcall, hentry⟩ := hsigns c hc
  refine ⟨hfiller, hname, ?_⟩
  exact List.not_mem_append
    (List.not_mem_append hconst (List.not_mem_append (b.not_mem hpart) hcall))
    (List.not_mem_append (List.not_mem_append (b.not_mem hpart) hentry) List.not_mem_nil)

end BoundCalls

def readings (script : Text) : List Text :=
  inLists script ++ inTypes script ++ findAll emitCall script ++ inBoundCalls script

theorem readings_list (h : Idiom.list.Writes names body) :
    readings (Idiom.list.script body) = names.map Name.text := by
  simp only [readings, inLists_script h, inTypes_eq_nil (not_mem_script h (by decide)),
    findAll_emitCall_eq_nil (not_mem_script h (by decide)),
    inBoundCalls_eq_nil (not_mem_script h (by decide)), List.append_nil]

theorem readings_signatures (h : Idiom.signatures.Writes names body) :
    readings (Idiom.signatures.script body) = names.map Name.text := by
  have htypes : inTypes (Idiom.signatures.script body) = names.map Name.text :=
    inTypes_literal h.layout declaresType_signature (not_mem_body h (by decide) (by decide) (by decide))
  simp only [readings, inLists_eq_nil (not_mem_script h (by decide)), htypes,
    findAll_emitCall_eq_nil (not_mem_script h (by decide)),
    inBoundCalls_eq_nil (not_mem_script h (by decide)), List.append_nil, List.nil_append]

theorem readings_tuples (h : Idiom.tuples.Writes names body) :
    readings (Idiom.tuples.script body) = names.map Name.text := by
  have htypes : inTypes (Idiom.tuples.script body) = names.map Name.text :=
    inTypes_literal h.layout declaresType_tuple (not_mem_body h (by decide) (by decide) (by decide))
  -- The tuples have brackets, but the parenthesis of the call comes after all of them.
  have hlists : inLists (Idiom.tuples.script body) = [] := by
    have hsplit : Idiom.tuples.script body =
        "defineEmits<\x7b".toList ++ (body ++ "\x7d>".toList) ++ '(' :: ")".toList := by
      rw [List.append_assoc, List.append_assoc]
      rfl
    have hbody : '(' ∉ body := not_mem_body h (by decide) (by decide) (by decide)
    rw [hsplit]
    refine inLists_eq_nil_of_paren ?_ (by decide) (by decide)
    exact List.not_mem_append (by decide) (List.not_mem_append hbody (by decide))
  simp only [readings, hlists, htypes, findAll_emitCall_eq_nil (not_mem_script h (by decide)),
    inBoundCalls_eq_nil (not_mem_script h (by decide)), List.append_nil, List.nil_append]

theorem readings_calls (h : Idiom.calls.Writes names body) :
    readings (Idiom.calls.script body) = names.map Name.text := by
  simp only [readings, inLists_eq_nil (not_mem_script h (by decide)),
    inTypes_eq_nil (not_mem_script h (by decide)), findAll_emitCall_calls h,
    inBoundCalls_eq_nil (not_mem_script h (by decide)), List.append_nil, List.nil_append]

theorem readings_boundCalls {b : Identifier} (h : (Idiom.boundCalls b).Writes names body) :
    readings ((Idiom.boundCalls b).script body) = names.map Name.text ∨
      readings ((Idiom.boundCalls b).script body) = names.map Name.text ++ names.map Name.text := by
  have hlists := inLists_eq_nil (not_mem_script h (lacks_boundCalls (by decide)))
  have htypes := inTypes_eq_nil (not_mem_script h (lacks_boundCalls (by decide)))
  rcases findAll_emitCall_boundCalls h with hcalls | hcalls
  · left
    rw [readings, hlists, htypes, hcalls, inBoundCalls_script h]
    rfl
  · right
    rw [readings, hlists, htypes, hcalls, inBoundCalls_script h]
    rfl

theorem declared_setup (markup script : Text) :
    declared { markup, setup := script, plain := [] } = Names.ofList (readings script) := by
  have hcalls : findAll emitCall [] = [] := findAll_emitCall_eq_nil List.not_mem_nil
  simp only [declared, readings, hcalls, List.append_nil]

theorem declared_plain (markup script : Text) :
    declared { markup, setup := [], plain := script } = Names.ofList (findAll emitCall script) := by
  have hlists : inLists [] = [] := inLists_eq_nil List.not_mem_nil
  have htypes : inTypes [] = [] := inTypes_eq_nil List.not_mem_nil
  have hcalls : findAll emitCall [] = [] := findAll_emitCall_eq_nil List.not_mem_nil
  have hbound : inBoundCalls [] = [] := inBoundCalls_eq_nil List.not_mem_nil
  simp only [declared, hlists, htypes, hcalls, hbound, List.append_nil, List.nil_append]

/-- Names written in any idiom are declared in their order, later duplicates removed. -/
theorem declared_regions (idiom : Idiom) (names : List Name) (markup body : Text)
    (h : idiom.Writes names body) :
    declared (idiom.regions markup body) = (names.map Name.text).eraseDups := by
  rw [← Names.ofList_eq_eraseDups]
  cases idiom with
  | list => simp only [Idiom.regions, declared_setup, readings_list h]
  | signatures => simp only [Idiom.regions, declared_setup, readings_signatures h]
  | tuples => simp only [Idiom.regions, declared_setup, readings_tuples h]
  | calls => simp only [Idiom.regions, declared_setup, readings_calls h]
  | plainCalls =>
    have hcalls : findAll emitCall (Idiom.plainCalls.script body) = names.map Name.text :=
      findAll_emitCall_calls ⟨h.layout, trivial⟩
    rw [Idiom.regions, declared_plain, hcalls]
  | boundCalls b =>
    rcases readings_boundCalls h with hread | hread
    · simp only [Idiom.regions, declared_setup, hread]
    · simp only [Idiom.regions, declared_setup, hread, Names.ofList_append_self]

def saveName : Name := ⟨"save".toList, by decide, by decide⟩

def updateName : Name := ⟨"update:max-size".toList, by decide, by decide⟩

-- The variable ends with `$emit`, so its calls are read by two readers.
def dollarEmitter : Identifier := ⟨'x', "$emit".toList, by decide, by decide⟩

theorem declared_regions_twice :
    declared { markup := [], plain := [],
               setup := "const x$emit = defineEmits()\n x$emit('save')\n".toList ++
                 " x$emit('update:max-size')\n x$emit('save')".toList } =
      ["save".toList, "update:max-size".toList] := by
  have hscript : "const x$emit = defineEmits()\n x$emit('save')\n".toList ++
      " x$emit('update:max-size')\n x$emit('save')".toList = (Idiom.boundCalls dollarEmitter).script
        ("\n ".toList ++ (call dollarEmitter.text saveName.text ++ '\n' ::
          (" ".toList ++ (call dollarEmitter.text updateName.text ++ '\n' ::
            (" ".toList ++ call dollarEmitter.text saveName.text))))) := by
    decide +kernel
  have hdups : ([saveName, updateName, saveName].map Name.text).eraseDups =
      ["save".toList, "update:max-size".toList] := by decide +kernel
  have hbegins : ∀ c ∈ some '\n', c ∈ [';', '\n'] := by simp
  rw [hscript, ← hdups]
  exact declared_regions (.boundCalls dollarEmitter) [saveName, updateName, saveName] [] _
    ⟨.more (by decide) (by decide) (.more (by decide) (by decide) (.last (by decide))), hbegins⟩

end SfcContract.Event
