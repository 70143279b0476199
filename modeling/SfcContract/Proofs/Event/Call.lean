import SfcContract.Event
import SfcContract.Proofs.Code.Entry
import SfcContract.Proofs.Text.Progress
import SfcContract.Proofs.Text.Word

/-!
# Calls that emit an event

A call `emit('save')` names an event. `$emit` is called wherever its letters stand before such an argument,
so also at the end of a longer name. A variable is called only after a sign, or at the start of the script.
What a search for calls reads in a script follows from what it reads in the words and signs of the script.
-/

namespace SfcContract.Event

open Code Text

def isEventChar (c : Char) : Bool := isWord c || [':', '.', '-'].contains c

structure Name where
  text : Text
  ne_nil : text ≠ []
  chars : ∀ c ∈ text, isEventChar c = true

structure Identifier where
  first : Char
  others : Text
  isStart : isNameStart first = true
  isPart : ∀ c ∈ others, isNamePart c = true

namespace Identifier

variable (b : Identifier)

def text : Text := b.first :: b.others

theorem text_ne_nil : b.text ≠ [] := List.cons_ne_nil _ _

theorem isNamePart_of_mem : ∀ c ∈ b.text, isNamePart c = true := by
  intro c hc
  rcases List.mem_cons.mp hc with rfl | hc
  · rcases isWord_of_isNameStart b.isStart with h | h
    · simp [isNamePart, h]
    · simp [isNamePart, h]
  · exact b.isPart c hc

theorem not_mem {c : Char} (hc : isNamePart c = false) : c ∉ b.text := by
  intro hmem
  rw [b.isNamePart_of_mem c hmem] at hc
  cases hc

theorem name?_append {t : Text} (ht : ∀ c ∈ t.head?, isNamePart c = false) :
    name? (b.text ++ t) = some (b.text, t) := by
  rw [text, List.cons_append, name?, if_pos b.isStart, takeWhile_append_of_head b.isPart ht,
    dropWhile_append_of_head b.isPart ht]

end Identifier

def quoted (name : Text) : Text := '\x27' :: (name ++ ['\x27'])

def call (emitter name : Text) : Text := emitter ++ '(' :: (quoted name ++ [')'])

variable {t : Text} {c : Char}

namespace Name

variable (name : Name)

theorem not_mem (hc : isEventChar c = false) : c ∉ name.text := by
  intro hmem
  rw [name.chars c hmem] at hc
  cases hc

theorem not_mem_quotes : ∀ c ∈ name.text, c ∉ quotes := by
  intro c hc hq
  have hnot : ∀ c ∈ quotes, isEventChar c = false := by decide
  exact name.not_mem (hnot c hq) hc

theorem between?_quoted {marks : List Char} (hm : '\x27' ∈ marks) (hs : ∀ c ∈ marks, c ∈ quotes) (t : Text) :
    between? marks (quoted name.text ++ t) = some (name.text, t) := by
  have hin : ∀ c ∈ name.text, c ∉ marks := fun c hc hmem => name.not_mem_quotes c hc (hs c hmem)
  simpa [quoted] using between?_append hm name.ne_nil hin t

theorem nameArgument?_quoted (t : Text) :
    nameArgument? ('(' :: (quoted name.text ++ t)) = some (name.text, t) := by
  have hparen : isBlank '(' = false := by decide
  have hquote : isBlank '\x27' = false := by decide
  have hskip : skipBlanks (quoted name.text ++ t) = quoted name.text ++ t :=
    skipBlanks_cons_of_not hquote _
  have hread : between? quotes (quoted name.text ++ t) = some (name.text, t) :=
    name.between?_quoted (by decide) (by simp) t
  simp [nameArgument?, skipBlanks_cons_of_not hparen, expect?, hskip, hread]

end Name

/-- A call of the given name, wherever its letters stand. -/
def callOf (name : Text) : Recognizer Text := fun _ t => (after? name t).bind nameArgument?

theorem emitCall_eq : emitCall = callOf "$emit".toList := rfl

theorem nameArgument?_eq_none (h : ∀ r, skipBlanks t ≠ '(' :: r) : nameArgument? t = none := by
  have hnone : expect? '(' (skipBlanks t) = none := by
    rw [Option.eq_none_iff_forall_ne_some]
    intro r hr
    exact h r (expect?_eq_some_iff.mp hr)
  rw [nameArgument?, hnone]
  rfl

theorem isBlank_of_isNamePart (hc : isNamePart c = true) : isBlank c = false :=
  isBlank_of_isNameChar (by simp [isNameChar, hc])

theorem nameArgument?_cons_of_isNamePart (hc : isNamePart c = true) (t : Text) :
    nameArgument? (c :: t) = none := by
  refine nameArgument?_eq_none ?_
  intro r hr
  rw [skipBlanks_cons_of_not (isBlank_of_isNamePart hc)] at hr
  obtain ⟨rfl, -⟩ := List.cons.inj hr
  exact absurd hc (by decide)

/-- A sign ends every word before it. -/
theorem isNamePart_head (hc : isNamePart c = false) (t : Text) :
    ∀ d ∈ (c :: t).head?, isNamePart d = false := by
  simpa using hc

section CallOf

variable {name word lead : Text} {prev : Option Char}

/-- What is called at the start of a text is the word there, up to its last letter. -/
theorem callOf_append (hn : ∀ c ∈ name, isNamePart c = true) (hw : ∀ c ∈ word, isNamePart c = true)
    (ht : ∀ c ∈ t.head?, isNamePart c = false) :
    callOf name prev (word ++ t) = if word = name then nameArgument? t else none := by
  by_cases heq : word = name
  · rw [if_pos heq, callOf, after?_eq_some_iff.mpr (congrArg (· ++ t) heq), Option.bind_some]
  · rw [if_neg heq, callOf, Option.bind_eq_none_iff]
    intro r hr
    rcases List.append_eq_append_iff.mp (after?_eq_some_iff.mp hr) with ⟨u, rfl, rfl⟩ | ⟨u, rfl, rfl⟩
    · -- The name goes on where the word has ended.
      cases u with
      | nil => exact absurd (List.append_nil word).symm heq
      | cons c u =>
        have hpart := hn c (by simp)
        rw [ht c rfl] at hpart
        cases hpart
    · cases u with
      | nil => exact absurd (List.append_nil name) heq
      | cons c u => exact nameArgument?_cons_of_isNamePart (hw c (by simp)) _

theorem misses_callOf_word (hn : ∀ c ∈ name, isNamePart c = true)
    (hw : ∀ c ∈ lead ++ word, isNamePart c = true) (ht : ∀ c ∈ t.head?, isNamePart c = false)
    (h : ∀ u, u <:+ lead → u ≠ [] → u ++ word = name → nameArgument? t = none) :
    Misses (callOf name) lead (word ++ t) := by
  rintro a u rfl hu prev
  have hparts : ∀ c ∈ u ++ word, isNamePart c = true := by
    intro c hc
    refine hw c ?_
    rw [List.append_assoc]
    exact List.mem_append_right a hc
  rw [← List.append_assoc, callOf_append hn hparts ht]
  split
  · next heq => exact h u (List.suffix_append a u) hu heq
  · rfl

theorem callOf_eq_none_of_head (hn : ∀ c ∈ name, isNamePart c = true) (hne : name ≠ [])
    (ht : ∀ c ∈ t.head?, isNamePart c = false) : callOf name prev t = none := by
  have hcall : callOf name prev ([] ++ t) = _ := callOf_append hn (by simp) ht
  rwa [List.nil_append, if_neg hne.symm] at hcall

theorem misses_callOf_signs (hn : ∀ c ∈ name, isNamePart c = true) (hne : name ≠ [])
    (hl : ∀ c ∈ lead, isNamePart c = false) : Misses (callOf name) lead t := by
  refine Misses.of_first ?_
  intro c hc prev s
  exact callOf_eq_none_of_head hn hne (isNamePart_head (hl c hc) s)

/-- Nothing is called in the line that declares the emitter. -/
theorem misses_binding (hn : ∀ c ∈ name, isNamePart c = true) (hne : name ≠ []) (b : Identifier)
    (t : Text) : Misses (callOf name) ("const ".toList ++ (b.text ++ " = defineEmits()".toList)) t := by
  have hblank : isBlank ' ' = true := by decide
  have hspace : isNamePart ' ' = false := by decide
  have hparen : isNamePart '(' = false := by decide
  have hword {word u : Text} (hw : ∀ c ∈ word, isNamePart c = true)
      (hu : ∀ c ∈ u.head?, isNamePart c = false) (harg : nameArgument? u = none) :
      Misses (callOf name) word u := by
    have hmisses : Misses (callOf name) word ([] ++ u) :=
      misses_callOf_word hn (by simpa using hw) hu fun _ _ _ _ => harg
    exact hmisses
  have hsplit : "const ".toList ++ (b.text ++ " = defineEmits()".toList) = "const".toList ++
      ([' '] ++ (b.text ++ (" = ".toList ++ ("defineEmits".toList ++ "()".toList)))) := rfl
  have hfirst (u : Text) : nameArgument? (' ' :: (b.text ++ u)) = none := by
    refine nameArgument?_eq_none ?_
    intro r hr
    have hpart := b.isNamePart_of_mem b.first List.mem_cons_self
    rw [skipBlanks_cons_of_blank hblank, Identifier.text, List.cons_append,
      skipBlanks_cons_of_not (isBlank_of_isNamePart hpart)] at hr
    obtain ⟨hparen, -⟩ := List.cons.inj hr
    rw [hparen] at hpart
    exact absurd hpart (by decide)
  rw [hsplit]
  refine Misses.append (hword (by decide) (isNamePart_head hspace _) ?_)
    (Misses.append (misses_callOf_signs hn hne (by decide)) ?_)
  · simpa using hfirst _
  refine Misses.append (hword b.isNamePart_of_mem (isNamePart_head hspace _) rfl)
    (Misses.append (misses_callOf_signs hn hne (by decide)) ?_)
  exact Misses.append (hword (by decide) (isNamePart_head hparen _) rfl)
    (misses_callOf_signs hn hne (by decide))

end CallOf

theorem emitCall_cons_of_ne (hc : c ≠ '$') (prev : Option Char) (t : Text) : emitCall prev (c :: t) = none := by
  simp [emitCall, after?, List.isPrefixOf?, hc.symm]

theorem findAll_emitCall_eq_nil (h : '$' ∉ t) : findAll emitCall t = [] := by
  refine (Finds.of_misses (Misses.of_first ?_)).findAll_eq
  intro c hc prev s
  exact emitCall_cons_of_ne (fun he => h (he ▸ hc)) prev s

theorem isNamePart_of_mem_emit : ∀ c ∈ "$emit".toList, isNamePart c = true := by decide

/-- A call of a name that ends with `$emit`. -/
theorem finds_emitCall {lead : Text} (hl : ∀ c ∈ lead, isNamePart c = true) (name : Name) (t : Text) :
    Finds emitCall (call (lead ++ "$emit".toList) name.text) t [name.text] := by
  have hparen : isNamePart '(' = false := by decide
  have hlead : Misses emitCall lead ("$emit".toList ++ '(' :: quoted name.text ++ [')'] ++ t) := by
    rw [List.append_assoc, List.append_assoc]
    refine misses_callOf_word isNamePart_of_mem_emit ?_ (isNamePart_head hparen _) ?_
    · intro c hc
      rcases List.mem_append.mp hc with hc | hc
      · exact hl c hc
      · exact isNamePart_of_mem_emit c hc
    · intro u _ hu heq
      exact absurd (List.append_left_eq_self.mp heq) hu
  have hcall : Finds emitCall ("$emit".toList ++ '(' :: quoted name.text) ([')'] ++ t) [name.text] := by
    refine Finds.of_some (List.cons_ne_nil _ _) ?_
    intro prev
    rw [List.append_assoc, List.cons_append, emitCall_eq, callOf_append isNamePart_of_mem_emit
      isNamePart_of_mem_emit (isNamePart_head hparen _), if_pos rfl, name.nameArgument?_quoted]
  have hclosing : Misses emitCall [')'] t :=
    misses_callOf_signs isNamePart_of_mem_emit (by decide) (by decide)
  have hsplit : call (lead ++ "$emit".toList) name.text =
      lead ++ ("$emit".toList ++ '(' :: quoted name.text ++ [')']) := by
    simp only [call, List.append_assoc, List.cons_append]
  rw [hsplit]
  exact (Finds.of_misses hlead).append (hcall.append (Finds.of_misses hclosing))

theorem misses_emitCall {word : Text} (hw : ∀ c ∈ word, isNamePart c = true) (hs : ¬ "$emit".toList <:+ word)
    (name : Name) (t : Text) : Misses emitCall (call word name.text) t := by
  have hparen : isNamePart '(' = false := by decide
  have hword : Misses emitCall word ([] ++ ('(' :: (quoted name.text ++ [')']) ++ t)) := by
    refine misses_callOf_word isNamePart_of_mem_emit (by simpa using hw) (isNamePart_head hparen _) ?_
    intro u hu _ heq
    rw [List.append_nil] at heq
    exact absurd (heq ▸ hu) hs
  have hargument : Misses emitCall ('(' :: (quoted name.text ++ [')'])) t := by
    refine Misses.of_first ?_
    intro c hc prev u
    refine emitCall_cons_of_ne ?_ prev u
    rintro rfl
    have hdollar : '$' ∉ name.text := name.not_mem (by decide)
    simp [quoted, hdollar] at hc
  exact Misses.append hword hargument

section BoundCall

variable {b : Identifier} {gap : Text}

theorem boundCall_cons (hc : isNamePart c = false) (hd : c ≠ '.') (prev : Option Char) (t : Text) :
    boundCall b.text prev (c :: t) = callOf b.text none t := by
  have hnone : (after? b.text (c :: t)).bind nameArgument? = none := by
    have hcall : callOf b.text none (c :: t) = none :=
      callOf_eq_none_of_head b.isNamePart_of_mem b.text_ne_nil (isNamePart_head hc t)
    exact hcall
  simp [boundCall, hnone, hc, hd, callOf]

theorem misses_boundCall {a : Text} (ha : Misses (callOf b.text) a t) (ht : callOf b.text none t = none) :
    Misses (boundCall b.text) a t := by
  intro d u he hu prev
  obtain ⟨c, u, rfl⟩ := List.exists_cons_of_ne_nil hu
  have hhere : (after? b.text (c :: (u ++ t))).bind nameArgument? = none := ha d (c :: u) he hu none
  have hnext : (after? b.text (u ++ t)).bind nameArgument? = none := by
    cases u with
    | nil => exact ht
    | cons e u => exact ha (d ++ [c]) (e :: u) (by simp [he]) (by simp) none
  simp [boundCall, hhere, hnext]

theorem isNamePart_of_isFiller (hg : IsFiller [';', '\n'] gap) :
    ∀ c ∈ gap, isNamePart c = false ∧ c ≠ '.' := by
  intro c hc
  have hsigns : ∀ c ∈ [';', '\n'], isNamePart c = false ∧ c ≠ '.' := by decide
  rcases hg c hc with hb | hs
  · constructor
    · cases hp : isNamePart c with
      | false => rfl
      | true =>
        rw [isBlank_of_isNamePart hp] at hb
        cases hb
    · rintro rfl
      exact absurd hb (by decide)
  · exact hsigns c hs

theorem misses_boundCall_filler (hg : IsFiller [';', '\n'] gap)
    (ht : ∀ c ∈ t.head?, isNamePart c = false) : Misses (boundCall b.text) gap t :=
  misses_boundCall
    (misses_callOf_signs b.isNamePart_of_mem b.text_ne_nil fun c hc => (isNamePart_of_isFiller hg c hc).1)
    (callOf_eq_none_of_head b.isNamePart_of_mem b.text_ne_nil ht)

theorem finds_boundCall (hg : IsFiller [';', '\n'] gap) (hne : gap ≠ []) (name : Name)
    (ht : ∀ c ∈ t.head?, isNamePart c = false) :
    Finds (boundCall b.text) (gap ++ call b.text name.text) t [name.text] := by
  obtain ⟨lead, d, rfl⟩ : ∃ lead d, gap = lead ++ [d] := ⟨_, _, (List.dropLast_append_getLast hne).symm⟩
  have hd := isNamePart_of_isFiller hg d (by simp)
  have hlead : Misses (boundCall b.text) lead ([d] ++ (call b.text name.text ++ t)) := by
    exact misses_boundCall_filler (fun c hc => hg c (by simp [hc])) (isNamePart_head hd.1 _)
  have hcall : Finds (boundCall b.text) (d :: (b.text ++ '(' :: quoted name.text)) ([')'] ++ t)
      [name.text] := by
    refine Finds.of_some (List.cons_ne_nil _ _) ?_
    intro prev
    have hparen : isNamePart '(' = false := by decide
    rw [List.cons_append, boundCall_cons hd.1 hd.2, List.append_assoc, List.cons_append,
      callOf_append b.isNamePart_of_mem b.isNamePart_of_mem (isNamePart_head hparen _), if_pos rfl,
      name.nameArgument?_quoted]
  have hclosing : Misses (boundCall b.text) [')'] t :=
    misses_boundCall (misses_callOf_signs b.isNamePart_of_mem b.text_ne_nil (by decide))
      (callOf_eq_none_of_head b.isNamePart_of_mem b.text_ne_nil ht)
  have hsplit : lead ++ [d] ++ call b.text name.text =
      lead ++ (d :: (b.text ++ '(' :: quoted name.text) ++ [')']) := by simp [call]
  rw [hsplit]
  refine Finds.append (Finds.of_misses ?_) (hcall.append (Finds.of_misses hclosing))
  simpa [call] using hlead

theorem findFirst?_binding (b : Identifier) (t : Text) :
    findFirst? binding ("const ".toList ++ (b.text ++ (" = defineEmits()".toList ++ t))) = some b.text := by
  have hconst : wordStart? "const".toList none
      ("const ".toList ++ (b.text ++ (" = defineEmits()".toList ++ t))) =
        some (' ' :: (b.text ++ (" = defineEmits()".toList ++ t))) := wordStart?_eq_some_iff.mpr ⟨rfl, rfl⟩
  have hpart := b.isNamePart_of_mem b.first List.mem_cons_self
  have hskip : skipBlanks (' ' :: (b.text ++ (" = defineEmits()".toList ++ t))) =
      b.text ++ (" = defineEmits()".toList ++ t) := by
    rw [skipBlanks_cons_of_blank (by decide)]
    exact skipBlanks_cons_of_not (isBlank_of_isNamePart hpart) _
  have hname : name? (b.text ++ (" = defineEmits()".toList ++ t)) =
      some (b.text, " = defineEmits()".toList ++ t) :=
    b.name?_append (isNamePart_head (by decide : isNamePart ' ' = false) _)
  have hread : binding none ("const ".toList ++ (b.text ++ (" = defineEmits()".toList ++ t))) =
      some (b.text, "()".toList ++ t) := by
    simp only [binding, List.findSome?_cons, hconst, Option.bind_eq_bind, Option.bind_some, List.head?_cons,
      Option.any_some, hskip, hname]
    rfl
  exact findFirst?_of_some (List.cons_ne_nil _ _) hread

end BoundCall

end SfcContract.Event
