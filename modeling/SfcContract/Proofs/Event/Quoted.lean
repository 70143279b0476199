import SfcContract.Proofs.Event.Idioms

/-!
# Quoted names with text between them

A list of names is read by the quotes in it, so what matters of the text between two names is that it has no
quotes, does not end the list and does not start another declaration. Calls in such a text can only name what
the list names anyway.
-/

namespace SfcContract.Event

open Code Text

structure QuotedName where
  name : Name
  quote : Char := '\x27'
  isQuote : quote ∈ quotes

namespace QuotedName

def text (n : QuotedName) : Text := n.quote :: (n.name.text ++ [n.quote])

end QuotedName

/-- A text that may stand between the names of a list. -/
structure Quiet (t : Text) : Prop where
  unquoted : ∀ c ∈ t, c ∉ quotes
  unended : upTo? listEnd? t = none
  wordless : ¬ "defineEmits".toList <:+: t

/-- The names of a list in their order, with quiet text before, between and after them. -/
inductive Spells : List QuotedName → Text → Prop
  | nil {gap : Text} : Quiet gap → Spells [] gap
  | cons {gap rest : Text} {n : QuotedName} {names : List QuotedName} : Quiet gap →
      (∀ c ∈ rest.head?, isNamePart c = false) → Spells names rest →
      Spells (n :: names) (gap ++ (n.text ++ rest))

variable {n : QuotedName} {names : List QuotedName} {gap body a b t u v : Text} {c q : Char}

/-- A character that starts what comes after a word inside a quoted name. -/
def InQuotes (t : Text) : Prop := ∃ c s, t = c :: s ∧ isBlank c = false ∧ c ∉ ['(', '<']

theorem inQuotes_cons (hc : isEventChar c = true ∨ c ∈ quotes) (t : Text) : InQuotes (c :: t) := by
  refine ⟨c, t, rfl, ?_, ?_⟩
  · rcases hc with hc | hc
    · cases hb : isBlank c with
      | false => rfl
      | true =>
        simp only [isEventChar, Bool.or_eq_true, List.contains_iff_mem] at hc
        rcases hc with hc | hc
        · rw [isBlank_of_isWord hc] at hb
          cases hb
        · have hsigns : ∀ c ∈ [':', '.', '-'], isBlank c = false := by decide
          exact hb.symm.trans (hsigns c hc)
    · have hquotes : ∀ c ∈ quotes, isBlank c = false := by decide
      exact hquotes c hc
  · intro hmem
    have hsigns : ∀ c ∈ ['(', '<'], isEventChar c = false ∧ c ∉ quotes := by decide
    obtain ⟨hevent, hquote⟩ := hsigns c hmem
    rcases hc with hc | hc
    · exact Bool.false_ne_true (hevent.symm.trans hc)
    · exact hquote hc

theorem InQuotes.expect?_eq_none (h : InQuotes t) (hc : c ∈ ['(', '<']) : expect? c (skipBlanks t) = none := by
  obtain ⟨d, s, rfl, hblank, hd⟩ := h
  have hne : d ≠ c := by
    rintro rfl
    exact hd hc
  simp [skipBlanks_cons_of_not hblank, expect?, hne]

/-- Inside a quoted name, or at its quotes, a word is followed by more of the name or by the quote. -/
theorem QuotedName.inQuotes_of_word {word r : Text} (hne : word ≠ []) (hw : ∀ c ∈ word, c ∉ quotes)
    (hv : v <:+ n.text) (hv' : v ≠ []) (h : v ++ t = word ++ r) : InQuotes r := by
  obtain ⟨d, w, rfl⟩ := List.exists_cons_of_ne_nil hne
  have hfirst : ∀ s, v ++ t ≠ n.quote :: s := by
    rintro s hs
    rw [hs] at h
    obtain ⟨rfl, -⟩ := List.cons.inj h
    exact hw _ List.mem_cons_self n.isQuote
  have hsuffix : v <:+ n.name.text ++ [n.quote] := by
    rcases List.suffix_cons_iff.mp hv with rfl | hv
    · exact absurd rfl (hfirst _)
    · exact hv
  obtain ⟨v, rfl, hname⟩ : ∃ u, v = u ++ [n.quote] ∧ u <:+ n.name.text := by
    rcases List.suffix_concat_iff.mp hsuffix with rfl | ⟨u, rfl, hu⟩
    · exact absurd rfl hv'
    · exact ⟨u, by simp, hu⟩
  rw [List.append_assoc] at h
  rcases List.append_eq_append_iff.mp h with ⟨s, hs, hr⟩ | ⟨s, hs, hr⟩
  · cases s with
    | nil =>
      obtain rfl : n.quote :: t = r := hr
      exact inQuotes_cons (.inr n.isQuote) t
    | cons e s =>
      obtain ⟨rfl, -⟩ := List.cons.inj hr
      exact absurd n.isQuote (hw _ (by simp [hs]))
  · cases s with
    | nil =>
      obtain rfl : r = n.quote :: t := hr
      exact inQuotes_cons (.inr n.isQuote) t
    | cons e s =>
      rw [hr]
      refine inQuotes_cons (.inl ?_) _
      exact n.name.chars e (hname.subset (by simp [hs]))

theorem QuotedName.between?_text (n : QuotedName) (t : Text) :
    between? quotes (n.text ++ t) = some (n.name.text, t) := by
  simpa [text] using between?_append n.isQuote n.name.ne_nil n.name.not_mem_quotes t

theorem exists_quote_of_between? {marks : List Char} {x rest : Text} (h : between? marks t = some (x, rest)) :
    ∃ q v, t = q :: v ∧ q ∈ marks := by
  cases t with
  | nil => cases h
  | cons q v =>
    refine ⟨q, v, rfl, ?_⟩
    by_contra hq
    rw [between?_cons_of_not_mem hq] at h
    cases h

/-- Two cuts of a text are the same when neither part before them holds the character at the other cut. -/
theorem eq_of_not_mem {d : Char} (hu : q ∉ u) (ha : d ∉ a) (h : u ++ d :: t = a ++ q :: v) :
    u = a ∧ d = q ∧ t = v := by
  rcases List.append_eq_append_iff.mp h with ⟨s, rfl, hs⟩ | ⟨s, rfl, hs⟩
  · cases s with
    | nil =>
      obtain ⟨rfl, rfl⟩ := List.cons.inj hs
      exact ⟨(List.append_nil u).symm, rfl, rfl⟩
    | cons e s =>
      obtain ⟨rfl, -⟩ := List.cons.inj hs
      exact absurd (by simp) ha
  · cases s with
    | nil =>
      obtain ⟨rfl, rfl⟩ := List.cons.inj hs
      exact ⟨List.append_nil a, rfl, rfl⟩
    | cons e s =>
      obtain ⟨rfl, -⟩ := List.cons.inj hs
      exact absurd (by simp) hu

/-- A recogniser that reads a name of the list it stands before: up to the quote it passes neither quotes nor
the end of the list, but for its first character. -/
def ReadsArgument (r : Recognizer Text) : Prop :=
  ∀ prev s x rest, r prev s = some (x, rest) → ∃ c m v, s = c :: m ++ v ∧
    (∀ d ∈ m, d ∉ quotes ∧ d ≠ ']') ∧ between? quotes v = some (x, rest)

/-- Before a quoted name such a recogniser reads that name or nothing, before the end of the list nothing. -/
theorem ReadsArgument.cases {r : Recognizer Text} {prev : Option Char} {x rest : Text} {d : Char}
    (hr : ReadsArgument r) (hu : ∀ c ∈ u, c ∉ quotes) (hne : u ≠ []) (hd : d ∈ quotes ∨ d = ']')
    (h : r prev (u ++ d :: t) = some (x, rest)) : d ∈ quotes ∧ between? quotes (d :: t) = some (x, rest) := by
  obtain ⟨c, m, v, hs, hm, hread⟩ := hr prev _ x rest h
  obtain ⟨e, u, rfl⟩ := List.exists_cons_of_ne_nil hne
  obtain ⟨q, v, rfl, hq⟩ := exists_quote_of_between? hread
  obtain ⟨-, hs⟩ := List.cons.inj hs
  have hdm : d ∉ m := by
    intro hmem
    rcases hd with hd | rfl
    · exact (hm d hmem).1 hd
    · exact (hm _ hmem).2 rfl
  have hqu : q ∉ u := fun hmem => hu q (List.mem_cons_of_mem _ hmem) hq
  obtain ⟨rfl, rfl, rfl⟩ := eq_of_not_mem hqu hdm hs
  exact ⟨hq, hread⟩

namespace ReadsArgument

variable {r : Recognizer Text}

theorem findsAmong_name (hr : ReadsArgument r) (hg : ∀ c ∈ gap, c ∉ quotes) (hn : Misses r n.text t) :
    FindsAmong r (gap ++ n.text) t [n.name.text] := by
  induction gap with
  | nil => exact FindsAmong.of_misses hn
  | cons c gap ih =>
    intro prev
    have hrest := ih fun d hd => hg d (List.mem_cons_of_mem _ hd)
    cases hread : r prev (c :: gap ++ (n.text ++ t)) with
    | none =>
      obtain ⟨found, hfound, hsearch⟩ := hrest (some c)
      refine ⟨found, hfound, ?_⟩
      simp only [List.append_assoc, List.cons_append] at hread hsearch ⊢
      simp only [findFrom, hread, hsearch]
      congr 2
      simp [List.getLast?_append, List.getLast?_cons]
    | some hit =>
      obtain ⟨x, rest⟩ := hit
      obtain ⟨-, hx⟩ := hr.cases hg (List.cons_ne_nil _ _) (.inl n.isQuote) hread
      have hname : between? quotes (n.quote :: ((n.name.text ++ [n.quote]).append t)) =
          some (n.name.text, t) := n.between?_text t
      obtain ⟨rfl, rfl⟩ := Prod.mk.inj (Option.some.inj (hx.symm.trans hname))
      refine ⟨[n.name.text], List.Subset.refl _, ?_⟩
      rw [← List.append_assoc] at hread
      exact findFrom_append_of_some (List.cons_ne_nil _ _) hread

theorem findsAmong_spells (hr : ReadsArgument r)
    (hq : ∀ (n : QuotedName) t, (∀ c ∈ t.head?, isNamePart c = false) → Misses r n.text t)
    (h : Spells names body) (t : Text) :
    FindsAmong r body (']' :: t) (names.map fun n => n.name.text) := by
  induction h with
  | @nil gap hg =>
    refine FindsAmong.of_misses ?_
    rintro a u rfl hu prev
    rw [Option.eq_none_iff_forall_ne_some]
    rintro ⟨x, rest⟩ hread
    have hunquoted : ∀ c ∈ u, c ∉ quotes := fun c hc => hg.unquoted c (List.mem_append_right a hc)
    exact absurd (hr.cases hunquoted hu (.inr rfl) hread).1 (by decide)
  | @cons gap rest n names hg hhead _ ih =>
    have hhead' : ∀ c ∈ (rest ++ ']' :: t).head?, isNamePart c = false := by
      cases rest with
      | nil => exact isNamePart_head (by decide) t
      | cons c rest => exact hhead
    have hname := hr.findsAmong_name hg.unquoted (hq n _ hhead')
    rw [← List.append_assoc]
    exact hname.append ih

end ReadsArgument

theorem callOf_eq_some {name x rest : Text} {prev : Option Char} (h : callOf name prev t = some (x, rest)) :
    ∃ g g' v, t = name ++ (g ++ '(' :: (g' ++ v)) ∧ IsBlanks g ∧ IsBlanks g' ∧
      between? quotes v = some (x, rest) := by
  simp only [callOf, nameArgument?, Option.bind_eq_bind, Option.bind_eq_some_iff, after?_eq_some_iff,
    expect?_eq_some_iff] at h
  obtain ⟨s, rfl, u, hu, hread⟩ := h
  obtain ⟨g, hg, hs⟩ := exists_blanks_append s
  obtain ⟨g', hg', hu'⟩ := exists_blanks_append u
  refine ⟨g, g', skipBlanks u, ?_, hg, hg', hread⟩
  rw [← hu', ← hu, ← hs]

theorem not_mem_quotes_of_isNamePart (hc : isNamePart c = true) : c ∉ quotes ∧ c ≠ ']' := by
  have hsigns : ∀ c ∈ ']' :: quotes, isNamePart c = false := by decide
  constructor
  · exact fun hq => Bool.false_ne_true ((hsigns c (List.mem_cons_of_mem _ hq)).symm.trans hc)
  · rintro rfl
    exact Bool.false_ne_true ((hsigns _ List.mem_cons_self).symm.trans hc)

theorem not_mem_quotes_of_isBlank (hc : isBlank c = true) : c ∉ quotes ∧ c ≠ ']' := by
  have hsigns : ∀ c ∈ ']' :: quotes, isBlank c = false := by decide
  constructor
  · exact fun hq => Bool.false_ne_true ((hsigns c (List.mem_cons_of_mem _ hq)).symm.trans hc)
  · rintro rfl
    exact Bool.false_ne_true ((hsigns _ List.mem_cons_self).symm.trans hc)

section Calls

variable {name : Text}

/-- A call up to its argument holds neither quotes nor the end of a list. -/
theorem callOf_eq_some_unquoted (hn : ∀ c ∈ name, isNamePart c = true) {prev : Option Char} {x rest : Text}
    (h : callOf name prev t = some (x, rest)) : ∃ m v, t = name ++ m ++ v ∧
      (∀ c ∈ name ++ m, c ∉ quotes ∧ c ≠ ']') ∧ between? quotes v = some (x, rest) := by
  obtain ⟨g, g', v, rfl, hg, hg', hread⟩ := callOf_eq_some h
  refine ⟨g ++ '(' :: g', v, by simp, ?_, hread⟩
  intro d hd
  simp only [List.mem_append, List.mem_cons] at hd
  rcases hd with hd | hd | rfl | hd
  · exact not_mem_quotes_of_isNamePart (hn d hd)
  · exact not_mem_quotes_of_isBlank (hg d hd)
  · decide
  · exact not_mem_quotes_of_isBlank (hg' d hd)

theorem readsArgument_callOf (hn : ∀ c ∈ name, isNamePart c = true) (hne : name ≠ []) :
    ReadsArgument (callOf name) := by
  intro prev t x rest h
  obtain ⟨m, v, rfl, hm, hread⟩ := callOf_eq_some_unquoted hn h
  obtain ⟨c, name, rfl⟩ := List.exists_cons_of_ne_nil hne
  exact ⟨c, name ++ m, v, rfl, fun d hd => hm d (List.mem_cons_of_mem _ hd), hread⟩

theorem misses_callOf_text (hn : ∀ c ∈ name, isNamePart c = true) (hne : name ≠ []) (n : QuotedName)
    (t : Text) : Misses (callOf name) n.text t := by
  intro u v hv hne' prev
  rw [callOf, Option.bind_eq_none_iff]
  intro r hr
  have hquotes : ∀ c ∈ name, c ∉ quotes := fun c hc => (not_mem_quotes_of_isNamePart (hn c hc)).1
  have hin : InQuotes r :=
    QuotedName.inQuotes_of_word hne hquotes ⟨u, hv.symm⟩ hne' (after?_eq_some_iff.mp hr)
  rw [nameArgument?, hin.expect?_eq_none (by simp)]
  rfl

theorem findsAmong_emitCall (h : Spells names body) (t : Text) :
    FindsAmong emitCall body (']' :: t) (names.map fun n => n.name.text) := by
  rw [emitCall_eq]
  exact (readsArgument_callOf isNamePart_of_mem_emit (by decide)).findsAmong_spells
    (fun n u _ => misses_callOf_text isNamePart_of_mem_emit (by decide) n u) h t

/-- A call of the variable is a call of its name, here or after the next character. -/
theorem boundCall_eq_some {x : Text × Text} {prev : Option Char} (h : boundCall name prev t = some x) :
    callOf name none t = some x ∨ ∃ c s, t = c :: s ∧ callOf name none s = some x := by
  simp only [boundCall, Option.orElse_eq_orElse, Option.orElse_eq_or, Option.or_eq_some_iff] at h
  rcases h with h | ⟨-, h⟩
  · split at h
    · exact .inl h
    · cases h
  · cases t with
    | nil => cases h
    | cons c s =>
      simp only at h
      split at h
      · cases h
      · exact .inr ⟨c, s, rfl, h⟩

theorem readsArgument_boundCall (b : Identifier) : ReadsArgument (boundCall b.text) := by
  intro prev t x rest h
  rcases boundCall_eq_some h with hcall | ⟨c, s, rfl, hcall⟩
  · exact readsArgument_callOf b.isNamePart_of_mem b.text_ne_nil none t x rest hcall
  · obtain ⟨m, v, rfl, hm, hread⟩ := callOf_eq_some_unquoted b.isNamePart_of_mem hcall
    exact ⟨c, b.text ++ m, v, rfl, hm, hread⟩

theorem findsAmong_boundCall (b : Identifier) (h : Spells names body) (t : Text) :
    FindsAmong (boundCall b.text) body (']' :: t) (names.map fun n => n.name.text) := by
  refine (readsArgument_boundCall b).findsAmong_spells (fun n u hu => ?_) h t
  exact misses_boundCall (misses_callOf_text b.isNamePart_of_mem b.text_ne_nil n u)
    (callOf_eq_none_of_head b.isNamePart_of_mem b.text_ne_nil hu)

end Calls

def word : Text := "defineEmits".toList

theorem not_mem_quotes_of_mem_word : ∀ c ∈ word, c ∉ quotes ∧ c ≠ ']' := by decide

/-- A recogniser that passes the word of a declaration, and no quotes and no end of a list before it. -/
def ReadsWord {α : Type} (r : Recognizer α) : Prop :=
  ∀ prev s x, r prev s = some x → ∃ m, m <+: s ∧ word <:+: m ∧ ∀ c ∈ m, c ∉ quotes ∧ c ≠ ']'

namespace ReadsWord

variable {α : Type} {r : Recognizer α} {d : Char}

theorem misses_quiet (hr : ReadsWord r) (hg : Quiet gap) (hd : d ∈ quotes ∨ d = ']') (t : Text) :
    Misses r gap (d :: t) := by
  rintro a u rfl - prev
  rw [Option.eq_none_iff_forall_ne_some]
  intro x hread
  obtain ⟨m, hm, hword, hchars⟩ := hr prev _ x hread
  have hdm : d ∉ m := by
    intro hmem
    rcases hd with hd | rfl
    · exact (hchars d hmem).1 hd
    · exact (hchars _ hmem).2 rfl
  have hmu : m <+: u := isPrefix_of_isPrefix_append_of_head hm (by simpa using hdm)
  exact hg.wordless ((hword.trans hmu.isInfix).trans (List.suffix_append a u).isInfix)

theorem misses_spells (hr : ReadsWord r) (hq : ∀ (n : QuotedName) t, Misses r n.text t)
    (h : Spells names body) (t : Text) : Misses r body (']' :: t) := by
  induction h with
  | nil hg => exact hr.misses_quiet hg (.inr rfl) t
  | @cons gap rest n names hg _ _ ih =>
    exact Misses.append (hr.misses_quiet hg (.inl n.isQuote) _) (Misses.append (hq n _) ih)

end ReadsWord

theorem exists_of_typeDeclaration {prev : Option Char} {x : Text × Text} (h : typeDeclaration prev t = some x) :
    ∃ r, t = word ++ r := by
  simp only [typeDeclaration, Option.bind_eq_bind, Option.bind_eq_some_iff, wordStart?_eq_some_iff] at h
  obtain ⟨r, ⟨-, rfl⟩, -⟩ := h
  exact ⟨r, rfl⟩

theorem readsWord_typeDeclaration : ReadsWord typeDeclaration := by
  intro prev s x h
  obtain ⟨r, rfl⟩ := exists_of_typeDeclaration h
  exact ⟨word, List.prefix_append _ _, List.infix_refl _, not_mem_quotes_of_mem_word⟩

theorem misses_typeDeclaration_text (n : QuotedName) (t : Text) : Misses typeDeclaration n.text t := by
  intro u v hv hne prev
  have hword : "defineEmits".toList ≠ [] := by decide
  rw [Option.eq_none_iff_forall_ne_some]
  intro x h
  simp only [typeDeclaration, Option.bind_eq_bind, Option.bind_eq_some_iff, wordStart?_eq_some_iff] at h
  obtain ⟨r, ⟨-, hr⟩, s, hs, -⟩ := h
  have hin : InQuotes r :=
    QuotedName.inQuotes_of_word hword (fun c hc => (not_mem_quotes_of_mem_word c hc).1) ⟨u, hv.symm⟩ hne hr
  rw [hin.expect?_eq_none (by simp)] at hs
  cases hs

/-- The text of a binding up to the word of the declaration. -/
structure Binder where
  keyword : String
  gap₁ : Text
  name : Identifier
  gap₂ : Text
  gap₃ : Text
  isKeyword : keyword ∈ ["const", "let", "var"]
  isBlanks₁ : IsBlanks gap₁
  isBlanks₂ : IsBlanks gap₂
  isBlanks₃ : IsBlanks gap₃
  separated : gap₁ ≠ []

namespace Binder

def text (b : Binder) : Text :=
  b.keyword.toList ++ (b.gap₁ ++ (b.name.text ++ (b.gap₂ ++ '=' :: b.gap₃)))

theorem not_mem_text (b : Binder) (hb : isBlank c = false) (hn : isNamePart c = false) (he : c ≠ '=') :
    c ∉ b.text := by
  have hkeyword : ∀ w ∈ ["const", "let", "var"], ∀ d ∈ w.toList, isNamePart d = true := by decide
  have hgap {g : Text} (hg : IsBlanks g) : c ∉ g := fun h => Bool.false_ne_true (hb.symm.trans (hg c h))
  intro hc
  simp only [text, List.mem_append, List.mem_cons] at hc
  rcases hc with hc | hc | hc | hc | hc | hc
  · exact Bool.false_ne_true (hn.symm.trans (hkeyword _ b.isKeyword c hc))
  · exact hgap b.isBlanks₁ hc
  · exact b.name.not_mem hn hc
  · exact hgap b.isBlanks₂ hc
  · exact he hc
  · exact hgap b.isBlanks₃ hc

end Binder

theorem name?_eq_some {x rest : Text} (h : name? t = some (x, rest)) :
    ∃ b : Identifier, b.text = x ∧ t = b.text ++ rest := by
  cases t with
  | nil => cases h
  | cons c t =>
    simp only [name?, Option.ite_none_right_eq_some, Option.some.injEq, Prod.mk.injEq] at h
    obtain ⟨hc, rfl, rfl⟩ := h
    refine ⟨⟨c, t.takeWhile isNamePart, hc, fun d hd => List.mem_takeWhile_imp hd⟩, rfl, ?_⟩
    rw [Identifier.text, List.cons_append, List.takeWhile_append_dropWhile]

/-- No keyword starts another. -/
theorem findSome?_keyword {w : String} (hw : w ∈ ["const", "let", "var"]) {prev : Option Char}
    (hprev : prev.any isWord = false) (t : Text) :
    ["const", "let", "var"].findSome? (fun keyword => wordStart? keyword.toList prev (w.toList ++ t)) =
      some t := by
  simp only [List.mem_cons, List.not_mem_nil, or_false] at hw
  rcases hw with rfl | rfl | rfl <;>
    simp [wordStart?, hprev, after?, List.isPrefixOf?]

theorem exists_of_binding {prev : Option Char} {x rest : Text} (h : binding prev t = some (x, rest)) :
    prev.any isWord = false ∧ rest.head?.any isWord = false ∧
      ∃ b : Binder, t = b.text ++ (word ++ rest) ∧ b.name.text = x := by
  simp only [binding, Option.bind_eq_bind, Option.bind_eq_some_iff, Option.ite_none_right_eq_some,
    Option.ite_none_left_eq_some, Option.some.injEq, Prod.mk.injEq, expect?_eq_some_iff,
    after?_eq_some_iff] at h
  obtain ⟨r, hr, hblank, ⟨y, u⟩, hname, v, hv, rest', hrest, hword, hx, hrest'⟩ := h
  obtain ⟨keyword, hkeyword, hstart⟩ := List.exists_of_findSome?_eq_some hr
  obtain ⟨hprev, ht⟩ := wordStart?_eq_some_iff.mp hstart
  obtain ⟨b, hb, hname'⟩ := name?_eq_some hname
  obtain ⟨gap₁, h₁, hr'⟩ := exists_blanks_append r
  obtain ⟨gap₂, h₂, hu⟩ := exists_blanks_append u
  obtain ⟨gap₃, h₃, hv'⟩ := exists_blanks_append v
  have hnamed : r = gap₁ ++ (b.text ++ u) := hr'.trans (congrArg (gap₁ ++ ·) hname')
  have hequals : u = gap₂ ++ '=' :: v := hu.trans (congrArg (gap₂ ++ ·) hv)
  have hcalled : v = gap₃ ++ (word ++ rest') := hv'.trans (congrArg (gap₃ ++ ·) hrest)
  have hne : gap₁ ≠ [] := by
    rintro rfl
    have hpart := b.isNamePart_of_mem b.first List.mem_cons_self
    rw [hnamed] at hblank
    exact Bool.false_ne_true ((isBlank_of_isNamePart hpart).symm.trans hblank)
  subst hrest'
  refine ⟨hprev, by simpa using hword, ⟨keyword, gap₁, b, gap₂, gap₃, hkeyword, h₁, h₂, h₃, hne⟩, ?_, hb.trans hx⟩
  rw [ht, hnamed, hequals, hcalled]
  simp only [Binder.text, List.append_assoc, List.cons_append]

/-- A binding is read in the same way whatever stands after the word of the declaration. -/
theorem binding_text (b : Binder) {prev : Option Char} {rest : Text} (hprev : prev.any isWord = false)
    (hrest : rest.head?.any isWord = false) :
    binding prev (b.text ++ (word ++ rest)) = some (b.name.text, rest) := by
  have hequals : isBlank '=' = false := by decide
  have hd : isBlank 'd' = false := by decide
  have hpart := isBlank_of_isNamePart (b.name.isNamePart_of_mem b.name.first List.mem_cons_self)
  have hend (s : Text) : ∀ c ∈ (b.gap₂ ++ '=' :: s).head?, isNamePart c = false := by
    cases hg : b.gap₂ with
    | nil => exact isNamePart_head (by decide) s
    | cons e g =>
      have hblank : isBlank e = true := b.isBlanks₂ e (by simp [hg])
      refine isNamePart_head ?_ _
      cases hp : isNamePart e with
      | false => rfl
      | true => exact absurd (hblank.symm.trans (isBlank_of_isNamePart hp)) (by decide)
  have hblank (s : Text) : (b.gap₁ ++ s).head?.any isBlank = true := by
    obtain ⟨e, g, hg⟩ := List.exists_cons_of_ne_nil b.separated
    simpa [hg] using b.isBlanks₁ e (by simp [hg])
  have hname (s : Text) : skipBlanks (b.gap₁ ++ (b.name.text ++ s)) = b.name.text ++ s := by
    rw [skipBlanks_append b.isBlanks₁]
    exact skipBlanks_cons_of_not hpart _
  have hsplit : b.text ++ (word ++ rest) = b.keyword.toList ++
      (b.gap₁ ++ (b.name.text ++ (b.gap₂ ++ '=' :: (b.gap₃ ++ (word ++ rest))))) := by
    simp only [Binder.text, List.append_assoc, List.cons_append]
  have hword : skipBlanks (b.gap₃ ++ (word ++ rest)) = word ++ rest := by
    rw [skipBlanks_append b.isBlanks₃]
    exact skipBlanks_cons_of_not hd _
  have hafter : after? "defineEmits".toList (word ++ rest) = some rest := after?_eq_some_iff.mpr rfl
  rw [hsplit]
  simp only [binding, findSome?_keyword b.isKeyword hprev, Option.bind_eq_bind, Option.bind_some, hblank, if_true,
    hname, b.name.name?_append (hend _), skipBlanks_append b.isBlanks₂, skipBlanks_cons_of_not hequals, expect?,
    hword, hafter, hrest, Bool.false_eq_true, if_false]

theorem readsWord_binding : ReadsWord binding := by
  rintro prev s ⟨x, rest⟩ h
  obtain ⟨-, -, b, rfl, -⟩ := exists_of_binding h
  refine ⟨b.text ++ word, ⟨rest, List.append_assoc _ _ _⟩, (List.suffix_append _ _).isInfix, ?_⟩
  intro c hc
  rcases List.mem_append.mp hc with hc | hc
  · have hsigns : ∀ c ∈ ']' :: quotes, isBlank c = false ∧ isNamePart c = false ∧ c ≠ '=' := by decide
    have hnot : c ∉ ']' :: quotes := by
      intro hmem
      obtain ⟨hblank, hpart, hequals⟩ := hsigns c hmem
      exact b.not_mem_text hblank hpart hequals hc
    rw [List.mem_cons, not_or] at hnot
    exact ⟨hnot.2, hnot.1⟩
  · exact not_mem_quotes_of_mem_word c hc

theorem misses_binding_text (n : QuotedName) (t : Text) : Misses binding n.text t := by
  intro u v hv hne prev
  rw [Option.eq_none_iff_forall_ne_some]
  rintro ⟨x, rest⟩ h
  obtain ⟨-, -, b, hb, -⟩ := exists_of_binding h
  have hkeyword : ∀ w ∈ ["const", "let", "var"], w.toList ≠ [] ∧ ∀ c ∈ w.toList, c ∉ quotes := by decide
  obtain ⟨hne', hquotes⟩ := hkeyword _ b.isKeyword
  rw [Binder.text, List.append_assoc, List.append_assoc] at hb
  obtain ⟨c, s, hs, hblank, -⟩ := QuotedName.inQuotes_of_word hne' hquotes ⟨u, hv.symm⟩ hne hb
  obtain ⟨d, g, hg⟩ := List.exists_cons_of_ne_nil b.separated
  rw [hg] at hs
  obtain ⟨rfl, -⟩ := List.cons.inj hs
  exact Bool.false_ne_true (hblank.symm.trans (b.isBlanks₁ _ (by simp [hg])))

end SfcContract.Event
