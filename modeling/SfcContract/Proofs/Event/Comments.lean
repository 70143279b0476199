import SfcContract.Proofs.Code.Comment
import SfcContract.Proofs.Event.Quoted

/-!
# Comments between event names

The reader of a list of names knows no comments. It passes over those that are quiet, and then it reads the
same names as without them; calls in a comment can only repeat a name of the list.
-/

namespace SfcContract.Event

open Code Text

variable {n : QuotedName} {names : List QuotedName} {gap body body' t u v : Text} {c : Char}

theorem finds_quotedName (h : Spells names body) (t : Text) :
    Finds quotedName body t (names.map fun n => n.name.text) := by
  have hgap {gap : Text} (hg : Quiet gap) (t : Text) : Finds quotedName gap t [] := by
    refine Finds.of_misses (Misses.of_first fun c hc prev s => ?_)
    simp [quotedName, between?, hg.unquoted c hc]
  induction h with
  | nil hg => exact hgap hg t
  | @cons gap rest n names hg _ _ ih =>
    have hname : Finds quotedName n.text (rest ++ t) [n.name.text] :=
      Finds.of_some (List.cons_ne_nil _ _) fun _ => n.between?_text _
    exact (hgap hg _).append (hname.append ih)

theorem listEnd?_cons_of_ne (hc : c ≠ ']') (t : Text) : listEnd? (c :: t) = none := by
  simp [listEnd?, expect?, hc]

def listEnd : Recognizer Unit := fun _ t => (listEnd? t).map fun rest => ((), rest)

/-- A quiet text ends no list before a name or the end of the list. -/
theorem Quiet.misses_listEnd {d : Char} (hg : Quiet gap) (hd : d ∈ quotes ∨ d = ']') (t : Text) :
    Misses listEnd gap (d :: t) := by
  rintro u v hv hne -
  have hhere : listEnd? v = none := upTo?_eq_none_iff.mp hg.unended u v hv
  rw [listEnd, Option.map_eq_none_iff]
  obtain ⟨c, v, rfl⟩ := List.exists_cons_of_ne_nil hne
  by_cases hc : c = ']'
  · subst hc
    have hd' : isBlank d = false ∧ d ≠ ')' := by
      rcases hd with hd | rfl
      · have hquotes : ∀ d ∈ quotes, isBlank d = false ∧ d ≠ ')' := by decide
        exact hquotes d hd
      · decide
    have hnone : expect? ')' (skipBlanks v) = none := hhere
    have hend : listEnd? (']' :: v ++ d :: t) = expect? ')' (skipBlanks (v ++ d :: t)) := rfl
    rw [hend, expect?_skipBlanks_append_cons hd'.1 hd'.2, hnone, Option.map_none]
  · exact listEnd?_cons_of_ne hc _

theorem QuotedName.bracket_not_mem (n : QuotedName) : ']' ∉ n.text := by
  have hquote : ']' ≠ n.quote := by
    intro he
    have hnot : ']' ∉ quotes := by decide
    exact hnot (he ▸ n.isQuote)
  simp [text, hquote, n.name.not_mem (by decide : isEventChar ']' = false)]

theorem misses_listEnd (h : Spells names body) (t : Text) : Misses listEnd body (']' :: t) := by
  induction h with
  | nil hg => exact hg.misses_listEnd (.inr rfl) t
  | @cons gap rest n names hg _ _ ih =>
    refine Misses.append (hg.misses_listEnd (.inl n.isQuote) _) (Misses.append (Misses.of_first ?_) ih)
    intro c hc prev s
    have hne : c ≠ ']' := by
      rintro rfl
      exact n.bracket_not_mem hc
    rw [listEnd, listEnd?_cons_of_ne hne, Option.map_none]

theorem upTo?_listEnd? (h : Spells names body) (after : Text) :
    upTo? listEnd? (body ++ ']' :: ')' :: after) = some (body, after) := by
  have hend : listEnd? (']' :: ')' :: after) = some after := rfl
  refine upTo?_append_of_some ?_ hend
  intro u v hv hne
  exact Option.map_eq_none_iff.mp (misses_listEnd h _ u v hv hne none)

/-- The last quote of a text is not the first sign of an argument, so each argument that opens is closed. -/
def IsSettled (t : Text) : Prop :=
  (skipBlanks ((t.reverse.dropWhile (!quotes.contains ·)).drop 1)).head? ≠ some '('

instance (t : Text) : Decidable (IsSettled t) := inferInstanceAs (Decidable (_ ≠ _))

section Settled

variable {a name : Text}

theorem IsSettled.exists_quote {q : Char} (h : IsSettled (a ++ '(' :: (gap ++ q :: t))) (hg : IsBlanks gap)
    (hq : q ∈ quotes) : ∃ c ∈ t, c ∈ quotes := by
  by_contra hnone
  have hunquoted : ∀ c ∈ t.reverse, (!quotes.contains c) = true := by
    intro c hc
    simpa using fun hmem => hnone ⟨c, List.mem_reverse.mp hc, hmem⟩
  have hreverse : (a ++ '(' :: (gap ++ q :: t)).reverse = t.reverse ++ q :: (gap.reverse ++ '(' :: a.reverse) := by
    simp
  have hblanks : IsBlanks gap.reverse := fun c hc => hg c (List.mem_reverse.mp hc)
  refine h ?_
  rw [hreverse, List.dropWhile_append_of_pos hunquoted, List.dropWhile_cons_of_neg (by simpa using hq), List.drop_one,
    List.tail_cons, skipBlanks_append hblanks, skipBlanks_cons_of_not (by decide), List.head?_cons]

theorem IsSettled.append (h : IsSettled a) (ht : ∀ c ∈ t, c ∉ quotes) : IsSettled (a ++ t) := by
  have hunquoted : ∀ c ∈ t.reverse, (!quotes.contains c) = true := by
    intro c hc
    simpa using ht c (List.mem_reverse.mp hc)
  rwa [IsSettled, List.reverse_append, List.dropWhile_append_of_pos hunquoted]

/-- In a settled text an argument ends before a bracket that follows the text. -/
theorem nameArgument?_append (h : IsSettled (a ++ t)) (rest : Text) :
    nameArgument? (t ++ '[' :: rest) = (nameArgument? t).map fun hit => (hit.1, hit.2 ++ '[' :: rest) := by
  have hbracket : isBlank '[' = false := by decide
  have hparen : '[' ≠ '(' := by decide
  simp only [nameArgument?, Option.bind_eq_bind, expect?_skipBlanks_append_cons hbracket hparen]
  cases hopen : expect? '(' (skipBlanks t) with
  | none => rfl
  | some s =>
    simp only [Option.map_some, Option.bind_some, skipBlanks_append_cons hbracket]
    obtain ⟨gap, -, ht⟩ := exists_blanks_append t
    obtain ⟨gap', hgap', hs⟩ := exists_blanks_append s
    cases hquote : skipBlanks s with
    | nil => rfl
    | cons q w =>
      rw [List.cons_append]
      by_cases hq : q ∈ quotes
      · rw [ht, expect?_eq_some_iff.mp hopen, hs, hquote, ← List.append_assoc] at h
        exact between?_append_of_mem (h.exists_quote hgap' hq) _
      · rw [between?_cons_of_not_mem hq, between?_cons_of_not_mem hq, Option.map_none]

theorem callOf_append_bracket (hn : ∀ c ∈ name, isNamePart c = true) (h : IsSettled (a ++ t)) (rest : Text)
    (prev : Option Char) : callOf name prev (t ++ '[' :: rest) =
      (callOf name prev t).map fun hit => (hit.1, hit.2 ++ '[' :: rest) := by
  have hhead : ∀ c ∈ ('[' :: rest).head?, c ∉ name := by
    rintro c hc hmem
    obtain rfl := Option.some.inj hc
    exact absurd (hn _ hmem) (by decide)
  rw [callOf, callOf, after?_append_of_head hhead]
  cases hafter : after? name t with
  | none => rfl
  | some s =>
    rw [after?_eq_some_iff.mp hafter, ← List.append_assoc] at h
    exact nameArgument?_append h rest

theorem readsWithin_callOf (hn : ∀ c ∈ name, isNamePart c = true) (h : IsSettled a) (rest : Text) :
    ReadsWithin (callOf name) a ('[' :: rest) := by
  rintro b u rfl - prev
  exact callOf_append_bracket hn h rest prev

theorem readsWithin_boundCall (b : Identifier) (h : IsSettled a) (rest : Text) :
    ReadsWithin (boundCall b.text) a ('[' :: rest) := by
  rintro d u rfl hu prev
  obtain ⟨c, u, rfl⟩ := List.exists_cons_of_ne_nil hu
  have hhere : (after? b.text (c :: (u ++ '[' :: rest))).bind nameArgument? =
      ((after? b.text (c :: u)).bind nameArgument?).map fun hit => (hit.1, hit.2 ++ '[' :: rest) :=
    callOf_append_bracket b.isNamePart_of_mem h rest none
  have hnext : (after? b.text (u ++ '[' :: rest)).bind nameArgument? =
      ((after? b.text u).bind nameArgument?).map fun hit => (hit.1, hit.2 ++ '[' :: rest) :=
    callOf_append_bracket b.isNamePart_of_mem (a := d ++ [c]) (by simpa using h) rest none
  simp only [boundCall, List.cons_append, hhere, hnext]
  cases prev <;> cases (after? b.text (c :: u)).bind nameArgument? <;> split_ifs <;> rfl

end Settled

/-- The only word of a declaration in front of a list is its own, and no argument is open there. -/
structure Leads (before : Text) : Prop where
  boundary : before.getLast?.any isWord = false
  settled : IsSettled before
  places : Text.places (literally word) (before ++ word) = [before.length]

/-- A list up to its bracket. -/
def opening (before : Text) : Text := before ++ (word ++ ['('])

section Leads

variable {before after : Text}

theorem Leads.isSettled_opening (h : Leads before) : IsSettled (opening before) := h.settled.append (by decide)

/-- The word stands nowhere else, and there it is followed by nothing. -/
theorem Leads.eq_nil (h : Leads before) {a b : Text} (hb : before ++ word = a ++ (word ++ b)) : b = [] := by
  have hne : word ++ b ≠ [] := List.append_ne_nil_of_left_ne_nil (by decide) b
  have hmem : a.length ∈ Text.places (literally word) (a ++ (word ++ b)) := by
    refine (mem_places hne).mpr ?_
    rw [literally, after?_eq_some_iff.mpr rfl]
    rfl
  rw [← hb, h.places, List.mem_singleton] at hmem
  have hlengths := congrArg List.length hb
  simp only [List.length_append] at hlengths
  exact List.length_eq_zero_iff.mp (by omega)

theorem Leads.misses {α : Type} {r : Recognizer α} (h : Leads before)
    (hr : ∀ prev s x, r prev s = some x → ∃ rest, s = word ++ rest) (t : Text) :
    Misses r before (word ++ '(' :: t) := by
  intro a u hu hne prev
  rw [Option.eq_none_iff_forall_ne_some]
  intro x hread
  obtain ⟨rest, hs⟩ := hr prev _ x hread
  obtain ⟨b, hb⟩ : word <+: u ++ word := by
    refine List.prefix_of_prefix_length_le ⟨rest, hs.symm⟩ ⟨'(' :: t, List.append_assoc u word _⟩ ?_
    simp
  have hnil : b = [] := h.eq_nil (a := a) (by rw [hu, List.append_assoc, hb])
  have hlengths := congrArg List.length hb
  simp only [hnil, List.length_append, List.length_nil] at hlengths
  exact hne (List.length_eq_zero_iff.mp (by omega))

/-- A binding in front of the list is read in the same way, whatever the list holds. -/
theorem Leads.binding_congr (h : Leads before) (hu : u <:+ before) {prev : Option Char} {x rest t : Text}
    (hread : binding prev (u ++ (word ++ '(' :: t)) = some (x, rest)) (t' : Text) :
    binding prev (u ++ (word ++ '(' :: t')) = some (x, '(' :: t') := by
  obtain ⟨a, rfl⟩ := hu
  obtain ⟨hprev, -, b, hb, rfl⟩ := exists_of_binding hread
  have hbinder : '(' ∉ b.text ++ word :=
    List.not_mem_append (b.not_mem_text (by decide) (by decide) (by decide)) (by decide)
  -- The word of the binding is the one before the parenthesis: there is no other.
  obtain rfl : u = b.text := by
    have hcut : (u ++ word) ++ '(' :: t = (b.text ++ word) ++ rest := by simpa using hb
    rcases List.append_eq_append_iff.mp hcut with ⟨s, hs, hrest⟩ | ⟨s, hs, -⟩
    · cases s with
      | nil =>
        rw [List.append_nil] at hs
        exact (List.append_cancel_right hs).symm
      | cons c s =>
        obtain ⟨rfl, -⟩ := List.cons.inj hrest
        exact absurd (by simp [hs]) hbinder
    · obtain rfl : s = [] := h.eq_nil (a := a ++ b.text) (by simp [hs])
      rw [List.append_nil] at hs
      exact List.append_cancel_right hs
  exact binding_text b hprev rfl

theorem misses_binding_of_head {a : Text} (ha : ∀ c ∈ a, ∀ w ∈ ["const", "let", "var"], w.toList.head? ≠ some c)
    (t : Text) : Misses binding a t := by
  refine Misses.of_first fun c hc prev s => ?_
  rw [Option.eq_none_iff_forall_ne_some]
  rintro ⟨x, rest⟩ hread
  obtain ⟨-, -, b, hb, -⟩ := exists_of_binding hread
  have hne : ∀ w ∈ ["const", "let", "var"], w.toList ≠ [] := by decide
  obtain ⟨d, r, hd⟩ := List.exists_cons_of_ne_nil (hne _ b.isKeyword)
  rw [Binder.text, hd] at hb
  obtain ⟨rfl, -⟩ := List.cons.inj hb
  exact ha _ hc _ b.isKeyword (by rw [hd, List.head?_cons])

theorem Leads.find?_binding (h : Leads before) {t t' : Text}
    (ht : (find? binding (some '(') t).map Prod.fst = (find? binding (some '(') t').map Prod.fst)
    (hu : u <:+ before) (prev : Option Char) :
    (find? binding prev (u ++ (word ++ '(' :: t))).map Prod.fst =
      (find? binding prev (u ++ (word ++ '(' :: t'))).map Prod.fst := by
  have hword (t : Text) (prev : Option Char) :
      find? binding prev (word ++ '(' :: t) = find? binding (some '(') t := by
    have hsplit : word ++ '(' :: t = (word ++ ['(']) ++ t := by simp
    rw [hsplit, find?_append_of_misses (misses_binding_of_head (by decide) t)]
    simp
  induction u generalizing prev with
  | nil => simpa [hword] using ht
  | cons c u ih =>
    have hrest := ih ((List.suffix_cons c u).trans hu) (some c)
    cases hread : binding prev (c :: u ++ (word ++ '(' :: t)) with
    | some hit =>
      obtain ⟨x, rest⟩ := hit
      have hread' := h.binding_congr hu hread t'
      simp only [List.cons_append] at hread hread' ⊢
      simp only [find?, hread, hread', Option.map_some]
    | none =>
      have hread' : binding prev (c :: u ++ (word ++ '(' :: t')) = none := by
        rw [Option.eq_none_iff_forall_ne_some]
        rintro ⟨x, rest⟩ hsome
        exact Option.some_ne_none _ ((h.binding_congr hu hsome t).symm.trans hread)
      simp only [List.cons_append] at hread hread' ⊢
      simpa only [find?, hread, hread'] using hrest

end Leads

/-- A list between what stands before and after it. -/
def listScript (before body after : Text) : Text :=
  before ++ (word ++ '(' :: '[' :: (body ++ ']' :: ')' :: after))

section Script

variable {before after : Text}

theorem Quiet.cons (hc : c ∉ ']' :: 'd' :: quotes) (h : Quiet gap) : Quiet (c :: gap) := by
  simp only [List.mem_cons, not_or] at hc
  refine ⟨?_, ?_, ?_⟩
  · intro d hd
    rcases List.mem_cons.mp hd with rfl | hd
    · simpa only [List.mem_cons] using hc.2.2
    · exact h.unquoted d hd
  · rw [upTo?, listEnd?_cons_of_ne hc.1]
    simp only [h.unended, Option.map_none]
  · rintro ⟨a, b, hab⟩
    cases a with
    | nil => exact hc.2.1 (List.cons.inj hab).1.symm
    | cons e a => exact h.wordless ⟨a, b, (List.cons.inj hab).2⟩

theorem Spells.cons_char (hc : c ∉ ']' :: 'd' :: quotes) (h : Spells names body) : Spells names (c :: body) := by
  cases h with
  | nil hg => exact .nil (hg.cons hc)
  | cons hg hhead hrest => exact .cons (hg.cons hc) hhead hrest

theorem inLists_listScript (hb : Leads before) (h : Spells names body) (after : Text) :
    inLists (listScript before body after) = names.map (fun n => n.name.text) ++
      (findFrom listDeclaration (some ')') 0 after).flatMap (findAll quotedName) := by
  have hmisses : Misses listDeclaration before (word ++ '(' :: ('[' :: (body ++ ']' :: ')' :: after))) := by
    refine hb.misses ?_ _
    intro prev s x hs
    obtain ⟨r, hr, -⟩ := Option.bind_eq_some_iff.mp hs
    exact ⟨r, (wordStart?_eq_some_iff.mp hr).2⟩
  have hread : listDeclaration before.getLast? (word ++ '(' :: '[' :: (body ++ ']' :: ')' :: after)) =
      some (body, after) := by
    have hstart : wordStart? "defineEmits".toList before.getLast?
        (word ++ '(' :: '[' :: (body ++ ']' :: ')' :: after)) =
          some ('(' :: '[' :: (body ++ ']' :: ')' :: after)) := wordStart?_eq_some_iff.mpr ⟨hb.boundary, rfl⟩
    have hparen : isBlank '(' = false := by decide
    have hopen : isBlank '[' = false := by decide
    simp only [listDeclaration, hstart, Option.bind_eq_bind, Option.bind_some, skipBlanks_cons_of_not hparen,
      skipBlanks_cons_of_not hopen, expect?, if_true, upTo?_listEnd? h after]
  have hsplit : word ++ '(' :: '[' :: (body ++ ']' :: ')' :: after) =
      (word ++ '(' :: '[' :: (body ++ [']', ')'])) ++ after := by simp
  have hlast : (word ++ '(' :: '[' :: (body ++ [']', ')'])).getLast? = some ')' := by
    have hend : word ++ '(' :: '[' :: (body ++ [']', ')']) = (word ++ '(' :: '[' :: (body ++ [']'])) ++ [')'] := by
      simp
    rw [hend, List.getLast?_concat]
  have hnames : findAll quotedName body = names.map fun n => n.name.text := (finds_quotedName h []).findAll_eq
  rw [inLists, findAll, listScript, findFrom_append_of_misses hmisses, Option.or_none]
  rw [hsplit] at hread ⊢
  rw [findFrom_append_of_some (by simp) hread, List.flatMap_cons, hnames, hlast, Option.some_or]

theorem getLast?_opening (before : Text) : (opening before).getLast? = some '(' := by
  rw [opening, ← List.append_assoc, List.getLast?_concat]

/-- What a search finds in a script apart from the list. -/
def around (r : Recognizer Text) (before after : Text) : List Text :=
  findAll r (opening before) ++ findFrom r (some ']') 0 (')' :: after)

/-- A search that reads nothing over the bracket of the list, and nothing but names of the list from there to its
end, finds what it finds around the list and perhaps some of the names again. -/
theorem repeats_listScript {r : Recognizer Text} {among : List Text}
    (hopening : ReadsWithin r (opening before) ('[' :: (body ++ ']' :: ')' :: after)))
    (hbody : FindsAmong r ('[' :: body) (']' :: ')' :: after) among)
    (hbracket : Misses r [']'] (')' :: after)) :
    Names.Repeats among (findAll r (listScript before body after)) (around r before after) := by
  obtain ⟨found, hfound, hsearch⟩ := hbody (some '(')
  refine ⟨findAll r (opening before), found, _, hfound, ?_, rfl⟩
  have hscript : listScript before body after = opening before ++ '[' :: (body ++ ']' :: ')' :: after) := by
    simp [listScript, opening]
  have hlist : '[' :: (body ++ ']' :: ')' :: after) = '[' :: body ++ ([']'] ++ ')' :: after) := rfl
  have hend : findFrom r (('[' :: body).getLast?.or (some '(')) 0 ([']'] ++ ')' :: after) =
      findFrom r (some ']') 0 (')' :: after) := findFrom_append_of_misses hbracket
  rw [hscript, findAll, hopening.findFrom_append (Nat.zero_le _), getLast?_opening, Option.some_or, hlist,
    List.append_assoc, ← hend]
  exact congrArg _ hsearch

theorem typeDeclaration_cons_of_ne (hc : c ≠ 'd') (prev : Option Char) (t : Text) :
    typeDeclaration prev (c :: t) = none := by
  rw [Option.eq_none_iff_forall_ne_some]
  intro x hx
  obtain ⟨r, hr⟩ := exists_of_typeDeclaration hx
  exact hc (List.cons.inj hr).1

theorem findAll_typeDeclaration_listScript (hb : Leads before) (h : Spells names body) (after : Text) :
    findAll typeDeclaration (listScript before body after) =
      findFrom typeDeclaration (some ']') 0 (')' :: after) := by
  have hsigns {a t : Text} (ha : 'd' ∉ a) : Misses typeDeclaration a t :=
    Misses.of_first fun c hc prev s => typeDeclaration_cons_of_ne (fun he => ha (he ▸ hc)) prev s
  -- The word is followed by a parenthesis, and no other character of the opening starts it.
  have hword (t : Text) : Misses typeDeclaration (word ++ ['(']) t := by
    have hsplit : word ++ ['('] = 'd' :: "efineEmits(".toList := rfl
    rw [hsplit]
    refine Misses.cons ?_ (hsigns (by decide))
    intro prev
    have hparen : isBlank '(' = false := by decide
    have hnone : expect? '<' (skipBlanks ('(' :: t)) = none := by
      rw [skipBlanks_cons_of_not hparen]
      rfl
    rw [Option.eq_none_iff_forall_ne_some]
    intro x hx
    simp only [typeDeclaration, Option.bind_eq_bind, Option.bind_eq_some_iff, wordStart?_eq_some_iff] at hx
    obtain ⟨r, ⟨-, hr⟩, s, hs, -⟩ := hx
    have hparens : word ++ '(' :: t = word ++ r := hr
    obtain rfl := List.append_cancel_left hparens
    exact Option.some_ne_none _ (hs.symm.trans hnone)
  have hbody : Misses typeDeclaration ('[' :: body) (']' :: ')' :: after) :=
    readsWord_typeDeclaration.misses_spells misses_typeDeclaration_text (h.cons_char (by decide)) _
  have hlist : Misses typeDeclaration ('[' :: body ++ [']']) (')' :: after) := Misses.append hbody (hsigns (by decide))
  have hall : Misses typeDeclaration (before ++ ((word ++ ['(']) ++ ('[' :: body ++ [']']))) (')' :: after) := by
    refine Misses.append ?_ (Misses.append (hword _) hlist)
    simpa using hb.misses (fun _ _ _ hs => exists_of_typeDeclaration hs) ('[' :: (body ++ ']' :: ')' :: after))
  have hscript : listScript before body after =
      before ++ ((word ++ ['(']) ++ ('[' :: body ++ [']'])) ++ ')' :: after := by simp [listScript]
  have hlast : (before ++ ((word ++ ['(']) ++ ('[' :: body ++ [']']))).getLast? = some ']' := by
    rw [← List.append_assoc, ← List.append_assoc, List.getLast?_concat]
  rw [findAll, hscript, findFrom_append_of_misses hall, hlast, Option.some_or]

theorem repeats_emitCall (hb : Leads before) (h : Spells names body) (after : Text) :
    Names.Repeats (names.map fun n => n.name.text) (findAll emitCall (listScript before body after))
      (around emitCall before after) := by
  refine repeats_listScript ?_ (findsAmong_emitCall (h.cons_char (by decide)) _) ?_
  · exact readsWithin_callOf isNamePart_of_mem_emit hb.isSettled_opening _
  · exact misses_callOf_signs isNamePart_of_mem_emit (by decide) (by decide)

theorem repeats_boundCall (hb : Leads before) (h : Spells names body) (b : Identifier) (after : Text) :
    Names.Repeats (names.map fun n => n.name.text) (findAll (boundCall b.text) (listScript before body after))
      (around (boundCall b.text) before after) := by
  refine repeats_listScript ?_ (findsAmong_boundCall b (h.cons_char (by decide)) _) ?_
  · exact readsWithin_boundCall b hb.isSettled_opening _
  · exact misses_boundCall (misses_callOf_signs b.isNamePart_of_mem b.text_ne_nil (by decide))
      (callOf_eq_none_of_head b.isNamePart_of_mem b.text_ne_nil (isNamePart_head (by decide) _))

theorem find?_binding_list (h : Spells names body) (after : Text) :
    find? binding (some '(') ('[' :: (body ++ ']' :: ')' :: after)) = find? binding (some ']') (')' :: after) := by
  have hbody : Misses binding ('[' :: body) ([']'] ++ ')' :: after) :=
    readsWord_binding.misses_spells misses_binding_text (h.cons_char (by decide)) _
  have hlist : Misses binding ('[' :: body ++ [']']) (')' :: after) :=
    Misses.append hbody (misses_binding_of_head (by decide) _)
  have hsplit : '[' :: (body ++ ']' :: ')' :: after) = ('[' :: body ++ [']']) ++ ')' :: after := by simp
  rw [hsplit, find?_append_of_misses hlist, List.getLast?_concat, Option.some_or]

/-- The variable that holds a list does not depend on what the list holds. -/
theorem findFirst?_binding_listScript (hb : Leads before) (h : Spells names body) (after : Text) :
    findFirst? binding (listScript before body after) = findFirst? binding (listScript before [] after) := by
  have hempty : Spells [] [] := .nil ⟨by simp, rfl, by decide⟩
  refine hb.find?_binding ?_ (List.suffix_refl before) none
  rw [find?_binding_list h, find?_binding_list hempty]

/-- What a component with a list declares apart from the list itself. -/
def elsewhere (plain before after : Text) : List Text :=
  (findFrom listDeclaration (some ')') 0 after).flatMap (findAll quotedName) ++
    (((findFrom typeDeclaration (some ']') 0 (')' :: after)).filterMap bracedBody?).flatMap fun body =>
      (splitTop [';', ',', '\n'] .brackets body).filterMap eventOfType?) ++
    around emitCall before after ++ findAll emitCall plain ++
    match findFirst? binding (listScript before [] after) with
    | none => []
    | some emitter => around (boundCall emitter) before after

/-- A list declares the names in its quotes, whatever quiet text stands between them. -/
theorem declared_listScript (hb : Leads before) (h : Spells names body) (markup plain after : Text) :
    declared { markup, plain, setup := listScript before body after } =
      Names.ofList (names.map (fun n => n.name.text) ++ elsewhere plain before after) := by
  have hcalled : Names.Repeats (names.map fun n => n.name.text) (inBoundCalls (listScript before body after))
      (match findFirst? binding (listScript before [] after) with
        | none => []
        | some emitter => around (boundCall emitter) before after) := by
    rw [inBoundCalls, findFirst?_binding_listScript hb h]
    cases hfirst : findFirst? binding (listScript before [] after) with
    | none => exact ⟨[], [], [], List.nil_subset _, rfl, rfl⟩
    | some emitter =>
      obtain ⟨p, s, rest, -, hread⟩ := findFirst?_eq_some hfirst
      obtain ⟨-, -, b, -, rfl⟩ := exists_of_binding hread
      exact repeats_boundCall hb h b.name after
  simp only [declared, inLists_listScript hb h, inTypes, findAll_typeDeclaration_listScript hb h, elsewhere]
  exact Names.ofList_append_two_of_repeats (repeats_emitCall hb h after) hcalled _ _ _

def remarkedText (e : Remarked QuotedName) : Text := e.remarks ++ e.item.text

theorem not_mem_of_isFiller (hg : IsFiller [','] gap) (hc : c ∈ gap) : c ∉ ']' :: 'd' :: quotes := by
  have hsigns : ∀ c ∈ ']' :: 'd' :: quotes, isBlank c = false ∧ c ∉ [','] := by decide
  intro hmem
  obtain ⟨hblank, hcomma⟩ := hsigns c hmem
  rcases hg c hc with hb | hs
  · exact Bool.false_ne_true (hblank.symm.trans hb)
  · exact hcomma hs

theorem quiet_filler_append (hg : IsFiller [','] gap) (h : Quiet t) : Quiet (gap ++ t) := by
  induction gap with
  | nil => exact h
  | cons c gap ih =>
    exact (ih fun d hd => hg d (List.mem_cons_of_mem _ hd)).cons (not_mem_of_isFiller hg List.mem_cons_self)

theorem spells_of_layout {es : List (Remarked QuotedName)} (hq : ∀ e ∈ es, Quiet e.remarks)
    (h : Layout [','] (es.map remarkedText) body) : Spells (es.map (·.item)) body := by
  have hempty : Quiet [] := ⟨by simp, rfl, by decide⟩
  generalize he : es.map remarkedText = entries at h
  induction h generalizing es with
  | @filler gap hg =>
    obtain rfl := List.map_eq_nil_iff.mp he
    rw [← List.append_nil gap]
    exact .nil (quiet_filler_append hg hempty)
  | @last gap e hg =>
    obtain ⟨e, rest, rfl, rfl, hrest⟩ := List.map_eq_cons_iff.mp he
    obtain rfl := List.map_eq_nil_iff.mp hrest
    have hlead := quiet_filler_append hg (hq e List.mem_cons_self)
    have hspells : Spells [e.item] (gap ++ e.remarks ++ (e.item.text ++ [])) := .cons hlead (by simp) (.nil hempty)
    simpa [remarkedText] using hspells
  | @more gap e c es body hg hc _ ih =>
    obtain ⟨e, rest, rfl, rfl, hrest⟩ := List.map_eq_cons_iff.mp he
    obtain rfl := List.mem_singleton.mp hc
    have hlead := quiet_filler_append hg (hq e List.mem_cons_self)
    have hnext := ih (fun e he => hq e (List.mem_cons_of_mem _ he)) hrest
    have hspells : Spells (e.item :: rest.map (·.item)) (gap ++ e.remarks ++ (e.item.text ++ ',' :: body)) :=
      .cons hlead (by simp; decide) (hnext.cons_char (by decide))
    simpa [remarkedText] using hspells

/-- Quiet remarks before the names of a list change nothing. -/
theorem declared_remarked {es : List (Remarked QuotedName)} (hb : Leads before)
    (hq : ∀ e ∈ es, Quiet e.remarks) (h : Layout [','] (es.map remarkedText) body)
    (h' : Layout [','] (es.map fun e => e.item.text) body') (markup plain after : Text) :
    declared { markup, plain, setup := listScript before body after } =
      declared { markup, plain, setup := listScript before body' after } := by
  have hempty : Quiet [] := ⟨by simp, rfl, by decide⟩
  let bare : List (Remarked QuotedName) := es.map fun e => ⟨[], .nil, e.item⟩
  have hbare : bare.map remarkedText = es.map fun e => e.item.text := by simp [bare, remarkedText]
  have hitems : bare.map (·.item) = es.map (·.item) := by simp [bare]
  have hquiet : ∀ e ∈ bare, Quiet e.remarks := by
    intro e he
    obtain ⟨e, -, rfl⟩ := List.mem_map.mp he
    exact hempty
  rw [declared_listScript hb (spells_of_layout hq h),
    declared_listScript hb (spells_of_layout hquiet (hbare ▸ h')), hitems]

end Script

end SfcContract.Event
