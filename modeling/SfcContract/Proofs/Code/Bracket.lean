import SfcContract.Proofs.Code.Token
import SfcContract.Proofs.Text.Part

/-!
# Brackets and their partners

Around a text that is well formed, brackets find one another. In any other text a bracket finds the first one
among the tokens behind it at which as many brackets are closed as are opened, of whatever kind; if there is
none, nothing is found.
-/

namespace SfcContract.Code

variable {c o : Char} {n : Nat} {t r : Text} {token : Token} {tokens before : List Token}

def partners : List (Char × Char) := [('{', '}'), ('(', ')'), ('[', ']')]

/-- A text in which literals and comments are closed and every bracket has a partner of its kind. -/
inductive Nested : Text → Prop
  | nil : Nested []
  | ordinary {c : Char} {t : Text} : isOpening c = false → isClosing c = false → c ∉ quotes →
      (c = '/' → CompletesNoComment t) → Nested t → Nested (c :: t)
  | literal {q : Char} {body t : Text} : q ∈ quotes → Escaped q body → Nested t → Nested (q :: body ++ q :: t)
  | comment {t : Text} (comment : Comment) : Nested t → Nested (comment.text ++ t)
  | brackets {opening closing : Char} {inner t : Text} : (opening, closing) ∈ partners → Nested inner → Nested t →
      Nested (opening :: inner ++ closing :: t)

theorem isBracket_of_mem_partners {closing : Char} (h : (o, closing) ∈ partners) :
    isOpening o = true ∧ isClosing closing = true :=
  (by decide : ∀ p ∈ partners, isOpening p.1 = true ∧ isClosing p.2 = true) _ h

theorem Nested.passes (h : Nested t) : Passes .ignore [] t := by
  induction h with
  | nil => exact Passes.nil
  | ordinary ho hc hq hn _ ih => exact Passes.ordinary_cons ho hc hq hn List.not_mem_nil ih
  | literal hq hbody _ ih => exact Passes.literal_append hq hbody ih
  | comment c _ ih => exact c.passes_append List.not_mem_nil ih
  | brackets hkind _ _ ihi iht =>
    obtain ⟨ho, hc⟩ := isBracket_of_mem_partners hkind
    exact Passes.bracketed_append ⟨ho, List.not_mem_nil⟩ ⟨hc, List.not_mem_nil⟩ ihi iht

/-- A closing bracket stands behind `before`, and with it as many brackets are closed as are opened, and `n`
more. -/
def ClosesBehind (n : Nat) (tokens before : List Token) : Prop :=
  ∃ c after, tokens = before ++ Token.code c :: after ∧ isClosing c = true ∧
    (before ++ [Token.code c]).countP Token.closes = (before ++ [Token.code c]).countP Token.opens + n

theorem closesBehind_nil_iff : ClosesBehind n (token :: tokens) [] ↔ token.closes = true ∧ n = 1 := by
  constructor
  · rintro ⟨c, after, he, hc, hcount⟩
    obtain ⟨rfl, -⟩ := List.cons.inj he
    have hopen : (Token.code c).opens = false := Token.opens_eq_false_of_closes hc
    have hclose : (Token.code c).closes = true := hc
    refine ⟨hclose, ?_⟩
    simp [hopen, hclose] at hcount
    omega
  · rintro ⟨hc, rfl⟩
    have hopen := Token.opens_eq_false_of_closes hc
    cases token with
    | hidden t => cases hc
    | code c => exact ⟨c, tokens, rfl, hc, by simp [hopen, hc]⟩

theorem closesBehind_cons_iff (hn : token.closes = true → 0 < n) :
    ClosesBehind n (token :: tokens) (token :: before) ↔
      ClosesBehind (if token.opens then n + 1 else if token.closes then n - 1 else n) tokens before := by
  refine exists_congr fun c => exists_congr fun after => ?_
  rw [List.cons_append, List.cons.injEq, eq_self_iff_true, true_and, List.cons_append, List.countP_cons,
    List.countP_cons]
  refine and_congr_right fun _ => and_congr_right fun _ => ?_
  cases hc : token.closes with
  | true =>
    have hpos := hn hc
    simp only [Token.opens_eq_false_of_closes hc, if_true, Bool.false_eq_true, if_false]
    omega
  | false =>
    cases ho : token.opens with
    | true =>
      simp only [Bool.false_eq_true, if_false, if_true]
      omega
    | false => simp

theorem eq_of_closesBehind_cons {token' : Token} (h : ClosesBehind n (token :: tokens) (token' :: before)) :
    token' = token := by
  obtain ⟨c, after, he, -⟩ := h
  exact (List.cons.inj he).1.symm

private theorem pos_next (hn : 0 < n) (hlast : ¬ (token.closes = true ∧ n = 1)) :
    0 < if token.opens then n + 1 else if token.closes then n - 1 else n := by
  split
  · omega
  · split
    · next hc =>
      have hne : n ≠ 1 := fun h => hlast ⟨hc, h⟩
      omega
    · exact hn

theorem beforePartner?_eq_some (hn : 0 < n) (h : beforePartner? n tokens = some before) :
    ClosesBehind n tokens before ∧ ∀ earlier, ClosesBehind n tokens earlier → before.length ≤ earlier.length := by
  induction tokens generalizing n before with
  | nil => cases h
  | cons token tokens ih =>
    rw [beforePartner?] at h
    split at h
    · next hlast =>
      obtain rfl := Option.some.inj h
      exact ⟨closesBehind_nil_iff.mpr hlast, fun _ _ => Nat.zero_le _⟩
    · next hlast =>
      obtain ⟨rest, hrest, rfl⟩ := Option.map_eq_some_iff.mp h
      have hpos := pos_next hn hlast
      obtain ⟨hcloses, hfirst⟩ := ih hpos hrest
      refine ⟨(closesBehind_cons_iff fun _ => hn).mpr hcloses, ?_⟩
      intro earlier hearlier
      cases earlier with
      | nil => exact absurd (closesBehind_nil_iff.mp hearlier) hlast
      | cons token' earlier =>
        obtain rfl := eq_of_closesBehind_cons hearlier
        exact Nat.succ_le_succ (hfirst earlier ((closesBehind_cons_iff fun _ => hn).mp hearlier))

theorem beforePartner?_eq_none (hn : 0 < n) (h : beforePartner? n tokens = none) (before : List Token) :
    ¬ ClosesBehind n tokens before := by
  induction tokens generalizing n before with
  | nil =>
    rintro ⟨c, after, he, -⟩
    exact absurd (List.append_eq_nil_iff.mp he.symm).2 (List.cons_ne_nil _ _)
  | cons token tokens ih =>
    rw [beforePartner?] at h
    split at h
    · cases h
    · next hlast =>
      intro hcloses
      cases before with
      | nil => exact hlast (closesBehind_nil_iff.mp hcloses)
      | cons token' before =>
        obtain rfl := eq_of_closesBehind_cons hcloses
        have hrest := (closesBehind_cons_iff fun _ => hn).mp hcloses
        exact ih (pos_next hn hlast) (Option.map_eq_none_iff.mp h) before hrest

theorem Lexed.exists_of_opening (h : Lexed tokens (o :: r)) (ho : isOpening o = true) :
    ∃ rest, tokens = .code o :: rest ∧ Lexed rest r := by
  have hquote : o ∉ quotes := by rcases eq_of_isOpening ho with rfl | rfl | rfl <;> decide
  have hslash : o ≠ '/' := by rcases eq_of_isOpening ho with rfl | rfl | rfl <;> decide
  generalize ht : o :: r = t at h
  cases h with
  | nil => cases ht
  | code _ _ hrest =>
    obtain ⟨rfl, rfl⟩ := List.cons.inj ht
    exact ⟨_, rfl, hrest⟩
  | literal hq _ _ =>
    obtain ⟨rfl, -⟩ := List.cons.inj ht
    exact absurd hq hquote
  | comment c _ =>
    obtain ⟨u, hu⟩ := c.exists_text
    rw [hu] at ht
    exact absurd (List.cons.inj ht).1 hslash
  | unclosed h =>
    cases h with
    | literal hq _ =>
      obtain ⟨rfl, -⟩ := List.cons.inj ht
      exact absurd hq hquote
    | escape hq _ =>
      obtain ⟨rfl, -⟩ := List.cons.inj ht
      exact absurd hq hquote
    | line _ => exact absurd (List.cons.inj ht).1 hslash
    | block _ => exact absurd (List.cons.inj ht).1 hslash

/-- The partner of a bracket stands behind the tokens in front of it. -/
theorem matchingClose?_eq (ho : isOpening o = true) (h : Lexed tokens r) :
    matchingClose? (o :: r) = (beforePartner? 1 tokens).map fun before => (Token.textOf before).length + 1 := by
  rw [matchingClose?_opening_cons ho, h.findIdx?_closing rfl Nat.one_pos, Option.map_map]
  rfl

theorem matchingCloseAt?_append (p t : Text) : matchingCloseAt? (p ++ t) (Text.byteSize p) =
    (matchingClose? t).map fun n => Text.byteSize p + Text.byteSize (t.take n) := by
  have hdrop : Text.dropBytes? (Text.byteSize p) (p ++ t) = some t := Text.dropBytes?_eq_some_iff.mpr ⟨p, rfl, rfl⟩
  rw [matchingCloseAt?, hdrop]
  cases h : matchingClose? t <;> simp [h]

/-- Around a well-formed text brackets are partners, whatever stands before and behind them. -/
theorem matchingCloseAt?_nested (p s : Text) {opening closing : Char} (hkind : (opening, closing) ∈ partners)
    (ht : Nested t) :
    matchingCloseAt? (p ++ (opening :: t ++ closing :: s)) (Text.byteSize p) =
        some (Text.byteSize p + 1 + Text.byteSize t) ∧
      bracedBodyAt? (p ++ (opening :: t ++ closing :: s)) (Text.byteSize p) = some t := by
  obtain ⟨ho, hc⟩ := isBracket_of_mem_partners hkind
  have hsize : opening.utf8Size = 1 := (by decide : ∀ p ∈ partners, p.1.utf8Size = 1) _ hkind
  have hdrop : Text.dropBytes? (Text.byteSize p) (p ++ (opening :: t ++ closing :: s)) =
      some (opening :: t ++ closing :: s) := Text.dropBytes?_eq_some_iff.mpr ⟨p, rfl, rfl⟩
  constructor
  · rw [matchingCloseAt?_append, matchingClose?_of_passes ho hc ht.passes]
    simp [Text.byteSize, hsize, Nat.add_assoc]
  · rw [bracedBodyAt?, hdrop, Option.bind_some, bracedBody?_of_passes ho hc ht.passes]

/-- The first closing bracket of a text with which as many brackets are closed as are opened. -/
structure IsFirstClosing (tokens before : List Token) : Prop where
  closes : ClosesBehind 0 tokens before
  first : ∀ earlier, ClosesBehind 0 tokens earlier → before.length ≤ earlier.length

/-- In front of an opening bracket nothing is open, and behind it the bracket. -/
theorem closesBehind_opening_iff (ho : isOpening o = true) : ClosesBehind 0 (.code o :: tokens) before ↔
    ∃ rest, before = .code o :: rest ∧ ClosesBehind 1 tokens rest := by
  have hopens : (Token.code o).opens = true := ho
  have hcloses : (Token.code o).closes = false := by
    rw [Bool.eq_false_iff]
    intro hc
    rw [Token.opens_eq_false_of_closes hc] at hopens
    cases hopens
  have hnext (rest : List Token) : ClosesBehind 0 (.code o :: tokens) (.code o :: rest) ↔
      ClosesBehind 1 tokens rest := by
    rw [closesBehind_cons_iff (by simp [hcloses]), hopens, if_pos rfl]
  constructor
  · intro h
    cases before with
    | nil => simp [closesBehind_nil_iff] at h
    | cons token rest =>
      obtain rfl := eq_of_closesBehind_cons h
      exact ⟨rest, rfl, (hnext rest).mp h⟩
  · rintro ⟨rest, rfl, h⟩
    exact (hnext rest).mpr h

theorem matchingClose?_lexed (ho : isOpening o = true) (h : Lexed tokens (o :: r)) :
    (∀ k, matchingClose? (o :: r) = some k → ∃ before, k = (Token.textOf before).length ∧
      IsFirstClosing tokens before) ∧
    (matchingClose? (o :: r) = none → ∀ before, ¬ ClosesBehind 0 tokens before) := by
  obtain ⟨tokens, rfl, hr⟩ := h.exists_of_opening ho
  rw [matchingClose?_eq ho hr]
  constructor
  · intro k hk
    obtain ⟨before, hbefore, rfl⟩ := Option.map_eq_some_iff.mp hk
    obtain ⟨hcloses, hfirst⟩ := beforePartner?_eq_some Nat.one_pos hbefore
    refine ⟨.code o :: before, rfl, (closesBehind_opening_iff ho).mpr ⟨before, rfl, hcloses⟩, ?_⟩
    intro earlier hearlier
    obtain ⟨rest, rfl, hrest⟩ := (closesBehind_opening_iff ho).mp hearlier
    exact Nat.succ_le_succ (hfirst rest hrest)
  · intro hnone before hcloses
    obtain ⟨rest, rfl, hrest⟩ := (closesBehind_opening_iff ho).mp hcloses
    exact beforePartner?_eq_none Nat.one_pos (Option.map_eq_none_iff.mp hnone) rest hrest

theorem IsFirstClosing.unique {before' : List Token} (h : IsFirstClosing tokens before)
    (h' : IsFirstClosing tokens before') : before = before' := by
  obtain ⟨_, _, he, -⟩ := h.closes
  obtain ⟨_, _, he', -⟩ := h'.closes
  have hlength : before.length = before'.length := Nat.le_antisymm (h.first _ h'.closes) (h'.first _ h.closes)
  exact List.append_inj_left (he.symm.trans he') hlength

theorem IsFirstClosing.matchingClose?_eq (h : IsFirstClosing tokens before) (hl : Lexed tokens (o :: r))
    (ho : isOpening o = true) : matchingClose? (o :: r) = some (Token.textOf before).length := by
  obtain ⟨hsome, hnone⟩ := matchingClose?_lexed ho hl
  cases hfound : matchingClose? (o :: r) with
  | none => exact absurd h.closes (hnone hfound before)
  | some k =>
    obtain ⟨before', rfl, h'⟩ := hsome k hfound
    rw [h.unique h']

theorem IsFirstClosing.exists_body (h : IsFirstClosing tokens before) (hl : Lexed tokens (o :: r))
    (ho : isOpening o = true) : ∃ body, Token.textOf before = o :: body := by
  obtain ⟨rest, rfl, -⟩ := hl.exists_of_opening ho
  obtain ⟨inner, rfl, -⟩ := (closesBehind_opening_iff ho).mp h.closes
  exact ⟨Token.textOf inner, rfl⟩

/-- In any text, what an opening bracket finds stands behind the tokens in front of its partner. -/
theorem matchingCloseAt?_lexed (p : Text) (ho : isOpening o = true) (h : Lexed tokens (o :: r)) :
    (∀ place, matchingCloseAt? (p ++ o :: r) (Text.byteSize p) = some place → ∃ before c rest,
      IsFirstClosing tokens before ∧ place = Text.byteSize p + Text.byteSize (Token.textOf before) ∧
      Text.dropBytes? place (p ++ o :: r) = some (c :: rest) ∧ isClosing c = true) ∧
    (matchingCloseAt? (p ++ o :: r) (Text.byteSize p) = none → ∀ before, ¬ ClosesBehind 0 tokens before) := by
  obtain ⟨hfound, hnone⟩ := matchingClose?_lexed ho h
  rw [matchingCloseAt?_append]
  refine ⟨?_, fun hfail => hnone (Option.map_eq_none_iff.mp hfail)⟩
  intro place hplace
  obtain ⟨k, hk, rfl⟩ := Option.map_eq_some_iff.mp hplace
  obtain ⟨before, rfl, hfirst⟩ := hfound k hk
  obtain ⟨c, after, rfl, hc, -⟩ := hfirst.closes
  have htext := h.textOf_eq
  rw [Token.textOf, List.flatMap_append, List.flatMap_cons, ← Token.textOf, ← Token.textOf] at htext
  have htake : (o :: r).take (Token.textOf before).length = Token.textOf before := by
    rw [← htext, List.take_left]
  refine ⟨before, c, Token.textOf after, hfirst, by rw [htake], ?_, hc⟩
  rw [htake, Text.dropBytes?_eq_some_iff]
  refine ⟨p ++ Token.textOf before, ?_, Text.byteSize_append _ _⟩
  rw [← htext, List.append_assoc]
  rfl

/-- Brackets around a well-formed text find one another, and the text is the body between them. Wherever an
opening bracket stands in whatever text, what is found for it is a closing bracket outside the literals and
comments behind it, the first one with which as many brackets are closed as are opened; and it is found if there
is one. -/
theorem matchingCloseAt?_isPartner :
    (∀ (p s t : Text) (opening closing : Char), (opening, closing) ∈ partners → Nested t →
      matchingCloseAt? (p ++ (opening :: t ++ closing :: s)) (Text.byteSize p) =
          some (Text.byteSize p + 1 + Text.byteSize t) ∧
        bracedBodyAt? (p ++ (opening :: t ++ closing :: s)) (Text.byteSize p) = some t) ∧
    ∀ (text r : Text) (offset : Nat) (o : Char), Text.dropBytes? offset text = some (o :: r) → isOpening o = true →
      (∃ tokens, Lexed tokens (o :: r)) ∧ ∀ tokens, Lexed tokens (o :: r) →
        (∀ place, matchingCloseAt? text offset = some place → ∃ before c rest, IsFirstClosing tokens before ∧
          place = offset + Text.byteSize (Token.textOf before) ∧
          Text.dropBytes? place text = some (c :: rest) ∧ isClosing c = true) ∧
        (matchingCloseAt? text offset = none → ∀ before, ¬ ClosesBehind 0 tokens before) := by
  constructor
  · intro p s t opening closing hkind ht
    exact matchingCloseAt?_nested p s hkind ht
  · intro text r offset o hdrop ho
    obtain ⟨p, rfl, rfl⟩ := Text.dropBytes?_eq_some_iff.mp hdrop
    exact ⟨exists_lexed _, fun tokens htokens => matchingCloseAt?_lexed p ho htokens⟩

/-- Brackets in a literal or a comment count for nothing, and a bracket of the wrong kind counts as any other. -/
theorem matchingCloseAt?_isPartner_call :
    matchingCloseAt? "é(['\\']']/*)*/);".toList 2 = some 15 ∧
      bracedBodyAt? "é(['\\']']/*)*/);".toList 2 = some "['\\']']/*)*/".toList ∧
      ∀ tokens, Lexed tokens "\x7b(a]')".toList → ∀ before, ¬ ClosesBehind 0 tokens before := by
  have hliteral : Nested "'\\']'".toList :=
    @Nested.literal '\x27' "\\']".toList [] (by decide) (.escape (.char (by decide) (by decide) .nil)) .nil
  have hcomment : Nested "/*)*/".toList := .comment (.block ")".toList (by decide)) .nil
  have hbody : Nested "['\\']']/*)*/".toList := .brackets (by decide) hliteral hcomment
  obtain ⟨hclose, hbraced⟩ := matchingCloseAt?_isPartner.1 "é".toList ";".toList _ '(' ')' (by decide) hbody
  refine ⟨hclose, hbraced, ?_⟩
  intro tokens htokens
  have hunclosed := (matchingCloseAt?_isPartner.2 "\x7b(a]')".toList _ 0 '{' rfl rfl).2 tokens htokens
  exact hunclosed.2 (by decide +kernel)

end SfcContract.Code
