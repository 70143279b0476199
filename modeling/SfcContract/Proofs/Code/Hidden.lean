import SfcContract.Proofs.Code.Bracket

/-!
# Brackets behind literals and comments

A partner is looked for from the first character of code on, and that need not be the first character. So literals
and block comments in front of a bracket are passed over. Nothing else is, not even a blank or a line comment, whose
line break is code.
-/

namespace SfcContract.Code

variable {s : State} {o : Char} {n : Nat} {a t : Text} {tokens : List Token}

/-- Literals and block comments, one after another. -/
inductive Hidden : Text → Prop
  | nil : Hidden []
  | literal {q : Char} {body t : Text} : q ∈ quotes → Escaped q body → Hidden t → Hidden (q :: body ++ q :: t)
  | comment {body t : Text} (unclosed : ¬ "*/".toList <:+: body) : Hidden t →
      Hidden ((Comment.block body unclosed).text ++ t)

def StartsHidden (t : Text) : Prop := (∃ q ∈ quotes, [q] <+: t) ∨ "/*".toList <+: t

theorem Hidden.eq_nil (h : Hidden a) {b : Text} (hb : ¬ StartsHidden (a ++ b)) : a = [] := by
  cases h with
  | nil => rfl
  | @literal q body t hq _ _ => exact absurd (.inl ⟨q, hq, List.prefix_append [q] _⟩) hb
  | comment _ _ =>
    refine absurd (.inr ?_) hb
    rw [Comment.text, List.append_assoc, List.append_assoc]
    exact List.prefix_append _ _

/-- A scan sees nothing of it. -/
theorem Hidden.marks_append (h : Hidden a) (hs : s.mode = .code) (b : Text) :
    marksFrom .ignore s (a ++ b) = a.map (fun c => ⟨c, none⟩) ++ marksFrom .ignore s b := by
  induction h generalizing s with
  | nil => rfl
  | @literal q body t hq hbody _ ih =>
    have htext : q :: body ++ q :: t ++ b = q :: body ++ q :: (t ++ b) := by simp
    have hrest := ih (s := { s with prev := q }) hs
    rw [htext, (hbody.literal_scan hq hs (t ++ b)).2, hrest, ((State.Alike.ignore s q).run b).2]
    simp
  | comment hbody _ ih =>
    rw [List.append_assoc, (Comment.block_text_scan .ignore hs hbody _).2, ih hs, List.map_append, List.append_assoc]

/-- What is hidden in front of a bracket makes no difference to what the bracket finds. -/
theorem matchingClose?_hidden_append (h : Hidden a) (b : Text) :
    matchingClose? (a ++ b) = (matchingClose? b).map (· + a.length) := by
  have hmarks : marks .ignore (a ++ b) = a.map (fun c => ⟨c, none⟩) ++ marks .ignore b := h.marks_append rfl b
  have hnone : ∀ m ∈ a.map (fun c => (⟨c, none⟩ : Mark)), m.depth.isNone = true := by simp
  simp only [matchingClose?, hmarks, List.dropWhile_append_of_pos hnone, List.takeWhile_append_of_pos hnone,
    List.length_append, List.length_map]
  cases (marks .ignore b).dropWhile (·.depth.isNone) with
  | nil => rfl
  | cons first rest =>
    simp only
    split
    · rw [Option.map_map]
      refine congrArg (Option.map · _) (funext fun n => ?_)
      simp only [Function.comp_apply]
      omega
    · rfl

theorem matchingClose?_eq_none {front rest : List Mark} {m : Mark} (he : marks .ignore t = front ++ m :: rest)
    (hfront : ∀ m ∈ front, m.depth = none) (hm : m.depth.isSome = true) (ho : isOpening m.char = false) :
    matchingClose? t = none := by
  have hnone : ∀ m ∈ front, m.depth.isNone = true := fun m hm => by simp [hfront m hm]
  have hsome : m.depth.isNone = false := by simpa [Option.isNone_iff_eq_none] using hm
  simp [matchingClose?, he, List.dropWhile_append_of_pos hnone, hsome, ho]

/-- Where something is found, nothing but literals and block comments stands in front of an opening bracket. -/
theorem Lexed.exists_hidden (h : Lexed tokens t) (hfound : matchingClose? t = some n) :
    ∃ skipped o r, t = skipped ++ o :: r ∧ Hidden skipped ∧ isOpening o = true := by
  induction h generalizing n with
  | nil => cases hfound
  | @code c t _ hq hn _ _ =>
    have hline : ¬ (c = '/' ∧ t.head? = some '/') := fun h => (hn h.1).1 h.2
    have hblock : ¬ (c = '/' ∧ t.head? = some '*') := fun h => (hn h.1).2 h.2
    have hcode : (({} : State).step .ignore c t.head?).2.isSome = true := by simp [State.step, hq, hline, hblock]
    refine ⟨[], c, t, rfl, .nil, ?_⟩
    by_contra ho
    have hmarks : marks .ignore (c :: t) = [] ++ ⟨c, _⟩ :: marksFrom .ignore _ t := rfl
    have hnone := matchingClose?_eq_none hmarks (by simp) hcode (by simpa using ho)
    rw [hfound] at hnone
    cases hnone
  | @literal q body t _ hq hbody _ ih =>
    have hthis : Hidden (q :: body ++ [q]) := .literal hq hbody .nil
    have htext : q :: body ++ q :: t = (q :: body ++ [q]) ++ t := by simp
    rw [htext, matchingClose?_hidden_append hthis] at hfound
    obtain ⟨k, hk, -⟩ := Option.map_eq_some_iff.mp hfound
    obtain ⟨skipped, o, r, rfl, hskipped, ho⟩ := ih hk
    exact ⟨q :: body ++ q :: skipped, o, r, by simp, .literal hq hbody hskipped, ho⟩
  | @comment t _ comment _ ih =>
    cases comment with
    | line body hbody =>
      have hmarks := (Comment.line_text_scan .ignore (s := {}) rfl hbody t).2
      have hnone := matchingClose?_eq_none hmarks (by simp) rfl (by decide)
      rw [hfound] at hnone
      cases hnone
    | block body hbody =>
      have hthis : Hidden (Comment.block body hbody).text := by simpa using Hidden.comment hbody .nil
      rw [matchingClose?_hidden_append hthis] at hfound
      obtain ⟨k, hk, -⟩ := Option.map_eq_some_iff.mp hfound
      obtain ⟨skipped, o, r, rfl, hskipped, ho⟩ := ih hk
      exact ⟨_, o, r, (List.append_assoc _ _ _).symm, .comment hbody hskipped, ho⟩
  | @unclosed t hopen =>
    have hnone : (marks .ignore t).dropWhile (·.depth.isNone) = [] := by
      rw [List.dropWhile_eq_nil_iff]
      intro m hm
      rw [hopen.marks_hidden .ignore rfl m hm]
      rfl
    simp [matchingClose?, hnone] at hfound

/-- A text that is hidden up to an opening bracket, with a body between this bracket and its partner. -/
structure IsBracketed (t skipped body : Text) : Prop where
  hidden : Hidden skipped
  brackets : ∃ o r tokens before, t = skipped ++ o :: r ∧ isOpening o = true ∧ Lexed tokens (o :: r) ∧
    IsFirstClosing tokens before ∧ Token.textOf before = o :: body

theorem matchingClose?_eq_some_iff : matchingClose? t = some n ↔
    ∃ skipped body, IsBracketed t skipped body ∧ n = skipped.length + 1 + body.length := by
  constructor
  · intro h
    obtain ⟨tokens, ht⟩ := exists_lexed t
    obtain ⟨skipped, o, r, rfl, hskipped, ho⟩ := ht.exists_hidden h
    rw [matchingClose?_hidden_append hskipped] at h
    obtain ⟨k, hk, rfl⟩ := Option.map_eq_some_iff.mp h
    obtain ⟨tokens, hl⟩ := exists_lexed (o :: r)
    obtain ⟨before, rfl, hfirst⟩ := (matchingClose?_lexed ho hl).1 k hk
    obtain ⟨body, hbody⟩ := hfirst.exists_body hl ho
    refine ⟨skipped, body, ⟨hskipped, o, r, tokens, before, rfl, ho, hl, hfirst, hbody⟩, ?_⟩
    rw [hbody, List.length_cons]
    omega
  · rintro ⟨skipped, body, ⟨hskipped, o, r, tokens, before, rfl, ho, hl, hfirst, hbody⟩, rfl⟩
    rw [matchingClose?_hidden_append hskipped, hfirst.matchingClose?_eq hl ho, hbody, Option.map_some,
      Option.some.injEq, List.length_cons]
    omega

theorem IsBracketed.exists_eq {skipped body : Text} (h : IsBracketed t skipped body) :
    ∃ o rest, t = skipped ++ o :: (body ++ rest) ∧ isOpening o = true := by
  obtain ⟨-, o, r, tokens, before, rfl, ho, hl, hfirst, hbody⟩ := h
  obtain ⟨c, after, rfl, -, -⟩ := hfirst.closes
  have htext := hl.textOf_eq
  rw [Token.textOf, List.flatMap_append, ← Token.textOf, hbody] at htext
  exact ⟨o, _, by rw [← htext]; rfl, ho⟩

theorem utf8Size_of_isOpening (ho : isOpening o = true) : o.utf8Size = 1 := by
  rcases eq_of_isOpening ho with rfl | rfl | rfl <;> rfl

theorem IsBracketed.byteSize_take {skipped body : Text} (h : IsBracketed t skipped body) :
    Text.byteSize (t.take (skipped.length + 1 + body.length)) = Text.byteSize skipped + 1 + Text.byteSize body := by
  obtain ⟨o, rest, rfl, ho⟩ := h.exists_eq
  have hsplit : skipped ++ o :: (body ++ rest) = (skipped ++ o :: body) ++ rest := by simp
  have hlength : skipped.length + 1 + body.length = (skipped ++ o :: body).length := by simp; omega
  rw [hsplit, hlength, List.take_left, Text.byteSize_append, Text.byteSize, utf8Size_of_isOpening ho, Nat.add_assoc]

theorem matchingCloseAt?_eq_some_iff {text : Text} {offset place : Nat} :
    matchingCloseAt? text offset = some place ↔ ∃ t skipped body, Text.dropBytes? offset text = some t ∧
      IsBracketed t skipped body ∧ place = offset + Text.byteSize skipped + 1 + Text.byteSize body := by
  constructor
  · intro h
    obtain ⟨t, ht, h⟩ := Option.bind_eq_some_iff.mp h
    obtain ⟨n, hn, h⟩ := Option.bind_eq_some_iff.mp h
    obtain ⟨skipped, body, hbracketed, rfl⟩ := matchingClose?_eq_some_iff.mp hn
    refine ⟨t, skipped, body, ht, hbracketed, ?_⟩
    rw [← Option.some.inj h, hbracketed.byteSize_take]
    omega
  · rintro ⟨t, skipped, body, ht, hbracketed, rfl⟩
    have hn := matchingClose?_eq_some_iff.mpr ⟨skipped, body, hbracketed, rfl⟩
    have hsize := hbracketed.byteSize_take
    simp only [matchingCloseAt?, ht, hn, hsize, Option.bind_eq_bind, Option.bind_some, Option.pure_def]
    rw [Option.some.injEq]
    omega

/-- Where nothing is hidden, the body stands behind the first character, and that is a bracket. -/
theorem exists_of_bracedBody? {body : Text} (h : bracedBody? t = some body) (ht : ¬ StartsHidden t) :
    ∃ o r, t = o :: (body ++ r) ∧ isOpening o = true := by
  obtain ⟨n, hn, hcut⟩ := Option.map_eq_some_iff.mp h
  obtain ⟨skipped, body', hbracketed, rfl⟩ := matchingClose?_eq_some_iff.mp hn
  obtain ⟨o, rest, rfl, ho⟩ := hbracketed.exists_eq
  obtain rfl := hbracketed.hidden.eq_nil ht
  have hsame : body' = body := by simpa [Nat.add_comm] using hcut
  exact ⟨o, rest, by rw [hsame]; rfl, ho⟩

/-- Whatever stands at an offset, what is found there is the partner of the first opening bracket, provided that
nothing stands in front of this bracket but literals and block comments. Where none of these begins, the bracket
stands at the offset itself, and the body directly behind it. -/
theorem matchingCloseAt?_behind_hidden (text : Text) (offset : Nat) :
    (∀ place, matchingCloseAt? text offset = some place ↔ ∃ t skipped body, Text.dropBytes? offset text = some t ∧
      IsBracketed t skipped body ∧ place = offset + Text.byteSize skipped + 1 + Text.byteSize body) ∧
    ∀ t, Text.dropBytes? offset text = some t → ¬ StartsHidden t →
      (∀ place, matchingCloseAt? text offset = some place →
        ∃ o r, t = o :: r ∧ isOpening o = true ∧ offset < place) ∧
      ∀ body, bracedBodyAt? text offset = some body → ∃ o r, t = o :: (body ++ r) ∧ isOpening o = true := by
  refine ⟨fun place => matchingCloseAt?_eq_some_iff, fun t ht hnot => ⟨?_, ?_⟩⟩
  · intro place hplace
    obtain ⟨t', skipped, body, ht', hbracketed, rfl⟩ := matchingCloseAt?_eq_some_iff.mp hplace
    obtain rfl : t = t' := Option.some.inj (ht.symm.trans ht')
    obtain ⟨o, r, rfl, ho⟩ := hbracketed.exists_eq
    obtain rfl := hbracketed.hidden.eq_nil hnot
    exact ⟨o, body ++ r, rfl, ho, by omega⟩
  · intro body hbody
    rw [bracedBodyAt?, ht, Option.bind_some] at hbody
    exact exists_of_bracedBody? hbody hnot

/-- A bracket with nothing in front of it, and one behind a comment and a literal that hold brackets themselves. -/
theorem matchingCloseAt?_behind_hidden_list :
    (¬ StartsHidden "([')'])".toList ∧ (∃ o r, "([')'])".toList = o :: r ∧ isOpening o = true ∧ 2 < 8) ∧
      ∃ o r, "([')'])".toList = o :: ("[')']".toList ++ r) ∧ isOpening o = true) ∧
    ∃ t skipped body, Text.dropBytes? 0 "/*(*/'\\'('[é]".toList = some t ∧ IsBracketed t skipped body ∧
      13 = 0 + Text.byteSize skipped + 1 + Text.byteSize body := by
  have hnot : ¬ StartsHidden "([')'])".toList := by simp [StartsHidden, quotes]
  have hlist := (matchingCloseAt?_behind_hidden "é([')'])".toList 2).2 "([')'])".toList rfl hnot
  have hbehind := (matchingCloseAt?_behind_hidden "/*(*/'\\'('[é]".toList 0).1 13
  exact ⟨⟨hnot, hlist.1 8 (by decide +kernel), hlist.2 _ (by decide +kernel)⟩, hbehind.mp (by decide +kernel)⟩

/-- A literal at the offset is taken for part of the body, and the bracket behind it for the one at the offset. -/
theorem matchingCloseAt?_not_at_bracket :
    matchingCloseAt? "'x'()".toList 0 = some 4 ∧ bracedBodyAt? "'x'()".toList 0 = some "x'(".toList ∧
      ¬ ∃ o r, Text.dropBytes? 0 "'x'()".toList = some (o :: r) ∧ isOpening o = true := by
  refine ⟨by decide +kernel, by decide +kernel, ?_⟩
  rintro ⟨o, r, hdrop, ho⟩
  obtain ⟨rfl, -⟩ := List.cons.inj (Option.some.inj hdrop)
  exact absurd ho (by decide)

end SfcContract.Code
