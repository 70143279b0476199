import SfcContract.Proofs.Code.Comment
import SfcContract.Proofs.Text.Progress

/-!
# Tokens

A text is read as characters of code between literals and comments. A literal or a comment may be left open at
the end, so every text can be read. Where angle brackets are ordinary, a scan counts the brackets among the
tokens and sees nothing else.
-/

namespace SfcContract.Code

variable {s : State} {c q : Char} {n : Nat} {a t : Text}

inductive Token where
  | code (c : Char)
  /-- A literal or a comment. -/
  | hidden (text : Text)

namespace Token

def text : Token → Text
  | code c => [c]
  | hidden t => t

def opens : Token → Bool
  | code c => isOpening c
  | hidden _ => false

def closes : Token → Bool
  | code c => isClosing c
  | hidden _ => false

def textOf (tokens : List Token) : Text := tokens.flatMap text

theorem textOf_cons (token : Token) (tokens : List Token) :
    textOf (token :: tokens) = token.text ++ textOf tokens := List.flatMap_cons

theorem opens_eq_false_of_closes {token : Token} (h : token.closes = true) : token.opens = false := by
  cases token with
  | hidden t => rfl
  | code c =>
    rcases eq_of_isClosing h with rfl | rfl | rfl <;> rfl

end Token

/-- A literal or a comment that the end of the text leaves open. -/
inductive Unclosed : Text → Prop
  | literal {q : Char} {body : Text} : q ∈ quotes → Escaped q body → Unclosed (q :: body)
  | escape {q : Char} {body : Text} : q ∈ quotes → Escaped q body → Unclosed (q :: (body ++ ['\\']))
  | line {t : Text} : '\n' ∉ t → Unclosed ('/' :: '/' :: t)
  | block {t : Text} : ¬ "*/".toList <:+: t → Unclosed ('/' :: '*' :: t)

inductive Lexed : List Token → Text → Prop
  | nil : Lexed [] []
  | code {c : Char} {t : Text} {tokens} : c ∉ quotes → (c = '/' → CompletesNoComment t) → Lexed tokens t →
      Lexed (.code c :: tokens) (c :: t)
  | literal {q : Char} {body t : Text} {tokens} : q ∈ quotes → Escaped q body → Lexed tokens t →
      Lexed (.hidden (q :: body ++ [q]) :: tokens) (q :: body ++ q :: t)
  | comment {t : Text} {tokens} (comment : Comment) : Lexed tokens t →
      Lexed (.hidden comment.text :: tokens) (comment.text ++ t)
  | unclosed {t : Text} : Unclosed t → Lexed [.hidden t] t

/-- A literal goes up to its quote, or to the end of the text. -/
theorem Escaped.exists_end (q : Char) (t : Text) : (∃ body rest, t = body ++ q :: rest ∧ Escaped q body) ∨
    Escaped q t ∨ ∃ body, t = body ++ ['\\'] ∧ Escaped q body := by
  induction ht : t.length using Nat.strong_induction_on generalizing t with
  | _ k ih =>
    cases t with
    | nil => exact .inr (.inl .nil)
    | cons c t =>
      by_cases hslash : c = '\\'
      · subst hslash
        cases t with
        | nil => exact .inr (.inr ⟨[], rfl, .nil⟩)
        | cons d t =>
          have hlt : t.length < k := by simp at ht; omega
          rcases ih t.length hlt t rfl with ⟨body, rest, rfl, hbody⟩ | hend | ⟨body, rfl, hbody⟩
          · exact .inl ⟨'\\' :: d :: body, rest, rfl, .escape hbody⟩
          · exact .inr (.inl (.escape hend))
          · exact .inr (.inr ⟨'\\' :: d :: body, rfl, .escape hbody⟩)
      · by_cases hquote : c = q
        · subst hquote
          exact .inl ⟨[], t, rfl, .nil⟩
        · have hlt : t.length < k := by simp at ht; omega
          rcases ih t.length hlt t rfl with ⟨body, rest, rfl, hbody⟩ | hend | ⟨body, rfl, hbody⟩
          · exact .inl ⟨c :: body, rest, rfl, .char hslash hquote hbody⟩
          · exact .inr (.inl (.char hslash hquote hend))
          · exact .inr (.inr ⟨c :: body, rfl, .char hslash hquote hbody⟩)

/-- A block comment goes up to the first star before a slash, or to the end of the text. -/
theorem exists_block_end (t : Text) : (∃ body rest, t = body ++ ("*/".toList ++ rest) ∧ ¬ "*/".toList <:+: body) ∨
    ¬ "*/".toList <:+: t := by
  cases hread : Text.upTo? (Text.after? "*/".toList) t with
  | none =>
    refine .inr ?_
    rintro ⟨u, v, rfl⟩
    have hnone := Text.upTo?_eq_none_iff.mp hread u ("*/".toList ++ v) (List.append_assoc _ _ _)
    rw [Text.after?_eq_some_iff.mpr rfl] at hnone
    cases hnone
  | some hit =>
    obtain ⟨body, rest⟩ := hit
    obtain ⟨s, rfl, hs, hearlier⟩ := Text.upTo?_eq_some_iff.mp hread
    refine .inl ⟨body, rest, by rw [Text.after?_eq_some_iff.mp hs], ?_⟩
    rintro ⟨u, v, rfl⟩
    have hnone := hearlier u ("*/".toList ++ v) (List.append_assoc _ _ _) (by simp)
    rw [List.append_assoc, Text.after?_eq_some_iff.mpr rfl] at hnone
    cases hnone

theorem completesNoComment_or (t : Text) : CompletesNoComment t ∨ (∃ u, t = '/' :: u) ∨ ∃ u, t = '*' :: u := by
  cases t with
  | nil => exact .inl (by simp [CompletesNoComment])
  | cons c t =>
    by_cases hline : c = '/'
    · exact .inr (.inl ⟨t, by rw [hline]⟩)
    · by_cases hblock : c = '*'
      · exact .inr (.inr ⟨t, by rw [hblock]⟩)
      · exact .inl (completesNoComment_cons ⟨hline, hblock⟩ t)

theorem exists_lexed (t : Text) : ∃ tokens, Lexed tokens t := by
  induction ht : t.length using Nat.strong_induction_on generalizing t with
  | _ k ih =>
    have shorter (rest : Text) (h : rest.length < t.length) : ∃ tokens, Lexed tokens rest :=
      ih rest.length (ht ▸ h) rest rfl
    cases t with
    | nil => exact ⟨[], .nil⟩
    | cons c t =>
      by_cases hq : c ∈ quotes
      · rcases Escaped.exists_end c t with ⟨body, rest, rfl, hbody⟩ | hend | ⟨body, rfl, hbody⟩
        · obtain ⟨tokens, hrest⟩ := shorter rest (by simp; omega)
          exact ⟨_, .literal hq hbody hrest⟩
        · exact ⟨_, .unclosed (.literal hq hend)⟩
        · exact ⟨_, .unclosed (.escape hq hbody)⟩
      · have hcode (h : c = '/' → CompletesNoComment t) : ∃ tokens, Lexed tokens (c :: t) := by
          obtain ⟨tokens, hrest⟩ := shorter t (by simp)
          exact ⟨_, .code hq h hrest⟩
        by_cases hsign : c = '/'
        · subst hsign
          rcases completesNoComment_or t with hnone | ⟨u, rfl⟩ | ⟨u, rfl⟩
          · exact hcode fun _ => hnone
          · by_cases hbreak : '\n' ∈ u
            · obtain ⟨body, rest, rfl, hbody⟩ := List.eq_append_cons_of_mem hbreak
              obtain ⟨tokens, hrest⟩ := shorter rest (by simp; omega)
              have htext : '/' :: '/' :: (body ++ '\n' :: rest) = (Comment.line body hbody).text ++ rest := by
                simp [Comment.text]
              rw [htext]
              exact ⟨_, .comment _ hrest⟩
            · exact ⟨_, .unclosed (.line hbreak)⟩
          · rcases exists_block_end u with ⟨body, rest, rfl, hbody⟩ | hend
            · obtain ⟨tokens, hrest⟩ := shorter rest (by simp; omega)
              have htext : '/' :: '*' :: (body ++ ("*/".toList ++ rest)) =
                  (Comment.block body hbody).text ++ rest := by
                simp [Comment.text]
              rw [htext]
              exact ⟨_, .comment _ hrest⟩
            · exact ⟨_, .unclosed (.block hend)⟩
        · exact hcode fun h => absurd h hsign

theorem Lexed.textOf_eq {tokens : List Token} (h : Lexed tokens t) : Token.textOf tokens = t := by
  induction h with
  | nil => rfl
  | code _ _ _ ih => exact congrArg (_ :: ·) ih
  | @literal q body t tokens _ _ _ ih =>
    rw [Token.textOf, List.flatMap_cons, ← Token.textOf, ih, Token.text]
    simp
  | comment c _ ih => exact congrArg (c.text ++ ·) ih
  | unclosed _ => simp [Token.textOf, Token.text]

/-- The tokens in front of the closing bracket that closes the last of `n` open ones. -/
def beforePartner? : Nat → List Token → Option (List Token)
  | _, [] => none
  | n, token :: tokens =>
    if token.closes ∧ n = 1 then some []
    else
      (beforePartner? (if token.opens then n + 1 else if token.closes then n - 1 else n) tokens).map (token :: ·)

/-- A scan sees nothing of what the end of the text leaves open. -/
theorem Unclosed.marks_hidden (h : Unclosed t) (angles : Angles) (hs : s.mode = .code) :
    ∀ m ∈ marksFrom angles s t, m.depth = none := by
  obtain ⟨mode, depth, angleDepth, prev⟩ := s
  obtain rfl : mode = .code := hs
  cases h with
  | @literal q body hq hbody =>
    have hinner := (hbody.scan angles (s := { mode := .quoted q, depth, angleDepth, prev := q }) rfl []).2
    rw [List.append_nil] at hinner
    simp [marksFrom, State.step, hq, hinner]
  | @escape q body hq hbody =>
    have hinner := (hbody.scan angles (s := { mode := .quoted q, depth, angleDepth, prev := q }) rfl ['\\']).2
    simp only [marksFrom, State.step, if_true, List.contains_iff_mem, hq, hinner, List.mem_cons, List.mem_append,
      List.mem_map, List.not_mem_nil, or_false]
    rintro m (rfl | ⟨c, -, rfl⟩ | rfl) <;> rfl
  | @line t ht =>
    have hinner := (Comment.line_scan angles (s := { mode := .lineComment, depth, angleDepth, prev }) rfl ht []).2
    rw [List.append_nil] at hinner
    simp [marksFrom, State.step, quotes, hinner]
  | @block t ht =>
    obtain ⟨star, -, hinner⟩ := Comment.block_scan angles
      (s := { mode := .blockComment false, depth, angleDepth, prev }) rfl ht
      (fun h => absurd h Bool.false_ne_true) []
    rw [List.append_nil] at hinner
    simp [marksFrom, State.step, quotes, hinner]

private theorem findIdx?_append_of_hidden {ms ns : List Mark}
    (h : ∀ m ∈ ms, m.depth = none ∨ isClosing m.char = false) :
    (ms ++ ns).findIdx? (fun m => m.depth == some 0 && isClosing m.char) =
      (ns.findIdx? fun m => m.depth == some 0 && isClosing m.char).map (· + ms.length) := by
  have hnone : ms.findIdx? (fun m => m.depth == some 0 && isClosing m.char) = none := by
    rw [List.findIdx?_eq_none_iff]
    intro m hm
    rcases h m hm with hd | hc <;> simp [*]
  rw [List.findIdx?_append, hnone, Option.none_or]

/-- Behind a literal or a comment the partner is as far from there as before. -/
private theorem map_beforePartner?_hidden (n : Nat) (a : Text) (tokens : List Token) :
    ((beforePartner? n tokens).map fun before => (Token.textOf before).length).map (· + a.length) =
      (beforePartner? n (.hidden a :: tokens)).map fun before => (Token.textOf before).length := by
  simp [beforePartner?, Token.opens, Token.closes, Token.textOf_cons, Token.text, Function.comp_def, Nat.add_comm]

/-- What a scan looks for behind an open bracket stands behind the tokens in front of its partner. -/
theorem Lexed.findIdx?_closing {tokens : List Token} (h : Lexed tokens t) (hm : s.mode = .code)
    (hd : 0 < s.depth) :
    (marksFrom .ignore s t).findIdx? (fun m => m.depth == some 0 && isClosing m.char) =
      (beforePartner? s.depth tokens).map fun before => (Token.textOf before).length := by
  induction h generalizing s with
  | nil => rfl
  | @code c t tokens hq hn _ ih =>
    have hrest (s' : State) (d : Option Nat) (hm' : s'.mode = .code) (hd' : 0 < s'.depth)
        (hp : (d == some 0 && isClosing c) = false) :
        ((⟨c, d⟩ : Mark) :: marksFrom .ignore s' t).findIdx? (fun m => m.depth == some 0 && isClosing m.char) =
          ((beforePartner? s'.depth tokens).map (.code c :: ·)).map fun before => (Token.textOf before).length := by
      rw [List.findIdx?_cons]
      simp [hp, ih hm' hd', Token.textOf_cons, Token.text, Function.comp_def, Nat.add_comm]
    cases hc : isClosing c with
    | true =>
      rw [marksFrom, State.step_closing hm hc]
      by_cases hlast : s.depth = 1
      · simp [beforePartner?, Token.closes, hc, hlast, List.findIdx?_cons, Token.textOf]
      · have hopen : (Token.code c).opens = false := Token.opens_eq_false_of_closes hc
        have hpos : 0 < s.depth - 1 := by omega
        have hnot : (some (s.depth - 1) == some 0 && isClosing c) = false := by simp; omega
        refine (hrest { s with depth := s.depth - 1, prev := c } _ hm hpos hnot).trans ?_
        simp [beforePartner?, hlast, hopen, Token.closes, hc]
    | false =>
      cases ho : isOpening c with
      | true =>
        rw [marksFrom, State.step_opening hm ho]
        refine (hrest { s with depth := s.depth + 1, prev := c } _ hm (Nat.succ_pos _) (by simp [hc])).trans ?_
        simp [beforePartner?, Token.closes, Token.opens, hc, ho]
      | false =>
        rw [marksFrom, State.step_ordinary hm ho hc hq hn]
        refine (hrest { s with prev := c } _ hm hd (by simp [hc])).trans ?_
        simp [beforePartner?, Token.closes, Token.opens, hc, ho]
  | @literal q body t tokens hq hbody _ ih =>
    have hrest := ih (s := { s with prev := q }) hm hd
    have hhidden : ∀ m ∈ (q :: body ++ [q]).map (fun c => (⟨c, none⟩ : Mark)),
        m.depth = none ∨ isClosing m.char = false := by
      intro m hmem
      obtain ⟨d, -, rfl⟩ := List.mem_map.mp hmem
      exact .inl rfl
    rw [(hbody.literal_scan hq hm t).2, findIdx?_append_of_hidden hhidden, hrest, List.length_map]
    exact map_beforePartner?_hidden _ _ _
  | @comment t tokens c _ ih =>
    obtain ⟨p, ms, -, hmarks, hms⟩ := c.scan .ignore hm t
    have hrest := ih (s := { s with prev := p }) hm hd
    have hhidden : ∀ m ∈ ms, m.depth = none ∨ isClosing m.char = false := by
      intro m hmem
      refine (hms m hmem).imp_right ?_
      rintro rfl
      rfl
    have hlength : ms.length = c.text.length := by
      have htotal := congrArg List.length hmarks
      simp only [List.length_append, length_marksFrom] at htotal
      omega
    rw [hmarks, findIdx?_append_of_hidden hhidden, hrest, hlength]
    exact map_beforePartner?_hidden _ _ _
  | @unclosed t h =>
    have hnone := @findIdx?_append_of_hidden _ [] fun m hmem => .inl (h.marks_hidden .ignore hm m hmem)
    rw [List.append_nil] at hnone
    rw [hnone]
    rfl

end SfcContract.Code
