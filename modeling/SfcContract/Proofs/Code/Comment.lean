import SfcContract.Proofs.Code.Written

/-!
# Comments

A scan passes over a comment, whatever quotes, brackets or separators it holds, and comes out of it as it
went in. Remarks are comments one after another with blanks after each, as they stand before what they are
about. The scan never sees them, but they stay in the piece that is cut out.
-/

namespace SfcContract.Code

variable {angles : Angles} {avoid : List Char} {s : State} {k : Nat} {a b t gap : Text}

/-- A comment as a script writes it. -/
inductive Comment where
  | line (text : Text) (unbroken : '\n' ∉ text)
  | block (text : Text) (unclosed : ¬ "*/".toList <:+: text)

namespace Comment

/-- The comment with its signs. The line break that ends a line comment belongs to it. -/
def text : Comment → Text
  | line t _ => "//".toList ++ (t ++ ['\n'])
  | block t _ => "/*".toList ++ (t ++ "*/".toList)

theorem exists_text (c : Comment) : ∃ r, c.text = '/' :: r := by
  cases c with
  | line t _ => exact ⟨_, rfl⟩
  | block t _ => exact ⟨_, rfl⟩

/-- A scan inside a line comment sees nothing up to the line break. -/
theorem line_scan (angles : Angles) (hs : s.mode = .lineComment) (ha : '\n' ∉ a) (b : Text) :
    s.run angles (a ++ b) = s.run angles b ∧
      marksFrom angles s (a ++ b) = a.map (fun c => ⟨c, none⟩) ++ marksFrom angles s b := by
  induction a with
  | nil => exact ⟨rfl, rfl⟩
  | cons c a ih =>
    rw [List.mem_cons, not_or] at ha
    simp [State.run, marksFrom, State.step, hs, Ne.symm ha.1, ih ha.2]

/-- A scan inside a block comment sees nothing up to the first star before a slash. -/
theorem block_scan (angles : Angles) {star : Bool} (hs : s.mode = .blockComment star) (ha : ¬ "*/".toList <:+: a)
    (hstar : star = true → a.head? ≠ some '/') (b : Text) : ∃ star',
    s.run angles (a ++ b) = { s with mode := .blockComment star' }.run angles b ∧
      marksFrom angles s (a ++ b) =
        a.map (fun c => ⟨c, none⟩) ++ marksFrom angles { s with mode := .blockComment star' } b := by
  induction a generalizing s star with
  | nil =>
    obtain ⟨mode, depth, angleDepth, prev⟩ := s
    obtain rfl : mode = .blockComment star := hs
    exact ⟨star, rfl, rfl⟩
  | cons c a ih =>
    have hopen : ¬ (star = true ∧ c = '/') := by
      rintro ⟨hstar', rfl⟩
      exact hstar hstar' rfl
    have hrest : ¬ "*/".toList <:+: a := fun h => ha (h.trans (List.suffix_cons c a).isInfix)
    have hnext : (c == '*') = true → a.head? ≠ some '/' := by
      intro hc hhead
      obtain rfl := eq_of_beq hc
      obtain ⟨r, rfl⟩ := List.head?_eq_some_iff.mp hhead
      exact ha (List.prefix_append "*/".toList r).isInfix
    have hstep (next : Option Char) :
        s.step angles c next = ({ s with mode := .blockComment (c == '*') }, none) := by
      simp only [State.step, hs, hopen, if_false]
    obtain ⟨star', hrun, hmarks⟩ := ih (s := { s with mode := .blockComment (c == '*') }) rfl hrest hnext
    refine ⟨star', ?_⟩
    rw [List.cons_append, State.run, marksFrom, hstep, hrun, hmarks]
    exact ⟨rfl, rfl⟩

/-- A scan sees nothing of a line comment but the line break at its end. -/
theorem line_text_scan (angles : Angles) (hs : s.mode = .code) (ht : '\n' ∉ t) (b : Text) :
    s.run angles ((line t ht).text ++ b) = { s with prev := '\n' }.run angles b ∧
      marksFrom angles s ((line t ht).text ++ b) = ("//".toList ++ t).map (fun c => ⟨c, none⟩) ++
        ⟨'\n', some s.depth⟩ :: marksFrom angles { s with prev := '\n' } b := by
  obtain ⟨mode, depth, angleDepth, prev⟩ := s
  obtain rfl : mode = .code := hs
  obtain ⟨hrun, hmarks⟩ := line_scan angles
    (s := { mode := .lineComment, depth, angleDepth, prev }) rfl ht ('\n' :: b)
  have hbreak : ({ mode := .code, depth, angleDepth, prev } : State).stepCode angles '\n' =
      ({ mode := .code, depth, angleDepth, prev := '\n' }, depth) := State.stepCode_plain (by decide)
  have htext : (line t ht).text ++ b = '/' :: '/' :: (t ++ '\n' :: b) := by simp [text]
  rw [htext]
  constructor
  · simpa [State.run, State.step, quotes, hbreak] using hrun
  · simpa [marksFrom, State.step, quotes, hbreak] using hmarks

/-- A scan comes out of a block comment as it went in. -/
theorem block_text_scan (angles : Angles) (hs : s.mode = .code) (ht : ¬ "*/".toList <:+: t) (b : Text) :
    s.run angles ((block t ht).text ++ b) = s.run angles b ∧
      marksFrom angles s ((block t ht).text ++ b) =
        (block t ht).text.map (fun c => ⟨c, none⟩) ++ marksFrom angles s b := by
  obtain ⟨mode, depth, angleDepth, prev⟩ := s
  obtain rfl : mode = .code := hs
  obtain ⟨star, hrun, hmarks⟩ := block_scan angles
    (s := { mode := .blockComment false, depth, angleDepth, prev }) rfl ht (fun h => absurd h Bool.false_ne_true)
    ("*/".toList ++ b)
  constructor
  · simpa [State.run, State.step, quotes, text] using hrun
  · simpa [marksFrom, State.step, quotes, text] using hmarks

/-- A scan comes out of a comment as it went in, but for the last character, and has seen at most the line
break at its end. -/
theorem scan (c : Comment) (angles : Angles) (hs : s.mode = .code) (b : Text) : ∃ p ms,
    s.run angles (c.text ++ b) = { s with prev := p }.run angles b ∧
      marksFrom angles s (c.text ++ b) = ms ++ marksFrom angles { s with prev := p } b ∧
      ∀ m ∈ ms, m.depth = none ∨ m = ⟨'\n', some s.depth⟩ := by
  cases c with
  | line t ht =>
    obtain ⟨hrun, hmarks⟩ := line_text_scan angles hs ht b
    refine ⟨'\n', ("//".toList ++ t).map (fun c => ⟨c, none⟩) ++ [⟨'\n', some s.depth⟩], hrun, ?_, ?_⟩
    · simpa using hmarks
    · intro m hm
      rcases List.mem_append.mp hm with hm | hm
      · obtain ⟨d, -, rfl⟩ := List.mem_map.mp hm
        exact .inl rfl
      · exact .inr (List.mem_singleton.mp hm)
  | block t ht =>
    obtain ⟨hrun, hmarks⟩ := block_text_scan angles hs ht b
    refine ⟨s.prev, (block t ht).text.map fun c => ⟨c, none⟩, hrun, hmarks, ?_⟩
    intro m hm
    obtain ⟨d, -, rfl⟩ := List.mem_map.mp hm
    exact .inl rfl

theorem passes_append (c : Comment) (hn : '\n' ∉ avoid) (hb : Passes angles avoid b) :
    Passes angles avoid (c.text ++ b) where
  atRest {k s} h := by
    obtain ⟨p, ms, hrun, -⟩ := c.scan angles h.mode b
    rw [hrun]
    exact hb.atRest (h.withPrev p)
  above {k s} h m hm := by
    obtain ⟨p, ms, -, hmarks, hms⟩ := c.scan angles h.mode b
    rw [hmarks] at hm
    rcases List.mem_append.mp hm with hm | hm
    · intro d hd
      rcases hms m hm with hnone | rfl
      · rw [hnone] at hd
        cases hd
      · obtain rfl : s.depth = d := Option.some.inj hd
        exact ⟨Nat.le_of_eq h.depth.symm, fun _ => hn⟩
    · exact hb.above (h.withPrev p) m hm

end Comment

/-- Comments one after another, with blanks after each. -/
inductive Remarks : Text → Prop
  | nil : Remarks []
  | cons {gap t : Text} (c : Comment) : Text.IsBlanks gap → Remarks t → Remarks (c.text ++ (gap ++ t))

namespace Remarks

theorem passes_append (h : Remarks a) (hn : '\n' ∉ avoid) (hblank : ∀ c ∈ avoid, Text.isBlank c = false)
    (hb : Passes angles avoid b) : Passes angles avoid (a ++ b) := by
  induction h with
  | nil => exact hb
  | @cons gap t c hgap _ ih =>
    have hrest : Passes angles avoid (gap ++ (t ++ b)) := by
      refine Passes.plain_append ?_ ih
      intro d hd
      refine ⟨isPlain_of_isBlank (hgap d hd), fun hmem => ?_⟩
      exact Bool.false_ne_true ((hblank d hmem).symm.trans (hgap d hd))
    simpa using c.passes_append hn hrest

theorem exists_of_ne_nil (h : Remarks a) (hne : a ≠ []) : ∃ r, a = '/' :: r := by
  cases h with
  | nil => exact absurd rfl hne
  | cons c _ _ =>
    obtain ⟨r, hr⟩ := c.exists_text
    exact ⟨_, by rw [hr, List.cons_append]⟩

end Remarks

/-- Something in a list, with remarks directly before it. -/
structure Remarked (α : Type) where
  remarks : Text
  isRemarks : Remarks remarks
  item : α

end SfcContract.Code
