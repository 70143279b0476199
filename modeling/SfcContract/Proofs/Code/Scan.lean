import SfcContract.Code.Scan
import SfcContract.Proofs.Text.Trim

/-!
# Scans in context

A scan looks one character ahead and remembers the last one, the depth and the open angle brackets. A
text that is balanced on its own is scanned the same way inside a longer one: all its depths are raised
by the depth around it, and the scan leaves it at the depth at which it came.
-/

namespace SfcContract.Code

variable {angles : Angles} {s s' : State} {c : Char} {k : Nat} {a b t : Text}

/-- The characters that move a scan. -/
def signs : List Char :=
  ['{', '(', '[', '}', ')', ']', '<', '>', '\x22', '\x27', '\x60', '/']

def IsPlain (c : Char) : Prop := c ∉ signs

instance (c : Char) : Decidable (IsPlain c) := inferInstanceAs (Decidable (c ∉ signs))

theorem isPlain_of {p : Char → Bool} (hp : ∀ d ∈ signs, p d = false) (hc : p c = true) : IsPlain c := by
  intro h
  simp [hp c h] at hc

theorem isPlain_of_isBlank (hc : Text.isBlank c = true) : IsPlain c := isPlain_of (by decide) hc

/-- The second character of no sign that opens a comment. -/
def CompletesNoComment (t : Text) : Prop := t.head? ≠ some '/' ∧ t.head? ≠ some '*'

theorem completesNoComment_cons (hc : c ≠ '/' ∧ c ≠ '*') (t : Text) : CompletesNoComment (c :: t) := by
  simpa [CompletesNoComment] using hc

theorem completesNoComment_append {w : Text} (hw : Text.IsBlanks w) (ht : CompletesNoComment t) :
    CompletesNoComment (w ++ t) := by
  cases w with
  | nil => exact ht
  | cons c w =>
    apply completesNoComment_cons
    constructor <;> rintro rfl <;> exact absurd (hw _ List.mem_cons_self) (by decide)

theorem completesNoComment_of_isBlanks {w : Text} (hw : Text.IsBlanks w) : CompletesNoComment w := by
  have h := completesNoComment_append hw (t := []) (by simp [CompletesNoComment])
  rwa [List.append_nil] at h

namespace State

theorem stepCode_plain (hc : IsPlain c) : s.stepCode angles c = ({ s with prev := c }, s.depth) := by
  simp only [IsPlain, signs, List.mem_cons, List.not_mem_nil, or_false, not_or] at hc
  have hopens : s.opens angles c = false := by simp [opens, isOpening, hc]
  have hcloses : s.closes angles c = false := by simp [closes, isClosing, hc]
  simp [stepCode, hopens, hcloses]

theorem step_plain (hs : s.mode = .code) (hc : IsPlain c) (next : Option Char) :
    s.step angles c next = ({ s with prev := c }, some s.depth) := by
  have hcode : s.stepCode angles c = ({ s with prev := c }, s.depth) := stepCode_plain hc
  simp only [IsPlain, signs, List.mem_cons, List.not_mem_nil, or_false, not_or] at hc
  simp [step, hs, quotes, hc, hcode]

/-- Only the two comment signs look ahead. -/
theorem step_next {n m : Option Char} (hn : n ≠ some '/' ∧ n ≠ some '*')
    (hm : m ≠ some '/' ∧ m ≠ some '*') : s.step angles c n = s.step angles c m := by
  simp [step, hn, hm]

theorem run_append (hb : CompletesNoComment b) :
    run angles s (a ++ b) = run angles (run angles s a) b := by
  induction a generalizing s with
  | nil => rfl
  | cons c a ih =>
    cases a with
    | nil =>
      have h : s.step angles c b.head? = s.step angles c none := step_next hb (by simp)
      simp [run, h]
    | cons d a => simpa [run] using ih (s := (s.step angles c (some d)).1)

end State

theorem marksFrom_append (hb : CompletesNoComment b) :
    marksFrom angles s (a ++ b) = marksFrom angles s a ++ marksFrom angles (s.run angles a) b := by
  induction a generalizing s with
  | nil => rfl
  | cons c a ih =>
    cases a with
    | nil =>
      have h : s.step angles c b.head? = s.step angles c none := State.step_next hb (by simp)
      simp [marksFrom, State.run, h]
    | cons d a => simpa [marksFrom, State.run] using ih (s := (s.step angles c (some d)).1)

@[simp] theorem map_char_marksFrom (angles : Angles) (s : State) (t : Text) :
    (marksFrom angles s t).map Mark.char = t := by
  induction t generalizing s with
  | nil => rfl
  | cons c t ih => simp [marksFrom, ih]

@[simp] theorem length_marksFrom (angles : Angles) (s : State) (t : Text) :
    (marksFrom angles s t).length = t.length := by
  rw [← List.length_map Mark.char, map_char_marksFrom]

/-- What two scans in the same mode have in common is kept by a step, if a change of the mode keeps it and a
character of code does. -/
theorem State.step_rel {R : State → State → Prop} {D : Nat → Nat → Prop} (hm : s'.mode = s.mode)
    (hmode : ∀ m, R { s with mode := m } { s' with mode := m })
    (hquote : R { s with mode := .quoted c, prev := c } { s' with mode := .quoted c, prev := c })
    (hcode : s.mode = .code ∨ c = '\n' →
      R ({ s with mode := .code }.stepCode angles c).1 ({ s' with mode := .code }.stepCode angles c).1 ∧
        D ({ s with mode := .code }.stepCode angles c).2 ({ s' with mode := .code }.stepCode angles c).2)
    (next : Option Char) :
    R (s.step angles c next).1 (s'.step angles c next).1 ∧
      Option.Rel D (s.step angles c next).2 (s'.step angles c next).2 := by
  obtain ⟨m, _, _, _⟩ := s
  obtain ⟨m', _, _, _⟩ := s'
  obtain rfl : m' = m := hm
  cases m' with
  | code =>
    simp only [State.step]
    split
    · exact ⟨hquote, .none⟩
    · split
      · exact ⟨hmode _, .none⟩
      · split
        · exact ⟨hmode _, .none⟩
        · exact ⟨(hcode (.inl rfl)).1, .some (hcode (.inl rfl)).2⟩
  | quoted q =>
    simp only [State.step]
    split
    · exact ⟨hmode _, .none⟩
    · split
      · exact ⟨hmode _, .none⟩
      · exact ⟨hmode _, .none⟩
  | escaped q => exact ⟨hmode _, .none⟩
  | lineComment =>
    simp only [State.step]
    split
    · next hc => exact ⟨(hcode (.inr hc)).1, .some (hcode (.inr hc)).2⟩
    · exact ⟨hmode _, .none⟩
  | blockOpening => exact ⟨hmode _, .none⟩
  | blockComment afterStar =>
    simp only [State.step]
    split
    · exact ⟨hmode _, .none⟩
    · exact ⟨hmode _, .none⟩

theorem eq_map_of_rel {f : Nat → Nat} {d d' : Option Nat} (h : Option.Rel (fun n n' => n' = f n) d d') :
    d' = d.map f := by
  cases h with
  | none => rfl
  | some hn => exact congrArg some hn

/-- Whether a scan meets no closing bracket at depth zero. -/
def State.staysOpen (angles : Angles) : State → Text → Bool
  | _, [] => true
  | s, c :: t => !(s.mode == .code && s.closes angles c && s.depth == 0) &&
      staysOpen angles (s.step angles c t.head?).1 t

/-- A scan of the text ends outside literals and comments with every bracket closed, and met no bracket
that closes nothing. -/
structure Balanced (angles : Angles) (t : Text) : Prop where
  outside : (State.run angles {} t).mode = .code
  depth : (State.run angles {} t).depth = 0
  angleDepth : (State.run angles {} t).angleDepth = 0
  staysOpen : State.staysOpen angles {} t = true

instance (angles : Angles) (t : Text) : Decidable (Balanced angles t) :=
  decidable_of_iff ((State.run angles {} t).mode = .code ∧ (State.run angles {} t).depth = 0 ∧
      (State.run angles {} t).angleDepth = 0 ∧ State.staysOpen angles {} t = true)
    ⟨fun h => ⟨h.1, h.2.1, h.2.2.1, h.2.2.2⟩, fun h => ⟨h.outside, h.depth, h.angleDepth, h.staysOpen⟩⟩

/-- One scan runs `k` levels deeper than another. The last characters may differ where no bracket can
tell them apart. -/
structure State.Deeper (k : Nat) (s s' : State) : Prop where
  mode : s'.mode = s.mode
  depth : s'.depth = s.depth + k
  angleDepth : s'.angleDepth = s.angleDepth
  word : (Text.isAsciiWord s'.prev || s'.prev == '$') = (Text.isAsciiWord s.prev || s.prev == '$')
  arrow : (s'.prev != '=') = (s.prev != '=')

namespace State.Deeper

theorem opens (h : Deeper k s s') : s'.opens angles c = s.opens angles c := by
  cases angles <;> simp [State.opens, h.word]

theorem closes (h : Deeper k s s') : s'.closes angles c = s.closes angles c := by
  cases angles <;> simp [State.closes, h.arrow, h.angleDepth]

theorem stepCode (h : Deeper k s s') (hc : s.closes angles c = true → s.depth ≠ 0) :
    Deeper k (s.stepCode angles c).1 (s'.stepCode angles c).1 ∧
      (s'.stepCode angles c).2 = (s.stepCode angles c).2 + k := by
  have hd := h.depth
  cases ho : s.opens angles c with
  | true =>
    simp only [State.stepCode, h.opens, ho, if_true]
    exact ⟨⟨h.mode, by simp only; omega, by simp [h.angleDepth], rfl, rfl⟩, hd⟩
  | false =>
    cases hl : s.closes angles c with
    | true =>
      have hpos := hc hl
      simp only [State.stepCode, h.opens, ho, h.closes, hl, if_true, Bool.false_eq_true, if_false]
      exact ⟨⟨h.mode, by simp only; omega, by simp [h.angleDepth], rfl, rfl⟩, by omega⟩
    | false =>
      simp only [State.stepCode, h.opens, ho, h.closes, hl, Bool.false_eq_true, if_false]
      exact ⟨⟨h.mode, hd, h.angleDepth, rfl, rfl⟩, hd⟩

/-- Both scans may enter or leave a literal or comment together. -/
theorem withMode (h : Deeper k s s') (m : Mode) : Deeper k { s with mode := m } { s' with mode := m } :=
  ⟨rfl, h.depth, h.angleDepth, h.word, h.arrow⟩

theorem step (h : Deeper k s s') (hc : s.mode = .code → s.closes angles c = true → s.depth ≠ 0)
    (next : Option Char) :
    Deeper k (s.step angles c next).1 (s'.step angles c next).1 ∧
      (s'.step angles c next).2 = (s.step angles c next).2.map (· + k) := by
  have hquote : Deeper k { s with mode := .quoted c, prev := c } { s' with mode := .quoted c, prev := c } :=
    ⟨rfl, h.depth, h.angleDepth, rfl, rfl⟩
  have hcloses (hcode : s.mode = .code ∨ c = '\n') :
      ({ s with mode := .code } : State).closes angles c = true → s.depth ≠ 0 := by
    rcases hcode with hs | rfl
    · exact hc hs
    · simp [State.closes, isClosing]
  have hstep : Deeper k (s.step angles c next).1 (s'.step angles c next).1 ∧
      Option.Rel (fun d d' => d' = d + k) (s.step angles c next).2 (s'.step angles c next).2 :=
    State.step_rel h.mode h.withMode hquote (fun hcode => (h.withMode .code).stepCode (hcloses hcode)) next
  exact ⟨hstep.1, eq_map_of_rel hstep.2⟩

/-- Two scans of one text stay `k` levels apart as long as the upper one closes nothing at depth zero. -/
theorem run (h : Deeper k s s') (ht : s.staysOpen angles t = true) :
    Deeper k (s.run angles t) (s'.run angles t) ∧
      marksFrom angles s' t = (marksFrom angles s t).map fun m => ⟨m.char, m.depth.map (· + k)⟩ := by
  induction t generalizing s s' with
  | nil => exact ⟨h, rfl⟩
  | cons c t ih =>
    simp only [State.staysOpen, Bool.and_eq_true, Bool.not_eq_true', Bool.and_eq_false_imp,
      beq_iff_eq, beq_eq_false_iff_ne] at ht
    have hstep := h.step (fun hm hc => ht.1 ⟨hm, hc⟩) t.head?
    have hrest := ih hstep.1 ht.2
    refine ⟨hrest.1, ?_⟩
    simp only [marksFrom, List.map_cons, hrest.2, hstep.2]

end State.Deeper

def State.WellQuoted (s : State) : Prop := ∀ q, s.mode = .quoted q ∨ s.mode = .escaped q → q ∈ quotes

/-- A bracket, a literal or a comment is still open. -/
def State.IsOpen (s : State) : Prop := s.mode = .code → 0 < s.depth

namespace State

@[simp] theorem stepCode_mode (angles : Angles) (s : State) (c : Char) :
    (s.stepCode angles c).1.mode = s.mode := by
  simp only [stepCode]
  split
  · rfl
  · split <;> rfl

theorem WellQuoted.step (h : s.WellQuoted) (next : Option Char) : (s.step angles c next).1.WellQuoted := by
  intro q hq
  cases hs : s.mode with
  | code =>
    simp only [State.step, hs] at hq
    split at hq
    · next hc =>
      obtain rfl : c = q := by simpa using hq
      simpa using hc
    · split at hq
      · simp at hq
      · split at hq
        · simp at hq
        · simp [hs] at hq
  | quoted p =>
    have hp := h p (.inl hs)
    simp only [State.step, hs] at hq
    split at hq
    · obtain rfl : p = q := by simpa using hq
      exact hp
    · split at hq
      · simp at hq
      · obtain rfl : p = q := by simpa [hs] using hq
        exact hp
  | escaped p =>
    have hp := h p (.inr hs)
    obtain rfl : p = q := by simpa [State.step, hs] using hq
    exact hp
  | lineComment =>
    simp only [State.step, hs] at hq
    split at hq
    · simp at hq
    · simp [hs] at hq
  | blockOpening => simp [State.step, hs] at hq
  | blockComment afterStar =>
    simp only [State.step, hs] at hq
    split at hq
    · simp at hq
    · simp at hq

theorem WellQuoted.run (h : s.WellQuoted) (t : Text) : (s.run angles t).WellQuoted := by
  induction t generalizing s with
  | nil => exact h
  | cons c t ih => exact ih (h.step _)

/-- An opening parenthesis leaves something open, in code as well as elsewhere. -/
theorem isOpen_step_paren (h : s.WellQuoted) (next : Option Char) : (s.step angles '(' next).1.IsOpen := by
  cases hs : s.mode with
  | code => simp [IsOpen, State.step, hs, quotes, stepCode, opens, isOpening]
  | quoted q =>
    have hq : '(' ≠ q := by
      rintro rfl
      exact absurd (h _ (.inl hs)) (by decide)
    simp [IsOpen, State.step, hs, hq]
  | escaped q => simp [IsOpen, State.step, hs]
  | lineComment => simp [IsOpen, State.step, hs]
  | blockOpening => simp [IsOpen, State.step, hs]
  | blockComment afterStar => simp [IsOpen, State.step, hs]

/-- A blank closes nothing but a line comment, and that at the depth of its line feed. -/
theorem IsOpen.step_blank (h : s.IsOpen) (hw : s.WellQuoted) (hc : Text.isBlank c = true)
    (next : Option Char) (hn : (s.step angles c next).2 = some 0 → c ≠ '\n') :
    (s.step angles c next).1.IsOpen := by
  have hplain := isPlain_of_isBlank hc
  cases hs : s.mode with
  | code =>
    rw [step_plain hs hplain]
    exact h
  | quoted q =>
    have hq : c ≠ q := by
      rintro rfl
      exact hplain ((by decide : ∀ d ∈ quotes, d ∈ signs) _ (hw _ (.inl hs)))
    have hslash : c ≠ '\\' := by
      rintro rfl
      exact absurd hc (by decide)
    simp [IsOpen, State.step, hs, hq, hslash]
  | escaped q => simp [IsOpen, State.step, hs]
  | lineComment =>
    by_cases hline : c = '\n'
    · simp only [State.step, hs, hline, if_true, stepCode_plain (show IsPlain '\n' by decide)] at hn ⊢
      intro _
      exact Nat.pos_of_ne_zero fun hzero => hn (congrArg some hzero) rfl
    · simp [IsOpen, State.step, hs, hline]
  | blockOpening => simp [IsOpen, State.step, hs]
  | blockComment afterStar =>
    have hslash : c ≠ '/' := by
      rintro rfl
      exact absurd hc (by decide)
    simp [IsOpen, State.step, hs, hslash]

theorem IsOpen.run_blanks (h : s.IsOpen) (hw : s.WellQuoted) (ht : Text.IsBlanks t)
    (hn : ∀ m ∈ marksFrom angles s t, m.depth = some 0 → m.char ≠ '\n') : (s.run angles t).IsOpen := by
  induction t generalizing s with
  | nil => exact h
  | cons c t ih =>
    have hfirst := hn ⟨c, (s.step angles c t.head?).2⟩ (by simp [marksFrom])
    have hstep := h.step_blank hw (ht c (by simp)) t.head? hfirst
    refine ih hstep (hw.step _) (fun d hd => ht d (by simp [hd])) ?_
    intro m hm
    exact hn m (by simp [marksFrom, hm])

end State

/-- A balanced text does not end with an opening parenthesis and blanks, unless a comment hides it that
ends with a line feed outside all brackets. -/
theorem Balanced.not_paren_blanks {w : Text} (h : Balanced angles (a ++ '(' :: w)) (hw : Text.IsBlanks w)
    (hn : ∀ m ∈ marks angles (a ++ '(' :: w), m.depth = some 0 → m.char ≠ '\n') : False := by
  have hsplit : CompletesNoComment ('(' :: w) := completesNoComment_cons (by decide) w
  have hquoted : (State.run angles {} a).WellQuoted :=
    State.WellQuoted.run (fun q hq => by simp at hq) a
  have hopen : (State.run angles (State.run angles {} a) ('(' :: w)).IsOpen := by
    refine (State.isOpen_step_paren hquoted w.head?).run_blanks (hquoted.step _) hw ?_
    intro m hm
    refine hn m ?_
    rw [marks, marksFrom_append hsplit]
    exact List.mem_append_right _ (List.mem_cons_of_mem _ hm)
  rw [← State.run_append hsplit] at hopen
  have hpos := hopen h.outside
  rw [h.depth] at hpos
  exact Nat.lt_irrefl 0 hpos

end SfcContract.Code
