import SfcContract.Proofs.Code.Entry
import SfcContract.Proofs.Text.Word

/-!
# What a cut leaves

Cutting a body takes its separators away, and the blanks around the pieces, but nothing else; and no piece
is cut again. A bracket that closes nothing may leave angle brackets open in front of a piece. So a scan of
the piece alone may run deeper than the scan that came to it, but it never finds a separator that the other
one passed.
-/

namespace SfcContract.Code

variable {angles : Angles} {separators : List Char} {s s' : State} {c : Char} {k : Nat} {t w : Text}
  {ms : List Mark}

/-- A text in pieces: the first one, and each further one behind a separator. -/
structure Cutting where
  first : Text
  rest : List (Char × Text)

namespace Cutting

def text (cut : Cutting) : Text := cut.first ++ cut.rest.flatMap fun part => part.1 :: part.2

def parts (cut : Cutting) : List Text := cut.first :: cut.rest.map Prod.snd

/-- The separators, outside all brackets, in a text that goes on with the first of them at a byte offset. -/
def placesFrom : Nat → List (Char × Text) → List CodeChar
  | _, [] => []
  | offset, (c, part) :: rest => ⟨offset, c, 0⟩ :: placesFrom (offset + c.utf8Size + Text.byteSize part) rest

def places (cut : Cutting) : List CodeChar := placesFrom (Text.byteSize cut.first) cut.rest

def ofMarks (separators : List Char) : List Mark → Cutting
  | [] => ⟨[], []⟩
  | m :: ms =>
    let cut := ofMarks separators ms
    if isCut separators m then ⟨[], (m.char, cut.first) :: cut.rest⟩ else ⟨m.char :: cut.first, cut.rest⟩

theorem text_ofMarks (separators : List Char) (ms : List Mark) :
    (ofMarks separators ms).text = ms.map Mark.char := by
  induction ms with
  | nil => rfl
  | cons m ms ih =>
    rw [List.map_cons, ← ih, ofMarks]
    cases isCut separators m <;> rfl

theorem parts_ofMarks (separators : List Char) (ms : List Mark) :
    (ofMarks separators ms).parts = (ms.splitOnP (isCut separators)).map fun piece => piece.map Mark.char := by
  induction ms with
  | nil => rfl
  | cons m ms ih =>
    rw [List.splitOnP_cons_eq_if_modifyHead, ofMarks]
    cases isCut separators m with
    | true => exact congrArg ([] :: ·) ih
    | false =>
      obtain ⟨piece, pieces, hp⟩ := List.exists_cons_of_ne_nil (List.splitOnP_ne_nil (isCut separators) ms)
      rw [hp, parts, List.map_cons, List.cons.injEq] at ih
      simp only [Bool.false_eq_true, if_false, hp, List.modifyHead_cons, List.map_cons, parts, ih]

/-- The places of the separators are those at which code is outside all brackets. -/
theorem placesFrom_ofMarks (separators : List Char) (offset : Nat) (ms : List Mark) :
    (codeCharsFrom offset ms).filter (fun c => c.depth = 0 ∧ c.char ∈ separators) =
      placesFrom (offset + Text.byteSize (ofMarks separators ms).first) (ofMarks separators ms).rest := by
  induction ms generalizing offset with
  | nil => rfl
  | cons m ms ih =>
    obtain ⟨c, depth⟩ := m
    have hrest := ih (offset + c.utf8Size)
    cases depth with
    | none =>
      simp only [codeCharsFrom, ofMarks, isCut, hrest]
      simp [Text.byteSize, Nat.add_assoc]
    | some d =>
      by_cases hcut : d = 0 ∧ c ∈ separators
      · obtain ⟨rfl, hc⟩ := hcut
        simp only [codeCharsFrom, ofMarks, isCut, List.filter_cons, hrest]
        simp [hc, placesFrom, Text.byteSize]
      · have hnot : isCut separators ⟨c, some d⟩ = false := by simpa [isCut] using hcut
        simp only [codeCharsFrom, ofMarks, hnot, List.filter_cons, hcut, hrest]
        simp [Text.byteSize, Nat.add_assoc]

end Cutting

/-- A character before which neither an angle bracket nor an arrow can be told to begin. -/
def IsNeutral (c : Char) : Prop := (Text.isAsciiWord c || c == '$') = false ∧ c ≠ '='

instance (c : Char) : Decidable (IsNeutral c) := inferInstanceAs (Decidable (_ ∧ _))

theorem isNeutral_of_isBlank (hc : Text.isBlank c = true) : IsNeutral c := by
  have hword : Text.isAsciiWord c = false := by
    cases hw : Text.isAsciiWord c with
    | false => rfl
    | true => exact absurd (Text.isWord_of_isAsciiWord hw) (by simp [Text.isWord_of_isBlank hc])
  constructor
  · rw [hword, Bool.false_or, beq_eq_false_iff_ne]
    rintro rfl
    exact absurd hc (by decide)
  · rintro rfl
    exact absurd hc (by decide)

/-- One scan never runs deeper than another, since it has more angle brackets to close. -/
structure State.NoDeeper (s s' : State) : Prop where
  mode : s'.mode = s.mode
  depth : s.depth ≤ s'.depth
  angleDepth : s'.angleDepth ≤ s.angleDepth
  word : (Text.isAsciiWord s'.prev || s'.prev == '$') = (Text.isAsciiWord s.prev || s.prev == '$')
  arrow : (s'.prev != '=') = (s.prev != '=')

namespace State.NoDeeper

/-- At depth zero a scan is as good as a new one. -/
theorem of_isNeutral (hm : s.mode = .code) (hd : s.depth = 0) (hc : IsNeutral c) :
    NoDeeper { s with prev := c } {} :=
  ⟨hm.symm, Nat.le_of_eq hd, Nat.zero_le _, hc.1.symm, by simpa using hc.2⟩

theorem depth_eq (h : NoDeeper s {}) : s.depth = 0 := Nat.le_zero.mp h.depth

theorem withMode (h : NoDeeper s s') (m : Mode) : NoDeeper { s with mode := m } { s' with mode := m } :=
  ⟨rfl, h.depth, h.angleDepth, h.word, h.arrow⟩

theorem opens (h : NoDeeper s s') : s'.opens angles c = s.opens angles c := by
  cases angles <;> simp [State.opens, h.word]

theorem closes (h : NoDeeper s s') (hc : s'.closes angles c = true) : s.closes angles c = true := by
  have hangle := h.angleDepth
  by_cases hsign : c = '>'
  · subst hsign
    cases angles with
    | ignore => simp [State.closes] at hc
    | brackets => simpa [State.closes, h.arrow] using hc
    | generic =>
      simp only [State.closes, if_true, h.arrow, Bool.and_eq_true, decide_eq_true_eq] at hc ⊢
      exact ⟨hc.1, Nat.lt_of_lt_of_le hc.2 hangle⟩
  · simpa [State.closes, hsign] using hc

/-- Only an angle bracket that one scan alone has open is closed by one scan alone. -/
theorem angleDepth_eq_zero (h : NoDeeper s s') (hc : s.closes angles c = true) (hc' : s'.closes angles c = false) :
    s'.angleDepth = 0 := by
  by_cases hsign : c = '>'
  · subst hsign
    cases angles with
    | ignore => simp [State.closes] at hc
    | brackets =>
      simp only [State.closes, if_true, h.arrow] at hc hc'
      rw [hc] at hc'
      cases hc'
    | generic =>
      simp only [State.closes, if_true, h.arrow, Bool.and_eq_true] at hc hc'
      simpa [hc.1] using hc'
  · simp only [State.closes, hsign, if_false] at hc hc'
    rw [hc] at hc'
    cases hc'

theorem stepCode (h : NoDeeper s s') (angles : Angles) (c : Char) :
    NoDeeper (s.stepCode angles c).1 (s'.stepCode angles c).1 ∧
      (s.stepCode angles c).2 ≤ (s'.stepCode angles c).2 := by
  have hdepth := h.depth
  have hangle := h.angleDepth
  cases ho : s.opens angles c with
  | true =>
    simp only [State.stepCode, h.opens, ho, if_true]
    exact ⟨⟨h.mode, Nat.succ_le_succ hdepth, by simp only; split <;> omega, rfl, rfl⟩, hdepth⟩
  | false =>
    cases hl : s.closes angles c with
    | false =>
      have hl' : s'.closes angles c = false := Bool.eq_false_iff.mpr fun hc => by simp [h.closes hc] at hl
      simp only [State.stepCode, h.opens, ho, hl, hl', Bool.false_eq_true, if_false]
      exact ⟨⟨h.mode, hdepth, hangle, rfl, rfl⟩, hdepth⟩
    | true =>
      cases hl' : s'.closes angles c with
      | true =>
        simp only [State.stepCode, h.opens, ho, hl, hl', Bool.false_eq_true, if_false, if_true]
        exact ⟨⟨h.mode, Nat.sub_le_sub_right hdepth 1, by simp only; split <;> omega, rfl, rfl⟩,
          Nat.sub_le_sub_right hdepth 1⟩
      | false =>
        have hzero := h.angleDepth_eq_zero hl hl'
        simp only [State.stepCode, h.opens, ho, hl, hl', Bool.false_eq_true, if_false, if_true]
        exact ⟨⟨h.mode, by simp only; omega, by simp only [hzero]; exact Nat.zero_le _, rfl, rfl⟩, by omega⟩

theorem step (h : NoDeeper s s') (angles : Angles) (c : Char) (next : Option Char) :
    NoDeeper (s.step angles c next).1 (s'.step angles c next).1 ∧
      ((s'.step angles c next).2 = some 0 → (s.step angles c next).2 = some 0) := by
  have hquote : NoDeeper { s with mode := .quoted c, prev := c } { s' with mode := .quoted c, prev := c } :=
    ⟨rfl, h.depth, h.angleDepth, rfl, rfl⟩
  have hstep : NoDeeper (s.step angles c next).1 (s'.step angles c next).1 ∧
      Option.Rel (· ≤ ·) (s.step angles c next).2 (s'.step angles c next).2 :=
    State.step_rel h.mode h.withMode hquote (fun _ => (h.withMode .code).stepCode angles c) next
  refine ⟨hstep.1, ?_⟩
  obtain ⟨-, hdepth⟩ := hstep
  generalize (s.step angles c next).2 = d, (s'.step angles c next).2 = d' at hdepth ⊢
  cases hdepth with
  | none => exact id
  | some hle =>
    rw [Option.some.injEq, Option.some.injEq]
    exact fun hzero => Nat.le_zero.mp (hzero ▸ hle)

/-- Where one scan finds no separator, neither does a scan that runs deeper. -/
theorem no_cut (h : NoDeeper s s') (ht : ∀ m ∈ marksFrom angles s t, isCut separators m = false) :
    ∀ m ∈ marksFrom angles s' t, isCut separators m = false := by
  induction t generalizing s s' with
  | nil => exact ht
  | cons c t ih =>
    obtain ⟨hnext, hzero⟩ := h.step angles c t.head?
    rw [marksFrom, List.forall_mem_cons] at ht ⊢
    refine ⟨?_, ih hnext ht.2⟩
    simp only [isCut, Bool.and_eq_false_imp, beq_iff_eq] at ht ⊢
    exact fun hd => ht.1 (hzero hd)

theorem marksFrom_blanks_append (h : NoDeeper s {}) (angles : Angles) (hw : Text.IsBlanks w) (t : Text) :
    ∃ s' ms, NoDeeper s' {} ∧ marksFrom angles s (w ++ t) = ms ++ marksFrom angles s' t := by
  induction w generalizing s with
  | nil => exact ⟨s, [], h, rfl⟩
  | cons c w ih =>
    have hc := hw c List.mem_cons_self
    have hm : s.mode = .code := h.mode.symm
    have hnext : NoDeeper { s with prev := c } {} := of_isNeutral hm h.depth_eq (isNeutral_of_isBlank hc)
    obtain ⟨s', ms, hs', hmarks⟩ := ih hnext fun d hd => hw d (List.mem_cons_of_mem _ hd)
    refine ⟨s', ⟨c, some s.depth⟩ :: ms, hs', ?_⟩
    rw [List.cons_append, marksFrom, State.step_plain hm (isPlain_of_isBlank hc), hmarks, List.cons_append]

end State.NoDeeper

/-- A plain character of code is outside literals and comments, and the scan goes on there. -/
theorem State.step_plain_eq_some (hc : IsPlain c) {next : Option Char} (h : (s.step angles c next).2 = some k) :
    (s.step angles c next).1 = { s with mode := .code, prev := c } ∧ s.depth = k := by
  cases hs : s.mode with
  | code =>
    obtain ⟨mode, depth, angleDepth, prev⟩ := s
    obtain rfl : mode = .code := hs
    rw [State.step_plain rfl hc] at h ⊢
    exact ⟨rfl, Option.some.inj h⟩
  | lineComment =>
    simp only [State.step, hs, State.stepCode_plain hc] at h ⊢
    split at h
    · next hline =>
      rw [if_pos hline]
      exact ⟨rfl, Option.some.inj h⟩
    · cases h
  | quoted q =>
    simp only [State.step, hs] at h
    split_ifs at h
  | escaped q => simp [State.step, hs] at h
  | blockOpening => simp [State.step, hs] at h
  | blockComment afterStar =>
    simp only [State.step, hs] at h
    split_ifs at h

/-- Marks without a separator, of a scan that is as good as a new one. -/
def IsPiece (angles : Angles) (separators : List Char) (ms : List Mark) : Prop :=
  ∃ s t, State.NoDeeper s {} ∧ ms = marksFrom angles s t ∧ ∀ m ∈ ms, isCut separators m = false

/-- Separators that move no scan and stand before anything. -/
def AreNeutral (separators : List Char) : Prop := AreSeparators separators ∧ ∀ c ∈ separators, IsNeutral c

/-- A scan is cut into a first piece and others that were scanned as if anew. -/
theorem splitOnP_marksFrom (hs : AreNeutral separators) (s : State) (t : Text) : ∃ first u rest,
    t = first ++ u ∧ CompletesNoComment u ∧
    (marksFrom angles s t).splitOnP (isCut separators) = marksFrom angles s first :: rest ∧
    (∀ m ∈ marksFrom angles s first, isCut separators m = false) ∧ ∀ ms ∈ rest, IsPiece angles separators ms := by
  induction t generalizing s with
  | nil => exact ⟨[], [], [], rfl, by simp [CompletesNoComment], rfl, by simp [marksFrom], by simp⟩
  | cons c t ih =>
    obtain ⟨first, u, rest, rfl, hu, hsplit, hfirst, hrest⟩ := ih (s.step angles c t.head?).1
    rw [marksFrom, List.splitOnP_cons_eq_if_modifyHead, hsplit]
    cases hcut : isCut separators ⟨c, (s.step angles c (first ++ u).head?).2⟩ with
    | true =>
      obtain ⟨hdepth, hc⟩ : (s.step angles c (first ++ u).head?).2 = some 0 ∧ c ∈ separators := by
        simpa [isCut] using hcut
      obtain ⟨hnext, hzero⟩ := State.step_plain_eq_some (hs.1 c hc).1 hdepth
      refine ⟨[], c :: (first ++ u), marksFrom angles (s.step angles c (first ++ u).head?).1 first :: rest, rfl,
        hs.1.completesNoComment hc _, rfl, by simp [marksFrom], ?_⟩
      rw [List.forall_mem_cons]
      refine ⟨⟨_, first, ?_, rfl, hfirst⟩, hrest⟩
      rw [hnext]
      exact State.NoDeeper.of_isNeutral (s := { s with mode := .code }) rfl hzero (hs.2 c hc)
    | false =>
      -- What the scan sees ahead is the same when the text ends with the piece.
      have hahead : s.step angles c (first ++ u).head? = s.step angles c first.head? := by
        cases first with
        | nil => exact State.step_next hu (by simp)
        | cons d first => rfl
      refine ⟨c :: first, u, rest, rfl, hu, ?_, ?_, hrest⟩
      · rw [marksFrom, hahead]
        rfl
      · rw [marksFrom, ← hahead, List.forall_mem_cons]
        exact ⟨hcut, hfirst⟩

theorem isPiece_of_mem_splitOnP (hs : AreNeutral separators) (h : State.NoDeeper s {})
    (hms : ms ∈ (marksFrom angles s t).splitOnP (isCut separators)) : IsPiece angles separators ms := by
  obtain ⟨first, u, rest, -, -, hsplit, hfirst, hrest⟩ := splitOnP_marksFrom hs s t
  rw [hsplit] at hms
  rcases List.mem_cons.mp hms with rfl | hms
  · exact ⟨s, first, h, rfl, hfirst⟩
  · exact hrest ms hms

theorem IsPiece.splitTop_trim (h : IsPiece angles separators ms) (hne : Text.trim (ms.map Mark.char) ≠ []) :
    splitTop separators angles (Text.trim (ms.map Mark.char)) = [Text.trim (ms.map Mark.char)] := by
  obtain ⟨s, t, hs, rfl, hcut⟩ := h
  rw [map_char_marksFrom] at hne ⊢
  obtain ⟨w, w', hw, hw', ht⟩ := Text.exists_blanks_append_trim t
  obtain ⟨s', ms, hs', hmarks⟩ := hs.marksFrom_blanks_append angles hw (Text.trim t ++ w')
  have hinner : ∀ m ∈ marksFrom angles s' (Text.trim t), isCut separators m = false := by
    intro m hm
    refine hcut m ?_
    rw [ht, hmarks, marksFrom_append (completesNoComment_of_isBlanks hw')]
    exact List.mem_append_right _ (List.mem_append_left _ hm)
  have halone : ∀ m ∈ marks angles (Text.trim t), isCut separators m = false := hs'.no_cut hinner
  have hpieces := pieces_of_no_cut halone
  rw [marks, map_char_marksFrom, Text.trim_trim] at hpieces
  exact hpieces hne

/-- Cutting loses nothing but the separators outside all brackets and the blanks around the pieces, and cutting
once is enough. -/
theorem splitTop_isLossless (hs : ∀ c ∈ separators, c ∈ [';', ',', '\n']) (angles : Angles) (body : Text) :
    (∃ cut : Cutting, cut.text = body ∧
      cut.places = (codeChars angles body).filter (fun c => c.depth = 0 ∧ c.char ∈ separators) ∧
      splitTop separators angles body = (cut.parts.map Text.trim).filter (!·.isEmpty)) ∧
    ∀ piece ∈ splitTop separators angles body, splitTop separators angles piece = [piece] := by
  have hneutral : AreNeutral separators := by
    have hall : ∀ c ∈ [';', ',', '\n'], (IsPlain c ∧ c ≠ '*') ∧ IsNeutral c := by decide
    exact ⟨fun c hc => (hall c (hs c hc)).1, fun c hc => (hall c (hs c hc)).2⟩
  constructor
  · refine ⟨Cutting.ofMarks separators (marks angles body), ?_, ?_, ?_⟩
    · rw [Cutting.text_ofMarks, marks, map_char_marksFrom]
    · rw [codeChars, Cutting.placesFrom_ofMarks, Nat.zero_add]
      rfl
    · rw [Cutting.parts_ofMarks, List.map_map]
      rfl
  · intro piece hpiece
    obtain ⟨hmem, hne⟩ := List.mem_filter.mp hpiece
    obtain ⟨ms, hms, rfl⟩ := List.mem_map.mp hmem
    have hstart : State.NoDeeper {} {} := ⟨rfl, Nat.le_refl 0, Nat.le_refl 0, rfl, rfl⟩
    exact (isPiece_of_mem_splitOnP hneutral hstart hms).splitTop_trim (by simpa using hne)

/-- The angle bracket of `a<` is still open behind the braces, so the one of `b > c` closes the parenthesis. -/
theorem splitTop_isLossless_unbalanced :
    splitTop [';', ',', '\n'] .generic "a<\x7b\x7d\x7d], (b > c, ';') ,\n; d".toList =
        ["a<\x7b\x7d\x7d]".toList, "(b > c".toList, "';')".toList, "d".toList] ∧
      ∀ piece ∈ splitTop [';', ',', '\n'] .generic "a<\x7b\x7d\x7d], (b > c, ';') ,\n; d".toList,
        splitTop [';', ',', '\n'] .generic piece = [piece] :=
  ⟨by decide +kernel, (splitTop_isLossless (by decide) .generic _).2⟩

/-- Behind a neutral character outside all brackets, a scan with no angle bracket open is as good as a new one in
every respect. -/
theorem State.AtRest.alike (h : AtRest 0 s) (hc : IsNeutral c) (angles : Angles) :
    Alike angles {} { s with prev := c } := by
  obtain ⟨mode, depth, angleDepth, prev⟩ := s
  obtain ⟨rfl, rfl, rfl⟩ : mode = .code ∧ depth = 0 ∧ angleDepth = 0 := ⟨h.mode, h.depth, h.angleDepth⟩
  have harrow : (c != '=') = true := by simpa using hc.2
  refine ⟨⟨c, rfl⟩, fun d => ?_, fun d => ?_⟩
  · simp only [State.opens, hc.1]
    rfl
  · simp only [State.closes, harrow]
    rfl

/-- A scan that comes to rest in front of a separator starts anew behind it. -/
theorem marks_append_cons {a : Text} (hc : IsPlain c ∧ c ≠ '*') (hn : IsNeutral c)
    (ha : (State.run angles {} a).AtRest 0) (b : Text) :
    marks angles (a ++ c :: b) = marks angles a ++ ⟨c, some 0⟩ :: marks angles b := by
  have hslash : c ≠ '/' := by
    rintro rfl
    exact hc.1 (by decide)
  rw [marks, marksFrom_append (completesNoComment_cons ⟨hslash, hc.2⟩ b), ha.marks_plain hc.1,
    ((ha.alike hn angles).run b).2]
  rfl

/-- What stands in front of a separator and what stands behind it are cut as if the other were not there. -/
theorem splitTop_append_separator {a : Text} (hs : ∀ c ∈ separators, c ∈ [';', ',', '\n']) (hc : c ∈ separators)
    (ha : (State.run angles {} a).AtRest 0) (b : Text) :
    splitTop separators angles (a ++ c :: b) = splitTop separators angles a ++ splitTop separators angles b := by
  have hall : ∀ d ∈ [';', ',', '\n'], (IsPlain d ∧ d ≠ '*') ∧ IsNeutral d := by decide
  obtain ⟨hplain, hneutral⟩ := hall c (hs c hc)
  have hcut : isCut separators ⟨c, some 0⟩ = true := by simpa [isCut] using hc
  have hpieces := pieces_append_cons hcut (marks angles a) (marks angles b)
  rwa [← marks_append_cons hplain hneutral ha b] at hpieces

/-- The comma keeps the sign in front of it and the angle bracket behind it from making an arrow. -/
theorem splitTop_append_separator_arrow : (State.run .brackets {} "f(';') =".toList).AtRest 0 ∧
    splitTop [';', ',', '\n'] .brackets "f(';') =,> g; /* , */ h".toList =
      ["f(';') =".toList, "> g".toList, "/* , */ h".toList] := by
  have ha : (State.run .brackets {} "f(';') =".toList).AtRest 0 := ⟨by decide, by decide, by decide⟩
  have happend := splitTop_append_separator (by decide : ∀ c ∈ [';', ',', '\n'], c ∈ [';', ',', '\n'])
    (by decide : ',' ∈ [';', ',', '\n']) ha "> g; /* , */ h".toList
  exact ⟨ha, happend.trans (by decide +kernel)⟩

end SfcContract.Code
