import SfcContract.Code.Entry
import SfcContract.Proofs.Code.Passage
import SfcContract.Proofs.Text.Search

/-!
# Entries read back

`Layout` writes entries with separators between them, in all the ways a script may: with blanks and
further separators before, between and after them. Cutting such a text at its separators gives the
entries back, and cutting an entry at its colon gives its key and value.
-/

namespace SfcContract.Code

def IsFiller (separators : List Char) (gap : Text) : Prop :=
  ∀ c ∈ gap, Text.isBlank c = true ∨ c ∈ separators

instance (separators : List Char) (gap : Text) : Decidable (IsFiller separators gap) :=
  Text.decidableForallMem gap _

/-- A text in which the entries stand in this order, any two of them with a separator between. -/
inductive Layout (separators : List Char) : List Text → Text → Prop
  | filler {gap} : IsFiller separators gap → Layout separators [] gap
  | last {gap e} : IsFiller separators gap → Layout separators [e] (gap ++ e)
  | more {gap e c es body} : IsFiller separators gap → c ∈ separators → Layout separators es body →
      Layout separators (e :: es) (gap ++ (e ++ c :: body))

variable {angles : Angles} {separators : List Char} {s : State} {entries : List Text} {body gap t : Text}

/-- Separators that a scan passes over. -/
def AreSeparators (separators : List Char) : Prop := ∀ c ∈ separators, IsPlain c ∧ c ≠ '*'

theorem AreSeparators.completesNoComment (hs : AreSeparators separators) {c : Char} (hc : c ∈ separators)
    (t : Text) : CompletesNoComment (c :: t) := by
  refine completesNoComment_cons ⟨?_, (hs c hc).2⟩ t
  rintro rfl
  exact (hs _ hc).1 (by decide)

theorem IsFiller.append {more : Text} (hg : IsFiller separators gap) (hm : IsFiller separators more) :
    IsFiller separators (gap ++ more) := by
  intro c hc
  rcases List.mem_append.mp hc with hc | hc
  · exact hg c hc
  · exact hm c hc

theorem IsFiller.isPlain (hs : AreSeparators separators) (hg : IsFiller separators gap) :
    ∀ c ∈ gap, IsPlain c := by
  intro c hc
  rcases hg c hc with h | h
  · exact isPlain_of_isBlank h
  · exact (hs c h).1

/-- A character that is no filler stands in an entry. -/
theorem Layout.not_mem {c : Char} (h : Layout separators entries body) (hc : ¬ IsFiller separators [c])
    (he : ∀ e ∈ entries, c ∉ e) : c ∉ body := by
  have hgap {gap} (hg : IsFiller separators gap) : c ∉ gap := by
    intro hmem
    exact hc fun d hd => List.mem_singleton.mp hd ▸ hg c hmem
  induction h with
  | filler hg => exact hgap hg
  | last hg =>
    rw [List.mem_append, not_or]
    exact ⟨hgap hg, he _ (by simp)⟩
  | @more gap e d es body hg hd _ ih =>
    have hsep : c ≠ d := by
      rintro rfl
      exact hc fun d hmem => .inr (List.mem_singleton.mp hmem ▸ hd)
    have hrest := ih fun e hmem => he e (List.mem_cons_of_mem _ hmem)
    simp only [List.mem_append, List.mem_cons, not_or]
    exact ⟨hgap hg, he e List.mem_cons_self, hsep, hrest⟩

/-- What is written between two brackets is a passage when its entries are. -/
theorem Layout.passes (h : Layout separators entries body) (hs : AreSeparators separators)
    (he : ∀ e ∈ entries, Passes angles [] e) : Passes angles [] body := by
  have hgap {gap} (hg : IsFiller separators gap) : ∀ c ∈ gap, IsPlain c ∧ c ∉ ([] : List Char) :=
    fun c hc => ⟨hg.isPlain hs c hc, List.not_mem_nil⟩
  induction h with
  | filler hg => exact Passes.plain (hgap hg)
  | last hg => exact Passes.plain_append (hgap hg) (he _ (by simp))
  | more hg hc _ ih =>
    have hrest := ih fun e hmem => he e (List.mem_cons_of_mem _ hmem)
    refine Passes.plain_append (hgap hg) ?_
    refine Passes.append (he _ (by simp)) ?_ (hs.completesNoComment hc _)
    exact Passes.cons (hs _ hc).1 List.not_mem_nil hrest

def isCut (separators : List Char) (m : Mark) : Bool := m.depth == some 0 && separators.contains m.char

/-- The trimmed pieces of a marked text that are not blank. -/
def pieces (separators : List Char) (ms : List Mark) : List Text :=
  ((ms.splitOnP (isCut separators)).map fun piece => Text.trim (piece.map Mark.char)).filter (!·.isEmpty)

theorem pieces_append_cons {m : Mark} (hm : isCut separators m = true) (ms ns : List Mark) :
    pieces separators (ms ++ m :: ns) = pieces separators ms ++ pieces separators ns := by
  simp [pieces, List.splitOnP_append_cons ms ns hm]

theorem pieces_cons_of_isCut {m : Mark} (hm : isCut separators m = true) (ms : List Mark) :
    pieces separators (m :: ms) = pieces separators ms := by
  simpa [pieces, Text.trim, Text.skipBlanks, Text.trimEnd] using pieces_append_cons hm [] ms

theorem pieces_cons_of_isBlank {m : Mark} (hm : Text.isBlank m.char = true) (ms : List Mark) :
    pieces separators (m :: ms) = pieces separators ms := by
  cases hc : isCut separators m with
  | true => exact pieces_cons_of_isCut hc ms
  | false =>
    obtain ⟨p, ps, hp⟩ := List.exists_cons_of_ne_nil (List.splitOnP_ne_nil (isCut separators) ms)
    simp [pieces, List.splitOnP_cons_eq_if_modifyHead, hc, hp, Text.trim_cons_of_blank hm]

theorem pieces_of_no_cut {ms : List Mark} (hms : ∀ m ∈ ms, isCut separators m = false)
    (hne : Text.trim (ms.map Mark.char) ≠ []) :
    pieces separators ms = [Text.trim (ms.map Mark.char)] := by
  simp [pieces, List.splitOnP_eq_singleton hms, hne]

theorem pieces_filler_append (angles : Angles) (t : Text) (hs : AreSeparators separators)
    (hg : IsFiller separators gap) (h : State.AtRest 0 s) : ∃ s', State.AtRest 0 s' ∧
      pieces separators (marksFrom angles s (gap ++ t)) = pieces separators (marksFrom angles s' t) := by
  induction gap generalizing s with
  | nil => exact ⟨s, h, rfl⟩
  | cons c gap ih =>
    obtain ⟨s', hs', he⟩ := ih (fun d hd => hg d (by simp [hd])) (h.withPrev c)
    refine ⟨s', hs', ?_⟩
    rw [List.cons_append, h.marks_plain (hg.isPlain hs c (by simp)), ← he]
    rcases hg c (by simp) with hb | hc
    · exact pieces_cons_of_isBlank hb _
    · refine pieces_cons_of_isCut ?_ _
      simp [isCut, hc]

/-- A passage without separators is one piece. -/
theorem pieces_passage (ht : Passes angles separators t) (hne : Text.trim t ≠ []) (h : State.AtRest 0 s) :
    pieces separators (marksFrom angles s t) = [Text.trim t] := by
  have hcut : ∀ m ∈ marksFrom angles s t, isCut separators m = false := by
    intro m hm
    cases hd : m.depth with
    | none => simp [isCut, hd]
    | some d =>
      by_cases hz : d = 0
      · subst hz
        have hnot := (ht.above h m hm 0 hd).2 rfl
        simp [isCut, hnot]
      · simp [isCut, hd, hz]
  simpa using pieces_of_no_cut hcut (by simpa using hne)

theorem Layout.pieces_eq (hl : Layout separators entries body) (hs : AreSeparators separators)
    (he : ∀ e ∈ entries, Passes angles separators e ∧ Text.trim e ≠ []) (h : State.AtRest 0 s) :
    pieces separators (marksFrom angles s body) = entries.map Text.trim := by
  induction hl generalizing s with
  | filler hg =>
    obtain ⟨s', -, hp⟩ := pieces_filler_append angles [] hs hg h
    rw [List.append_nil] at hp
    rw [hp]
    rfl
  | last hg =>
    obtain ⟨s', hs', hp⟩ := pieces_filler_append angles _ hs hg h
    have hentry := he _ (List.mem_singleton_self _)
    rw [hp, pieces_passage hentry.1 hentry.2 hs']
    rfl
  | @more gap e c es body hg hc _ ih =>
    obtain ⟨s', hs', hp⟩ := pieces_filler_append angles (e ++ c :: body) hs hg h
    have hentry := he e List.mem_cons_self
    have hrest := hentry.1.atRest hs'
    have hcut : isCut separators ⟨c, some 0⟩ = true := by simpa [isCut] using hc
    rw [hp, marksFrom_append (hs.completesNoComment hc _), hrest.marks_plain (hs c hc).1,
      pieces_append_cons hcut, pieces_passage hentry.1 hentry.2 hs',
      ih (fun e hmem => he e (List.mem_cons_of_mem _ hmem)) (hrest.withPrev _)]
    rfl

theorem Layout.splitTop_eq (hl : Layout separators entries body) (hs : AreSeparators separators)
    (he : ∀ e ∈ entries, Passes angles separators e ∧ Text.trim e ≠ []) :
    splitTop separators angles body = entries.map Text.trim :=
  hl.pieces_eq hs he State.AtRest.initial

theorem unquote_of_quoted {q : Char} (hq : q ∈ quotes) (t : Text) : unquote (q :: t ++ [q]) = t := by
  have hfind : ∀ p, (Text.expect? p (q :: t ++ [q])).bind (Text.before? [p]) =
      if q = p then some t else none := by
    intro p
    by_cases hp : q = p
    · subst hp
      simp [Text.expect?, Text.before?_eq_some_iff]
    · simp [Text.expect?, hp]
  simp only [unquote, hfind]
  simp only [quotes, List.mem_cons, List.not_mem_nil, or_false] at hq ⊢
  rcases hq with rfl | rfl | rfl <;> rfl

theorem unquote_of_not {t : Text} (h : ∀ q ∈ quotes, ∀ r, t ≠ q :: r ++ [q]) : unquote t = t := by
  have hnone : ∀ q ∈ quotes, (Text.expect? q t).bind (Text.before? [q]) = none := by
    intro q hq
    rw [Option.bind_eq_none_iff]
    intro r hr
    rw [Text.expect?_eq_some_iff] at hr
    rw [Option.eq_none_iff_forall_ne_some]
    intro u hu
    rw [Text.before?_eq_some_iff] at hu
    exact h q hq u (by rw [hr, hu, List.cons_append])
  have hnil : quotes.filterMap (fun q => (Text.expect? q t).bind (Text.before? [q])) = [] :=
    List.filterMap_eq_nil_iff.mpr hnone
  simp [unquote, hnil]

/-- A key without a colon of its own is read up to the colon after it. -/
theorem keyValue?_of_passes {key : Text} (hk : Passes .brackets [':'] key)
    (hne : unquote (Text.trim key) ≠ []) (value : Text) :
    keyValue? (key ++ ':' :: value) = some (unquote (Text.trim key), Text.trim value) := by
  have hplain : IsPlain ':' := by decide
  have hrest := hk.atRest State.AtRest.initial
  have hmarks : marks .brackets (key ++ ':' :: value) = marksFrom .brackets {} key ++
      ⟨':', some 0⟩ :: marksFrom .brackets { State.run .brackets {} key with prev := ':' } value := by
    rw [marks, marksFrom_append (completesNoComment_cons (by decide) value), hrest.marks_plain hplain]
  have hkey : ∀ m ∈ marksFrom .brackets {} key, (!isKeyColon m) = true := by
    intro m hm
    cases hd : m.depth with
    | none => simp [isKeyColon, hd]
    | some d =>
      have hcolon := (hk.above State.AtRest.initial m hm d hd).2
      simp only [List.mem_singleton] at hcolon
      by_cases hz : d = 0
      · simp [isKeyColon, hcolon hz]
      · simp [isKeyColon, hd, hz]
  have hcolon : isKeyColon ⟨':', some 0⟩ = true := by decide
  simp [keyValue?, hmarks, List.takeWhile_append_of_pos hkey, List.dropWhile_append_of_pos hkey, hcolon, hne]

end SfcContract.Code
