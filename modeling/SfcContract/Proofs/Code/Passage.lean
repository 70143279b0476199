import SfcContract.Code.Bracket
import SfcContract.Proofs.Code.Scan

/-!
# Passages

A passage is a text that a scan leaves at the depth at which it came, without going below that depth. It
is what may stand between two brackets, and what may stand between two separators when it holds none of
them at its own depth.
-/

namespace SfcContract.Code

variable {angles : Angles} {avoid : List Char} {s : State} {c q : Char} {k : Nat} {a b t : Text}

/-- The scan stands in code, at depth `k` and with no angle bracket open. -/
structure State.AtRest (k : Nat) (s : State) : Prop where
  mode : s.mode = .code
  depth : s.depth = k
  angleDepth : s.angleDepth = 0

namespace State.AtRest

theorem initial : AtRest 0 {} := ⟨rfl, rfl, rfl⟩

theorem withPrev (h : AtRest k s) (c : Char) : AtRest k { s with prev := c } :=
  ⟨h.mode, h.depth, h.angleDepth⟩

theorem run_plain (h : AtRest k s) (hc : IsPlain c) (t : Text) :
    s.run angles (c :: t) = { s with prev := c }.run angles t := by
  rw [State.run, State.step_plain h.mode hc]

theorem marks_plain (h : AtRest k s) (hc : IsPlain c) (t : Text) :
    marksFrom angles s (c :: t) = ⟨c, some k⟩ :: marksFrom angles { s with prev := c } t := by
  rw [marksFrom, State.step_plain h.mode hc, ← h.depth]

theorem deeper (h : AtRest k s) (hw : (Text.isAsciiWord c || c == '$') = false) (ha : c ≠ '=') :
    Deeper k {} { s with prev := c } :=
  ⟨h.mode, by simp [h.depth], h.angleDepth, hw, by simpa using ha⟩

end State.AtRest

/-- What stands between the quotes of a literal. A backslash hides the character after it. -/
inductive Escaped (q : Char) : Text → Prop
  | nil : Escaped q []
  | char {c : Char} {t : Text} : c ≠ '\\' → c ≠ q → Escaped q t → Escaped q (c :: t)
  | escape {c : Char} {t : Text} : Escaped q t → Escaped q ('\\' :: c :: t)

namespace Escaped

theorem of_forall (ha : ∀ c ∈ a, c ≠ '\\' ∧ c ≠ q) : Escaped q a := by
  induction a with
  | nil => exact nil
  | cons c a ih =>
    obtain ⟨hslash, hquote⟩ := ha c List.mem_cons_self
    exact char hslash hquote (ih fun d hd => ha d (List.mem_cons_of_mem _ hd))

/-- A scan sees nothing of it, and is in the literal behind it as before it. -/
theorem scan (ha : Escaped q a) (angles : Angles) (hs : s.mode = .quoted q) (b : Text) :
    s.run angles (a ++ b) = s.run angles b ∧
      marksFrom angles s (a ++ b) = a.map (fun c => ⟨c, none⟩) ++ marksFrom angles s b := by
  obtain ⟨mode, depth, angleDepth, prev⟩ := s
  obtain rfl : mode = .quoted q := hs
  induction ha with
  | nil => exact ⟨rfl, rfl⟩
  | char hslash hquote _ ih => simp [State.run, marksFrom, State.step, hslash, hquote, ih]
  | escape _ ih => simp [State.run, marksFrom, State.step, ih]

/-- A scan comes out of a literal as it went in, but for the last character. -/
theorem literal_scan (ha : Escaped q a) (hq : q ∈ quotes) (hs : s.mode = .code) (b : Text) :
    s.run angles (q :: a ++ q :: b) = { s with prev := q }.run angles b ∧
      marksFrom angles s (q :: a ++ q :: b) =
        (q :: a ++ [q]).map (fun c => ⟨c, none⟩) ++ marksFrom angles { s with prev := q } b := by
  obtain ⟨mode, depth, angleDepth, prev⟩ := s
  obtain rfl : mode = .code := hs
  have hslash : q ≠ '\\' := by
    rintro rfl
    simp [quotes] at hq
  have hinner := ha.scan angles (s := { mode := .quoted q, depth, angleDepth, prev := q }) rfl (q :: b)
  simp [State.run, marksFrom, State.step, hq, hinner, hslash]

end Escaped

/-- A text that can be passed at rest, with no character of `avoid` at the depth around it. -/
structure Passes (angles : Angles) (avoid : List Char) (t : Text) : Prop where
  atRest : ∀ {k s}, State.AtRest k s → State.AtRest k (s.run angles t)
  above : ∀ {k s}, State.AtRest k s → ∀ m ∈ marksFrom angles s t, ∀ d, m.depth = some d →
    k ≤ d ∧ (d = k → m.char ∉ avoid)

namespace Passes

theorem nil : Passes angles avoid [] where
  atRest h := h
  above _ m hm := by simp [marksFrom] at hm

theorem append (ha : Passes angles avoid a) (hb : Passes angles avoid b) (hn : CompletesNoComment b) :
    Passes angles avoid (a ++ b) where
  atRest h := by
    rw [State.run_append hn]
    exact hb.atRest (ha.atRest h)
  above h m hm := by
    rw [marksFrom_append hn] at hm
    rcases List.mem_append.mp hm with hm | hm
    · exact ha.above h m hm
    · exact hb.above (ha.atRest h) m hm

/-- A plain character in front changes nothing, whatever it stands before. -/
theorem cons (hc : IsPlain c) (ha : c ∉ avoid) (ht : Passes angles avoid t) :
    Passes angles avoid (c :: t) where
  atRest h := by
    rw [h.run_plain hc]
    exact ht.atRest (h.withPrev c)
  above {k s} h m hm := by
    rw [h.marks_plain hc] at hm
    rcases List.mem_cons.mp hm with rfl | hm
    · intro d hd
      obtain rfl : k = d := by simpa using hd
      exact ⟨Nat.le_refl k, fun _ => ha⟩
    · exact ht.above (h.withPrev c) m hm

theorem plain_append (ha : ∀ c ∈ a, IsPlain c ∧ c ∉ avoid) (hb : Passes angles avoid b) :
    Passes angles avoid (a ++ b) := by
  induction a with
  | nil => exact hb
  | cons c a ih =>
    have hc := ha c (by simp)
    exact cons hc.1 hc.2 (ih fun d hd => ha d (by simp [hd]))

theorem plain (ha : ∀ c ∈ a, IsPlain c ∧ c ∉ avoid) : Passes angles avoid a := by
  simpa using plain_append ha (b := []) nil

theorem literal_append (hq : q ∈ quotes) (ha : Escaped q a) (hb : Passes angles avoid b) :
    Passes angles avoid (q :: a ++ q :: b) where
  atRest h := by
    rw [(ha.literal_scan hq h.mode b).1]
    exact hb.atRest (h.withPrev q)
  above h m hm := by
    rw [(ha.literal_scan hq h.mode b).2] at hm
    rcases List.mem_append.mp hm with hm | hm
    · obtain ⟨d, -, rfl⟩ := List.mem_map.mp hm
      simp
    · exact hb.above (h.withPrev q) m hm

theorem quoted_append (hq : q ∈ quotes) (ha : ∀ c ∈ a, c ≠ '\\' ∧ c ≠ q) (hb : Passes angles avoid b) :
    Passes angles avoid (q :: a ++ q :: b) := literal_append hq (.of_forall ha) hb

/-- A balanced text after a colon: neither sees what precedes it. -/
theorem colon_cons (ht : Balanced angles t) (hn : ∀ m ∈ marks angles t, m.depth = some 0 → m.char ∉ avoid)
    (hc : ':' ∉ avoid) : Passes angles avoid (':' :: t) := by
  have hplain : IsPlain ':' := by decide
  have hdeeper {k s} (h : State.AtRest k s) : State.Deeper k {} { s with prev := ':' } :=
    h.deeper (by decide) (by decide)
  constructor
  · intro k s h
    rw [h.run_plain hplain]
    have hrun := ((hdeeper h).run ht.staysOpen).1
    exact ⟨hrun.mode.trans ht.outside, by rw [hrun.depth, ht.depth, Nat.zero_add],
      hrun.angleDepth.trans ht.angleDepth⟩
  · intro k s h m hm
    rw [h.marks_plain hplain, ((hdeeper h).run ht.staysOpen).2] at hm
    rcases List.mem_cons.mp hm with rfl | hm
    · intro d hd
      obtain rfl : k = d := by simpa using hd
      exact ⟨Nat.le_refl k, fun _ => hc⟩
    · obtain ⟨n, hmem, rfl⟩ := List.mem_map.mp hm
      intro d hd
      obtain ⟨e, he, rfl⟩ := Option.map_eq_some_iff.mp hd
      refine ⟨by omega, fun hk => hn n hmem ?_⟩
      rw [he, show e = 0 by omega]

end Passes

/-- What every step keeps of two scans, and marks alike, a whole text keeps. -/
theorem State.run_of_step {R : State → State → Prop} {s s' : State}
    (hstep : ∀ {s s' : State} (c : Char) (next : Option Char), R s s' →
      R (s.step angles c next).1 (s'.step angles c next).1 ∧ (s'.step angles c next).2 = (s.step angles c next).2)
    (h : R s s') (t : Text) :
    R (s.run angles t) (s'.run angles t) ∧ marksFrom angles s' t = marksFrom angles s t := by
  induction t generalizing s s' with
  | nil => exact ⟨h, rfl⟩
  | cons c t ih =>
    obtain ⟨hnext, hmark⟩ := hstep c t.head? h
    obtain ⟨hrun, hmarks⟩ := ih hnext
    refine ⟨hrun, ?_⟩
    rw [marksFrom, hmark, hmarks, marksFrom]

/-- Two scans that differ at most in the last character, where no bracket can tell them apart. -/
structure State.Alike (angles : Angles) (s s' : State) : Prop where
  withPrev : ∃ p, s' = { s with prev := p }
  opens : ∀ c, s'.opens angles c = s.opens angles c
  closes : ∀ c, s'.closes angles c = s.closes angles c

namespace State.Alike

theorem refl (angles : Angles) (s : State) : Alike angles s s := ⟨⟨s.prev, rfl⟩, fun _ => rfl, fun _ => rfl⟩

/-- Where `<` and `>` are ordinary, nothing depends on the last character. -/
theorem ignore (s : State) (p : Char) : Alike .ignore s { s with prev := p } :=
  ⟨⟨p, rfl⟩, fun _ => rfl, fun c => by simp [State.closes]⟩

variable {s' : State}

theorem withMode (h : Alike angles s s') (m : Mode) : Alike angles { s with mode := m } { s' with mode := m } := by
  obtain ⟨p, rfl⟩ := h.withPrev
  exact ⟨⟨p, rfl⟩, h.opens, h.closes⟩

/-- A character of code makes them one, since it is now the last character of both. -/
theorem stepCode_eq (h : Alike angles s s') (c : Char) : s'.stepCode angles c = s.stepCode angles c := by
  obtain ⟨p, rfl⟩ := h.withPrev
  simp only [State.stepCode, h.opens, h.closes]

theorem step (h : Alike angles s s') (c : Char) (next : Option Char) :
    Alike angles (s.step angles c next).1 (s'.step angles c next).1 ∧
      (s'.step angles c next).2 = (s.step angles c next).2 := by
  obtain ⟨p, hp⟩ := h.withPrev
  have hquote : Alike angles { s with mode := .quoted c, prev := c } { s' with mode := .quoted c, prev := c } := by
    rw [hp]
    exact refl _ _
  have hcode := (h.withMode .code).stepCode_eq c
  have hstep : Alike angles (s.step angles c next).1 (s'.step angles c next).1 ∧
      Option.Rel (fun d d' => d' = id d) (s.step angles c next).2 (s'.step angles c next).2 :=
    State.step_rel (by rw [hp]) h.withMode hquote (fun _ => hcode ▸ ⟨refl _ _, rfl⟩) next
  refine ⟨hstep.1, ?_⟩
  rw [eq_map_of_rel hstep.2, Option.map_id_apply]

theorem run (h : Alike angles s s') (t : Text) :
    Alike angles (s.run angles t) (s'.run angles t) ∧ marksFrom angles s' t = marksFrom angles s t :=
  State.run_of_step (fun c next h => h.step c next) h t

end State.Alike

/-- Literals and comments are the same for every reading of angle brackets. -/
theorem State.mode_run {angles' : Angles} {s s' : State} (h : s'.mode = s.mode) (t : Text) :
    (s'.run angles' t).mode = (s.run angles t).mode := by
  induction t generalizing s s' with
  | nil => exact h
  | cons c t ih =>
    apply ih
    cases hs : s.mode <;> rw [hs] at h <;> simp only [State.step, hs, h] <;> split_ifs <;> simp [hs, h]

theorem Balanced.passes (h : Balanced .ignore t) : Passes .ignore [] t := by
  have hcolon : Passes .ignore [] (':' :: t) :=
    Passes.colon_cons h (fun _ _ _ => List.not_mem_nil) List.not_mem_nil
  have hplain : IsPlain ':' := by decide
  constructor
  · intro k s hs
    obtain ⟨p, hrun⟩ := ((State.Alike.ignore { s with prev := ':' } s.prev).run t).1.withPrev
    have hrest := hcolon.atRest hs
    rw [hs.run_plain hplain] at hrest
    change State.AtRest k (({ s with prev := s.prev } : State).run .ignore t)
    rw [hrun]
    exact hrest.withPrev p
  · intro k s hs m hm
    have hmarks := ((State.Alike.ignore { s with prev := ':' } s.prev).run t).2
    apply hcolon.above hs m
    rw [hs.marks_plain hplain, ← hmarks]
    exact List.mem_cons_of_mem _ hm

theorem eq_of_isOpening (h : isOpening c = true) : c = '{' ∨ c = '(' ∨ c = '[' := by
  simpa [isOpening, or_assoc] using h

theorem eq_of_isClosing (h : isClosing c = true) : c = '}' ∨ c = ')' ∨ c = ']' := by
  simpa [isClosing, or_assoc] using h

theorem completesNoComment_of_isClosing (h : isClosing c = true) (t : Text) : CompletesNoComment (c :: t) := by
  apply completesNoComment_cons
  rcases eq_of_isClosing h with rfl | rfl | rfl <;> decide

theorem State.step_opening (h : s.mode = .code) (hc : isOpening c = true) (next : Option Char) :
    s.step angles c next = ({ s with depth := s.depth + 1, prev := c }, some s.depth) := by
  rcases eq_of_isOpening hc with rfl | rfl | rfl <;>
    simp [State.step, h, quotes, State.stepCode, State.opens, isOpening]

theorem State.step_closing (h : s.mode = .code) (hc : isClosing c = true) (next : Option Char) :
    s.step angles c next = ({ s with depth := s.depth - 1, prev := c }, some (s.depth - 1)) := by
  rcases eq_of_isClosing hc with rfl | rfl | rfl <;>
    simp [State.step, h, quotes, State.stepCode, State.opens, State.closes, isOpening, isClosing]

/-- Two brackets, around a text that is scanned at rest from behind the first one to before the second, and
in front of a passage. -/
private theorem bracketed_append_of {opening closing : Char} (ho : isOpening opening = true ∧ opening ∉ avoid)
    (hc : isClosing closing = true ∧ closing ∉ avoid)
    (ha : ∀ {k s}, State.AtRest k s → State.AtRest k (({ s with prev := opening } : State).run angles a) ∧
      ∀ m ∈ marksFrom angles { s with prev := opening } a, ∀ d, m.depth = some d → k ≤ d)
    (hb : Passes angles avoid b) : Passes angles avoid (opening :: a ++ closing :: b) := by
  have hsplit : CompletesNoComment (closing :: b) := completesNoComment_of_isClosing hc.1 b
  have hdepth {k s} (h : State.AtRest k s) : State.AtRest (k + 1) { s with depth := s.depth + 1 } :=
    ⟨h.mode, congrArg (· + 1) h.depth, h.angleDepth⟩
  have hin {k s} (h : State.AtRest k s) :
      State.AtRest (k + 1) (({ s with depth := s.depth + 1, prev := opening } : State).run angles a) :=
    (ha (hdepth h)).1
  have hout {k s} (h : State.AtRest (k + 1) s) :
      State.AtRest k { s with depth := s.depth - 1, prev := closing } :=
    ⟨h.mode, by simp [h.depth], h.angleDepth⟩
  constructor
  · intro k s h
    rw [List.cons_append, State.run, State.step_opening h.mode ho.1, State.run_append hsplit, State.run,
      State.step_closing (hin h).mode hc.1]
    exact hb.atRest (hout (hin h))
  · intro k s h m hm
    rw [List.cons_append, marksFrom, State.step_opening h.mode ho.1, marksFrom_append hsplit, marksFrom,
      State.step_closing (hin h).mode hc.1] at hm
    rcases List.mem_cons.mp hm with rfl | hm
    · intro d hd
      obtain rfl : s.depth = d := by simpa using hd
      exact ⟨Nat.le_of_eq h.depth.symm, fun _ => ho.2⟩
    rcases List.mem_append.mp hm with hm | hm
    · intro d hd
      have hle : k + 1 ≤ d := (ha (hdepth h)).2 m hm d hd
      exact ⟨by omega, fun he => by omega⟩
    rcases List.mem_cons.mp hm with rfl | hm
    · intro d hd
      have hd' : k = d := by simpa [(hin h).depth] using hd
      exact ⟨Nat.le_of_eq hd', fun _ => hc.2⟩
    · exact hb.above (hout (hin h)) m hm

/-- A passage in brackets, before another one. What it holds at its own depth is hidden. -/
theorem Passes.bracketed_append {opening closing : Char} (ho : isOpening opening = true ∧ opening ∉ avoid)
    (hc : isClosing closing = true ∧ closing ∉ avoid) (ha : Passes angles [] a)
    (hb : Passes angles avoid b) : Passes angles avoid (opening :: a ++ closing :: b) := by
  apply bracketed_append_of ho hc ?_ hb
  intro k s h
  exact ⟨ha.atRest (h.withPrev opening), fun m hm d hd => (ha.above (h.withPrev opening) m hm d hd).1⟩

/-- Behind an opening bracket, a balanced text comes to rest at its depth and keeps above it. -/
private theorem Balanced.scan_behind {opening : Char} (ho : isOpening opening = true) (ha : Balanced angles a)
    (h : State.AtRest k s) : State.AtRest k (({ s with prev := opening } : State).run angles a) ∧
      ∀ m ∈ marksFrom angles { s with prev := opening } a, ∀ d, m.depth = some d → k ≤ d := by
  have hsign : (Text.isAsciiWord opening || opening == '$') = false ∧ opening ≠ '=' := by
    rcases eq_of_isOpening ho with rfl | rfl | rfl <;> decide
  obtain ⟨hrun, hmarks⟩ := (h.deeper hsign.1 hsign.2).run ha.staysOpen
  refine ⟨⟨hrun.mode.trans ha.outside, ?_, hrun.angleDepth.trans ha.angleDepth⟩, ?_⟩
  · rw [hrun.depth, ha.depth, Nat.zero_add]
  · intro m hm d hd
    rw [hmarks] at hm
    obtain ⟨n, -, rfl⟩ := List.mem_map.mp hm
    obtain ⟨e, -, rfl⟩ := Option.map_eq_some_iff.mp hd
    exact Nat.le_add_left k e

theorem Balanced.bracketed_append {opening closing : Char} (ho : isOpening opening = true ∧ opening ∉ avoid)
    (hc : isClosing closing = true ∧ closing ∉ avoid) (ha : Balanced angles a)
    (hb : Passes angles avoid b) : Passes angles avoid (opening :: a ++ closing :: b) :=
  bracketed_append_of ho hc (ha.scan_behind ho.1) hb

theorem Balanced.prev_bracketed {opening closing : Char} (ho : isOpening opening = true)
    (hc : isClosing closing = true) (ha : Balanced angles a) (h : State.AtRest k s) :
    (s.run angles (opening :: a ++ [closing])).prev = closing := by
  have hdepth : State.AtRest (k + 1) { s with depth := s.depth + 1 } :=
    ⟨h.mode, congrArg (· + 1) h.depth, h.angleDepth⟩
  have hmode := (ha.scan_behind ho hdepth).1.mode
  rw [List.cons_append, State.run, State.step_opening h.mode ho,
    State.run_append (completesNoComment_of_isClosing hc []), State.run, State.step_closing hmode hc]
  rfl

theorem matchingClose?_opening_cons (ho : isOpening c = true) (t : Text) : matchingClose? (c :: t) =
    ((marksFrom .ignore { depth := 1, prev := c } t).findIdx? fun m => m.depth == some 0 && isClosing m.char).map
      (· + 1) := by
  have hmarks : marks .ignore (c :: t) = ⟨c, some 0⟩ :: marksFrom .ignore { depth := 1, prev := c } t := by
    rw [marks, marksFrom, State.step_opening rfl ho]
  simp only [matchingClose?, hmarks]
  simp [ho]

/-- A passage holds no bracket that closes what is open around it. -/
private theorem Passes.findIdx?_closing (ha : Passes angles avoid a) (h : State.AtRest (k + 1) s) :
    (marksFrom angles s a).findIdx? (fun m => m.depth == some 0 && isClosing m.char) = none := by
  rw [List.findIdx?_eq_none_iff]
  intro m hm
  cases hd : m.depth with
  | none => rfl
  | some d =>
    have hpos := (ha.above h m hm d hd).1
    have hne : d ≠ 0 := by omega
    simp [hne]

theorem matchingClose?_of_passes {opening closing : Char} (ho : isOpening opening = true)
    (hc : isClosing closing = true) (hb : Passes .ignore [] b) (t : Text) :
    matchingClose? (opening :: b ++ closing :: t) = some (b.length + 1) := by
  have hin : State.AtRest (0 + 1) { depth := 1, prev := opening } := ⟨rfl, rfl, rfl⟩
  have hend := hb.atRest hin
  rw [List.cons_append, matchingClose?_opening_cons ho, marksFrom_append (completesNoComment_of_isClosing hc t),
    List.findIdx?_append, hb.findIdx?_closing hin]
  simp [List.findIdx?_cons, marksFrom, State.step_closing hend.mode hc, hend.depth, hc]

theorem bracedBody?_of_passes {opening closing : Char} {body rest : Text} (ho : isOpening opening = true)
    (hc : isClosing closing = true) (hb : Passes .ignore [] body) :
    bracedBody? (opening :: body ++ closing :: rest) = some body := by
  rw [bracedBody?, matchingClose?_of_passes ho hc hb]
  simp

/-- There is no body where a passage breaks off behind its opening bracket. -/
theorem bracedBody?_eq_none_of_passes {opening : Char} (ho : isOpening opening = true)
    (hp : Passes .ignore [] (a ++ b)) (hb : CompletesNoComment b) : bracedBody? (opening :: a) = none := by
  have hin : State.AtRest (0 + 1) { depth := 1, prev := opening } := ⟨rfl, rfl, rfl⟩
  have hnone := hp.findIdx?_closing hin
  rw [marksFrom_append hb, List.findIdx?_append, Option.or_eq_none_iff] at hnone
  rw [bracedBody?, matchingClose?_opening_cons ho, hnone.1]
  rfl

/-- Where angle brackets are ordinary, a scan passes over all that is no other bracket, no quote and no sign of
a comment. -/
theorem State.step_ordinary (hs : s.mode = .code) (ho : isOpening c = false) (hc : isClosing c = false)
    (hq : c ∉ quotes) {next : Option Char} (hn : c = '/' → next ≠ some '/' ∧ next ≠ some '*') :
    s.step .ignore c next = ({ s with prev := c }, some s.depth) := by
  have hopens : s.opens .ignore c = false := by simp [opens, ho]
  have hcloses : s.closes .ignore c = false := by simp [closes, hc]
  have hline : ¬ (c = '/' ∧ next = some '/') := fun h => (hn h.1).1 h.2
  have hblock : ¬ (c = '/' ∧ next = some '*') := fun h => (hn h.1).2 h.2
  simp [step, hs, hq, hline, hblock, stepCode, hopens, hcloses]

theorem Passes.ordinary_cons (ho : isOpening c = false) (hc : isClosing c = false) (hq : c ∉ quotes)
    (hn : c = '/' → CompletesNoComment t) (ha : c ∉ avoid) (ht : Passes .ignore avoid t) :
    Passes .ignore avoid (c :: t) := by
  have hstep {k s} (h : State.AtRest k s) : s.step .ignore c t.head? = ({ s with prev := c }, some k) := by
    rw [← h.depth]
    exact State.step_ordinary h.mode ho hc hq hn
  constructor
  · intro k s h
    rw [State.run, hstep h]
    exact ht.atRest (h.withPrev c)
  · intro k s h m hm
    rw [marksFrom, hstep h] at hm
    rcases List.mem_cons.mp hm with rfl | hm
    · intro d hd
      obtain rfl : k = d := by simpa using hd
      exact ⟨Nat.le_refl k, fun _ => ha⟩
    · exact ht.above (h.withPrev c) m hm

theorem Passes.angle_cons (hc : c = '<' ∨ c = '>') (ha : c ∉ avoid) (ht : Passes .ignore avoid t) :
    Passes .ignore avoid (c :: t) := by
  rcases hc with rfl | rfl
  · exact ordinary_cons (by decide) (by decide) (by decide) (fun h => absurd h (by decide)) ha ht
  · exact ordinary_cons (by decide) (by decide) (by decide) (fun h => absurd h (by decide)) ha ht

/-- Where every `<` opens, no step depends on the number of those that are open. -/
private theorem step_brackets_withAngleDepth (s : State) (n : Nat) (c : Char) (next : Option Char) :
    ∃ n', (n ≤ s.angleDepth + 1 → n' ≤ (s.step .brackets c next).1.angleDepth + 1) ∧
      ({ s with angleDepth := n } : State).step .brackets c next =
        ({ (s.step .brackets c next).1 with angleDepth := n' }, (s.step .brackets c next).2) := by
  have hopens (m : Mode) : ({ s with mode := m, angleDepth := n } : State).opens .brackets c =
      ({ s with mode := m } : State).opens .brackets c := rfl
  have hcloses (m : Mode) : ({ s with mode := m, angleDepth := n } : State).closes .brackets c =
      ({ s with mode := m } : State).closes .brackets c := rfl
  obtain ⟨mode, depth, angleDepth, prev⟩ := s
  simp only at hopens hcloses
  cases mode with
  | code =>
    simp only [State.step, State.stepCode, hopens, hcloses]
    split_ifs <;> exact ⟨_, by simp only; omega, rfl⟩
  | lineComment =>
    simp only [State.step, State.stepCode, hopens, hcloses]
    split_ifs <;> exact ⟨_, by simp only; omega, rfl⟩
  | quoted q =>
    simp only [State.step]
    split_ifs <;> exact ⟨n, id, rfl⟩
  | escaped q => exact ⟨n, id, rfl⟩
  | blockOpening => exact ⟨n, id, rfl⟩
  | blockComment afterStar =>
    simp only [State.step]
    split_ifs <;> exact ⟨n, id, rfl⟩

theorem run_brackets_withAngleDepth (s : State) (n : Nat) (t : Text) :
    (∃ n', (n ≤ s.angleDepth + 1 → n' ≤ (s.run .brackets t).angleDepth + 1) ∧
      ({ s with angleDepth := n } : State).run .brackets t = { s.run .brackets t with angleDepth := n' }) ∧
      marksFrom .brackets { s with angleDepth := n } t = marksFrom .brackets s t := by
  apply State.run_of_step (R := fun s' s'' => ∃ n', (n ≤ s.angleDepth + 1 → n' ≤ s'.angleDepth + 1) ∧
    s'' = { s' with angleDepth := n' }) ?_ ⟨n, id, rfl⟩ t
  intro s' s'' c next h
  obtain ⟨n', hn', rfl⟩ := h
  obtain ⟨n'', hn'', hstep⟩ := step_brackets_withAngleDepth s' n' c next
  rw [hstep]
  exact ⟨⟨n'', fun hn => hn'' (hn' hn), rfl⟩, rfl⟩

private theorem step_angle_opening (h : s.mode = .code) (next : Option Char) : s.step .brackets '<' next =
    ({ s with depth := s.depth + 1, angleDepth := s.angleDepth + 1, prev := '<' }, some s.depth) := by
  simp [State.step, h, quotes, State.stepCode, State.opens]

private theorem step_angle_closing (h : s.mode = .code) (hp : s.prev ≠ '=') (next : Option Char) :
    s.step .brackets '>' next =
      ({ s with depth := s.depth - 1, angleDepth := s.angleDepth - 1, prev := '>' }, some (s.depth - 1)) := by
  simp [State.step, h, hp, quotes, State.stepCode, State.opens, State.closes, isOpening]

/-- A passage in angle brackets, before another one. Its last sign must not make an arrow of the second. -/
theorem Passes.angled_append (ho : '<' ∉ avoid) (hc : '>' ∉ avoid) (ha : Passes .brackets [] a)
    (harrow : ∀ {k s}, State.AtRest k s → (s.run .brackets a).prev ≠ '=') (hb : Passes .brackets avoid b) :
    Passes .brackets avoid ('<' :: a ++ '>' :: b) := by
  have hsplit : CompletesNoComment ('>' :: b) := completesNoComment_cons (by decide) b
  have hin {k s} (h : State.AtRest k s) : State.AtRest (k + 1) { s with depth := s.depth + 1, prev := '<' } :=
    ⟨h.mode, congrArg (· + 1) h.depth, h.angleDepth⟩
  -- The bracket that is open makes no difference inside, and is closed by the second one.
  have hscan {k s} (h : State.AtRest k s) : ∃ s', State.AtRest k s' ∧
      s.run .brackets ('<' :: a ++ '>' :: b) = s'.run .brackets b ∧
      marksFrom .brackets s ('<' :: a ++ '>' :: b) = ⟨'<', some k⟩ ::
        (marksFrom .brackets { s with depth := s.depth + 1, prev := '<' } a ++
          ⟨'>', some k⟩ :: marksFrom .brackets s' b) := by
    obtain ⟨⟨n, hn, hrun⟩, hmarks⟩ := run_brackets_withAngleDepth
      { s with depth := s.depth + 1, prev := '<' } (s.angleDepth + 1) a
    have hrest := ha.atRest (hin h)
    have hprev := harrow (hin h)
    generalize State.run .brackets { s with depth := s.depth + 1, prev := '<' } a = inner at hn hrun hrest hprev
    have hclose (next : Option Char) :=
      step_angle_closing (s := { inner with angleDepth := n }) hrest.mode hprev next
    have hone : n ≤ 0 + 1 := hrest.angleDepth ▸ hn (Nat.le_refl _)
    refine ⟨{ inner with depth := inner.depth - 1, angleDepth := n - 1, prev := '>' }, ?_, ?_, ?_⟩
    · exact ⟨hrest.mode, by simp [hrest.depth], by simp only; omega⟩
    · rw [List.cons_append, State.run, step_angle_opening h.mode, State.run_append hsplit, hrun, State.run, hclose]
    · rw [List.cons_append, marksFrom, step_angle_opening h.mode, marksFrom_append hsplit, hrun, hmarks, marksFrom,
        hclose]
      simp only [h.depth, hrest.depth, Nat.add_sub_cancel]
  constructor
  · intro k s h
    obtain ⟨s', hs', hrun, -⟩ := hscan h
    rw [hrun]
    exact hb.atRest hs'
  · intro k s h m hm d hd
    obtain ⟨s', hs', -, hmarks⟩ := hscan h
    rw [hmarks] at hm
    rcases List.mem_cons.mp hm with rfl | hm
    · obtain rfl : k = d := by simpa using hd
      exact ⟨Nat.le_refl k, fun _ => ho⟩
    rcases List.mem_append.mp hm with hm | hm
    · have hle := (ha.above (hin h) m hm d hd).1
      exact ⟨by omega, fun he => by omega⟩
    rcases List.mem_cons.mp hm with rfl | hm
    · obtain rfl : k = d := by simpa using hd
      exact ⟨Nat.le_refl k, fun _ => hc⟩
    · exact hb.above hs' m hm d hd

end SfcContract.Code
