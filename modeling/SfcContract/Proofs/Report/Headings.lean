import Mathlib.Algebra.Ring.Nat
import SfcContract.Proofs.Contract.Consistency
import SfcContract.Proofs.Report.Table

/-!
# Headings of a report

Each section has its heading, and almost everything a section quotes is put on one line. Names of events and slots
are not: each of their line ends may start a line of the report, and one that a heading sign follows starts one
that reads as a heading.
-/

namespace SfcContract

theorem componentName_isInfix (path : Text) : componentName path <:+: path := by
  have hbase : (path.reverse.takeWhile fun c => c != '/' && c != '\\').reverse <:+ path := by
    rw [← List.reverse_prefix, List.reverse_reverse]
    exact List.takeWhile_prefix _
  rw [componentName]
  cases h : Text.before? ".vue".toList (path.reverse.takeWhile fun c => c != '/' && c != '\\').reverse with
  | none => exact hbase.isInfix
  | some name => exact (Text.before?_isPrefix h).isInfix.trans hbase.isInfix

namespace Report

variable {ends : List Char} {a b t : Text}

def headingSign : Text := "## ".toList

/-- The number of lines that start as a heading of a section. -/
def headings (ends : List Char) (t : Text) : Nat := (Text.linesOf ends t).countP (headingSign.isPrefixOf ·)

/-- The number of line ends that a heading sign follows. -/
def forgeries (ends : List Char) : Text → Nat
  | [] => 0
  | c :: t => (if ends.contains c && headingSign.isPrefixOf t then 1 else 0) + forgeries ends t

theorem isPrefixOf_append {sign : Text} (hb : ∀ c ∈ b.head?, c ∉ sign) :
    sign.isPrefixOf (a ++ b) = sign.isPrefixOf a := by
  rw [Bool.eq_iff_iff, List.isPrefixOf_iff_prefix, List.isPrefixOf_iff_prefix]
  exact ⟨fun h => Text.isPrefix_of_isPrefix_append_of_head h hb, fun h => h.trans (List.prefix_append a b)⟩

theorem isPrefixOf_firstLine {sign l : Text} {ls : List Text} (hsign : ∀ c ∈ sign, ends.contains c = false)
    (hl : Text.linesOf ends t = l :: ls) : sign.isPrefixOf l = sign.isPrefixOf t := by
  induction sign generalizing t l with
  | nil => simp
  | cons s sign ih =>
    cases t with
    | nil =>
      obtain ⟨rfl, -⟩ := List.cons.inj hl
      rfl
    | cons c t =>
      rw [Text.linesOf, List.splitOnP_cons_eq_if_modifyHead] at hl
      split at hl
      · next hc =>
        obtain ⟨rfl, -⟩ := List.cons.inj hl
        have hne : (s == c) = false := by
          rw [beq_eq_false_iff_ne]
          rintro rfl
          exact Bool.false_ne_true ((hsign s List.mem_cons_self).symm.trans hc)
        rw [List.isPrefixOf_cons_cons, hne]
        rfl
      · obtain ⟨l', ls', ht⟩ := List.exists_cons_of_ne_nil (List.splitOnP_ne_nil (ends.contains ·) t)
        rw [ht, List.modifyHead_cons] at hl
        obtain ⟨rfl, rfl⟩ := List.cons.inj hl
        have hrest : sign.isPrefixOf l' = sign.isPrefixOf t :=
          ih (fun c hc => hsign c (List.mem_cons_of_mem _ hc)) ht
        rw [List.isPrefixOf_cons_cons, List.isPrefixOf_cons_cons, hrest]

/-- A line is a heading when it is the first one and starts as such, or when a heading sign follows the line end
before it. -/
theorem headings_eq (h : Text.AreLineEnds ends) (t : Text) :
    headings ends t = (if headingSign.isPrefixOf t then 1 else 0) + forgeries ends t := by
  have hsign : ∀ c ∈ headingSign, ends.contains c = false := h.contains_eq_false (by decide)
  induction t with
  | nil => rfl
  | cons c t ih =>
    obtain ⟨l, ls, ht⟩ := List.exists_cons_of_ne_nil (List.splitOnP_ne_nil (ends.contains ·) t)
    have hfirst := isPrefixOf_firstLine hsign ht
    rw [headings, Text.linesOf, ht, List.countP_cons, hfirst, Nat.add_comm, Nat.add_left_cancel_iff] at ih
    cases hc : ends.contains c with
    | true =>
      have hlines : Text.linesOf ends (c :: t) = [] :: l :: ls := by
        rw [Text.linesOf, List.splitOnP_cons_eq_if_modifyHead, if_pos hc, ht]
      have hne := isPrefixOf_firstLine hsign hlines
      rw [headings, hlines, List.countP_cons, List.countP_cons, hfirst, forgeries, hc, Bool.true_and, ← hne, ih]
      simp [headingSign, Nat.add_comm]
    | false =>
      have hlines : Text.linesOf ends (c :: t) = (c :: l) :: ls := by
        rw [Text.linesOf, List.splitOnP_cons_eq_if_modifyHead, if_neg (by simpa using hc), ht, List.modifyHead_cons]
      have hline := isPrefixOf_firstLine hsign hlines
      rw [headings, hlines, List.countP_cons, hline, forgeries, hc, ih]
      simp [Nat.add_comm]

theorem headings_unlines (h : Text.AreLineEnds ends) (ls : List Text) :
    headings ends (Text.unlines ls) = (ls.map (headings ends)).sum := by
  induction ls with
  | nil => rfl
  | cons l ls ih =>
    rw [Text.unlines_cons, headings, Text.linesOf_append_lineFeed h, List.countP_append, List.map_cons, List.sum_cons,
      ← ih]
    rfl

theorem forgeries_append_of_isOneLine (h : Text.AreLineEnds ends) (ha : Text.IsOneLine a) (t : Text) :
    forgeries ends (a ++ t) = forgeries ends t := by
  have hnone := h.contains_eq_false ha
  clear ha
  induction a with
  | nil => rfl
  | cons c a ih =>
    rw [List.cons_append, forgeries, hnone c List.mem_cons_self, ih fun d hd => hnone d (List.mem_cons_of_mem _ hd)]
    simp

theorem forgeries_append (hb : ∀ c ∈ b.head?, c ∉ headingSign) (a : Text) :
    forgeries ends (a ++ b) = forgeries ends a + forgeries ends b := by
  induction a with
  | nil => simp [forgeries]
  | cons c a ih => rw [List.cons_append, forgeries, forgeries, isPrefixOf_append hb, ih, Nat.add_assoc]

theorem forgeries_commaSeparated (h : Text.AreLineEnds ends) (names : List Text) :
    forgeries ends (commaSeparated names) = (names.map (forgeries ends)).sum := by
  induction names with
  | nil => rfl
  | cons name names ih =>
    cases names with
    | nil => simp [commaSeparated]
    | cons other names =>
      rw [commaSeparated, List.intercalate_cons_cons, ← commaSeparated, List.append_assoc,
        forgeries_append (by simp [headingSign]), forgeries_append_of_isOneLine h (by decide), ih]
      rfl

theorem forgeries_eq_zero_iff : forgeries ends t = 0 ↔ ∀ c ∈ ends, ¬ c :: headingSign <:+: t := by
  induction t with
  | nil => simp [forgeries]
  | cons d t ih =>
    rw [forgeries, Nat.add_eq_zero_iff, ih]
    constructor
    · rintro ⟨hd, ht⟩ c hc hinfix
      rcases List.infix_cons_iff.mp hinfix with hprefix | hinfix
      · obtain ⟨rfl, hsign⟩ := List.cons_prefix_cons.mp hprefix
        simp [hc, List.isPrefixOf_iff_prefix.mpr hsign] at hd
      · exact ht c hc hinfix
    · intro h
      refine ⟨if_neg ?_, fun c hc hinfix => h c hc (List.infix_cons hinfix)⟩
      intro hd
      rw [Bool.and_eq_true, List.contains_iff_mem, List.isPrefixOf_iff_prefix] at hd
      exact h d hd.1 (List.cons_prefix_cons.mpr ⟨rfl, hd.2⟩).isInfix

theorem headings_of_isOneLine (h : Text.AreLineEnds ends) {l : Text} (hl : Text.IsOneLine l) :
    headings ends l = if headingSign.isPrefixOf l then 1 else 0 := by
  have hnone := forgeries_append_of_isOneLine h hl []
  rw [List.append_nil] at hnone
  rw [headings_eq h, hnone]
  rfl

/-- A line of a section that is one line and no heading. -/
def IsPlainLine (l : Text) : Prop := Text.IsOneLine l ∧ headingSign.isPrefixOf l = false

instance (l : Text) : Decidable (IsPlainLine l) := inferInstanceAs (Decidable (_ ∧ _))

theorem headings_of_plain (h : Text.AreLineEnds ends) {ls : List Text} (hls : ∀ l ∈ ls, IsPlainLine l) :
    (ls.map (headings ends)).sum = 0 := by
  rw [List.sum_eq_zero_iff_forall_eq_nat]
  intro n hn
  obtain ⟨l, hl, rfl⟩ := List.mem_map.mp hn
  rw [headings_of_isOneLine h (hls l hl).1, (hls l hl).2]
  rfl

theorem isPlainLine_row {p : Property} (hname : Text.isPropertyName p.name = true) : IsPlainLine (row p) :=
  ⟨(row_tells hname).isOneLine, by rw [row_eq]; rfl⟩

theorem isPlainLine_finding {d : Diagnostic} (hmessage : Text.IsOneLine d.message)
    (hexcerpt : ∀ e ∈ d.excerpt, Text.IsOneLine e) : IsPlainLine (finding d) := by
  refine ⟨?_, rfl⟩
  have hlabel : Text.IsOneLine d.rule.label := by cases d.rule <;> decide
  have htags : Text.IsOneLine (escapeTags d.message) := by
    refine Text.isOneLine_substitute fun c hc => ?_
    split
    · decide
    · split
      · decide
      · exact hmessage.singleton_of_mem hc
  unfold finding
  simp only [Text.isOneLine_append]
  refine ⟨⟨⟨⟨by decide, hlabel⟩, by decide⟩, htags⟩, ?_⟩
  cases he : d.excerpt with
  | none => exact Text.isOneLine_nil
  | some e =>
    simp only [Text.isOneLine_append]
    exact ⟨⟨by decide, isOneLine_inCode (hexcerpt e he)⟩, by decide⟩

theorem isPlainLine_findings_analyze (source path : Text) :
    ∀ d ∈ (Contract.analyze source path).diagnostics, IsPlainLine (finding d) := by
  intro d hd
  rcases List.mem_append.mp hd with hd | hd
  · have hexcerpt := (MarkupRule.areFindings_checkAll _).excerpts d hd
    obtain ⟨rule, hrule, hd⟩ := List.mem_flatMap.mp hd
    obtain ⟨tag, rfl⟩ := MarkupRule.exists_onTag_of_mem_check hd
    have hmessages : ∀ rule ∈ MarkupRule.all.map MarkupRule.message, Text.IsOneLine rule := by decide
    exact isPlainLine_finding (hmessages _ (List.mem_map_of_mem hrule)) fun e he => (hexcerpt e he).2
  · obtain ⟨name, hname, rfl⟩ := List.mem_map.mp hd
    obtain ⟨p, hp, rfl⟩ := List.mem_map.mp (List.mem_filter.mp hname).1
    have hline := Text.isOneLine_of_isPropertyName (Property.declared_isPartOf hp).isName
    refine isPlainLine_finding (Text.isOneLine_append.mpr ⟨by decide, hline⟩) ?_
    rintro e ⟨⟩

theorem isOneLine_parenthesized (n : Nat) : Text.IsOneLine (parenthesized n) := by
  simp only [parenthesized, Text.isOneLine_append]
  exact ⟨⟨by decide, Text.isOneLine_ofNat n⟩, by decide⟩

section Section

variable {c : Contract}

theorem headings_tableLines (h : Text.AreLineEnds ends)
    (hnames : ∀ p ∈ c.properties, Text.isPropertyName p.name = true) :
    ((tableLines c).map (headings ends)).sum = 0 := by
  refine headings_of_plain h fun l hl => ?_
  rw [tableLines, unlessEmpty] at hl
  split at hl
  · cases hl
  · rcases List.mem_append.mp (show l ∈ [] :: tableHead ++ c.properties.map row from hl) with hl | hl
    · exact (by decide : ∀ l ∈ [] :: tableHead, IsPlainLine l) l hl
    · obtain ⟨p, hp, rfl⟩ := List.mem_map.mp hl
      exact isPlainLine_row (hnames p hp)

theorem headings_findingLines (h : Text.AreLineEnds ends)
    (hfindings : ∀ d ∈ c.diagnostics, IsPlainLine (finding d)) :
    ((findingLines c).map (headings ends)).sum = 0 := by
  refine headings_of_plain h fun l hl => ?_
  have hcount : IsPlainLine ("**Diagnostics ".toList ++ parenthesized c.diagnostics.length ++ "**".toList) := by
    refine ⟨?_, rfl⟩
    simp only [Text.isOneLine_append]
    exact ⟨⟨by decide, isOneLine_parenthesized _⟩, by decide⟩
  rw [findingLines, unlessEmpty] at hl
  split at hl
  · cases hl
  · simp only [List.mem_cons, List.mem_append, List.not_mem_nil, or_false, List.mem_map] at hl
    rcases hl with rfl | (rfl | rfl) | ⟨d, hd, rfl⟩
    · decide
    · exact hcount
    · decide
    · exact hfindings d hd

/-- The lines of a list of names are headings where the names forge them. -/
theorem headings_namesLines (h : Text.AreLineEnds ends) {word : Text} (hword : Text.IsOneLine word)
    (names : List Text) (hplain : headingSign.isPrefixOf (word ++ commaSeparated names) = false) :
    ((unlessEmpty names [word ++ commaSeparated names]).map (headings ends)).sum =
      (names.map (forgeries ends)).sum := by
  have hquoting : headings ends (word ++ commaSeparated names) = (names.map (forgeries ends)).sum := by
    rw [headings_eq h, hplain, forgeries_append_of_isOneLine h hword, forgeries_commaSeparated h]
    simp
  cases names with
  | nil => rfl
  | cons name names =>
    rw [unlessEmpty, List.isEmpty_cons, if_neg Bool.false_ne_true, List.map_cons, List.map_singleton, List.sum_cons,
      List.sum_singleton, hquoting]
    exact Nat.zero_add _

theorem headings_summaryOf (h : Text.AreLineEnds ends) (hname : Text.IsOneLine c.name)
    (hpath : Text.IsOneLine c.path) : (((componentLines c).take 3).map (headings ends)).sum = 1 := by
  have hheading : Text.IsOneLine ("## ".toList ++ c.name ++ " (".toList ++ inCode c.path ++ ")".toList) := by
    simp only [Text.isOneLine_append]
    exact ⟨⟨⟨⟨by decide, hname⟩, by decide⟩, isOneLine_inCode hpath⟩, by decide⟩
  have hsummary : Text.IsOneLine ("**Props ".toList ++ parenthesized c.properties.length ++
      "** | **Emits ".toList ++ parenthesized c.events.length ++ "** | **Slots ".toList ++
      parenthesized c.slots.length ++ "** | **Cohesion ".toList ++ numberLayout.write c.metrics.cohesion ++
      "**".toList) := by
    simp only [Text.isOneLine_append]
    exact ⟨⟨⟨⟨⟨⟨⟨⟨by decide, isOneLine_parenthesized _⟩, by decide⟩, isOneLine_parenthesized _⟩, by decide⟩,
      isOneLine_parenthesized _⟩, by decide⟩,
      Text.isOneLine_write _ _⟩, by decide⟩
  have hlines : (componentLines c).take 3 = [_, [], _] := rfl
  rw [hlines, List.map_cons, List.map_cons, List.map_singleton, headings_of_isOneLine h hheading,
    headings_of_isOneLine h hsummary]
  rfl

end Section

theorem headings_sectionOf (h : Text.AreLineEnds ends) (source : Text) {path : Text} (hpath : Text.IsOneLine path) :
    headings ends (sectionOf (Contract.analyze source path)) = 1 +
      (((Contract.analyze source path).events ++ (Contract.analyze source path).slots).map (forgeries ends)).sum := by
  have hnames : ∀ p ∈ (Contract.analyze source path).properties, Text.isPropertyName p.name = true :=
    fun p hp => (Property.declared_isPartOf hp).isName
  have hfindings := isPlainLine_findings_analyze source path
  have hname : Text.IsOneLine (Contract.analyze source path).name := hpath.mono (componentName_isInfix path)
  have hplace : Text.IsOneLine (Contract.analyze source path).path := hpath
  generalize Contract.analyze source path = c at *
  have hevents : ((eventLines c).map (headings ends)).sum = (c.events.map (forgeries ends)).sum :=
    headings_namesLines h (by decide) _ rfl
  have hslots : ((slotLines c).map (headings ends)).sum = (c.slots.map (forgeries ends)).sum :=
    headings_namesLines h (by decide) _ rfl
  rw [sectionOf, headings_unlines h, List.map_cons, List.sum_cons, ← List.take_append_drop 3 (componentLines c),
    drop_componentLines]
  simp only [List.map_append, List.sum_append, headings_summaryOf h hname hplace, headings_tableLines h hnames, hevents,
    hslots, headings_findingLines h hfindings]
  change 0 + _ = _
  omega

private theorem sum_headings_sections (h : Text.AreLineEnds ends) {cs : List Contract}
    (hcs : ∀ c ∈ cs, Text.IsOneLine c.path ∧ ∃ source, c = Contract.analyze source c.path) :
    ((cs.flatMap fun c => [] :: componentLines c).map (headings ends)).sum =
      cs.length + (cs.map fun c => ((c.events ++ c.slots).map (forgeries ends)).sum).sum := by
  induction cs with
  | nil => rfl
  | cons c cs ih =>
    obtain ⟨hpath, source, hc⟩ := hcs c List.mem_cons_self
    have hsection := headings_sectionOf h source hpath
    rw [← hc, sectionOf, headings_unlines h] at hsection
    rw [List.flatMap_cons, List.map_append, List.sum_append, hsection,
      ih fun c' hc' => hcs c' (List.mem_cons_of_mem _ hc'), List.length_cons, List.map_cons, List.sum_cons]
    omega

/-- A report has a heading for each component, and one for each line end in the name of an event or a slot that a
heading sign follows; nothing else that it quotes can forge one, whether or not carriage returns end lines. -/
theorem headings_write (hends : Text.AreLineEnds ends) {m : Manifest} (htime : Text.IsOneLine m.scannedAt)
    (hcomponents : ∀ c ∈ m.components, Text.IsOneLine c.path ∧ ∃ source, c = Contract.analyze source c.path) :
    headings ends (write m) = m.components.length +
        (m.components.map fun c => ((c.events ++ c.slots).map (forgeries ends)).sum).sum ∧
      (headings ends (write m) = m.components.length ↔
        ∀ c ∈ m.components, ∀ name ∈ c.events ++ c.slots, ∀ e ∈ ends, ¬ e :: headingSign <:+: name) := by
  have hpreface : ∀ l ∈ (lines m).take 3, IsPlainLine l := by
    have hscanned : IsPlainLine ("Scanned ".toList ++ Text.ofNat m.components.length ++
        " component(s) at ".toList ++ m.scannedAt ++ ".".toList) := by
      refine ⟨?_, rfl⟩
      simp only [Text.isOneLine_append]
      exact ⟨⟨⟨⟨by decide, Text.isOneLine_ofNat _⟩, by decide⟩, htime⟩, by decide⟩
    intro l hl
    have hlines : (lines m).take 3 = [title, [], _] := rfl
    rw [hlines] at hl
    simp only [List.mem_cons, List.not_mem_nil, or_false] at hl
    rcases hl with rfl | rfl | rfl
    · decide
    · decide
    · exact hscanned
  have hcount : headings ends (write m) = m.components.length +
      (m.components.map fun c => ((c.events ++ c.slots).map (forgeries ends)).sum).sum := by
    have hsections : (lines m).drop 3 = m.components.flatMap fun c => [] :: componentLines c := rfl
    rw [write, headings_unlines hends, ← List.take_append_drop 3 (lines m), List.map_append, List.sum_append,
      headings_of_plain hends hpreface, hsections, sum_headings_sections hends hcomponents, Nat.zero_add]
  refine ⟨hcount, ?_⟩
  rw [hcount, Nat.add_eq_left, List.sum_eq_zero_iff_forall_eq_nat]
  simp only [List.forall_mem_map, List.sum_eq_zero_iff_forall_eq_nat, forgeries_eq_zero_iff]

def slotOverLines (slot : String) : Manifest :=
  ⟨Manifest.currentVersion, "2026-01-01T00:00:00Z".toList,
    [Contract.analyze ("<template><slot name=".toList ++ '\x22' :: slot.toList ++ '\x22' :: "/></template>".toList)
      "src/A.vue".toList]⟩

theorem headings_write_slotOverLines :
    headings ['\n', '\r'] (write (slotOverLines "x\r#y\n ## z")) = 1 ∧
      headings ['\n'] (write (slotOverLines "x\n## y\n## z")) = 3 := by
  have hcomponents (slot : String) : ∀ c ∈ (slotOverLines slot).components,
      Text.IsOneLine c.path ∧ ∃ source, c = Contract.analyze source c.path := by
    intro c hc
    obtain rfl := List.mem_singleton.mp hc
    exact ⟨show Text.IsOneLine "src/A.vue".toList by decide, _, rfl⟩
  constructor
  · refine (headings_write ⟨by decide, by decide⟩ (by decide) (hcomponents _)).2.mpr ?_
    decide +kernel
  · rw [(headings_write Text.areLineEnds_lineFeed (by decide) (hcomponents _)).1]
    decide +kernel

/-- The name of a slot makes a second heading for the one component. -/
theorem headings_ne_of_slot : Text.IsOneLine (slotOverLines "x\n## y").version ∧
    Text.IsOneLine (slotOverLines "x\n## y").scannedAt ∧
    (∀ c ∈ (slotOverLines "x\n## y").components, Text.IsOneLine c.path) ∧
    headings ['\n'] (write (slotOverLines "x\n## y")) ≠ (slotOverLines "x\n## y").components.length := by
  decide +kernel

end Report

end SfcContract
