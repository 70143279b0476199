import SfcContract.Proofs.Contract.Provenance
import SfcContract.Proofs.Text.Line
import SfcContract.Proofs.Text.Progress
import SfcContract.Report

/-!
# The table of properties

A report holds one section after another, and a section its table behind the summary. A row can be cut into its
cells again, since an escaped cell has a backslash in front of each of its bars and the names of properties have
no bars, and the escaping can be undone.
-/

namespace SfcContract.Report

variable {t rest : Text} {prev : Option Char}

/-- A text with a blank in place of each line end. -/
def onOneLine (t : Text) : Text := t.map fun c => if c = '\n' ∨ c = '\r' then ' ' else c

/-- Takes away the backslash directly before each bar. -/
def unescape : Text → Text
  | [] => []
  | c :: t => if c = '\\' ∧ t.head? = some '|' then unescape t else c :: unescape t

/-- Cuts a text at its bars, but not at those directly behind a backslash. -/
def cutAtBars : Option Char → Text → List Text
  | _, [] => [[]]
  | prev, c :: t =>
    if c = '|' ∧ prev ≠ some '\\' then [] :: cutAtBars (some c) t
    else (cutAtBars (some c) t).modifyHead (c :: ·)

def padded (a : Text) : Text := ' ' :: a ++ [' ']

/-- A text in which nothing is cut, whatever stands around it. -/
def IsUncut (a : Text) : Prop := ∀ prev rest,
  cutAtBars prev (a ++ rest) = (cutAtBars (a.getLast?.or prev) rest).modifyHead (a ++ ·)

theorem escapeCell_cons (c : Char) (t : Text) : escapeCell (c :: t) =
    (if c = '|' then ['\\', '|'] else if c = '\n' ∨ c = '\r' then [' '] else [c]) ++ escapeCell t := rfl

theorem head?_escapeCell_append (h : rest.head? ≠ some '|') (t : Text) :
    (escapeCell t ++ rest).head? ≠ some '|' := by
  cases t with
  | nil => exact h
  | cons c t =>
    rw [escapeCell_cons]
    split
    · simp
    · split
      · simp
      · simpa

theorem unescape_escapeCell_append (h : rest.head? ≠ some '|') (t : Text) :
    unescape (escapeCell t ++ rest) = onOneLine t ++ unescape rest := by
  induction t with
  | nil => rfl
  | cons c t ih =>
    have hhead := head?_escapeCell_append h t
    rw [escapeCell_cons, onOneLine, List.map_cons, ← onOneLine, List.cons_append, ← ih]
    by_cases hbar : c = '|'
    · subst hbar
      simp [unescape]
    · by_cases hline : c = '\n' ∨ c = '\r'
      · simp [unescape, hbar, hline]
      · have hkeep : ¬ (c = '\\' ∧ (escapeCell t ++ rest).head? = some '|') := fun h => hhead h.2
        rw [if_neg hbar, if_neg hline, if_neg hline, List.append_assoc, List.singleton_append, unescape, if_neg hkeep]

/-- A bar behind a backslash gets one of its own. -/
example : unescape (escapeCell ['a', '\\', '|', '\n']) = ['a', '\\', '|', ' '] := by decide

theorem isOneLine_escapeCell (t : Text) : Text.IsOneLine (escapeCell t) := by
  refine Text.isOneLine_substitute fun c _ => ?_
  split
  · decide
  · split
    · decide
    · next hline => exact ⟨by simpa using fun h => hline (.inr h.symm), by simpa using fun h => hline (.inl h.symm)⟩

theorem isOneLine_inCode (h : Text.IsOneLine t) : Text.IsOneLine (inCode t) := by
  simp only [inCode, Text.isOneLine_append]
  exact ⟨⟨by decide, h⟩, by decide⟩

namespace IsUncut

theorem nil : IsUncut [] := by
  intro prev rest
  cases h : cutAtBars prev rest <;> simp [h]

theorem cons_of_ne {c : Char} {a : Text} (hc : c ≠ '|') (ha : IsUncut a) : IsUncut (c :: a) := by
  intro prev rest
  rw [List.cons_append, cutAtBars, if_neg fun h => hc h.1, ha, Text.getLast?_cons_or, List.modifyHead_modifyHead]
  rfl

/-- A bar with its backslash is no place to cut. -/
theorem escaped_cons {a : Text} (ha : IsUncut a) : IsUncut ('\\' :: '|' :: a) := by
  intro prev rest
  rw [List.cons_append, List.cons_append, cutAtBars, if_neg (by simp), cutAtBars, if_neg (by simp), ha,
    Text.getLast?_cons_or, Text.getLast?_cons_or, List.modifyHead_modifyHead, List.modifyHead_modifyHead]
  rfl

theorem of_not_mem {a : Text} (h : '|' ∉ a) : IsUncut a := by
  induction a with
  | nil => exact nil
  | cons c a ih =>
    rw [List.mem_cons, not_or] at h
    exact cons_of_ne (Ne.symm h.1) (ih h.2)

theorem escapeCell (t : Text) : IsUncut (escapeCell t) := by
  induction t with
  | nil => exact nil
  | cons c t ih =>
    rw [escapeCell_cons]
    split
    · exact escaped_cons ih
    · split
      · exact cons_of_ne (by decide) ih
      · next hbar _ => exact cons_of_ne hbar ih

theorem append {a b : Text} (ha : IsUncut a) (hb : IsUncut b) : IsUncut (a ++ b) := by
  intro prev rest
  have hlast : (a ++ b).getLast?.or prev = b.getLast?.or (a.getLast?.or prev) := by
    rw [List.getLast?_append, Option.or_assoc]
  rw [List.append_assoc, ha, hb, hlast, List.modifyHead_modifyHead]
  simp only [Function.comp_def, List.append_assoc]

/-- A cell ends with a blank, so it is cut at the bar behind it. -/
theorem cutAtBars_padded {a : Text} (ha : IsUncut a) (prev : Option Char) (rest : Text) :
    cutAtBars prev (padded a ++ '|' :: rest) = padded a :: cutAtBars (some '|') rest := by
  have hcell : IsUncut (padded a) := (cons_of_ne (by decide) ha).append (of_not_mem (by decide))
  have hlast : (padded a).getLast? = some ' ' := by simp [padded, List.getLast?_cons]
  rw [hcell, hlast, cutAtBars, if_pos (by simp), List.modifyHead_cons, List.append_nil]

end IsUncut

/-- A row tells of a property: it is one line, has four cells between five bars, and the texts of its cells can be
read back. -/
structure Tells (row : Text) (p : Property) : Prop where
  isOneLine : Text.IsOneLine row
  cells : ∃ type value, cutAtBars none row =
      [[], padded p.name, padded type, padded (if p.required then "yes".toList else "no".toList), padded value, []] ∧
    type = escapeCell p.type ∧ unescape type = onOneLine p.type ∧
    value = (p.defaultValue.map fun d => inCode (escapeCell d)).getD [] ∧
    unescape value = (p.defaultValue.map fun d => inCode (onOneLine d)).getD []

theorem row_eq (p : Property) : row p =
    '|' :: (padded p.name ++ '|' :: (padded (escapeCell p.type) ++ '|' ::
      (padded (if p.required then "yes".toList else "no".toList) ++ '|' ::
        (padded ((p.defaultValue.map fun d => inCode (escapeCell d)).getD []) ++ ['|'])))) := by
  have hcell (a b : Text) : padded a ++ '|' :: b = ' ' :: (a ++ ' ' :: '|' :: b) := by
    rw [padded, List.cons_append, List.cons_append, List.append_assoc, List.singleton_append]
  unfold row
  simp only [hcell, List.append_assoc]
  cases p.defaultValue <;> rfl

theorem unescape_inCode_escapeCell (d : Text) : unescape (inCode (escapeCell d)) = inCode (onOneLine d) := by
  have hcell : unescape (escapeCell d ++ ['\x60']) = onOneLine d ++ ['\x60'] :=
    unescape_escapeCell_append (by simp) d
  have hquote : unescape ('\x60' :: (escapeCell d ++ ['\x60'])) = '\x60' :: unescape (escapeCell d ++ ['\x60']) := by
    simp [unescape]
  rw [inCode, List.append_assoc, List.singleton_append, hquote, hcell]
  rfl

theorem row_tells {p : Property} (hname : Text.isPropertyName p.name = true) : Tells (row p) p where
  isOneLine := by
    have hvalue : Text.IsOneLine ((p.defaultValue.map fun d => inCode (escapeCell d)).getD []) := by
      cases p.defaultValue with
      | none => exact Text.isOneLine_nil
      | some d => exact isOneLine_inCode (isOneLine_escapeCell d)
    have hrequired : Text.IsOneLine (if p.required then "yes".toList else "no".toList) := by split <;> decide
    have hcell {a b : Text} (ha : Text.IsOneLine a) (hb : Text.IsOneLine b) :
        Text.IsOneLine (padded a ++ '|' :: b) := by
      have hbar : Text.IsOneLine ([' '] ++ a ++ " |".toList ++ b) := by
        simp only [Text.isOneLine_append]
        exact ⟨⟨⟨by decide, ha⟩, by decide⟩, hb⟩
      simpa [padded] using hbar
    rw [row_eq, ← List.singleton_append, Text.isOneLine_append]
    exact ⟨by decide, hcell (Text.isOneLine_of_isPropertyName hname) <| hcell (isOneLine_escapeCell _) <|
      hcell hrequired <| hcell hvalue Text.isOneLine_nil⟩
  cells := by
    have huncut : IsUncut ((p.defaultValue.map fun d => inCode (escapeCell d)).getD []) := by
      cases p.defaultValue with
      | none => exact .nil
      | some d => exact ((IsUncut.of_not_mem (by decide)).append (.escapeCell d)).append (.of_not_mem (by decide))
    have hbar : '|' ∉ p.name := by
      intro hmem
      exact absurd (Text.isNameChar_of_mem hname _ hmem) (by decide)
    have hrequired : '|' ∉ (if p.required then "yes".toList else "no".toList) := by split <;> decide
    refine ⟨_, _, ?_, rfl, ?_, rfl, ?_⟩
    · rw [row_eq, cutAtBars, if_pos (by simp), (IsUncut.of_not_mem hbar).cutAtBars_padded,
        (IsUncut.escapeCell _).cutAtBars_padded, (IsUncut.of_not_mem hrequired).cutAtBars_padded,
        huncut.cutAtBars_padded]
      rfl
    · have hcell : unescape (escapeCell p.type ++ []) = onOneLine p.type ++ [] :=
        unescape_escapeCell_append (by simp) p.type
      rwa [List.append_nil, List.append_nil] at hcell
    · cases p.defaultValue with
      | none => rfl
      | some d => exact unescape_inCode_escapeCell d

def tableHead : List Text :=
  ["| name | type | required | default |".toList, "| --- | --- | --- | --- |".toList]

/-- The rows of the table that a text starts with, behind an empty line. A table goes up to the next empty line. -/
def rowsOf (t : Text) : List Text :=
  match Text.linesOf ['\n'] t with
  | [] :: names :: rule :: rest => if [names, rule] = tableHead then rest.takeWhile (!·.isEmpty) else []
  | _ => []

/-- A text that neither goes on with rows nor starts with a table. -/
def HasNoTable (t : Text) : Prop := t = [] ∨ ∃ c u, t = '\n' :: c :: u ∧ c ≠ '|' ∧ c ≠ '\n'

theorem HasNoTable.append {a b : Text} (ha : HasNoTable a) (hb : HasNoTable b) : HasNoTable (a ++ b) := by
  rcases ha with rfl | ⟨c, u, rfl, hc⟩
  · exact hb
  · exact .inr ⟨c, u ++ b, rfl, hc⟩

theorem hasNoTable_unlines_cons {c : Char} (hc : c ≠ '|' ∧ c ≠ '\n') (l : Text) (ls : List Text) :
    HasNoTable (Text.unlines ([] :: (c :: l) :: ls)) :=
  .inr ⟨c, l ++ '\n' :: Text.unlines ls, by simp only [Text.unlines_cons, List.nil_append, List.cons_append], hc⟩

theorem hasNoTable_unlessEmpty {α : Type} (as : List α) {c : Char} (hc : c ≠ '|' ∧ c ≠ '\n') (l : Text)
    (ls : List Text) : HasNoTable (Text.unlines (unlessEmpty as ((c :: l) :: ls))) := by
  cases as with
  | nil => exact .inl rfl
  | cons a as => exact hasNoTable_unlines_cons hc l ls

theorem HasNoTable.rowsOf_eq_nil (h : HasNoTable t) : rowsOf t = [] := by
  rcases h with rfl | ⟨c, u, rfl, hbar, hline⟩
  · rfl
  · obtain ⟨l, ls, hu⟩ := List.exists_cons_of_ne_nil (List.splitOnP_ne_nil (['\n'].contains ·) u)
    have hlines : Text.linesOf ['\n'] ('\n' :: c :: u) = [] :: (c :: l) :: ls := by
      have hfirst := Text.linesOf_append_lineFeed Text.areLineEnds_lineFeed [] (c :: u)
      rw [List.nil_append] at hfirst
      rw [hfirst, Text.linesOf, Text.linesOf, List.splitOnP_cons_eq_if_modifyHead, hu]
      simp [hline]
    rw [rowsOf, hlines]
    cases ls with
    | nil => rfl
    | cons rule rest =>
      refine if_neg fun he => ?_
      exact hbar (List.cons.inj (List.cons.inj he).1).1

theorem rowsOf_table {rows : List Text} (hrows : ∀ row ∈ rows, Text.IsOneLine row ∧ row ≠ []) (h : HasNoTable t) :
    rowsOf (Text.unlines ([] :: tableHead ++ rows) ++ t) = rows := by
  have hlines : ∀ l ∈ [] :: tableHead ++ rows, Text.IsOneLine l := by
    intro l hl
    rcases List.mem_append.mp hl with hl | hl
    · exact (by decide : ∀ l ∈ [] :: tableHead, Text.IsOneLine l) l hl
    · exact (hrows l hl).1
  have hend : ∃ ls, Text.linesOf ['\n'] t = [] :: ls := by
    rcases h with rfl | ⟨c, u, rfl, -⟩
    · exact ⟨[], rfl⟩
    · exact ⟨_, Text.linesOf_append_lineFeed Text.areLineEnds_lineFeed [] (c :: u)⟩
  obtain ⟨ls, hls⟩ := hend
  rw [rowsOf, Text.linesOf_unlines_append Text.areLineEnds_lineFeed hlines, hls]
  have hfull : ∀ row ∈ rows, (!row.isEmpty) = true := by
    intro row hrow
    simpa using (hrows row hrow).2
  change (if tableHead = tableHead then (rows ++ [] :: ls).takeWhile (!·.isEmpty) else []) = rows
  rw [if_pos rfl, List.takeWhile_append_of_pos hfull]
  simp

def preface (m : Manifest) : Text := Text.unlines ((lines m).take 3)

def sectionOf (c : Contract) : Text := Text.unlines ([] :: componentLines c)

def summaryOf (c : Contract) : Text := Text.unlines ([] :: (componentLines c).take 3)

def detailsOf (c : Contract) : Text := Text.unlines ((componentLines c).drop 3)

theorem sectionOf_eq (c : Contract) : sectionOf c = summaryOf c ++ detailsOf c := by
  rw [sectionOf, summaryOf, detailsOf, ← Text.unlines_append, List.cons_append, List.take_append_drop]

theorem write_eq (m : Manifest) : write m = preface m ++ m.components.flatMap sectionOf := by
  have hsections (cs : List Contract) :
      Text.unlines (cs.flatMap fun c => [] :: componentLines c) = cs.flatMap sectionOf := by
    induction cs with
    | nil => rfl
    | cons c cs ih => rw [List.flatMap_cons, Text.unlines_append, ih, List.flatMap_cons, sectionOf]
  rw [write, lines, Text.unlines_append, hsections]
  rfl

theorem hasNoTable_sections (cs : List Contract) : HasNoTable (cs.flatMap sectionOf) := by
  induction cs with
  | nil => exact .inl rfl
  | cons c cs ih =>
    rw [List.flatMap_cons]
    exact (hasNoTable_unlines_cons (c := '#') (by decide) _ _).append ih

def tableLines (c : Contract) : List Text := unlessEmpty c.properties (tableHead ++ c.properties.map row)

def eventLines (c : Contract) : List Text :=
  unlessEmpty c.events ["**Emits:** ".toList ++ commaSeparated c.events]

def slotLines (c : Contract) : List Text :=
  unlessEmpty c.slots ["**Slots:** ".toList ++ commaSeparated c.slots]

def findingLines (c : Contract) : List Text :=
  unlessEmpty c.diagnostics
    (["**Diagnostics ".toList ++ parenthesized c.diagnostics.length ++ "**".toList, []] ++
      c.diagnostics.map finding)

theorem drop_componentLines (c : Contract) :
    (componentLines c).drop 3 = tableLines c ++ eventLines c ++ slotLines c ++ findingLines c := rfl

/-- The details of a section start with its table, if the component has properties. -/
theorem rowsOf_detailsOf_append {c : Contract} (hnames : ∀ p ∈ c.properties, Text.isPropertyName p.name = true)
    (h : HasNoTable rest) : rowsOf (detailsOf c ++ rest) = c.properties.map row := by
  have hevents : HasNoTable (Text.unlines (eventLines c)) := hasNoTable_unlessEmpty _ (c := '*') (by decide) _ _
  have hslots : HasNoTable (Text.unlines (slotLines c)) := hasNoTable_unlessEmpty _ (c := '*') (by decide) _ _
  have hfindings : HasNoTable (Text.unlines (findingLines c)) :=
    hasNoTable_unlessEmpty _ (c := '*') (by decide) _ _
  have hrest := ((hevents.append hslots).append hfindings).append h
  simp only [detailsOf, drop_componentLines, Text.unlines_append, List.append_assoc] at hrest ⊢
  cases hps : c.properties with
  | nil =>
    rw [tableLines, hps]
    exact hrest.rowsOf_eq_nil
  | cons p ps =>
    have htable : tableLines c = [] :: tableHead ++ c.properties.map row := by
      rw [tableLines, hps]
      rfl
    have hrows : ∀ r ∈ c.properties.map row, Text.IsOneLine r ∧ r ≠ [] := by
      intro r hr
      obtain ⟨p, hp, rfl⟩ := List.mem_map.mp hr
      exact ⟨(row_tells (hnames p hp)).isOneLine, by rw [row_eq]; exact List.cons_ne_nil _ _⟩
    rw [htable, rowsOf_table hrows hrest, hps]

/-- Wherever a component stands in a report, its summary is followed by a table with one row for each property, in
their order, and each row tells of its property. -/
theorem write_holdsTables (version scannedAt : Text) (cs ds : List Contract) (source path : Text) :
    let c := Contract.analyze source path
    let m : Manifest := ⟨version, scannedAt, cs ++ c :: ds⟩
    ∃ details, write m = preface m ++ cs.flatMap sectionOf ++ summaryOf c ++ details ∧
      List.Forall₂ Tells (rowsOf details) c.properties := by
  intro c m
  have hnames : ∀ p ∈ c.properties, Text.isPropertyName p.name = true :=
    fun p hp => (Property.declared_isPartOf hp).isName
  refine ⟨detailsOf c ++ ds.flatMap sectionOf, ?_, ?_⟩
  · rw [write_eq, List.flatMap_append, List.flatMap_cons, sectionOf_eq c]
    simp only [List.append_assoc]
  · rw [rowsOf_detailsOf_append hnames (hasNoTable_sections ds), List.forall₂_map_left_iff, List.forall₂_same]
    exact fun p hp => row_tells (hnames p hp)

end SfcContract.Report
