import Mathlib.Data.List.Infix
import Mathlib.Data.List.Perm.Subperm
import SfcContract.Proofs.Contract.Consistency
import SfcContract.Proofs.Contract.Provenance
import SfcContract.Proofs.Text.Word

/-!
# The size of a contract

Every number of a contract is bounded by the length of its source. This is plain for lines and branches.
A script may declare far more properties than it has characters, since a type can be named over and over,
but each name is one of the words of the script, and merging keeps each name once.
-/

namespace SfcContract

namespace Text

variable {p q s t : Text}

/-- A text stands in another one, where a character that no property name has follows it. -/
def EndsIn (p t : Text) : Prop := ∃ a c b, t = a ++ (p ++ c :: b) ∧ isNameChar c = false

namespace EndsIn

theorem mono (h : EndsIn p s) (hs : s <:+: t) : EndsIn p t := by
  obtain ⟨a, c, b, rfl, hc⟩ := h
  obtain ⟨x, y, rfl⟩ := hs
  exact ⟨x ++ a, c, b ++ y, by simp, hc⟩

theorem of_suffix (hp : p <:+ q) (h : EndsIn q t) : EndsIn p t := by
  obtain ⟨x, rfl⟩ := hp
  obtain ⟨a, c, b, rfl, hc⟩ := h
  exact ⟨a ++ x, c, b, by simp, hc⟩

theorem of_append {w : Text} (hw : ∀ c ∈ w, isNameChar c = false) (h : EndsIn (p ++ w) t) : EndsIn p t := by
  obtain ⟨a, c, b, rfl, hc⟩ := h
  cases w with
  | nil => exact ⟨a, c, b, by simp, hc⟩
  | cons d w => exact ⟨a, d, w ++ c :: b, by simp, hw d List.mem_cons_self⟩

theorem trimEnd (h : EndsIn q t) : EndsIn (Text.trimEnd q) t := by
  obtain ⟨w, hw, hq⟩ := exists_blanks_append q.reverse
  have hsplit : q = Text.trimEnd q ++ w.reverse := by
    simpa [Text.trimEnd] using congrArg List.reverse hq
  refine of_append ?_ (hsplit ▸ h)
  intro c hc
  have hblank := hw c (List.mem_reverse.mp hc)
  cases hn : isNameChar c with
  | false => rfl
  | true =>
    rw [isBlank_of_isNameChar hn] at hblank
    cases hblank

theorem trim (h : EndsIn q t) : EndsIn (Text.trim q) t := (h.of_suffix (skipBlanks_isSuffix q)).trimEnd

theorem unquote (h : EndsIn q t) : EndsIn (Code.unquote q) t := by
  cases hf : Code.quotes.filterMap fun c => (expect? c q).bind (before? [c]) with
  | nil => simpa [Code.unquote, hf] using h
  | cons inner rest =>
    have hmem : inner ∈ Code.quotes.filterMap fun c => (expect? c q).bind (before? [c]) := by simp [hf]
    obtain ⟨c, hc, hinner⟩ := List.mem_filterMap.mp hmem
    obtain ⟨u, hu, hbefore⟩ := Option.bind_eq_some_iff.mp hinner
    obtain rfl := expect?_eq_some_iff.mp hu
    obtain rfl := before?_eq_some_iff.mp hbefore
    have hquote : ∀ c ∈ Code.quotes, isNameChar c = false := by decide
    have hread : Code.unquote (c :: (inner ++ [c])) = inner := by simp [Code.unquote, hf]
    rw [hread]
    exact (h.of_suffix (List.suffix_cons c _)).of_append (by simpa using hquote c hc)

end EndsIn

/-- The names a text may hold: one for each place, as far as it goes. -/
def runs (t : Text) : List Text := t.tails.map (List.takeWhile isNameChar)

theorem length_runs (t : Text) : (runs t).length = t.length + 1 := by
  rw [runs, List.length_map, List.length_tails]

theorem EndsIn.mem_runs (h : EndsIn p t) (hp : ∀ c ∈ p, isNameChar c = true) : p ∈ runs t := by
  obtain ⟨a, c, b, rfl, hc⟩ := h
  have htake : (p ++ c :: b).takeWhile isNameChar = p := by
    rw [List.takeWhile_append_of_pos hp, List.takeWhile_cons_of_neg (by simp [hc]), List.append_nil]
  exact List.mem_map.mpr ⟨p ++ c :: b, (List.mem_tails _ _).mpr ⟨a, rfl⟩, htake⟩

end Text

theorem Code.endsIn_key {entry key value : Text} (h : keyValue? entry = some (key, value)) :
    Text.EndsIn key entry := by
  have hmarks := List.takeWhile_append_dropWhile (p := (!isKeyColon ·)) (l := marks .brackets entry)
  rw [keyValue?] at h
  split at h
  · cases h
  · rename_i colon ms hms
    simp only at h
    split at h
    · cases h
    · obtain ⟨rfl, rfl⟩ := Prod.mk.inj (Option.some.inj h)
      have hcolon : isKeyColon colon = true := by
        have hhead := List.head?_dropWhile_not (!isKeyColon ·) (marks .brackets entry)
        rw [hms] at hhead
        simpa using hhead
      have hchar : colon.char = ':' := by
        simp only [isKeyColon, Bool.and_eq_true, beq_iff_eq] at hcolon
        exact hcolon.2
      rw [hms] at hmarks
      have hchars := congrArg (List.map Mark.char) hmarks
      rw [marks, map_char_marksFrom, List.map_append, List.map_cons, hchar] at hchars
      have hwritten : Text.EndsIn (((marks .brackets entry).takeWhile (!isKeyColon ·)).map Mark.char) entry :=
        ⟨[], ':', ms.map Mark.char, hchars.symm, by decide⟩
      exact hwritten.trim.unquote

namespace Property

theorem endsIn_propertyOfObject? {origin : Origin} {entry : Text} {p : Property}
    (h : propertyOfObject? origin entry = some p) : Text.EndsIn p.name entry := by
  obtain ⟨⟨name, value⟩, hkv, hp⟩ := Option.bind_eq_some_iff.mp h
  have hname := Code.endsIn_key hkv
  simp only at hp
  split at hp
  · split at hp
    · obtain rfl := Option.some.inj hp
      exact hname
    · obtain rfl := Option.some.inj hp
      exact hname
  · cases hp

theorem endsIn_propertyOfType? {entry : Text} {p : Property} (h : propertyOfType? entry = some p) :
    Text.EndsIn p.name entry := by
  obtain ⟨⟨written, value⟩, hkv, hp⟩ := Option.bind_eq_some_iff.mp h
  have hwritten := Code.endsIn_key hkv
  simp only at hp
  generalize hkey : Text.trim ((Text.after? "readonly ".toList written).getD written) = key at hp
  have hkey' : Text.EndsIn key entry := by
    rw [← hkey]
    cases ha : Text.after? "readonly ".toList written with
    | none => exact hwritten.trim
    | some rest => exact (hwritten.of_suffix (Text.after?_isSuffix ha)).trim
  have hname : Text.EndsIn (Code.unquote (((Text.before? ['?'] key).map Text.trimEnd).getD key)) entry := by
    cases hb : Text.before? ['?'] key with
    | none => exact hkey'.unquote
    | some bare =>
      rw [Text.before?_eq_some_iff.mp hb] at hkey'
      exact (hkey'.of_append (by decide)).trimEnd.unquote
  split at hp
  · obtain rfl := Option.some.inj hp
    exact hname
  · cases hp

theorem map_name_setDefault (name value : Text) (props : List Property) :
    (setDefault name value props).map Property.name = props.map Property.name := by
  induction props with
  | nil => rfl
  | cons p props ih =>
    by_cases h : p.name = name
    · simp [setDefault, h]
    · simp [setDefault, h, ih]

theorem map_name_applyDefaults (script : Text) (props : List Property) :
    (applyDefaults script props).map Property.name = props.map Property.name := by
  rw [applyDefaults]
  split
  · rfl
  · refine List.foldlRecOn _ _
      (motive := fun ps : List Property => ps.map Property.name = props.map Property.name) rfl ?_
    intro ps hps entry _
    rw [map_name_setDefault, hps]

theorem endsIn_ofObjectBody {origin : Origin} {body : Text} {p : Property}
    (h : p ∈ ofObjectBody origin body) : Text.EndsIn p.name body := by
  obtain ⟨entry, hmem, hp⟩ := List.mem_filterMap.mp h
  exact (endsIn_propertyOfObject? hp).mono (Code.splitTop_isInfix hmem)

theorem endsIn_inObjectLiteral {script : Text} {p : Property} (h : p ∈ inObjectLiteral script) :
    Text.EndsIn p.name script := by
  obtain ⟨body, hbody, hp⟩ := List.mem_flatMap.mp h
  obtain ⟨object, hobject, hb⟩ := List.mem_filterMap.mp hbody
  exact (endsIn_ofObjectBody hp).mono
    ((Code.bracedBody?_isInfix hb).trans ((readsPart_objectAfter _ _).mem_findAll hobject))

theorem endsIn_inOptions {script : Text} {p : Property} (h : p ∈ inOptions script) :
    Text.EndsIn p.name script := by
  rw [inOptions] at h
  cases hb : (Text.findFirst? (objectAfter "props".toList ':') script).bind Code.bracedBody? with
  | none =>
    rw [hb] at h
    cases h
  | some body =>
    rw [hb, Option.map_some, Option.getD_some] at h
    obtain ⟨object, hobject, hbody⟩ := Option.bind_eq_some_iff.mp hb
    exact (endsIn_ofObjectBody h).mono
      ((Code.bracedBody?_isInfix hbody).trans ((readsPart_objectAfter _ _).findFirst? hobject))

/-- A default changes no name, so the names are those of the entries. -/
theorem endsIn_inTypeLiteral {script name : Text} (h : name ∈ (inTypeLiteral script).map Property.name) :
    Text.EndsIn name script := by
  rw [inTypeLiteral, map_name_applyDefaults] at h
  obtain ⟨p, hp, rfl⟩ := List.mem_map.mp h
  obtain ⟨body, hbody, hp⟩ := List.mem_flatMap.mp hp
  obtain ⟨argument, hargument, hb⟩ := List.mem_filterMap.mp hbody
  obtain ⟨entry, hentry, hread⟩ := List.mem_filterMap.mp hp
  have hpart := argumentBody?_isInfix (readsPart_typeArgument.mem_findAll hargument) hb
  exact (endsIn_propertyOfType? hread).mono ((Code.splitTop_isInfix hentry).trans hpart)

theorem endsIn_declared {regions : Regions} {p : Property} (h : p ∈ declared regions) :
    Text.EndsIn p.name regions.setup ∨ Text.EndsIn p.name regions.plain := by
  have hmem := mem_merge h
  simp only [List.mem_append] at hmem
  rcases hmem with (h | h) | h
  · exact .inl (endsIn_inTypeLiteral (List.mem_map_of_mem h))
  · exact .inl (endsIn_inObjectLiteral h)
  · exact .inr (endsIn_inOptions h)

/-- There are no more properties than words in the scripts. -/
theorem length_declared_le (regions : Regions) :
    (declared regions).length ≤ (regions.setup.length + 1) + (regions.plain.length + 1) := by
  have hnodup : ((declared regions).map Property.name).Nodup := by
    rw [declared, map_name_merge]
    exact Names.nodup_ofList _
  have hsub : (declared regions).map Property.name ⊆
      Text.runs regions.setup ++ Text.runs regions.plain := by
    intro name hname
    obtain ⟨p, hp, rfl⟩ := List.mem_map.mp hname
    have hchars := Text.isNameChar_of_mem (declared_isPartOf hp).isName
    rcases endsIn_declared hp with h | h
    · exact List.mem_append_left _ (h.mem_runs hchars)
    · exact List.mem_append_right _ (h.mem_runs hchars)
  have hlen := (hnodup.subperm hsub).length_le
  rwa [List.length_map, List.length_append, Text.length_runs, Text.length_runs] at hlen

end Property

theorem lineCount_le (t : Text) : lineCount t ≤ t.length + 1 := by
  rw [lineCount]
  split
  · omega
  · have hcount := List.count_le_length (a := '\n') (l := t)
    omega

theorem Text.length_findFrom_le {α : Type} (r : Recognizer α) (prev : Option Char) (skip : Nat) (t : Text) :
    (findFrom r prev skip t).length ≤ t.length := by
  induction t generalizing prev skip with
  | nil => simp [findFrom]
  | cons c t ih =>
    cases skip with
    | succ skip => exact Nat.le_succ_of_le (ih _ _)
    | zero =>
      rw [findFrom]
      split
      · exact Nat.succ_le_succ (ih _ _)
      · exact Nat.le_succ_of_le (ih _ _)

theorem Block.length_body_lt (kind : BlockKind) {t rest : Text} {prev : Option Char} {block : Block}
    (h : recognizer kind.tag prev t = some (block, rest)) : block.body.length < t.length := by
  obtain ⟨opening, closing, ⟨name, -, -, -, rfl⟩, -, -, rfl⟩ := recognizer_eq_some_iff.mp h
  simp only [List.length_append, List.length_cons]
  omega

namespace Regions

/-- A region is empty or shorter than the source. -/
def IsInside (source region : Text) : Prop := region = [] ∨ region.length < source.length

theorem isInside_bodyOf {source : Text} {block : Option Block}
    (h : ∀ b ∈ block, b.body.length < source.length) : IsInside source (bodyOf block) := by
  cases block with
  | none => exact .inl rfl
  | some b => exact .inr (h b rfl)

structure AreInside (source : Text) (regions : Regions) : Prop where
  markup : IsInside source regions.markup
  setup : IsInside source regions.setup
  plain : IsInside source regions.plain

theorem areInside_ofSource (source : Text) : (ofSource source).AreInside source := by
  have hscript : ∀ p : Block → Bool,
      IsInside source (bodyOf ((Text.findAll (Block.recognizer "script".toList) source).find? p)) := by
    intro p
    refine isInside_bodyOf ?_
    intro b hb
    obtain ⟨prev, s, rest, hs, hread⟩ := Text.mem_findAll (List.mem_of_find?_eq_some hb)
    exact Nat.lt_of_lt_of_le (Block.length_body_lt .script hread) hs.length_le
  refine ⟨isInside_bodyOf ?_, hscript _, hscript _⟩
  intro b hb
  obtain ⟨prev, s, rest, hs, hread⟩ := Text.findFirst?_eq_some hb
  exact Nat.lt_of_lt_of_le (Block.length_body_lt .template hread) hs.length_le

end Regions

/-- Metrics that a manifest can hold: counts of 64 bits and a cohesion in hundredths. -/
structure Metrics.Fits (m : Metrics) : Prop where
  templateLines : m.templateLines < Nat.pow 2 64
  scriptLines : m.scriptLines < Nat.pow 2 64
  branches : m.branches < Nat.pow 2 64
  propsDeclared : m.propsDeclared < Nat.pow 2 64
  propsUsed : m.propsUsed < Nat.pow 2 64
  cohesion : ∃ k ≤ 100, m.cohesion = Binary64.ofHundredths k

theorem Usage.cohesionHundredths_le (used declared : Nat) : cohesionHundredths used declared ≤ 100 := by
  rw [cohesionHundredths]
  split
  · omega
  · split
    · omega
    · simp only
      omega

/-- With less than `2 ^ 63` characters in each region, every count is below `2 ^ 64`. -/
theorem Metrics.fits_of {regions : Regions} (hm : regions.markup.length + 1 < Nat.pow 2 63)
    (hs : regions.setup.length + 1 < Nat.pow 2 63) (hp : regions.plain.length + 1 < Nat.pow 2 63) :
    (Metrics.of regions (Usage.ofMarkup regions.markup
      ((Property.declared regions).map Property.name))).Fits := by
  have hpow : Nat.pow 2 64 = 2 * Nat.pow 2 63 := by decide
  have hproperties := Property.length_declared_le regions
  refine ⟨?_, ?_, ?_, ?_, ?_, _, Usage.cohesionHundredths_le _ _, rfl⟩
  · have hlines := lineCount_le regions.markup
    change lineCount regions.markup < _
    omega
  · have hsetup := lineCount_le regions.setup
    have hplain := lineCount_le regions.plain
    change lineCount regions.setup + lineCount regions.plain < _
    omega
  · have hbranches : (Text.findAll branchDirective regions.markup).length ≤ regions.markup.length :=
      Text.length_findFrom_le branchDirective none 0 regions.markup
    change (Text.findAll branchDirective regions.markup).length < _
    omega
  · change (Usage.ofMarkup regions.markup _).declared < _
    rw [Usage.declared_ofMarkup, List.length_map]
    omega
  · have hused := List.countP_le_length (p := fun p => isReferenced regions.markup p.name)
      (l := Property.declared regions)
    change (Usage.ofMarkup regions.markup _).used.length < _
    rw [Usage.length_used]
    omega

/-- The contract of a source that fits into memory fits into a manifest. -/
theorem Contract.fits_analyze {source : Text} (h : source.length < Nat.pow 2 63) (path : Text) :
    (analyze source path).metrics.Fits := by
  have hregions := Regions.areInside_ofSource source
  have hroom {region : Text} (hr : Regions.IsInside source region) : region.length + 1 < Nat.pow 2 63 := by
    rcases hr with rfl | hr
    · decide
    · omega
  exact Metrics.fits_of (hroom hregions.markup) (hroom hregions.setup) (hroom hregions.plain)

end SfcContract
