import Mathlib.Data.List.Infix
import SfcContract.Proofs.Code.Written
import SfcContract.Property.TypeLiteral

/-!
# Type literals read back

A type literal of entries `[readonly ]name[?]: type` inside `defineProps<{ … }>()` declares one property
for each entry, in their order. The type argument ends at the first `>` before `()`. That this is the one
after the closing brace needs two facts: no type holds such a call, and none ends in the middle of one.
-/

namespace SfcContract.Property

open Code

abbrev typeSeparators : List Char := [';', ',', '\n']

theorem areSeparators_type : AreSeparators typeSeparators := by
  intro c hc
  simp only [typeSeparators, List.mem_cons, List.not_mem_nil, or_false] at hc
  rcases hc with rfl | rfl | rfl <;> decide

/-- An entry of a type literal. Blanks before the colon stay on its line. -/
structure TypeEntry where
  key : Key
  readonly : Bool := false
  optional : Bool := false
  gap : Text := []
  type : Value typeSeparators .brackets
  isGap : ∀ c ∈ gap, Text.isBlank c = true ∧ c ≠ '\n'
  isType : ¬ Text.IsBlanks type.text

namespace TypeEntry

variable (entry : TypeEntry)

def modifier : Text := if entry.readonly then "readonly ".toList else []

def mark : Text := if entry.optional then ['?'] else []

/-- Everything before the blanks and the colon. -/
def head : Text := entry.modifier ++ (entry.key.text ++ entry.mark)

def text : Text := entry.modifier ++ (entry.key.text ++ (entry.mark ++ (entry.gap ++ ':' :: entry.type.text)))

def property : Property where
  name := entry.key.name
  type := Text.trim entry.type.text
  required := !entry.optional
  origin := .typeLiteral

theorem text_eq : entry.text = entry.head ++ entry.gap ++ ':' :: entry.type.text := by
  simp [text, head]

theorem gap_isBlanks : Text.IsBlanks entry.gap := fun c hc => (entry.isGap c hc).1

private theorem modifier_subset : ∀ c ∈ entry.modifier, c ∈ "readonly ".toList := by
  intro c hc
  cases h : entry.readonly with
  | false => simp [modifier, h] at hc
  | true => simpa [modifier, h] using hc

private theorem mark_subset : ∀ c ∈ entry.mark, c = '?' := by
  intro c hc
  cases h : entry.optional with
  | false => simp [mark, h] at hc
  | true => simpa [mark, h] using hc

private theorem passes_append {angles : Angles} {avoid : List Char} {t : Text}
    (ha : ∀ c ∈ avoid, Text.isNameChar c = false) (hm : ∀ c ∈ '?' :: "readonly ".toList, c ∉ avoid)
    (ht : Passes angles avoid t) :
    Passes angles avoid (entry.modifier ++ (entry.key.text ++ (entry.mark ++ t))) := by
  have hplain : ∀ c ∈ '?' :: "readonly ".toList, IsPlain c := by decide
  refine Passes.plain_append ?_ (entry.key.passes_append ha (Passes.plain_append ?_ ht))
  · intro c hc
    have hmem := List.mem_cons_of_mem '?' (entry.modifier_subset c hc)
    exact ⟨hplain c hmem, hm c hmem⟩
  · intro c hc
    obtain rfl := entry.mark_subset c hc
    exact ⟨hplain _ (List.mem_cons_self ..), hm _ (List.mem_cons_self ..)⟩

theorem passes_braced : Passes .ignore [] entry.text := by
  refine entry.passes_append (by simp) (by simp) ?_
  refine Passes.plain_append ?_ entry.type.passes_braced
  exact fun c hc => ⟨isPlain_of_isBlank (entry.isGap c hc).1, List.not_mem_nil⟩

theorem passes : Passes .brackets typeSeparators entry.text := by
  refine entry.passes_append (by decide) (by decide) ?_
  refine Passes.plain_append ?_ (entry.type.passes (by decide))
  intro c hc
  obtain ⟨hblank, hline⟩ := entry.isGap c hc
  refine ⟨isPlain_of_isBlank hblank, ?_⟩
  simp only [typeSeparators, List.mem_cons, List.not_mem_nil, or_false, not_or]
  refine ⟨?_, ?_, hline⟩ <;> rintro rfl <;> exact absurd hblank (by decide)

theorem mark_isTrimmed {t : Text} (ht : Text.IsTrimmed t) : Text.IsTrimmed (t ++ entry.mark) := by
  cases h : entry.optional with
  | false => simpa [mark, h] using ht
  | true =>
    have hmark : Text.IsTrimmed ['?'] := ⟨⟨'?', [], rfl, by decide⟩, [], '?', rfl, by decide⟩
    simpa [mark, h] using ht.append hmark

theorem head_isTrimmed : Text.IsTrimmed entry.head := by
  have hrest := entry.mark_isTrimmed entry.key.text_isTrimmed
  cases h : entry.readonly with
  | false => simpa [head, modifier, h] using hrest
  | true =>
    obtain ⟨r, c, hr, hc⟩ := hrest.last
    refine ⟨⟨'r', "eadonly ".toList ++ (entry.key.text ++ entry.mark), ?_, by decide⟩,
      "readonly ".toList ++ r, c, ?_, hc⟩
    · simp [head, modifier, h]
    · rw [head, modifier, h, hr]
      simp

/-- A name that may still have its quotes. -/
private structure IsStem (stem : Text) : Prop where
  trimmed : Text.IsTrimmed stem
  unquoted : unquote stem = entry.key.name
  chars : ∀ c ∈ stem, c ≠ ' ' ∧ c ≠ '?'

private theorem isStem_name : entry.IsStem entry.key.name where
  trimmed := entry.key.name_isTrimmed
  unquoted := entry.key.unquote_name
  chars c hc := by
    have hkind := Text.isNameChar_of_mem entry.key.isName c hc
    constructor <;> rintro rfl <;> exact absurd hkind (by decide)

private theorem isStem_text : entry.IsStem entry.key.text where
  trimmed := entry.key.text_isTrimmed
  unquoted := entry.key.unquote_text
  chars c hc := by
    have hkind := entry.key.mem_text hc
    constructor <;> rintro rfl <;> exact absurd hkind (by decide)

-- Quotes around the whole head are taken off. Those of a name with a modifier or mark stay for now.
private theorem unquote_head :
    ∃ stem, entry.IsStem stem ∧ unquote entry.head = entry.modifier ++ (stem ++ entry.mark) := by
  cases hr : entry.readonly with
  | true =>
    refine ⟨entry.key.text, entry.isStem_text, unquote_of_not ?_⟩
    intro q hq r he
    have hfirst : q = 'r' := by
      simp only [head, modifier, hr, if_true] at he
      exact (List.cons.inj he).1.symm
    subst hfirst
    exact absurd hq (by decide)
  | false =>
    cases ho : entry.optional with
    | true =>
      refine ⟨entry.key.text, entry.isStem_text, unquote_of_not ?_⟩
      intro q hq r he
      have hlast : entry.head.getLast? = some '?' := by simp [head, mark, ho]
      rw [he, List.getLast?_concat, Option.some.injEq] at hlast
      subst hlast
      exact absurd hq (by decide)
    | false =>
      refine ⟨entry.key.name, entry.isStem_name, ?_⟩
      simpa [head, modifier, mark, hr, ho] using entry.key.unquote_text

theorem keyValue?_text : keyValue? (Text.trim entry.text) =
    some (unquote entry.head, Text.trim entry.type.text) := by
  have hkey : Passes .brackets [':'] (entry.head ++ entry.gap) := by
    have hgap : Passes .brackets [':'] entry.gap := by
      refine Passes.plain ?_
      intro c hc
      refine ⟨isPlain_of_isBlank (entry.isGap c hc).1, fun hmem => ?_⟩
      obtain rfl := List.mem_singleton.mp hmem
      exact absurd (entry.isGap _ hc).1 (by decide)
    simpa [head] using entry.passes_append (by decide) (by decide) hgap
  have hname : Text.trim (entry.head ++ entry.gap) = entry.head :=
    entry.head_isTrimmed.trim_append entry.gap_isBlanks
  have hne : unquote entry.head ≠ [] := by
    obtain ⟨stem, hstem, hs⟩ := entry.unquote_head
    obtain ⟨c, r, hc, -⟩ := hstem.trimmed.first
    rw [hs, hc]
    simp
  have hread := keyValue?_of_passes hkey (by rwa [hname]) (Text.trimEnd entry.type.text)
  have hfirst : ∃ c r, entry.head ++ entry.gap = c :: r ∧ Text.isBlank c = false := by
    obtain ⟨c, r, hc, hblank⟩ := entry.head_isTrimmed.first
    exact ⟨c, r ++ entry.gap, by rw [hc, List.cons_append], hblank⟩
  rw [entry.text_eq, trim_key_colon hfirst, hread, hname, Text.trim_trimEnd]

private theorem strip_modifier {stem : Text} (hstem : entry.IsStem stem) :
    (Text.after? "readonly ".toList (entry.modifier ++ (stem ++ entry.mark))).getD
      (entry.modifier ++ (stem ++ entry.mark)) = stem ++ entry.mark := by
  cases hr : entry.readonly with
  | true =>
    have hafter : Text.after? "readonly ".toList (entry.modifier ++ (stem ++ entry.mark)) =
        some (stem ++ entry.mark) := by
      rw [Text.after?_eq_some_iff, modifier, if_pos hr]
    rw [hafter, Option.getD_some]
  | false =>
    -- Without the modifier there is no blank in the head to end the word.
    have hafter : Text.after? "readonly ".toList (stem ++ entry.mark) = none := by
      rw [Option.eq_none_iff_forall_ne_some]
      intro r he
      have hmem : ' ' ∈ stem ++ entry.mark := by
        rw [Text.after?_eq_some_iff.mp he]
        exact List.mem_append_left r (by decide)
      rcases List.mem_append.mp hmem with h | h
      · exact (hstem.chars ' ' h).1 rfl
      · exact absurd (entry.mark_subset ' ' h) (by decide)
    rw [modifier, hr, if_neg (by simp), List.nil_append, hafter, Option.getD_none]

private theorem strip_mark {stem : Text} (hstem : entry.IsStem stem) :
    Text.before? ['?'] (stem ++ entry.mark) = if entry.optional then some stem else none := by
  cases ho : entry.optional with
  | true => simp [mark, ho, Text.before?_eq_some_iff]
  | false =>
    rw [mark, ho, if_neg (by simp), List.append_nil, if_neg (by simp), Option.eq_none_iff_forall_ne_some]
    intro r he
    have hmem : '?' ∈ stem := by
      rw [Text.before?_eq_some_iff.mp he]
      simp
    exact (hstem.chars '?' hmem).2 rfl

theorem propertyOfType?_text : propertyOfType? (Text.trim entry.text) = some entry.property := by
  obtain ⟨stem, hstem, hs⟩ := entry.unquote_head
  have htype : typeOr (Text.trim entry.type.text) = Text.trim entry.type.text := by
    have hne : Text.trim entry.type.text ≠ [] := fun h => entry.isType (Text.trim_eq_nil_iff.mp h)
    simp [typeOr, hne]
  have hkey := (entry.mark_isTrimmed hstem.trimmed).trim_eq
  rw [propertyOfType?, entry.keyValue?_text, hs]
  simp only [Option.bind_eq_bind, Option.bind_some, entry.strip_modifier hstem, hkey,
    entry.strip_mark hstem, htype]
  cases ho : entry.optional with
  | true => simp [hstem.trimmed.trimEnd_eq, hstem.unquoted, entry.key.isName, property, ho]
  | false => simp [mark, ho, hstem.unquoted, entry.key.isName, property]

end TypeEntry

theorem callEnd?_eq_some_iff {t rest : Text} : callEnd? t = some rest ↔
    ∃ u v, t = '>' :: u ∧ Text.skipBlanks u = '(' :: v ∧ Text.skipBlanks v = ')' :: rest := by
  simp only [callEnd?, Option.bind_eq_bind, Option.bind_eq_some_iff, Text.expect?_eq_some_iff]
  constructor
  · rintro ⟨u, hu, v, hv, hr⟩
    exact ⟨u, v, hu, hv, hr⟩
  · rintro ⟨u, v, hu, hv, hr⟩
    exact ⟨u, hu, v, hv, hr⟩

/-- The search for the end of a call passes over `a` when `t` follows. -/
private def Skips (a t : Text) : Prop :=
  Text.upTo? callEnd? (a ++ t) = (Text.upTo? callEnd? t).map fun r => (a ++ r.1, r.2)

namespace Skips

theorem append {a b t : Text} (ha : Skips a (b ++ t)) (hb : Skips b t) : Skips (a ++ b) t := by
  rw [Skips, List.append_assoc, ha, hb, Option.map_map]
  congr 1
  funext r
  simp

theorem of_none {a t : Text} (h : ∀ u v, a = u ++ v → v ≠ [] → callEnd? (v ++ t) = none) : Skips a t := by
  induction a with
  | nil => simp [Skips]
  | cons c a ih =>
    have hnone := h [] (c :: a) rfl (by simp)
    have hrest := ih fun u v he hv => h (c :: u) v (by rw [he, List.cons_append]) hv
    rw [Skips] at hrest ⊢
    rw [List.cons_append] at hnone ⊢
    simp only [Text.upTo?, hnone, hrest, Option.map_map]
    rfl

theorem of_plain {a t : Text} (h : ∀ c ∈ a, c ≠ '>') : Skips a t := by
  refine of_none ?_
  rintro u v rfl hv
  obtain ⟨c, v, rfl⟩ := List.exists_cons_of_ne_nil hv
  have hc := h c (by simp)
  simp [callEnd?, Text.expect?, hc]

end Skips

/-- What follows starts, after blanks, with no parenthesis. -/
private def NoParen (t : Text) : Prop := ∀ r, Text.skipBlanks t ≠ '(' :: r

private theorem noParen_cons {c : Char} (hb : Text.isBlank c = false) (hc : c ≠ '(') (t : Text) :
    NoParen (c :: t) := by
  intro r h
  rw [Text.skipBlanks_cons_of_not hb] at h
  exact hc (List.cons.inj h).1

namespace TypeEntry

variable (entry : TypeEntry)

/-- A type that holds no end of a call does not start one for the text after it either. -/
private theorem skips_type (hcall : ∀ u ∈ entry.type.text.tails, callEnd? u = none) {t : Text}
    (ht : NoParen t) : Skips entry.type.text t := by
  refine Skips.of_none ?_
  intro a b he hb
  rw [Option.eq_none_iff_forall_ne_some]
  intro rest hsome
  obtain ⟨u, v, hu, hv, hr⟩ := callEnd?_eq_some_iff.mp hsome
  obtain ⟨c, b, rfl⟩ := List.exists_cons_of_ne_nil hb
  rw [List.cons_append] at hu
  obtain ⟨rfl, rfl⟩ := List.cons.inj hu
  cases hs : Text.skipBlanks b with
  | nil =>
    rw [Text.skipBlanks_append (Text.skipBlanks_eq_nil_iff.mp hs)] at hv
    exact ht v hv
  | cons d r =>
    rw [Text.skipBlanks_append_of_cons hs] at hv
    obtain ⟨rfl, rfl⟩ := List.cons.inj hv
    cases hr' : Text.skipBlanks r with
    | nil =>
      -- The parenthesis would be the last thing in the type, which is balanced.
      obtain ⟨w, -, hw⟩ := Text.exists_blanks_append b
      have hsplit : entry.type.text = a ++ '>' :: w ++ '(' :: r := by
        rw [he, hw, hs]
        simp
      have hbalanced := hsplit ▸ entry.type.balanced
      refine hbalanced.not_paren_blanks (Text.skipBlanks_eq_nil_iff.mp hr') ?_
      intro m hm hd hline
      rw [← hsplit] at hm
      exact entry.type.uncut m hm hd (by simp [hline, typeSeparators])
    | cons d r' =>
      rw [Text.skipBlanks_append_of_cons hr'] at hr
      obtain ⟨rfl, -⟩ := List.cons.inj hr
      have hnone := hcall ('>' :: b) ((List.mem_tails _ _).mpr ⟨a, he.symm⟩)
      have hhere : callEnd? ('>' :: b) = some r' := callEnd?_eq_some_iff.mpr ⟨b, r, rfl, hs, hr'⟩
      rw [hhere] at hnone
      cases hnone

private theorem mem_head {c : Char} (hc : c ∈ entry.head) :
    c ∈ '?' :: "readonly ".toList ∨ Text.isNameChar c = true ∨ c ∈ quotes := by
  simp only [head, List.mem_append] at hc
  rcases hc with hc | hc | hc
  · exact .inl (List.mem_cons_of_mem _ (entry.modifier_subset c hc))
  · exact .inr (entry.key.mem_text hc)
  · rw [entry.mark_subset c hc]
    exact .inl List.mem_cons_self

private theorem skips_text (hcall : ∀ u ∈ entry.type.text.tails, callEnd? u = none) {t : Text}
    (ht : NoParen t) : Skips entry.text t := by
  have hhead : ∀ c ∈ entry.head ++ entry.gap ++ [':'], c ≠ '>' := by
    intro c hc
    simp only [List.mem_append, List.mem_singleton] at hc
    rcases hc with (hc | hc) | rfl
    · rintro rfl
      exact absurd (entry.mem_head hc) (by decide)
    · rintro rfl
      exact absurd (entry.isGap _ hc).1 (by decide)
    · decide
  have hsplit : entry.text = entry.head ++ entry.gap ++ [':'] ++ entry.type.text := by
    rw [entry.text_eq]
    simp
  rw [hsplit]
  exact Skips.append (Skips.of_plain hhead) (entry.skips_type hcall ht)

private theorem noParen_text (t : Text) : NoParen (entry.text ++ t) := by
  obtain ⟨c, r, hc, hblank⟩ := entry.head_isTrimmed.first
  have hfirst : c ≠ '(' := by
    rintro rfl
    have hmem : '(' ∈ entry.head := by simp [hc]
    exact absurd (entry.mem_head hmem) (by decide)
  rw [entry.text_eq, hc]
  exact noParen_cons hblank hfirst _

end TypeEntry

/-- Filler never puts a parenthesis in front. -/
private theorem noParen_filler {gap t : Text} (hg : IsFiller typeSeparators gap) (ht : NoParen t) :
    NoParen (gap ++ t) := by
  induction gap with
  | nil => exact ht
  | cons c gap ih =>
    have hrest := ih fun d hd => hg d (List.mem_cons_of_mem _ hd)
    cases hb : Text.isBlank c with
    | true =>
      intro r
      rw [List.cons_append, Text.skipBlanks_cons_of_blank hb]
      exact hrest r
    | false =>
      have hsep : c ∈ typeSeparators := (hg c List.mem_cons_self).resolve_left (by simp [hb])
      refine noParen_cons hb ?_ _
      rintro rfl
      exact absurd hsep (by decide)

private theorem skips_filler {gap t : Text} (hg : IsFiller typeSeparators gap) : Skips gap t := by
  refine Skips.of_plain ?_
  rintro c hc rfl
  exact absurd (hg _ hc) (by decide)

/-- A body of entries is passed over and puts no parenthesis in front of anything. -/
private theorem skips_layout {entries : List TypeEntry} {texts : List Text} {body t : Text}
    (hl : Layout typeSeparators texts body) (he : texts = entries.map TypeEntry.text)
    (hcall : ∀ entry ∈ entries, ∀ u ∈ entry.type.text.tails, callEnd? u = none) (ht : NoParen t) :
    NoParen (body ++ t) ∧ Skips body t := by
  induction hl generalizing entries with
  | filler hg => exact ⟨noParen_filler hg ht, skips_filler hg⟩
  | last hg =>
    obtain ⟨entry, rest, rfl, rfl, -⟩ := List.map_eq_cons_iff.mp he.symm
    have hentry := entry.skips_text (hcall entry List.mem_cons_self) ht
    rw [List.append_assoc]
    exact ⟨noParen_filler hg (entry.noParen_text t), (skips_filler hg).append hentry⟩
  | @more gap e c es body hg hc _ ih =>
    obtain ⟨entry, rest, rfl, rfl, hrest⟩ := List.map_eq_cons_iff.mp he.symm
    obtain ⟨hparen, hskip⟩ := ih hrest.symm fun entry hmem => hcall entry (List.mem_cons_of_mem _ hmem)
    have hsep : IsFiller typeSeparators [c] := fun d hd => .inr (List.mem_singleton.mp hd ▸ hc)
    have hnext : Skips (c :: body) t := (skips_filler hsep).append hskip
    have hbefore : NoParen ([c] ++ (body ++ t)) := noParen_filler hsep hparen
    have hentry : Skips entry.text (c :: body ++ t) :=
      entry.skips_text (hcall entry List.mem_cons_self) hbefore
    rw [List.append_assoc, List.append_assoc]
    exact ⟨noParen_filler hg (entry.noParen_text _), (skips_filler hg).append (hentry.append hnext)⟩

def typeCall (body after : Text) : Text :=
  "defineProps".toList ++ '<' :: '{' :: (body ++ '}' :: '>' :: '(' :: ')' :: after)

theorem typeArgument_of_upTo? {prev : Option Char} (hp : prev.any Text.isWord = false) {argument after t : Text}
    (h : Text.upTo? callEnd? t = some (argument, after)) :
    typeArgument prev ("defineProps".toList ++ '<' :: t) = some (argument, after) := by
  have hword : Text.wordStart? "defineProps".toList prev ("defineProps".toList ++ '<' :: t) = some ('<' :: t) :=
    Text.wordStart?_eq_some_iff.mpr ⟨hp, rfl⟩
  have hangle : Text.isBlank '<' = false := by decide
  rw [typeArgument, hword]
  simp only [Option.bind_eq_bind, Option.bind_some, Text.skipBlanks_cons_of_not hangle, Text.expect?, if_true]
  exact h

theorem callEnd?_end (after : Text) : callEnd? ('>' :: '(' :: ')' :: after) = some after :=
  callEnd?_eq_some_iff.mpr ⟨_, _, rfl, Text.skipBlanks_cons_of_not (by decide) _,
    Text.skipBlanks_cons_of_not (by decide) _⟩

theorem typeArgument_typeCall {entries : List TypeEntry} {body : Text}
    (hbody : Layout typeSeparators (entries.map TypeEntry.text) body)
    (hcall : ∀ entry ∈ entries, ∀ u ∈ entry.type.text.tails, callEnd? u = none) {prev : Option Char}
    (hp : prev.any Text.isWord = false) (after : Text) :
    typeArgument prev (typeCall body after) = some ('{' :: (body ++ ['}']), after) := by
  have hrest : NoParen ('}' :: '>' :: '(' :: ')' :: after) := noParen_cons (by decide) (by decide) _
  have hskips : Skips ('{' :: (body ++ ['}'])) ('>' :: '(' :: ')' :: after) := by
    refine Skips.append (a := ['{']) (Skips.of_plain (by decide)) ?_
    exact (skips_layout hbody rfl hcall hrest).2.append (Skips.of_plain (by decide))
  have hsplit : '{' :: (body ++ '}' :: '>' :: '(' :: ')' :: after) =
      '{' :: (body ++ ['}']) ++ '>' :: '(' :: ')' :: after := by simp
  apply typeArgument_of_upTo? hp
  rw [hsplit, hskips, Text.upTo?, callEnd?_end]
  simp

/-- The body of a literal declares its entries, one property for each and in their order. -/
theorem ofTypeBody_layout {entries : List TypeEntry} {body : Text}
    (hbody : Layout typeSeparators (entries.map TypeEntry.text) body) :
    ofTypeBody body = entries.map TypeEntry.property := by
  have hpieces : ∀ e ∈ entries.map TypeEntry.text, Passes .brackets typeSeparators e ∧ Text.trim e ≠ [] := by
    intro e he
    obtain ⟨entry, -, rfl⟩ := List.mem_map.mp he
    refine ⟨entry.passes, fun hnil => ?_⟩
    have hread := entry.keyValue?_text
    rw [hnil] at hread
    exact absurd hread (by simp [keyValue?, marks, marksFrom])
  rw [ofTypeBody, hbody.splitTop_eq areSeparators_type hpieces, List.filterMap_map, List.filterMap_map]
  rw [← List.filterMap_eq_map]
  refine List.filterMap_congr ?_
  intro entry _
  exact entry.propertyOfType?_text

theorem argumentBody?_layout {entries : List TypeEntry} {body : Text}
    (hbody : Layout typeSeparators (entries.map TypeEntry.text) body) (script : Text) :
    argumentBody? script ('{' :: (body ++ ['}'])) = some body := by
  have hpasses : Passes .ignore [] body := by
    refine hbody.passes areSeparators_type ?_
    intro e he
    obtain ⟨entry, -, rfl⟩ := List.mem_map.mp he
    exact entry.passes_braced
  have hread : bracedBody? ('{' :: body ++ ['}']) = some body :=
    bracedBody?_of_passes (by decide) (by decide) hpasses
  exact hread

theorem applyDefaults_of_findFirst? {script : Text} (h : Text.findFirst? withDefaultsCall script = none)
    (props : List Property) : applyDefaults script props = props := by
  have hbody : defaultsBody? script = none := by
    rw [defaultsBody?, h]
    rfl
  rw [applyDefaults, hbody]

theorem applyDefaults_of_places {script : Text}
    (hnone : Text.places (Text.literally "withDefaults".toList) script = []) (props : List Property) :
    applyDefaults script props = props := by
  have hplaces : Text.places withDefaultsCall script = [] := by
    have hsub : Text.places withDefaultsCall script ⊆ _ := Text.places_wordStart_subset _ script
    rw [hnone] at hsub
    exact List.subset_nil.mp hsub
  apply applyDefaults_of_findFirst?
  rw [Text.findFirst?_eq_head?, Text.findAll_of_places_nil hplaces]
  rfl

/-- Type declarations are read back. The script may hold anything before and after the call, as long as
the words of the idiom stand nowhere else. -/
theorem type_declarations_read_back (entries : List TypeEntry) (before body after : Text)
    (hbody : Layout typeSeparators (entries.map TypeEntry.text) body)
    (hcall : ∀ entry ∈ entries, ∀ u ∈ entry.type.text.tails, callEnd? u = none)
    (hprev : before.getLast?.any Text.isWord = false)
    (honce : Text.places (Text.literally "defineProps".toList) (before ++ typeCall body after) =
      [before.length])
    (hnone : Text.places (Text.literally "withDefaults".toList) (before ++ typeCall body after) = []) :
    inTypeLiteral (before ++ typeCall body after) = entries.map TypeEntry.property := by
  have hplaces : ∀ n ∈ Text.places typeArgument (before ++ typeCall body after), n = before.length := by
    intro n hn
    have hmem := Text.places_wordStart_subset _ _ hn
    rw [honce] at hmem
    exact List.mem_singleton.mp hmem
  have hfound := Text.findAll_of_places hplaces (typeArgument_typeCall hbody hcall hprev after)
    (List.cons_ne_nil _ _)
  rw [inTypeLiteral, applyDefaults_of_places hnone, hfound,
    List.filterMap_cons_some (argumentBody?_layout hbody _), List.filterMap_nil, List.flatMap_singleton,
    ofTypeBody_layout hbody]

-- A comma inside a generic type, and the `>` of an arrow.
def sizesType : TypeEntry where
  key := { name := "max-size".toList, quote := some '\x27', isName := by decide, isQuote := Key.isQuote_single }
  readonly := true
  optional := true
  type := { text := " Map<a, b>".toList
            braced := by decide +kernel, balanced := by decide +kernel, uncut := by decide +kernel }
  isGap := by decide
  isType := by decide

def pickType : TypeEntry where
  key := { name := "pick".toList, isName := by decide, isQuote := Key.isQuote_none }
  type := { text := " (x: T) => void".toList
            braced := by decide +kernel, balanced := by decide +kernel, uncut := by decide +kernel }
  isGap := by decide
  isType := by decide

theorem type_declarations_read_back_call :
    inTypeLiteral ("x = defineProps<\x7b readonly 'max-size'?: Map<a, b>;\n".toList ++
      "  pick: (x: T) => void\n\x7d>()".toList) = [sizesType.property, pickType.property] := by
  have hscript : "x = defineProps<\x7b readonly 'max-size'?: Map<a, b>;\n".toList ++
      "  pick: (x: T) => void\n\x7d>()".toList = "x = ".toList ++ typeCall (" ".toList ++ (sizesType.text ++
        ';' :: ("\n  ".toList ++ (pickType.text ++ '\n' :: [])))) [] := by
    decide +kernel
  rw [hscript]
  exact type_declarations_read_back [sizesType, pickType] _ _ _
    (.more (by decide) (by decide) (.more (by decide) (by decide) (.filler (by decide))))
    (by decide +kernel) (by decide) (by decide +kernel) (by decide +kernel)

end SfcContract.Property
