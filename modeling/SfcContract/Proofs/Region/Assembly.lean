import SfcContract.Proofs.Region.Block
import SfcContract.Proofs.Text.Word

/-!
# Regions of an assembled component

A component is put together from blocks with other text around them. Segmenting it gives the bodies back:
of the first template, of the first script that is marked as setup, and of the first one that is not.
-/

namespace SfcContract

/-- Somewhere `<` or `</` is followed by the tag of a block, regardless of case. -/
def HoldsBlockTag (t : Text) : Prop :=
  ∃ sign ∈ [['<'], ['<', '/']], ∃ kind ∈ [BlockKind.template, .script], sign ++ kind.tag <:+: t.map Text.fold

instance (t : Text) : Decidable (HoldsBlockTag t) :=
  inferInstanceAs (Decidable (∃ sign ∈ [['<'], ['<', '/']], ∃ kind ∈ [BlockKind.template, .script],
    sign ++ kind.tag <:+: t.map Text.fold))

/-- A block of an assembled component. Its attributes are set off from its tag. -/
structure WrittenBlock extends Block where
  kind : BlockKind
  separate : attributes.head?.all Text.isBlank = true
  flat : '<' ∉ attributes ∧ '>' ∉ attributes
  unmarked : ¬ HoldsBlockTag body

namespace WrittenBlock

def opening (b : WrittenBlock) : Text := '<' :: (b.kind.tag ++ (b.attributes ++ ['>']))

def closing (b : WrittenBlock) : Text := '<' :: '/' :: (b.kind.tag ++ ['>'])

def text (b : WrittenBlock) : Text := b.opening ++ (b.body ++ b.closing)

end WrittenBlock

namespace Block

variable {kind : BlockKind} {a t : Text}

theorem afterFolded?_tag_of_ne {other : BlockKind} (h : other ≠ kind) (t : Text) :
    Text.afterFolded? kind.tag (other.tag ++ t) = none := by
  cases other with
  | template =>
    cases kind with
    | template => exact absurd rfl h
    | script => rfl
  | script =>
    cases kind with
    | template => rfl
    | script => exact absurd rfl h

theorem isPrefix_of_recognizer {prev : Option Char} (h : recognizer kind.tag prev t ≠ none) :
    '<' :: kind.tag <+: t.map Text.fold := by
  obtain ⟨⟨block, rest⟩, hread⟩ := Option.ne_none_iff_exists'.mp h
  obtain ⟨opening, closing, ⟨name, hname, -, -, rfl⟩, -, -, rfl⟩ := recognizer_eq_some_iff.mp hread
  simp only [List.map_cons, List.map_append, List.cons_append, List.append_assoc, hname]
  exact (List.prefix_cons_inj _).mpr (List.prefix_append _ _)

/-- A closing tag in a text marks it. -/
theorem holdsBlockTag_of_isClosing {part : Text} (hp : kind.IsClosing part) (ha : part <:+: a) : HoldsBlockTag a := by
  obtain ⟨name, gap, hname, -, rfl⟩ := hp
  refine ⟨['<', '/'], by simp, kind, by cases kind <;> simp, List.IsInfix.trans ?_ (ha.map Text.fold)⟩
  rw [List.map_cons, List.map_cons, List.map_append, hname]
  exact (List.prefix_append (['<', '/'] ++ kind.tag) _).isInfix

/-- Where only a sign `<` or nothing follows, a text without tags holds no beginning of a tag either. -/
theorem not_isPrefix_of_unmarked {b u : Text} (ha : ¬ HoldsBlockTag a) (ht : ∀ c ∈ t.head?, c = '<')
    (he : a = b ++ u) (hu : u ≠ []) : ¬ '<' :: kind.tag <+: (u ++ t).map Text.fold := by
  intro h
  rw [List.map_append] at h
  have hfirst : ∀ c ∈ (t.map Text.fold).head?, c ∉ kind.tag := by
    intro c hc hmem
    rw [List.head?_map] at hc
    obtain ⟨d, hd, rfl⟩ := Option.map_eq_some_iff.mp hc
    obtain rfl := ht d hd
    exact not_mem_tag kind (List.mem_cons_of_mem _ hmem)
  have hword := Text.isPrefix_of_isPrefix_append h (by simpa using hu) hfirst
  refine ha ⟨['<'], by simp, kind, by cases kind <;> simp, hword.isInfix.trans ?_⟩
  rw [he, List.map_append]
  exact (List.suffix_append _ _).isInfix

theorem misses_unmarked (ha : ¬ HoldsBlockTag a) (ht : ∀ c ∈ t.head?, c = '<') :
    Text.Misses (recognizer kind.tag) a t := by
  intro b u he hu prev
  by_contra hread
  exact not_isPrefix_of_unmarked ha ht he hu (isPrefix_of_recognizer hread)

theorem misses_of_no_sign (ha : '<' ∉ a) : Text.Misses (recognizer kind.tag) a t := by
  refine Text.Misses.of_first ?_
  intro c hc prev s
  have hne : c ≠ '<' := fun h => ha (h ▸ hc)
  simp [recognizer, Text.expect?, hne]

end Block

namespace WrittenBlock

variable {kind : BlockKind} (b : WrittenBlock) (t : Text)

theorem isOpening : b.kind.IsOpening b.attributes b.opening := by
  refine ⟨b.kind.tag, Block.fold_tag b.kind, ?_, b.flat.2, rfl⟩
  cases ha : b.attributes with
  | nil => rfl
  | cons c r =>
    have hblank : Text.isBlank c = true := by simpa [ha] using b.separate
    exact Text.isWord_of_isBlank hblank

theorem isClosing : b.kind.IsClosing b.closing := ⟨b.kind.tag, [], Block.fold_tag b.kind, Text.isBlanks_nil, rfl⟩

theorem recognizer_text (prev : Option Char) :
    Block.recognizer b.kind.tag prev (b.text ++ t) = some (b.toBlock, t) := by
  refine Block.recognizer_eq_some_iff.mpr ⟨b.opening, b.closing, b.isOpening, b.isClosing, ?_, by simp [text]⟩
  exact fun part hpart hclosing => b.unmarked (Block.holdsBlockTag_of_isClosing hclosing hpart)

/-- A block of another kind is passed over: its tags are not looked for, and its body holds none. -/
theorem misses_text (hk : b.kind ≠ kind) : Text.Misses (Block.recognizer kind.tag) b.text t := by
  have hclose : ∀ s, Text.afterFolded? kind.tag ('/' :: s) = none := by
    intro s
    cases kind <;> rfl
  have htag := Block.not_mem_tag b.kind
  refine Text.Misses.append (Text.Misses.cons ?_ (Block.misses_of_no_sign ?_)) ?_
  · intro prev
    simp [Block.recognizer, Text.expect?, Block.afterFolded?_tag_of_ne hk]
  · simp_all [b.flat.1]
  · refine Text.Misses.append (Block.misses_unmarked b.unmarked (by simp [closing])) ?_
    refine Text.Misses.cons ?_ (Block.misses_of_no_sign ?_)
    · intro prev
      simp [Block.recognizer, Text.expect?, hclose]
    · simp_all

end WrittenBlock

/-- The word `setup` stands in a text, regardless of case, as a word of its own. -/
def HasSetupWord (t : Text) : Prop :=
  ∃ before word after, t = before ++ (word ++ after) ∧ word.map Text.fold = "setup".toList ∧
    before.getLast?.any Text.isWord = false ∧ after.head?.any Text.isWord = false

theorem Block.setupMark_isSome_iff {prev : Option Char} {t : Text} : (setupMark prev t).isSome = true ↔
    prev.any Text.isWord = false ∧ ∃ word after, t = word ++ after ∧ word.map Text.fold = "setup".toList ∧
      after.head?.any Text.isWord = false := by
  rw [Option.isSome_iff_exists]
  constructor
  · rintro ⟨hit, hhit⟩
    obtain ⟨after, hafter, hbounds⟩ := Option.bind_eq_some_iff.mp hhit
    obtain ⟨word, ht, hword⟩ := Text.afterFolded?_eq_some_iff.mp hafter
    split at hbounds
    · cases hbounds
    · rename_i hnone
      simp only [Bool.or_eq_true, not_or, Bool.not_eq_true] at hnone
      exact ⟨hnone.1, word, after, ht, hword, hnone.2⟩
  · rintro ⟨hprev, word, after, ht, hword, hnext⟩
    have hafter : Text.afterFolded? "setup".toList t = some after :=
      Text.afterFolded?_eq_some_iff.mpr ⟨word, ht, hword⟩
    refine ⟨((), after), ?_⟩
    rw [setupMark, hafter]
    simp [hprev, hnext]

theorem Block.isSetup_iff (b : Block) : b.isSetup = true ↔ HasSetupWord b.attributes := by
  have hsearch : (Text.find? setupMark ([] : Text).getLast? b.attributes).isSome = true ↔ _ :=
    Text.find?_isSome_iff
  rw [isSetup, Text.findFirst?, Option.isSome_map]
  refine hsearch.trans ?_
  constructor
  · rintro ⟨before, u, he, -, hread⟩
    obtain ⟨hbefore, word, after, rfl, hword, hafter⟩ := setupMark_isSome_iff.mp hread
    exact ⟨before, word, after, he, hword, hbefore, hafter⟩
  · rintro ⟨before, word, after, he, hword, hbefore, hafter⟩
    refine ⟨before, word ++ after, he, ?_, setupMark_isSome_iff.mpr ⟨hbefore, word, after, rfl, hword, hafter⟩⟩
    rintro hnil
    rw [(List.append_eq_nil_iff.mp hnil).1] at hword
    cases hword

instance (t : Text) : Decidable (HasSetupWord t) :=
  decidable_of_iff ((⟨t, []⟩ : Block).isSetup = true) (Block.isSetup_iff ⟨t, []⟩)

/-- A component put together from blocks, with some text before each of them and after the last. -/
structure Assembly where
  blocks : List (Text × WrittenBlock)
  last : Text
  unmarked : (∀ part ∈ blocks, ¬ HoldsBlockTag part.1) ∧ ¬ HoldsBlockTag last

namespace Assembly

def source (a : Assembly) : Text := a.blocks.flatMap (fun part => part.1 ++ part.2.text) ++ a.last

def firstBody (a : Assembly) (p : WrittenBlock → Prop) [DecidablePred p] : Text :=
  (((a.blocks.map Prod.snd).find? fun b => p b).map fun b => b.body).getD []

private theorem findFrom_block (kind : BlockKind) {filler : Text} (hf : ¬ HoldsBlockTag filler)
    (b : WrittenBlock) (prev : Option Char) (t : Text) : ∃ next,
      Text.findFrom (Block.recognizer kind.tag) prev 0 (filler ++ (b.text ++ t)) =
        (if b.kind = kind then [b.toBlock] else []) ++ Text.findFrom (Block.recognizer kind.tag) next 0 t := by
  rw [Text.findFrom_append_of_misses (Block.misses_unmarked hf (by simp [WrittenBlock.text, WrittenBlock.opening]))]
  by_cases hk : b.kind = kind
  · subst hk
    have hne : b.text ≠ [] := by simp [WrittenBlock.text, WrittenBlock.opening]
    rw [Text.findFrom_append_of_some hne (b.recognizer_text t _), if_pos rfl]
    exact ⟨_, rfl⟩
  · rw [Text.findFrom_append_of_misses (b.misses_text t hk), if_neg hk]
    exact ⟨_, rfl⟩

theorem findFrom_blocks (kind : BlockKind) {blocks : List (Text × WrittenBlock)} {last : Text}
    (hblocks : ∀ part ∈ blocks, ¬ HoldsBlockTag part.1) (hlast : ¬ HoldsBlockTag last) (prev : Option Char) :
    Text.findFrom (Block.recognizer kind.tag) prev 0
        (blocks.flatMap (fun part => part.1 ++ part.2.text) ++ last) =
      ((blocks.map Prod.snd).filter fun b => b.kind = kind).map WrittenBlock.toBlock := by
  induction blocks generalizing prev with
  | nil => exact Text.findFrom_of_misses (Block.misses_unmarked hlast (by simp))
  | cons part blocks ih =>
    rcases part with ⟨filler, b⟩
    have hrest := ih fun part hmem => hblocks part (List.mem_cons_of_mem _ hmem)
    obtain ⟨next, hstep⟩ := findFrom_block kind (hblocks _ List.mem_cons_self) b prev
      (blocks.flatMap (fun part => part.1 ++ part.2.text) ++ last)
    rw [List.flatMap_cons, List.append_assoc, List.append_assoc, hstep, hrest]
    by_cases hk : b.kind = kind
    · simp [hk]
    · simp [hk]

theorem findAll_source (a : Assembly) (kind : BlockKind) :
    Text.findAll (Block.recognizer kind.tag) a.source =
      ((a.blocks.map Prod.snd).filter fun b => b.kind = kind).map WrittenBlock.toBlock :=
  findFrom_blocks kind a.unmarked.1 a.unmarked.2 none

theorem bodyOf_find?_scripts (a : Assembly) (p : Block → Bool) (q : WrittenBlock → Prop) [DecidablePred q]
    (hpq : ∀ b, p b.toBlock = true ↔ q b) :
    Regions.bodyOf ((Text.findAll (Block.recognizer "script".toList) a.source).find? p) =
      a.firstBody fun b => b.kind = .script ∧ q b := by
  have hscripts : Text.findAll (Block.recognizer "script".toList) a.source = _ := a.findAll_source .script
  have hsame : (fun b : WrittenBlock => decide (b.kind = .script) && p b.toBlock) =
      fun b => decide (b.kind = .script ∧ q b) := by
    funext b
    rw [Bool.eq_iff_iff]
    simp [hpq]
  rw [hscripts, List.find?_map, List.find?_filter, firstBody, Regions.bodyOf, Option.map_map]
  simp only [Function.comp_apply, Bool.decide_and, Bool.decide_eq_true, hsame]
  rfl

/-- Segmenting undoes assembling, whatever the number and the order of the blocks. -/
theorem ofSource_source (a : Assembly) : Regions.ofSource a.source =
    { markup := a.firstBody fun b => b.kind = .template
      setup := a.firstBody fun b => b.kind = .script ∧ HasSetupWord b.attributes
      plain := a.firstBody fun b => b.kind = .script ∧ ¬ HasSetupWord b.attributes } := by
  have htemplates : Text.findAll (Block.recognizer "template".toList) a.source = _ :=
    a.findAll_source .template
  have hmarkup : Regions.bodyOf (Text.findFirst? (Block.recognizer "template".toList) a.source) =
      a.firstBody fun b => b.kind = .template := by
    rw [Text.findFirst?_eq_head?, htemplates, List.head?_map, List.head?_filter, firstBody, Regions.bodyOf,
      Option.map_map]
    rfl
  have hsetup := a.bodyOf_find?_scripts Block.isSetup (fun b => HasSetupWord b.attributes) fun b =>
    b.toBlock.isSetup_iff
  have hplain := a.bodyOf_find?_scripts (!Block.isSetup ·) (fun b => ¬ HasSetupWord b.attributes) fun b => by
    rw [Bool.not_eq_true', ← Bool.not_eq_true, b.toBlock.isSetup_iff]
  rw [Regions.ofSource, hmarkup, hsetup, hplain]

-- Only a word of its own marks a script, so the first one is plain.
example : ∃ a : Assembly,
    a.source = "<script setups>a</script>\n<template>b</template><script\tSETUP>c</script>".toList ∧
      Regions.ofSource a.source = ⟨"b".toList, "c".toList, "a".toList⟩ :=
  ⟨{ blocks := [
      ([], ⟨⟨" setups".toList, "a".toList⟩, .script, by decide, by decide, by decide⟩),
      ("\n".toList, ⟨⟨[], "b".toList⟩, .template, by decide, by decide, by decide⟩),
      ([], ⟨⟨"\tSETUP".toList, "c".toList⟩, .script, by decide, by decide, by decide⟩)]
     last := []
     unmarked := by decide }, by decide +kernel, by decide +kernel⟩

end Assembly

end SfcContract
