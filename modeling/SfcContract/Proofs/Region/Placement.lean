import Mathlib.Data.List.Pairwise
import SfcContract.Proofs.Region.Assembly

/-!
# Where regions stand

The bodies that segmenting gives are parts of the source between an opening and a closing tag, however the
source is written. A body ends at the first closing tag of its kind, and no block reaches into the next one.
-/

namespace SfcContract

/-- A block of a source that may be written anyhow: it goes from an opening tag to the first closing tag. -/
structure SourceBlock (source : Text) (kind : BlockKind) extends Block where
  before : Text
  opening : Text
  closing : Text
  after : Text
  source_eq : source = before ++ (opening ++ (body ++ (closing ++ after)))
  isOpening : kind.IsOpening attributes opening
  isClosing : kind.IsClosing closing
  isFirst : ∀ part, part <:+: body → ¬ kind.IsClosing part

namespace SourceBlock

variable {source : Text} {kind : BlockKind}

def text (b : SourceBlock source kind) : Text := b.opening ++ (b.body ++ b.closing)

def EndsBefore (b b' : SourceBlock source kind) : Prop := b.before.length + b.text.length ≤ b'.before.length

def IsApart (b b' : SourceBlock source kind) : Prop := b.EndsBefore b' ∨ b'.EndsBefore b

instance : Std.Symm (@IsApart source kind) := ⟨fun _ _ => Or.symm⟩

theorem text_ne_nil (b : SourceBlock source kind) : b.text ≠ [] := by
  obtain ⟨name, -, -, -, hopening⟩ := b.isOpening
  simp [text, hopening]

theorem exists_of_occurrence (o : Text.Occurrence (Block.recognizer kind.tag) source) :
    ∃ b : SourceBlock source kind, b.toBlock = o.value ∧ b.before = o.before ∧ b.text = o.text := by
  obtain ⟨opening, closing, hopening, hclosing, hfirst, htext⟩ := Block.recognizer_eq_some_iff.mp o.read
  have hsource := o.source_eq
  rw [htext] at hsource
  refine ⟨⟨o.value, o.before, opening, closing, o.after, hsource, hopening, hclosing, hfirst⟩, rfl, rfl, ?_⟩
  have hwhole : opening ++ (o.value.body ++ closing) ++ o.after = o.text ++ o.after := by simp [htext]
  exact List.append_cancel_right hwhole

theorem exists_occurrence (b : SourceBlock source kind) :
    ∃ o : Text.Occurrence (Block.recognizer kind.tag) source, o.before = b.before ∧ o.text = b.text := by
  have hwhole : b.opening ++ (b.body ++ (b.closing ++ b.after)) = b.text ++ b.after := by simp [text]
  have hread : Block.recognizer kind.tag b.before.getLast? (b.text ++ b.after) = some (b.toBlock, b.after) :=
    Block.recognizer_eq_some_iff.mpr ⟨_, _, b.isOpening, b.isClosing, b.isFirst, hwhole.symm⟩
  exact ⟨⟨b.before, b.text, b.after, b.toBlock, by rw [← hwhole, ← b.source_eq], hread⟩, rfl, rfl⟩

/-- The blocks that a search finds, one after the other. Every block of the source stands at or behind one. -/
theorem exists_blocks_findAll (source : Text) (kind : BlockKind) : ∃ bs : List (SourceBlock source kind),
    bs.map (·.toBlock) = Text.findAll (Block.recognizer kind.tag) source ∧
    bs.Pairwise EndsBefore ∧
    ∀ b : SourceBlock source kind, ∃ b' ∈ bs, b'.before.length ≤ b.before.length := by
  have hwhole : source = [] ++ source := rfl
  obtain ⟨os, hos, hfrom⟩ :=
    Text.exists_occurrences_findFrom (Block.advances_recognizer kind) hwhole (Nat.zero_le source.length)
  choose block hvalue hbefore htext using @exists_of_occurrence source kind
  refine ⟨os.map block, ?_, List.pairwise_map.mpr ?_, ?_⟩
  · rw [List.map_map]
    exact (List.map_congr_left fun o _ => hvalue o).trans hos
  · refine hfrom.ordered.imp ?_
    intro o o' h
    rwa [EndsBefore, hbefore, hbefore, htext]
  · intro b
    obtain ⟨o, hstart, ho⟩ := b.exists_occurrence
    obtain ⟨o', ho', hle⟩ := hfrom.first o (ho ▸ b.text_ne_nil) (Nat.zero_le _)
    refine ⟨block o', List.mem_map_of_mem ho', ?_⟩
    rwa [hbefore, ← hstart]

/-- Of blocks in their order, the first one with a property stands at or before every other one with it. -/
theorem exists_find? {bs : List (SourceBlock source kind)} (hbs : bs.Pairwise EndsBefore)
    {p : SourceBlock source kind → Bool} {b : SourceBlock source kind} (hb : b ∈ bs) (hp : p b = true) :
    ∃ b' ∈ bs.find? p, b'.before.length ≤ b.before.length := by
  obtain ⟨b', hb'⟩ := Option.isSome_iff_exists.mp (List.find?_isSome.mpr ⟨b, hb, hp⟩)
  obtain ⟨-, earlier, later, rfl, hearlier⟩ := List.find?_eq_some_iff_append.mp hb'
  refine ⟨b', hb', ?_⟩
  rcases List.mem_append.mp hb with hmem | hmem
  · exact absurd hp (by simpa using hearlier b hmem)
  · rcases List.mem_cons.mp hmem with rfl | hmem
    · exact Nat.le_refl _
    · have hends := (List.pairwise_cons.mp (List.pairwise_append.mp hbs).2.1).1 b hmem
      exact Nat.le_trans (Nat.le_add_right _ _) hends

end SourceBlock

/-- Blocks of a source from which its regions can be taken. -/
structure Placement (source : Text) where
  markup : Option (SourceBlock source .template)
  setup : Option (SourceBlock source .script)
  plain : Option (SourceBlock source .script)
  marked : ∀ b ∈ setup, HasSetupWord b.attributes
  unmarked : ∀ b ∈ plain, ¬ HasSetupWord b.attributes
  apart : ∀ b ∈ setup, ∀ b' ∈ plain, b.IsApart b'

namespace Placement

variable {source : Text}

def regions (p : Placement source) : Regions where
  markup := Regions.bodyOf (p.markup.map (·.toBlock))
  setup := Regions.bodyOf (p.setup.map (·.toBlock))
  plain := Regions.bodyOf (p.plain.map (·.toBlock))

/-- The first template, and of scripts that follow one another the first marked and the first unmarked one. -/
def ofBlocks (ts : List (SourceBlock source .template)) (ss : List (SourceBlock source .script))
    (hss : ss.Pairwise SourceBlock.EndsBefore) : Placement source where
  markup := ts.head?
  setup := ss.find? (·.isSetup)
  plain := ss.find? (!·.isSetup)
  marked := fun b hb => b.isSetup_iff.mp (List.find?_some (p := fun b : SourceBlock source .script => b.isSetup) hb)
  unmarked := by
    intro b hb hword
    have hplain := List.find?_some (p := fun b : SourceBlock source .script => !b.isSetup) hb
    simp [b.isSetup_iff.mpr hword] at hplain
  apart := by
    intro b hb b' hb'
    have hpair : ss.Pairwise SourceBlock.IsApart := hss.imp .inl
    refine hpair.forall (List.mem_of_find?_eq_some hb) (List.mem_of_find?_eq_some hb') ?_
    rintro rfl
    have hsetup := List.find?_some (p := fun b : SourceBlock source .script => b.isSetup) hb
    have hplain := List.find?_some (p := fun b : SourceBlock source .script => !b.isSetup) hb'
    simp [hsetup] at hplain

theorem regions_ofBlocks {ts : List (SourceBlock source .template)} {ss : List (SourceBlock source .script)}
    (hss : ss.Pairwise SourceBlock.EndsBefore)
    (ht : ts.map (·.toBlock) = Text.findAll (Block.recognizer BlockKind.template.tag) source)
    (hs : ss.map (·.toBlock) = Text.findAll (Block.recognizer BlockKind.script.tag) source) :
    (ofBlocks ts ss hss).regions = Regions.ofSource source := by
  have hmarkup : Regions.bodyOf (ts.head?.map (·.toBlock)) =
      Regions.bodyOf (Text.findFirst? (Block.recognizer "template".toList) source) := by
    rw [Text.findFirst?_eq_head?, ← List.head?_map, ht]
    rfl
  have hscript (p : Block → Bool) : Regions.bodyOf ((ss.find? fun b => p b.toBlock).map (·.toBlock)) =
      Regions.bodyOf ((Text.findAll (Block.recognizer "script".toList) source).find? p) := by
    have hscripts : Text.findAll (Block.recognizer "script".toList) source = ss.map (·.toBlock) := hs.symm
    rw [hscripts, List.find?_map]
    rfl
  rw [Regions.ofSource, ← hmarkup, ← hscript, ← hscript]
  rfl

/-- Whatever the source, its regions are the bodies of blocks. A region without a block is empty, and then no
block of the source comes first. -/
theorem exists_regions_eq_ofSource (source : Text) : ∃ p : Placement source, p.regions = Regions.ofSource source ∧
    (∀ b : SourceBlock source .template, ∃ b' ∈ p.markup, b'.before.length ≤ b.before.length) ∧
    ∀ b : SourceBlock source .script, ∃ b', (b' ∈ p.setup ∨ b' ∈ p.plain) ∧
      b'.before.length ≤ b.before.length := by
  obtain ⟨ts, hts, htorder, htfirst⟩ := SourceBlock.exists_blocks_findAll source .template
  obtain ⟨ss, hss, hsorder, hsfirst⟩ := SourceBlock.exists_blocks_findAll source .script
  refine ⟨ofBlocks ts ss hsorder, regions_ofBlocks hsorder hts hss, ?_, ?_⟩
  · intro b
    obtain ⟨b', hb', hle⟩ := htfirst b
    obtain ⟨b'', hb'', hle'⟩ := SourceBlock.exists_find? htorder (p := fun _ => true) hb' rfl
    refine ⟨b'', ?_, Nat.le_trans hle' hle⟩
    cases ts with
    | nil => cases hb''
    | cons t ts => exact hb''
  · intro b
    obtain ⟨b', hb', hle⟩ := hsfirst b
    cases hs : b'.isSetup with
    | true =>
      obtain ⟨b'', hb'', hle'⟩ := SourceBlock.exists_find? hsorder (p := (·.isSetup)) hb' hs
      exact ⟨b'', .inl hb'', Nat.le_trans hle' hle⟩
    | false =>
      obtain ⟨b'', hb'', hle'⟩ := SourceBlock.exists_find? hsorder (p := (!·.isSetup)) hb' (by simp [hs])
      exact ⟨b'', .inr hb'', Nat.le_trans hle' hle⟩

-- A tag of the wrong case closes, and a block without a closing tag is none.
example : Regions.ofSource "<script setup-x><script>a</SCRIPT\n></script><script>b".toList =
    ⟨[], "<script>a".toList, []⟩ := by decide +kernel

end Placement

end SfcContract
