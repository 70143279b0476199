import SfcContract.Proofs.Contract.Size
import SfcContract.Proofs.Json.ReadBack
import SfcContract.Proofs.Tree

/-!
# Manifests are read back

Each record is written in the order of its fields, so its draft is filled field by field. A manifest of
contracts that were found in sources gives itself back, as text and as a file.
-/

namespace SfcContract

open Json (Reads)

namespace Property

theorem find?_label (o : Origin) : Origin.all.find? (Origin.label · == o.label) = some o := by
  cases o <;> decide +kernel

theorem reads_toJson (p : Property) : Reads reader p.toJson p := by
  obtain ⟨name, type, required, defaultValue, origin⟩ := p
  have horigin := Reads.choice (find?_label origin)
  cases defaultValue with
  | none =>
    exact Reads.record (.cons rfl rfl (.of (.string name)) <| .cons rfl rfl (.of (.string type)) <|
      .cons rfl rfl (.of (.bool required)) <| .cons rfl rfl (.of horigin) .nil) rfl
  | some value =>
    exact Reads.record (.cons rfl rfl (.of (.string name)) <| .cons rfl rfl (.of (.string type)) <|
      .cons rfl rfl (.of (.bool required)) <| .cons rfl rfl (.of (.nullable_string value)) <|
      .cons rfl rfl (.of horigin) .nil) rfl

end Property

namespace Diagnostic

theorem find?_label (id : RuleId) : RuleId.all.find? (RuleId.label · == id.label) = some id := by
  cases id <;> decide +kernel

theorem reads_toJson (d : Diagnostic) : Reads reader d.toJson d := by
  obtain ⟨rule, message, excerpt⟩ := d
  have hrule := Reads.choice (find?_label rule)
  cases excerpt with
  | none => exact Reads.record (.cons rfl rfl (.of hrule) <| .cons rfl rfl (.of (.string message)) .nil) rfl
  | some value =>
    exact Reads.record (.cons rfl rfl (.of hrule) <| .cons rfl rfl (.of (.string message)) <|
      .cons rfl rfl (.of (.nullable_string value)) .nil) rfl

end Diagnostic

theorem Metrics.reads_toJson {m : Metrics} (h : m.Fits) : Reads reader m.toJson m := by
  have hcount {n : Nat} (hn : n < Nat.pow 2 64) : Reads Json.Reader.count (.nat n) n :=
    Reads.nat hn (Nat.le_refl _)
  obtain ⟨templateLines, scriptLines, branches, propsDeclared, propsUsed, cohesion⟩ := m
  obtain ⟨k, hk, rfl⟩ := h.cohesion
  exact Reads.record (.cons rfl rfl (.of (hcount h.templateLines)) <|
    .cons rfl rfl (.of (hcount h.scriptLines)) <| .cons rfl rfl (.of (hcount h.branches)) <|
    .cons rfl rfl (.of (hcount h.propsDeclared)) <| .cons rfl rfl (.of (hcount h.propsUsed)) <|
    .cons rfl rfl (.of (.binary64 hk)) .nil) rfl

theorem Contract.reads_toJson {c : Contract} (h : c.metrics.Fits) : Reads reader c.toJson c := by
  obtain ⟨path, name, properties, events, slots, metrics, diagnostics⟩ := c
  exact Reads.record (.cons rfl rfl (.of (.string path)) <| .cons rfl rfl (.of (.string name)) <|
    .cons rfl rfl (.of (.list fun p _ => p.reads_toJson)) <|
    .cons rfl rfl (.of (.list fun event _ => .string event)) <|
    .cons rfl rfl (.of (.list fun slot _ => .string slot)) <|
    .cons rfl rfl (.of (Metrics.reads_toJson h)) <|
    .cons rfl rfl (.of (.list fun d _ => d.reads_toJson)) .nil) rfl

namespace Manifest

theorem reads_toJson {m : Manifest} (h : ∀ c ∈ m.components, c.metrics.Fits) : Reads reader m.toJson m := by
  obtain ⟨version, scannedAt, components⟩ := m
  exact Reads.record (.cons rfl rfl (.of (.string version)) <| .cons rfl rfl (.of (.string scannedAt)) <|
    .cons rfl rfl (.of (.list fun c hc => Contract.reads_toJson (h c hc))) .nil) rfl

theorem parse_fileText {m : Manifest} (h : ∀ c ∈ m.components, c.metrics.Fits) : parse m.fileText = .ok m := by
  have hline : Json.IsSpaces ['\n'] := by
    intro c hc
    obtain rfl := List.mem_singleton.mp hc
    decide
  exact Json.whole_of_reads (reads_toJson h) hline

theorem load_save {t t' : Tree} {p : Path} {m : Manifest} (hm : parse m.fileText = .ok m)
    (h : save t p m = (t', .ok ())) : load t' p = .ok m := by
  rw [load, Tree.read_save h]
  simp only [hm]

/-- A manifest of what was found in sources is read back from its text, and from every file to which it
could be saved. No text in memory has `2 ^ 63` characters. -/
theorem read_back_of_sources (m : Manifest) (sources : List (Text × Text))
    (hm : m.components = sources.map fun s => Contract.analyze s.1 s.2)
    (hs : ∀ s ∈ sources, s.1.length < Nat.pow 2 63) :
    parse m.fileText = .ok m ∧ ∀ t p t', save t p m = (t', .ok ()) → load t' p = .ok m := by
  have hfits : ∀ c ∈ m.components, c.metrics.Fits := by
    intro c hc
    rw [hm] at hc
    obtain ⟨s, hmem, rfl⟩ := List.mem_map.mp hc
    exact Contract.fits_analyze (hs s hmem) s.2
  have hparse := parse_fileText hfits
  exact ⟨hparse, fun t p t' h => load_save hparse h⟩

-- Quotes, a backslash, controls and letters beyond ASCII, in the names as well as in the texts.
def quotedSource : Text :=
  "<template><img src=\"\\ \x01é\"></template>\n".toList ++
    "<script setup>defineProps(\x7b a: \x7b default: \"\t\" \x7d \x7d)</script>".toList

def quotedManifest : Manifest :=
  ⟨"\x1f\\".toList, "\"today\"".toList, [Contract.analyze quotedSource "a/ü\"b.vue".toList]⟩

theorem read_back_quoted : ∃ t', save Tree.empty "m.json".toList quotedManifest = (t', .ok ()) ∧
    load t' "m.json".toList = .ok quotedManifest := by
  have hsave : (save Tree.empty "m.json".toList quotedManifest).2 = .ok () := rfl
  refine ⟨_, Prod.ext rfl hsave, ?_⟩
  exact (read_back_of_sources quotedManifest [(quotedSource, "a/ü\"b.vue".toList)] rfl (by decide)).2 _ _ _
    (Prod.ext rfl hsave)

end Manifest

end SfcContract
