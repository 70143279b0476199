import SfcContract.Contract
import SfcContract.Proofs.Names

/-!
# Contracts are consistent

The parts of a contract come from readers that do not know each other. Names are told apart by each of
them, the numbers are taken from the merged properties, and every diagnostic is a finding of a rule on
markup or the one report of an unused property.
-/

namespace SfcContract

namespace Diagnostic

theorem length_excerptOf_le (limit : Nat) (t : Text) : (excerptOf limit t).length ≤ limit + 1 := by
  simp only [excerptOf]
  split
  · omega
  · rw [List.length_append, List.length_take, List.length_singleton]
    omega

theorem isOneLine_excerptOf (limit : Nat) (t : Text) : ∀ c ∈ excerptOf limit t, c ≠ '\r' ∧ c ≠ '\n' := by
  have hflat : ∀ c ∈ t.map fun c => if c = '\n' ∨ c = '\r' then ' ' else c, c ≠ '\r' ∧ c ≠ '\n' := by
    intro c hc
    obtain ⟨d, -, rfl⟩ := List.mem_map.mp hc
    by_cases hd : d = '\n' ∨ d = '\r'
    · rw [if_pos hd]
      decide
    · rw [if_neg hd]
      exact ⟨fun h => hd (.inr h), fun h => hd (.inl h)⟩
  intro c hc
  rw [excerptOf] at hc
  split at hc
  · exact hflat c hc
  · rcases List.mem_append.mp hc with hc | hc
    · exact hflat c (List.mem_of_mem_take hc)
    · rw [List.mem_singleton.mp hc]
      decide

end Diagnostic

namespace MarkupRule

/-- What the rules on markup may find, all together. -/
structure AreFindings (findings : List Diagnostic) : Prop where
  grouped : ∃ count : RuleId → Nat, findings.map Diagnostic.rule =
    [RuleId.imgAlt, .buttonType, .linkHash, .inputLabel].flatMap fun id => List.replicate (count id) id
  onMarkup : ∀ d ∈ findings, d.rule ≠ .propUnused
  excerpts : ∀ d ∈ findings, ∀ e ∈ d.excerpt, e.length ≤ 81 ∧ '\r' ∉ e ∧ '\n' ∉ e

theorem exists_onTag_of_mem_check {rule : MarkupRule} {markup : Text} {d : Diagnostic}
    (h : d ∈ rule.check markup) : ∃ tag, Diagnostic.onTag rule.id rule.message tag = d := by
  obtain ⟨tag, -, rfl⟩ := List.mem_map.mp h
  exact ⟨tag, rfl⟩

theorem map_rule_check (rule : MarkupRule) (markup : Text) :
    (rule.check markup).map Diagnostic.rule = List.replicate (rule.check markup).length rule.id := by
  rw [List.eq_replicate_iff]
  refine ⟨List.length_map _, ?_⟩
  intro id hid
  obtain ⟨d, hd, rfl⟩ := List.mem_map.mp hid
  obtain ⟨tag, rfl⟩ := exists_onTag_of_mem_check hd
  rfl

private def countIn (markup : Text) : RuleId → Nat
  | .imgAlt => (imgAlt.check markup).length
  | .buttonType => (buttonType.check markup).length
  | .linkHash => (linkHash.check markup).length
  | .inputLabel => (inputLabel.check markup).length
  | .propUnused => 0

theorem areFindings_checkAll (markup : Text) : AreFindings (checkAll markup) where
  grouped := by
    refine ⟨countIn markup, ?_⟩
    simp only [checkAll, all, List.flatMap_cons, List.flatMap_nil, List.map_append, List.map_nil,
      map_rule_check]
    rfl
  onMarkup := by
    intro d hd
    obtain ⟨rule, hrule, hd⟩ := List.mem_flatMap.mp hd
    obtain ⟨tag, rfl⟩ := exists_onTag_of_mem_check hd
    have hids : ∀ id ∈ all.map MarkupRule.id, id ≠ .propUnused := by decide
    exact hids rule.id (List.mem_map_of_mem hrule)
  excerpts := by
    intro d hd e he
    obtain ⟨rule, -, hd⟩ := List.mem_flatMap.mp hd
    obtain ⟨tag, rfl⟩ := exists_onTag_of_mem_check hd
    obtain rfl : Diagnostic.excerptOf Diagnostic.excerptLimit tag = e := Option.some.inj he
    have hline := Diagnostic.isOneLine_excerptOf Diagnostic.excerptLimit tag
    exact ⟨Diagnostic.length_excerptOf_le _ tag, fun h => (hline _ h).1 rfl, fun h => (hline _ h).2 rfl⟩

end MarkupRule

namespace Contract

/-- The parts of a contract agree with each other and with the use of its properties in the markup. -/
structure IsConsistent (markup : Text) (c : Contract) : Prop where
  names : (c.properties.map Property.name).Nodup
  events : c.events.Nodup
  slots : c.slots.Nodup
  declared : c.metrics.propsDeclared = c.properties.length
  used : c.metrics.propsUsed = c.properties.countP fun p => isReferenced markup p.name
  diagnostics : ∃ findings unused, c.diagnostics = findings ++ unused ∧
    MarkupRule.AreFindings findings ∧
    unused = (c.properties.filter fun p => !isReferenced markup p.name).map
      (fun p => Diagnostic.unusedProperty p.name) ∧
    ∀ d ∈ unused, d.rule = .propUnused ∧ d.excerpt = none
  unused : c.metrics.propsDeclared = c.metrics.propsUsed +
    c.diagnostics.countP fun d => d.rule == .propUnused

end Contract

namespace Usage

theorem declared_ofMarkup (markup : Text) (names : List Text) :
    (ofMarkup markup names).declared = names.length := by
  have hsplit := List.length_eq_countP_add_countP (isReferenced markup) (l := names)
  simpa [declared, ofMarkup, ← List.countP_eq_length_filter] using hsplit.symm

theorem length_used (markup : Text) (properties : List Property) :
    (ofMarkup markup (properties.map Property.name)).used.length =
      properties.countP fun p => isReferenced markup p.name := by
  rw [ofMarkup, ← List.countP_eq_length_filter, List.countP_map]
  rfl

theorem diagnostics_ofMarkup (markup : Text) (properties : List Property) :
    (ofMarkup markup (properties.map Property.name)).diagnostics =
      (properties.filter fun p => !isReferenced markup p.name).map
        fun p => Diagnostic.unusedProperty p.name := by
  simp only [diagnostics, ofMarkup, List.filter_map, List.map_map]
  rfl

theorem countP_diagnostics (u : Usage) :
    u.diagnostics.countP (fun d => d.rule == .propUnused) = u.unused.length := by
  have hall : u.diagnostics.countP (fun d => d.rule == .propUnused) = u.diagnostics.length := by
    rw [List.countP_eq_length]
    intro d hd
    obtain ⟨name, -, rfl⟩ := List.mem_map.mp hd
    rfl
  rw [hall, diagnostics, List.length_map]

end Usage

namespace Contract

/-- Every contract is consistent, whatever the source. -/
theorem analyze_isConsistent (source path : Text) :
    IsConsistent (Regions.ofSource source).markup (analyze source path) where
  names := by
    rw [analyze, Property.declared, Property.map_name_merge]
    exact Names.nodup_ofList _
  events := Names.nodup_ofList _
  slots := Names.nodup_ofList _
  declared := by
    rw [analyze, Metrics.of, Usage.declared_ofMarkup, List.length_map]
  used := Usage.length_used _ _
  diagnostics := by
    refine ⟨_, _, rfl, MarkupRule.areFindings_checkAll _, Usage.diagnostics_ofMarkup _ _, ?_⟩
    intro d hd
    obtain ⟨name, -, rfl⟩ := List.mem_map.mp hd
    exact ⟨rfl, rfl⟩
  unused := by
    have hfindings := (MarkupRule.areFindings_checkAll (Regions.ofSource source).markup).onMarkup
    have hnone : (MarkupRule.checkAll (Regions.ofSource source).markup).countP
        (fun d => d.rule == .propUnused) = 0 := by
      rw [List.countP_eq_zero]
      intro d hd
      simpa using hfindings d hd
    rw [analyze, List.countP_append, hnone, Nat.zero_add, Usage.countP_diagnostics]
    rfl

end Contract

end SfcContract
