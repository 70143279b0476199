import SfcContract.Command
import SfcContract.Manifest.Page
import SfcContract.Proofs.Text.Lower

/-!
# Queries copied from a name or a path

A query and the name or path that it is part of are lowered apart from each other. They meet again when every
capital sigma of the query ends a word there as it does in the query; then the component is among those that a
command or a tool goes on with.
-/

namespace SfcContract

variable {m : Manifest} {c : Contract} {a query b : Text}

/-- A query is found where it stands. -/
theorem Contract.answers_of_eq (hfield : c.name = a ++ query ++ b ∨ c.path = a ++ query ++ b)
    (hkeeps : Text.KeepsSigmas a query b) : c.answers query = true := by
  have hfound : Text.occurs (Text.lower query) (Text.lower (a ++ query ++ b)) = true :=
    Text.occurs_iff_isInfix.mpr (Text.lower_isInfix hkeeps)
  rw [answers, queryMatches]
  rcases hfield with h | h
  · rw [h, hfound]
    simp
  · rw [h, hfound]
    simp

/-- A component that answers a query can be selected among those shown. -/
theorem Command.exists_select (h : c ∈ m.filter query) (r : ShowRequest) (hr : r.query = query) :
    ∃ k, Command.pick m { r with select := k + 1 } = .ok (some (m.filter query, k)) ∧
      (m.filter query)[k]? = some c := by
  obtain ⟨k, hk, hget⟩ := List.mem_iff_getElem.mp h
  have hsome : (m.filter query).isEmpty = false := by
    rw [List.isEmpty_eq_false_iff]
    exact List.ne_nil_of_mem h
  have hrange : ¬ (k + 1 = 0 ∨ (m.filter query).length < k + 1) := by omega
  refine ⟨k, ?_, by rw [List.getElem?_eq_getElem hk, hget]⟩
  simp only [Command.pick, hr, hsome, Bool.false_eq_true, if_false, if_neg hrange, Nat.add_sub_cancel]

/-- It also starts some page, unless pages have no items. -/
theorem Manifest.exists_page (h : c ∈ m.filter query) {limit : Option Nat} (hlimit : ∀ n ∈ limit, 0 < n) :
    ∃ offset, (m.page query limit offset).items.head? = some c.summary := by
  obtain ⟨k, hk, hget⟩ := List.mem_iff_getElem.mp h
  have hroom : min (limit.getD Page.defaultLimit) Page.maxLimit ≠ 0 := by
    cases limit with
    | none => decide
    | some n =>
      have hn := hlimit n rfl
      simp only [Option.getD_some, Page.maxLimit]
      omega
  refine ⟨k, ?_⟩
  simp [page, hroom, List.head?_take, List.head?_drop, hk, hget]

/-- A component answers every query that is part of its name or path and keeps its sigmas there, and no list of
matching components leaves it out. -/
theorem Manifest.filter_finds_part (hc : c ∈ m.components)
    (hfield : c.name = a ++ query ++ b ∨ c.path = a ++ query ++ b) (hkeeps : Text.KeepsSigmas a query b) :
    c.answers query = true ∧ c ∈ m.filter query ∧
      (∀ r : ShowRequest, r.query = query → ∃ k,
        Command.pick m { r with select := k + 1 } = .ok (some (m.filter query, k)) ∧
          (m.filter query)[k]? = some c) ∧
      ∀ limit : Option Nat, (∀ n ∈ limit, 0 < n) →
        ∃ offset, (m.page query limit offset).items.head? = some c.summary := by
  have hanswers := Contract.answers_of_eq hfield hkeeps
  have hmem : c ∈ m.filter query := List.mem_filter.mpr ⟨hc, hanswers⟩
  exact ⟨hanswers, hmem, fun r hr => Command.exists_select hmem r hr, fun _ hlimit => Manifest.exists_page hmem hlimit⟩

def emptyContract (path : String) : Contract := Contract.analyze [] path.toList

/-- Sigmas at the ends of words, and a query that has none and starts and ends inside a word. -/
theorem Manifest.filter_finds_part_street :
    emptyContract "src/ΟΔΟΣ-ΣΥ.vue" ∈
        (Manifest.ofScan [] [emptyContract "x.vue", emptyContract "src/ΟΔΟΣ-ΣΥ.vue"]).filter "ΟΔΟΣ".toList ∧
      (emptyContract "src/ΟΔΟΣ-ΣΥ.vue").answers "ΔΟ".toList = true := by
  have hmem : emptyContract "src/ΟΔΟΣ-ΣΥ.vue" ∈
      (Manifest.ofScan [] [emptyContract "x.vue", emptyContract "src/ΟΔΟΣ-ΣΥ.vue"]).components :=
    List.mem_cons_of_mem _ List.mem_cons_self
  have hapart : Text.KeepsSigmas "src/".toList "ΟΔΟΣ".toList "-ΣΥ.vue".toList :=
    Text.keepsSigmas_of_apart (by decide +kernel) (by decide +kernel) _
  have hnone : Text.KeepsSigmas "src/Ο".toList "ΔΟ".toList "Σ-ΣΥ.vue".toList :=
    Text.keepsSigmas_of_not_mem (by decide) _ _
  exact ⟨(Manifest.filter_finds_part hmem (.inr rfl) hapart).2.1, (Manifest.filter_finds_part hmem (.inr rfl) hnone).1⟩

/-- A sigma that ends a word in the query but not in the name. -/
theorem Contract.not_answers_of_sigma :
    "ΟΣ".toList <:+: (emptyContract "src/ΟΣΟ.vue").name ∧ "ΟΣ".toList <:+: (emptyContract "src/ΟΣΟ.vue").path ∧
      (emptyContract "src/ΟΣΟ.vue").answers "ΟΣ".toList = false := by
  decide +kernel

end SfcContract
