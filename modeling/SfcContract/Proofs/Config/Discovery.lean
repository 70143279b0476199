import Mathlib.Data.Option.Basic
import SfcContract.Config
import SfcContract.Proofs.Path.Ancestors
import SfcContract.Proofs.Tree

/-!
# The nearest configuration

Of the directories on the way up, the first one with a configuration file counts, and only if no directory before
it is the root of a repository. What is loaded is that file or nothing.
-/

namespace SfcContract.Config

variable {t : Tree} {start path d e : Path} {ds : List Path} {chain : Nat → Option Path} {k : Nat}

/-- Whether a directory of a chain has a configuration file that nothing before it hides: neither another one nor
the root of a repository. -/
structure IsNearest (t : Tree) (chain : Nat → Option Path) (k : Nat) (d : Path) : Prop where
  reached : chain k = some d
  holds : t.contains (Path.join d fileName) = true
  first : ∀ i < k, ∀ e, chain i = some e → t.contains (Path.join e fileName) = false
  within : ∀ i < k, ∀ e, chain i = some e → t.contains (Path.join e repositoryMark) = false

theorem isNearest_iff_of_holds (h₀ : chain 0 = some d) (hd : t.contains (Path.join d fileName) = true) :
    IsNearest t chain k e ↔ k = 0 ∧ e = d := by
  constructor
  · intro h
    obtain rfl : k = 0 := by
      by_contra hk
      have hnot := h.first 0 (Nat.pos_of_ne_zero hk) d h₀
      rw [hd] at hnot
      cases hnot
    exact ⟨rfl, Option.some.inj (h.reached.symm.trans h₀)⟩
  · rintro ⟨rfl, rfl⟩
    exact ⟨h₀, hd, fun i hi => absurd hi (Nat.not_lt_zero i), fun i hi => absurd hi (Nat.not_lt_zero i)⟩

theorem not_isNearest (h₀ : chain 0 = some d) (hd : ¬ t.contains (Path.join d fileName) = true)
    (hmark : t.contains (Path.join d repositoryMark) = true) : ¬ IsNearest t chain k e := by
  intro h
  cases k with
  | zero => exact hd (Option.some.inj (h₀.symm.trans h.reached) ▸ h.holds)
  | succ k =>
    have hnot := h.within 0 k.succ_pos d h₀
    rw [hmark] at hnot
    cases hnot

theorem isNearest_cons (hd : ¬ t.contains (Path.join d fileName) = true)
    (hmark : ¬ t.contains (Path.join d repositoryMark) = true) :
    (∃ k, IsNearest t ((d :: ds)[·]?) k e) ↔ ∃ k, IsNearest t (ds[·]?) k e := by
  rw [Bool.not_eq_true] at hd hmark
  constructor
  · rintro ⟨k, h⟩
    cases k with
    | zero =>
      have hholds := h.holds
      rw [← Option.some.inj h.reached, hd] at hholds
      cases hholds
    | succ k =>
      exact ⟨k, h.reached, h.holds, fun i hi => h.first (i + 1) (Nat.succ_lt_succ hi),
        fun i hi => h.within (i + 1) (Nat.succ_lt_succ hi)⟩
  · rintro ⟨k, h⟩
    refine ⟨k + 1, h.reached, h.holds, Nat.forall_lt_succ_left.mpr ⟨?_, h.first⟩,
      Nat.forall_lt_succ_left.mpr ⟨?_, h.within⟩⟩
    · rintro e ⟨⟩
      exact hd
    · rintro e ⟨⟩
      exact hmark

theorem search_eq_some_iff :
    search t ds = some path ↔ ∃ k d, IsNearest t (ds[·]?) k d ∧ path = Path.join d fileName := by
  induction ds with
  | nil =>
    refine iff_of_false (fun h => ?_) ?_
    · cases h
    · rintro ⟨k, d, h, -⟩
      cases h.reached
  | cons d ds ih =>
    rw [search]
    split_ifs with hd hmark
    · constructor
      · rintro ⟨⟩
        exact ⟨0, d, (isNearest_iff_of_holds rfl hd).mpr ⟨rfl, rfl⟩, rfl⟩
      · rintro ⟨k, e, h, rfl⟩
        rw [((isNearest_iff_of_holds rfl hd).mp h).2]
    · refine iff_of_false (fun h => ?_) ?_
      · cases h
      · rintro ⟨k, e, h, -⟩
        exact not_isNearest rfl hd hmark h
    · rw [ih, exists_comm]
      conv_rhs => rw [exists_comm]
      exact exists_congr fun e => by rw [exists_and_right, exists_and_right, isNearest_cons hd hmark]

theorem find?_eq_some_iff :
    find? t start = some path ↔
      ∃ k d, IsNearest t (Path.up? · start) k d ∧ path = Path.join d fileName := by
  have hchain : ((Path.ancestors start)[·]?) = (Path.up? · start) := funext (Path.getElem?_ancestors start)
  rw [find?, search_eq_some_iff, hchain]

theorem find?_eq_none_iff : find? t start = none ↔ ∀ k d, ¬ IsNearest t (Path.up? · start) k d := by
  rw [Option.eq_none_iff_forall_ne_some]
  constructor
  · exact fun h k d hd => h _ (find?_eq_some_iff.mpr ⟨k, d, hd, rfl⟩)
  · intro h path hpath
    obtain ⟨k, d, hd, -⟩ := find?_eq_some_iff.mp hpath
    exact h k d hd

/-- Whether all that must be patterns are. -/
structure IsValid (c : Config) : Prop where
  ignores : ∀ text ∈ c.ignores, ∃ tokens, Glob.parse text = .ok tokens
  includes : ∀ text ∈ c.includes, Glob.isPattern text = true → ∃ tokens, Glob.parse text = .ok tokens

theorem patternError?_eq_none_iff {text : Text} :
    patternError? text = none ↔ ∃ tokens, Glob.parse text = .ok tokens := by
  rw [patternError?]
  cases hparse : Glob.parse text with
  | error fault => exact iff_of_false (fun h => nomatch h) fun ⟨_, h⟩ => nomatch h
  | ok tokens => exact iff_of_true rfl ⟨tokens, rfl⟩

theorem fault?_eq_none_iff {c : Config} : c.fault? = none ↔ c.IsValid := by
  have hnone : ∀ (failure : Text → Glob.Error → Failure) (texts : List Text),
      texts.findSome? (fun t => (patternError? t).map (failure t)) = none ↔
        ∀ text ∈ texts, ∃ tokens, Glob.parse text = .ok tokens := fun failure texts => by
    rw [List.findSome?_eq_none_iff]
    exact forall₂_congr fun text _ => Option.map_eq_none_iff.trans patternError?_eq_none_iff
  rw [fault?, Option.orElse_eq_none, hnone, hnone]
  constructor
  · exact fun h => ⟨h.1, fun text htext hpattern => h.2 text (List.mem_filter.mpr ⟨htext, hpattern⟩)⟩
  · exact fun h => ⟨h.ignores, fun text htext => (List.mem_filter.mp htext).elim (h.includes text)⟩

/-- A file that is found counts when it can be read, decoded and has no fault. -/
theorem load_eq_ok_iff (hpath : find? t start = some path) (loaded : Loaded) :
    load t start = .ok loaded ↔ loaded.fromFile = true ∧ loaded.config.IsValid ∧
      ∃ content, t.read path = .ok content ∧ parse content = .ok loaded.config := by
  obtain ⟨config, fromFile⟩ := loaded
  rw [load, hpath]
  dsimp only
  cases hread : t.read path with
  | error fault => exact iff_of_false (fun h => nomatch h) fun ⟨_, _, _, h, _⟩ => nomatch h
  | ok content =>
    dsimp only
    cases hparse : parse content with
    | error fault =>
      refine iff_of_false (fun h => nomatch h) ?_
      rintro ⟨-, -, _, ⟨⟩, h⟩
      cases hparse.symm.trans h
    | ok decoded =>
      dsimp only
      cases hfault : decoded.fault? with
      | some failure =>
        refine iff_of_false (fun h => nomatch h) ?_
        rintro ⟨-, hvalid, _, ⟨⟩, h⟩
        obtain rfl := Except.ok.inj (hparse.symm.trans h)
        rw [fault?_eq_none_iff.mpr hvalid] at hfault
        cases hfault
      | none =>
        constructor
        · rintro ⟨⟩
          exact ⟨rfl, fault?_eq_none_iff.mp hfault, content, rfl, hparse⟩
        · rintro ⟨rfl, -, _, ⟨⟩, h⟩
          obtain rfl := Except.ok.inj (hparse.symm.trans h)
          rfl

/-- The nearest configuration on the way up counts, where each path is the one before without its last component,
and where there is none the defaults do. A configuration that is there is loaded as it is written or not at all. -/
theorem load_nearest (t : Tree) (start : Path) :
    (∃ n, Path.up? n start = none) ∧
      (∀ k d e, Path.up? k start = some d → Path.up? (k + 1) start = some e →
        Path.components e = (Path.components d).dropLast) ∧
      (∀ k d, Path.up? k start = some d → Path.up? (k + 1) start = none →
        Path.components d = [] ∨ Path.components d = [.root]) ∧
      (∀ path, find? t start = some path ↔
        ∃ k d, IsNearest t (Path.up? · start) k d ∧ path = Path.join d fileName) ∧
      (find? t start = none ↔ ∀ k d, ¬ IsNearest t (Path.up? · start) k d) ∧
      (load t start = .ok ⟨{}, false⟩ ↔ find? t start = none) ∧
      ∀ path, find? t start = some path → ∀ loaded,
        (load t start = .ok loaded ↔ loaded.fromFile = true ∧ loaded.config.IsValid ∧
          ∃ content, t.read path = .ok content ∧ parse content = .ok loaded.config) := by
  refine ⟨⟨_, Path.up?_length_succ start⟩, fun k d e hd he => ?_, fun k d hd he => ?_,
    fun path => find?_eq_some_iff, find?_eq_none_iff, ⟨fun h => ?_, fun h => ?_⟩,
    fun path hpath => load_eq_ok_iff hpath⟩
  · rw [Path.up?, hd] at he
    exact Path.components_of_parent? he
  · rw [Path.up?, hd] at he
    exact Path.components_of_parent?_eq_none he
  · by_contra hne
    obtain ⟨path, hpath⟩ := Option.ne_none_iff_exists'.mp hne
    cases ((load_eq_ok_iff hpath _).mp h).1
  · rw [load, h]

end SfcContract.Config
