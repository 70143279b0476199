import SfcContract.Proofs.Names
import SfcContract.Proofs.Property.Provenance
import SfcContract.Property.Declared

/-!
# The declaration that counts

Of several declarations of a name, a merge keeps the last one among those of the highest rank. The
declarations come one by one: a new one takes the place of the one kept so far, unless that one outranks it.
-/

namespace SfcContract.Property

variable {p q : Property} {candidates kept : List Property}

/-- The last declaration of its name among those of the highest rank. -/
def Wins (candidates : List Property) (p : Property) : Prop :=
  ∃ before after, candidates = before ++ p :: after ∧
    (∀ q ∈ before, q.name = p.name → q.origin.rank ≤ p.origin.rank) ∧
    ∀ q ∈ after, q.name = p.name → q.origin.rank < p.origin.rank

theorem Wins.rank_le (h : Wins candidates p) (hq : q ∈ candidates) (hname : q.name = p.name) :
    q.origin.rank ≤ p.origin.rank := by
  obtain ⟨before, after, rfl, hbefore, hafter⟩ := h
  rcases List.mem_append.mp hq with hq | hq
  · exact hbefore q hq hname
  · rcases List.mem_cons.mp hq with rfl | hq
    · exact Nat.le_refl _
    · exact Nat.le_of_lt (hafter q hq hname)

/-- One more candidate beats those of its name that do not outrank it. -/
theorem wins_concat_iff : Wins (candidates ++ [p]) q ↔
    (Wins candidates q ∧ (q.name = p.name → p.origin.rank < q.origin.rank)) ∨
      (q = p ∧ ∀ k ∈ candidates, k.name = p.name → k.origin.rank ≤ p.origin.rank) := by
  constructor
  · rintro ⟨before, after, he, hbefore, hafter⟩
    induction after using List.reverseRecOn with
    | nil =>
      obtain ⟨rfl, hlast⟩ := List.append_inj' he rfl
      obtain rfl : p = q := List.singleton_inj.mp hlast
      exact .inr ⟨rfl, hbefore⟩
    | append_singleton after last _ =>
      rw [← List.cons_append, ← List.append_assoc] at he
      obtain ⟨rfl, hlast⟩ := List.append_inj' he rfl
      obtain rfl : p = last := List.singleton_inj.mp hlast
      refine .inl ⟨⟨before, after, rfl, hbefore, ?_⟩, fun hname => ?_⟩
      · intro k hk
        exact hafter k (List.mem_append_left _ hk)
      · exact hafter p (List.mem_append_right _ List.mem_cons_self) hname.symm
  · rintro (⟨⟨before, after, rfl, hbefore, hafter⟩, hlast⟩ | ⟨rfl, hbefore⟩)
    · refine ⟨before, after ++ [p], by simp, hbefore, ?_⟩
      intro k hk hname
      rcases List.mem_append.mp hk with hk | hk
      · exact hafter k hk hname
      · obtain rfl := List.mem_singleton.mp hk
        exact hlast hname.symm
    · exact ⟨candidates, [], rfl, hbefore, by simp⟩

theorem merge_concat (candidates : List Property) (p : Property) :
    merge (candidates ++ [p]) = place p (merge candidates) := by
  rw [merge, List.foldl_append, List.foldl_cons, List.foldl_nil, merge]

theorem place_of_not_mem (h : p.name ∉ kept.map name) : place p kept = kept ++ [p] := by
  induction kept with
  | nil => rfl
  | cons first kept ih =>
    rw [List.map_cons, List.mem_cons, not_or] at h
    rw [place, if_neg (Ne.symm h.1), ih h.2, List.cons_append]

/-- What a step keeps: the declarations that are not beaten, and the new one unless it is outranked. -/
theorem mem_place_iff (hn : (kept.map name).Nodup) : q ∈ place p kept ↔
    (q ∈ kept ∧ (q.name = p.name → p.origin.rank < q.origin.rank)) ∨
      (q = p ∧ ∀ k ∈ kept, k.name = p.name → k.origin.rank ≤ p.origin.rank) := by
  induction kept with
  | nil => simp [place]
  | cons first kept ih =>
    obtain ⟨hfirst, hrest⟩ := List.nodup_cons.mp hn
    by_cases hname : first.name = p.name
    · have hother : ∀ k ∈ kept, k.name ≠ p.name := by
        intro k hk hk'
        apply hfirst
        rw [hname, ← hk']
        exact List.mem_map_of_mem hk
      by_cases hrank : first.origin.rank ≤ p.origin.rank
      · rw [place, if_pos hname, if_pos hrank]
        grind
      · rw [place, if_pos hname, if_neg hrank]
        grind
    · rw [place, if_neg hname, List.mem_cons, ih hrest]
      grind

theorem nodup_name_merge (candidates : List Property) : ((merge candidates).map name).Nodup := by
  rw [map_name_merge]
  exact Names.nodup_ofList _

theorem exists_mem_merge (h : p ∈ candidates) : ∃ q ∈ merge candidates, q.name = p.name := by
  have hmem : p.name ∈ (merge candidates).map name := by
    rw [map_name_merge, Names.mem_ofList]
    exact List.mem_map_of_mem h
  exact List.mem_map.mp hmem

theorem mem_merge_iff_wins : q ∈ merge candidates ↔ Wins candidates q := by
  induction candidates using List.reverseRecOn generalizing q with
  | nil => simp [merge, Wins]
  | append_singleton candidates p ih =>
    -- The new one outranks all of its name when it outranks the one that is kept.
    have hkept : (∀ k ∈ merge candidates, k.name = p.name → k.origin.rank ≤ p.origin.rank) ↔
        ∀ k ∈ candidates, k.name = p.name → k.origin.rank ≤ p.origin.rank := by
      constructor
      · intro h k hk hname
        obtain ⟨w, hw, hwk⟩ := exists_mem_merge hk
        have hle := (ih.mp hw).rank_le hk hwk.symm
        exact Nat.le_trans hle (h w hw (hwk.trans hname))
      · intro h k hk
        exact h k (mem_merge hk)
    rw [merge_concat, mem_place_iff (nodup_name_merge candidates), wins_concat_iff, ih, hkept]

theorem merge_of_nodup (h : (candidates.map name).Nodup) : merge candidates = candidates := by
  induction candidates using List.reverseRecOn with
  | nil => rfl
  | append_singleton candidates p ih =>
    rw [List.map_append, List.map_singleton, List.nodup_append] at h
    obtain ⟨hn, -, hnew⟩ := h
    rw [merge_concat, ih hn]
    apply place_of_not_mem
    intro hmem
    exact hnew _ hmem _ (List.mem_singleton_self _) rfl

def inSetup (regions : Regions) : List Property :=
  inTypeLiteral regions.setup ++ inObjectLiteral regions.setup

theorem rank_of_mem_inSetup {regions : Regions} (h : p ∈ inSetup regions) : p.origin.rank = 1 := by
  rcases List.mem_append.mp h with h | h
  · rw [(inTypeLiteral_isPartOf h).2, Origin.rank]
  · rw [(inObjectLiteral_isPartOf h).2, Origin.rank]

/-- No property of the setup script is replaced by one of the options. -/
theorem mem_inSetup_of_mem_declared {regions : Regions} (h : p ∈ declared regions)
    (hname : p.name ∈ (inSetup regions).map name) : p ∈ inSetup regions := by
  obtain ⟨q, hq, hqp⟩ := List.mem_map.mp hname
  have hwins := mem_merge_iff_wins.mp h
  have hrank := hwins.rank_le (List.mem_append_left _ hq) hqp
  rcases List.mem_append.mp (mem_merge h) with hmem | hmem
  · exact hmem
  · rw [rank_of_mem_inSetup hq, (inOptions_isPartOf hmem).2] at hrank
    cases hrank

/-- A merge has each name once, in the order in which the names first occur, and keeps for it the last
declaration among those of the highest rank; a second merge changes nothing. So no property of the setup
script is replaced by one of the options. -/
theorem merge_keeps_winners (candidates : List Property) (regions : Regions) :
    (merge candidates).map name = (candidates.map name).eraseDups ∧
      ((merge candidates).map name).Nodup ∧
      (∀ p, p ∈ merge candidates ↔ Wins candidates p) ∧
      merge (merge candidates) = merge candidates ∧
      ∀ p ∈ declared regions, p.name ∈ (inSetup regions).map name →
        p ∈ inSetup regions ∧ p.origin ≠ .optionsStyle := by
  have hnames : (merge candidates).map name = (candidates.map name).eraseDups := by
    rw [map_name_merge, Names.ofList_eq_eraseDups]
  have hnodup := nodup_name_merge candidates
  refine ⟨hnames, hnodup, fun p => mem_merge_iff_wins, merge_of_nodup hnodup, ?_⟩
  intro p hp hname
  have hsetup := mem_inSetup_of_mem_declared hp hname
  refine ⟨hsetup, fun horigin => ?_⟩
  have hrank := rank_of_mem_inSetup hsetup
  rw [horigin] at hrank
  cases hrank

end SfcContract.Property
