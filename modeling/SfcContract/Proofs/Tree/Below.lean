import SfcContract.Proofs.Path
import SfcContract.Proofs.Tree

/-!
# What lies below a path

A tree is proper when its entries have names. What lies below a path is then reached from it by names, and
names lead straight down.
-/

namespace SfcContract.Tree

/-- Every entry lies where names lead. -/
def IsProper (t : Tree) : Prop := ∀ x ∈ t.entries, ∀ n ∈ x.1, Path.IsName n

instance (t : Tree) : Decidable t.IsProper :=
  inferInstanceAs (Decidable (∀ x ∈ t.entries, ∀ n ∈ x.1, Path.IsName n))

variable {t : Tree} {l m : Location} {e : Entry} {p : Path} {ns : List Text}

theorem lookup_eq_some_iff_mem {entries : List (Location × Entry)} (h : (entries.map Prod.fst).Nodup) :
    entries.lookup l = some e ↔ (l, e) ∈ entries := by
  induction entries with
  | nil => simp
  | cons x entries ih =>
    obtain ⟨k, d⟩ := x
    rw [List.map_cons, List.nodup_cons] at h
    rw [List.lookup_cons, List.mem_cons]
    by_cases hk : l = k
    · have hnot : (l, e) ∉ entries := fun hmem => h.1 (List.mem_map.mpr ⟨_, hmem, hk⟩)
      simp [hk, hk ▸ hnot, eq_comm]
    · rw [beq_eq_false_iff_ne.mpr hk, ← ih h.2]
      simp [hk]

theorem get?_eq_some_iff (hl : l ≠ []) : t.get? l = some e ↔ (l, e) ∈ t.entries := by
  rw [get?, if_neg hl, lookup_eq_some_iff_mem t.distinct]

theorem IsProper.isName (ht : t.IsProper) (h : t.get? l = some e) : ∀ n ∈ l, Path.IsName n := by
  by_cases hl : l = []
  · rw [hl]
    nofun
  · exact ht _ ((get?_eq_some_iff hl).mp h)

theorem locate_of_find (h : t.find p = .ok (l, e)) : t.locate p = .ok l ∧ t.get? l = some e := by
  obtain ⟨k, hlocate, hentry⟩ := exists_of_bind_eq_ok h
  cases hget : t.get? k with
  | none =>
    rw [hget] at hentry
    cases hentry
  | some d =>
    rw [hget] at hentry
    obtain ⟨rfl, rfl⟩ := Prod.mk.inj (Except.ok.inj hentry)
    exact ⟨hlocate, hget⟩

theorem exists_of_isDirectory (h : t.isDirectory p = true) :
    ∃ l, t.locate p = .ok l ∧ t.get? l = some .directory := by
  rw [isDirectory] at h
  split at h
  · rename_i l hfind
    exact ⟨l, locate_of_find hfind⟩
  · cases h

/-- What lies below a path is reached from it by names, one after the other. -/
theorem exists_of_mem_below {found : List (Path × Entry)} (h : t.below p = .ok found) {q : Path}
    (hq : (q, e) ∈ found) : ∃ l ns, t.locate p = .ok l ∧ q = ns.foldl Path.join p ∧ t.get? (l ++ ns) = some e := by
  rw [below] at h
  obtain ⟨⟨l, d⟩, hfind, h⟩ := exists_of_bind_eq_ok h
  obtain rfl := Except.ok.inj h
  obtain ⟨hlocate, hget⟩ := locate_of_find hfind
  refine ⟨l, ?_⟩
  rcases List.mem_cons.mp hq with hq | hq
  · obtain ⟨rfl, rfl⟩ := Prod.mk.inj hq
    exact ⟨[], hlocate, rfl, by rw [List.append_nil, hget]⟩
  · obtain ⟨⟨k, d⟩, hmem, hstep⟩ := List.mem_filterMap.mp hq
    cases hleads : l.isPrefixOf? k with
    | none => simp [hleads] at hstep
    | some ns =>
      cases ns with
      | nil => simp [hleads] at hstep
      | cons n ns =>
        simp only [hleads, Option.some.injEq, Prod.mk.injEq] at hstep
        obtain ⟨rfl, rfl⟩ := hstep
        rw [List.isPrefixOf?_eq_some_iff_append_eq] at hleads
        subst hleads
        exact ⟨n :: ns, hlocate, rfl, (get?_eq_some_iff (by simp)).mpr hmem⟩

theorem mem_below {found : List (Path × Entry)} (h : t.below p = .ok found) (hp : t.locate p = .ok l)
    (hget : t.get? (l ++ ns) = some e) : (ns.foldl Path.join p, e) ∈ found := by
  rw [below] at h
  obtain ⟨⟨k, d⟩, hfind, h⟩ := exists_of_bind_eq_ok h
  obtain rfl := Except.ok.inj h
  obtain ⟨hlocate, hentry⟩ := locate_of_find hfind
  obtain rfl := Except.ok.inj (hp.symm.trans hlocate)
  rw [List.mem_cons]
  cases ns with
  | nil =>
    rw [List.append_nil, hentry] at hget
    obtain rfl := Option.some.inj hget
    exact .inl rfl
  | cons n ns =>
    have hmem := (get?_eq_some_iff (by simp)).mp hget
    have hleads : l.isPrefixOf? (l ++ n :: ns) = some (n :: ns) := List.isPrefixOf?_eq_some_iff_append_eq.mpr rfl
    refine .inr (List.mem_filterMap.mpr ⟨(l ++ n :: ns, e), hmem, ?_⟩)
    dsimp only
    rw [hleads]

/-- What lies below a path that leads to something is all that names lead to from there. -/
theorem below_of_find {d : Entry} (h : t.find p = .ok (l, d)) : ∃ found, t.below p = .ok found ∧
    ∀ q e, (q, e) ∈ found ↔ ∃ ns, t.get? (l ++ ns) = some e ∧ q = ns.foldl Path.join p := by
  obtain ⟨found, hfound⟩ : ∃ found, t.below p = .ok found := by
    rw [below, h]
    exact ⟨_, rfl⟩
  have hlocate := (locate_of_find h).1
  refine ⟨found, hfound, fun q e => ⟨fun hq => ?_, ?_⟩⟩
  · obtain ⟨k, ns, hk, rfl, hget⟩ := exists_of_mem_below hfound hq
    obtain rfl := Except.ok.inj (hk.symm.trans hlocate)
    exact ⟨ns, hget, rfl⟩
  · rintro ⟨ns, hget, rfl⟩
    exact mem_below hfound hlocate hget

theorem step_void {n : Text} (hn : Path.isVoid n = true) (h : t.step l n = .ok m) : m = l := by
  have hdirectory := get?_of_step h
  rw [step, hdirectory] at h
  dsimp only at h
  rw [if_pos hn] at h
  exact (Except.ok.inj h).symm

theorem step_name {n : Text} (hn : Path.IsName n) (h : t.step l n = .ok m) : m = l ++ [n] := by
  have hdirectory := get?_of_step h
  rw [step, hdirectory] at h
  dsimp only at h
  rw [if_neg (by rw [hn.isVoid]; exact Bool.false_ne_true), if_neg hn.2.2.1] at h
  exact (Except.ok.inj h).symm

/-- Where nothing leads up, names lead down and all else stays. -/
theorem foldlM_step_down (hns : ∀ n ∈ ns, Path.isVoid n = false → Path.IsName n)
    (h : ns.foldlM (step t) l = .ok m) : m = l ++ ns.filter (!Path.isVoid ·) := by
  induction ns generalizing l with
  | nil =>
    rw [List.filter_nil, List.append_nil]
    exact (Except.ok.inj h).symm
  | cons n ns ih =>
    rw [List.foldlM_cons] at h
    obtain ⟨k, hstep, hrest⟩ := exists_of_bind_eq_ok h
    rw [ih (fun m hm => hns m (List.mem_cons_of_mem n hm)) hrest]
    cases hvoid : Path.isVoid n with
    | true =>
      rw [step_void hvoid hstep, List.filter_cons_of_neg (by rw [hvoid]; exact Bool.false_ne_true)]
    | false =>
      rw [step_name (hns n List.mem_cons_self hvoid) hstep, List.filter_cons_of_pos (by rw [hvoid]; rfl),
        List.append_assoc, List.singleton_append]

theorem foldlM_step_names (hns : ∀ n ∈ ns, Path.IsName n) (h : ns.foldlM (step t) l = .ok m) : m = l ++ ns := by
  rw [foldlM_step_down (fun n hn _ => hns n hn) h,
    List.filter_eq_self.mpr fun n hn => by rw [(hns n hn).isVoid]; rfl]

theorem follow_of_locate (h : t.locate p = .ok l) : t.follow (Path.segments p) = .ok l ∧ p ≠ [] := by
  rw [locate] at h
  split_ifs at h with hnone
  refine ⟨h, ?_⟩
  rintro rfl
  exact hnone rfl

theorem ne_nil_of_find {x : Location × Entry} (h : t.find p = .ok x) : p ≠ [] :=
  (follow_of_locate (locate_of_find h).1).2

theorem foldlM_step_empty (h : [[]].foldlM (step t) l = .ok m) : m = l ∧ t.get? l = some .directory := by
  obtain ⟨k, hstep, hdone⟩ := exists_of_bind_eq_ok (List.foldlM_cons.symm.trans h)
  obtain rfl := Except.ok.inj hdone
  have hdirectory := get?_of_step hstep
  rw [step, hdirectory] at hstep
  exact ⟨(Except.ok.inj hstep).symm, hdirectory⟩

theorem get?_of_locate_slash (h : t.locate (p ++ ['/']) = .ok l) : t.get? l = some .directory := by
  have hfollow := (follow_of_locate h).1
  have hsegments : Path.segments (p ++ ['/']) = Path.segments p ++ [[]] := Path.segments_append_slash p []
  rw [hsegments, follow, List.foldlM_append] at hfollow
  obtain ⟨k, -, hempty⟩ := exists_of_bind_eq_ok hfollow
  obtain ⟨rfl, hdirectory⟩ := foldlM_step_empty hempty
  exact hdirectory

theorem locate_ofSegments (hne : ns ≠ []) (hns : ∀ n ∈ ns, Path.IsName n)
    (h : t.locate (Path.ofSegments ns) = .ok m) : m = ns := by
  have hfollow := (follow_of_locate h).1
  rw [Path.segments_ofSegments hne hns] at hfollow
  exact foldlM_step_names hns hfollow

/-- A path is followed on from where the path in front of it leads. -/
theorem foldlM_of_locate_slashed {q : Path} (hp : t.locate p = .ok l) (h : t.locate (Path.slashed p ++ q) = .ok m) :
    (Path.segments q).foldlM (step t) l = .ok m := by
  obtain ⟨hroot, hpath⟩ := follow_of_locate hp
  have hfollow := (follow_of_locate h).1
  rw [Path.segments_slashed_append hpath, follow, List.foldlM_append] at hfollow
  obtain ⟨k, hk, hrest⟩ := exists_of_bind_eq_ok hfollow
  have hkl : k = l := by
    rcases Path.segments_eq p with heq | heq
    · rw [heq] at hroot
      exact Except.ok.inj (hk.symm.trans hroot)
    · rw [heq, follow, List.foldlM_append, hk] at hroot
      exact (foldlM_step_empty hroot).1.symm
  exact hkl ▸ hrest

/-- Names below a path lead from where the path leads. -/
theorem locate_slashed_append (hp : t.locate p = .ok l) (hne : ns ≠ []) (hns : ∀ n ∈ ns, Path.IsName n)
    (h : t.locate (Path.slashed p ++ Path.ofSegments ns) = .ok m) : m = l ++ ns := by
  have hrest := foldlM_of_locate_slashed hp h
  rw [Path.segments_ofSegments hne hns] at hrest
  exact foldlM_step_names hns hrest

end SfcContract.Tree
