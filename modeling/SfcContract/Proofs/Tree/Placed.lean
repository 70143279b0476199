import Mathlib.Data.List.Nodup
import SfcContract.Proofs.Path.Descent
import SfcContract.Proofs.Tree.Below

/-!
# A tree in another one

A directory of a tree can have the content of another tree. What is written behind its name then leads to
what it leads to in the other tree behind a dot, as long as it does not lead out of the directory.
-/

namespace SfcContract.Tree

/-- Whether a name of a tree is that of a directory with the content of another tree. -/
structure Holds (t : Tree) (r : Text) (content : Tree) : Prop where
  isName : Path.IsName r
  get?_cons : ∀ l, t.get? (r :: l) = content.get? l

variable {t T : Tree} {r s : Text} {l k : Location} {ns : List Text} {d : Nat} {p : Path} {e : Entry}

/-- A tree as the content of a directory, and nothing beside it. -/
def place (r : Text) (T : Tree) : Tree where
  entries := ([r], .directory) :: (T.entries.filter (·.1 ≠ [])).map fun x => (r :: x.1, x.2)
  distinct := by
    have hbelow : ((T.entries.filter (·.1 ≠ [])).map fun x => r :: x.1).Nodup := by
      have hnodup := T.distinct.sublist ((List.filter_sublist (p := (·.1 ≠ []))).map Prod.fst)
      have hcons := List.Nodup.map (List.cons_injective (a := r)) hnodup
      rwa [List.map_map] at hcons
    rw [List.map_cons, List.map_map, List.nodup_cons]
    refine ⟨fun h => ?_, hbelow⟩
    obtain ⟨x, hx, heq⟩ := List.mem_map.mp h
    exact of_decide_eq_true (List.mem_filter.mp hx).2 (List.cons.inj heq).2

theorem holds_place (hr : Path.IsName r) (T : Tree) : (T.place r).Holds r T where
  isName := hr
  get?_cons l := by
    refine Option.ext fun e => ?_
    rw [get?_eq_some_iff (List.cons_ne_nil r l), place, List.mem_cons, List.mem_map]
    by_cases hl : l = []
    · subst hl
      constructor
      · rintro (heq | ⟨x, hx, heq⟩)
        · exact (Prod.mk.inj heq).2 ▸ rfl
        · have hnil := (List.cons.inj (Prod.mk.inj heq).1).2
          exact absurd hnil (of_decide_eq_true (List.mem_filter.mp hx).2)
      · intro he
        obtain rfl := Option.some.inj he
        exact .inl rfl
    · rw [get?_eq_some_iff hl]
      constructor
      · rintro (heq | ⟨x, hx, heq⟩)
        · exact absurd (List.cons.inj (Prod.mk.inj heq).1).2 hl
        · obtain ⟨hcons, rfl⟩ := Prod.mk.inj heq
          exact (List.cons.inj hcons).2 ▸ (List.mem_filter.mp hx).1
      · exact fun hmem => .inr ⟨(l, e), List.mem_filter.mpr ⟨hmem, decide_eq_true hl⟩, rfl⟩

/-- The first segment is followed from the top, and what stands behind it from there on. -/
theorem locate_append_trail {n : Text} (hne : n ≠ []) (hn : '/' ∉ n) (hs : Path.Trails s) :
    t.locate (n ++ s) = t.step [] n >>= fun l => (Path.trail s).foldlM (step t) l := by
  have hempty : ¬ (n ++ s).isEmpty = true := by simp [hne]
  rw [locate, if_neg hempty, follow, Path.segments_append_trail hn hs, List.foldlM_cons]

theorem locate_dot (T : Tree) (hs : Path.Trails s) :
    T.locate ('.' :: s) = (Path.trail s).foldlM (step T) [] :=
  locate_append_trail (List.cons_ne_nil '.' []) (by decide) hs

namespace Holds

/-- A segment leads to the same place, and as deep as it says. -/
theorem step_cons (h : t.Holds r T) {segment : Text} (hd : Path.climb l.length segment = some d) :
    t.step (r :: l) segment = (T.step l segment).map (r :: ·) ∧ ∀ k, T.step l segment = .ok k → k.length = d := by
  rw [Path.climb] at hd
  rw [step, step, h.get?_cons l]
  cases T.get? l with
  | none => exact ⟨rfl, fun k hk => by cases hk⟩
  | some e =>
    cases e with
    | file content => exact ⟨rfl, fun k hk => by cases hk⟩
    | directory =>
      dsimp only
      by_cases hvoid : Path.isVoid segment = true
      · rw [if_pos hvoid] at hd
        rw [if_pos hvoid, if_pos hvoid]
        exact ⟨rfl, fun k hk => Except.ok.inj hk ▸ Option.some.inj hd⟩
      rw [if_neg hvoid] at hd
      rw [if_neg hvoid, if_neg hvoid]
      by_cases hparent : segment = ['.', '.']
      · rw [if_pos hparent] at hd
        split_ifs at hd with hzero
        have hl : l ≠ [] := fun hnil => hzero (List.length_eq_zero_iff.mpr hnil)
        rw [if_pos hparent, if_pos hparent, List.dropLast_cons_of_ne_nil hl]
        refine ⟨rfl, fun k hk => ?_⟩
        rw [← Except.ok.inj hk, List.length_dropLast, Option.some.inj hd]
      · rw [if_neg hparent] at hd
        rw [if_neg hparent, if_neg hparent]
        refine ⟨rfl, fun k hk => ?_⟩
        rw [← Except.ok.inj hk, List.length_append, ← Option.some.inj hd]
        rfl

/-- Segments that never lead out lead to the same place. -/
theorem foldlM_step (h : t.Holds r T) {segments : List Text} (hd : segments.foldlM Path.climb l.length = some d) :
    segments.foldlM (step t) (r :: l) = (segments.foldlM (step T) l).map (r :: ·) ∧
      ∀ k, segments.foldlM (step T) l = .ok k → k.length = d := by
  induction segments generalizing l with
  | nil => exact ⟨rfl, fun k hk => Except.ok.inj hk ▸ Option.some.inj hd⟩
  | cons segment segments ih =>
    rw [List.foldlM_cons] at hd
    obtain ⟨m, hm, hrest⟩ := Option.bind_eq_some_iff.mp hd
    obtain ⟨hstep, hlength⟩ := h.step_cons hm
    rw [List.foldlM_cons, List.foldlM_cons, hstep]
    cases hnext : T.step l segment with
    | error fault => exact ⟨rfl, fun k hk => by cases hk⟩
    | ok k =>
      rw [← hlength k hnext] at hrest
      exact ih hrest

theorem locate_name (h : t.Holds r T) (hs : Path.Trails s) :
    t.locate (r ++ s) = (Path.trail s).foldlM (step t) [r] := by
  have htop : t.get? [] = some .directory := rfl
  have hstep : t.step [] r = .ok [r] := by
    rw [step, htop]
    dsimp only
    rw [if_neg (by rw [h.isName.isVoid]; exact Bool.false_ne_true), if_neg h.isName.2.2.1]
    rfl
  rw [locate_append_trail h.isName.ne_nil h.isName.not_mem hs, hstep]
  rfl

theorem locate (h : t.Holds r T) (hs : Path.Descends s d) :
    t.locate (r ++ s) = (T.locate ('.' :: s)).map (r :: ·) := by
  rw [h.locate_name hs.trails, locate_dot T hs.trails]
  exact (h.foldlM_step (l := []) hs.foldlM_climb).1

theorem length_of_locate (h : t.Holds r T) (hs : Path.Descends s d) (hl : T.locate ('.' :: s) = .ok l) :
    l.length = d := by
  rw [locate_dot T hs.trails] at hl
  exact (h.foldlM_step (l := []) hs.foldlM_climb).2 l hl

theorem find (h : t.Holds r T) (hs : Path.Descends s d) :
    t.find (r ++ s) = (T.find ('.' :: s)).map fun x => (r :: x.1, x.2) := by
  have hlocate := h.locate hs
  cases hl : T.locate ('.' :: s) with
  | error fault =>
    rw [hl] at hlocate
    rw [Tree.find, Tree.find, hlocate, hl]
    rfl
  | ok l =>
    rw [hl] at hlocate
    rw [find_of_locate hlocate, find_of_locate hl, h.get?_cons]
    cases T.get? l <;> rfl

theorem contains (h : t.Holds r T) (hs : Path.Descends s d) : t.contains (r ++ s) = T.contains ('.' :: s) := by
  rw [Tree.contains, Tree.contains, h.find hs]
  cases T.find ('.' :: s) <;> rfl

theorem isDirectory (h : t.Holds r T) (hs : Path.Descends s d) :
    t.isDirectory (r ++ s) = T.isDirectory ('.' :: s) := by
  rw [Tree.isDirectory, Tree.isDirectory, h.find hs]
  cases T.find ('.' :: s) with
  | error fault => rfl
  | ok x => cases x with | mk l e => cases e <;> rfl

theorem contains_name (h : t.Holds r T) : t.contains r = true := by
  have htop := h.contains Path.descends_nil
  rwa [List.append_nil] at htop

theorem isDirectory_name (h : t.Holds r T) : t.isDirectory r = true := by
  have htop := h.isDirectory Path.descends_nil
  rwa [List.append_nil] at htop

theorem read (h : t.Holds r T) (hs : Path.Descends s d) : t.read (r ++ s) = T.read ('.' :: s) := by
  rw [Tree.read, Tree.read, h.find hs]
  cases T.find ('.' :: s) with
  | error fault => rfl
  | ok x => cases x with | mk l e => cases e <;> rfl

theorem exists_mem_entries_iff (h : t.Holds r T) :
    (∃ x ∈ t.entries, List.isPrefixOf? (r :: l) x.1 = some ns) ↔ ∃ e, T.get? (l ++ ns) = some e := by
  constructor
  · rintro ⟨⟨k, e⟩, hmem, hleads⟩
    rw [List.isPrefixOf?_eq_some_iff_append_eq] at hleads
    subst hleads
    exact ⟨e, (h.get?_cons (l ++ ns)).symm.trans ((get?_eq_some_iff (by simp)).mpr hmem)⟩
  · rintro ⟨e, hget⟩
    rw [← h.get?_cons, get?_eq_some_iff (List.cons_ne_nil r _)] at hget
    exact ⟨_, hget, List.isPrefixOf?_eq_some_iff_append_eq.mpr rfl⟩

theorem exists_of_mem_below (h : t.Holds r T) (hT : T.IsProper) (hs : Path.Descends s d)
    {found : List (Path × Entry)} (hfound : t.below (r ++ s) = .ok found) (hp : (p, e) ∈ found) :
    ∃ l ns, T.locate ('.' :: s) = .ok l ∧ T.get? (l ++ ns) = some e ∧ p = r ++ Path.below s ns := by
  obtain ⟨k, ns, hk, rfl, hget⟩ := Tree.exists_of_mem_below hfound hp
  rw [h.locate hs] at hk
  cases hl : T.locate ('.' :: s) with
  | error fault =>
    rw [hl] at hk
    cases hk
  | ok l =>
    rw [hl] at hk
    obtain rfl := Except.ok.inj hk
    rw [List.cons_append, h.get?_cons] at hget
    have hns : ∀ n ∈ ns, Path.IsName n := fun n hn => hT.isName hget n (List.mem_append_right l hn)
    exact ⟨l, ns, rfl, hget, Path.foldl_join_name_append h.isName hns s⟩

theorem mem_below (h : t.Holds r T) (hT : T.IsProper) (hs : Path.Descends s d) {found : List (Path × Entry)}
    (hfound : t.below (r ++ s) = .ok found) (hl : T.locate ('.' :: s) = .ok l) (hget : T.get? (l ++ ns) = some e) :
    (r ++ Path.below s ns, e) ∈ found := by
  have hns : ∀ n ∈ ns, Path.IsName n := fun n hn => hT.isName hget n (List.mem_append_right l hn)
  have hlocate : t.locate (r ++ s) = .ok (r :: l) := by
    rw [h.locate hs, hl]
    rfl
  rw [← Path.foldl_join_name_append h.isName hns s]
  exact Tree.mem_below hfound hlocate ((h.get?_cons (l ++ ns)).trans hget)

theorem below_congr {t' : Tree} {r' : Text} (h : t.Holds r T) (h' : t'.Holds r' T) (hs : Path.Descends s d)
    {found : List (Path × Entry)} (hfound : t.below (r ++ s) = .ok found) :
    ∃ found', t'.below (r' ++ s) = .ok found' := by
  rw [below, h.find hs] at hfound
  rw [below, h'.find hs]
  cases hfind : T.find ('.' :: s) with
  | error fault =>
    rw [hfind] at hfound
    cases hfound
  | ok x => exact ⟨_, rfl⟩

end Holds

end SfcContract.Tree
