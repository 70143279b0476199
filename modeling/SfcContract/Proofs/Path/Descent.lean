import SfcContract.Proofs.Path

/-!
# What is written behind a directory

Whatever is written behind the name of a directory keeps its segments, whatever that name is. It leads to
something in the directory as long as no `..` leads out on the way.
-/

namespace SfcContract.Path

variable {n r s e : Text} {ns : List Text} {d k : Nat}

def trail (s : Path) : List Text := (segments s).drop 1

/-- Whether a text adds nothing to a name that it is written behind. -/
def Trails (s : Path) : Prop := s = [] ∨ s.head? = some '/'

/-- The components that a trail adds. -/
def trailComponents (s : Path) : List Component := ((trail s).filter (!isVoid ·)).map componentOf

theorem segments_of_not_mem (h : '/' ∉ n) : segments n = [n] := by
  have hsplit := List.splitOn_intercalate '/' (List.forall_mem_singleton.mpr h) (List.cons_ne_nil n [])
  rwa [List.intercalate_singleton] at hsplit

theorem segments_append_trail (hn : '/' ∉ n) (hs : Trails s) : segments (n ++ s) = n :: trail s := by
  rcases hs with rfl | hs
  · rw [List.append_nil, segments_of_not_mem hn]
    rfl
  · obtain ⟨u, rfl⟩ := List.head?_eq_some_iff.mp hs
    have htrail : trail ('/' :: u) = segments u := by
      rw [trail, ← List.nil_append ('/' :: u), segments_append_slash]
      rfl
    rw [segments_append_slash, segments_of_not_mem hn, htrail]
    rfl

theorem isAbsolute_of_not_mem (h : '/' ∉ n) : isAbsolute n = false := by
  rw [isAbsolute, beq_eq_false_iff_ne]
  exact fun hhead => h (List.mem_of_head? hhead)

theorem isAbsolute_name_append (hr : IsName r) (s : Path) : isAbsolute (r ++ s) = false := by
  rw [isAbsolute, beq_eq_false_iff_ne]
  exact hr.head? s

theorem components_name_append (hr : IsName r) (hs : Trails s) :
    components (r ++ s) = .name r :: trailComponents s := by
  have hsegments := segments_append_trail hr.not_mem hs
  have hhead : (segments (r ++ s)).head? ≠ some ['.'] := by
    rw [hsegments]
    exact fun h => hr.2.1 (Option.some.inj h)
  rw [components, lead, isAbsolute_name_append hr s, if_neg Bool.false_ne_true, if_neg hhead, hsegments,
    List.filter_cons_of_pos (by rw [hr.isVoid]; rfl), List.map_cons, hr.componentOf]
  rfl

theorem components_name (hr : IsName r) : components r = [.name r] := by
  have h := components_name_append hr (.inl rfl)
  rwa [List.append_nil] at h

theorem isBelow_name_append {s' : Path} (hr : IsName r) (hs : Trails s) (hs' : Trails s') :
    isBelow (r ++ s) (r ++ s') = (trailComponents s').isPrefixOf (trailComponents s) := by
  rw [isBelow, components_name_append hr hs, components_name_append hr hs', List.isPrefixOf, beq_self_eq_true,
    Bool.true_and]

theorem isBelow_absolute (hr : IsName r) (hs : Trails s) (he : isAbsolute e = true) :
    isBelow (r ++ s) e = false := by
  have hlead : components e = .root :: (((segments e).drop 1).filter (!isVoid ·)).map componentOf := by
    rw [components, lead, if_pos he]
    rfl
  rw [isBelow, components_name_append hr hs, hlead]
  rfl

theorem display_name_append (hr : IsName r) (hs : Trails s) :
    display r (r ++ s) = ofSegments (((trailComponents s).filter (· != .current)).map Component.text) := by
  have hbelow : isBelow (r ++ s) r = true := by
    rw [isBelow, components_name_append hr hs, components_name hr, List.isPrefixOf, beq_self_eq_true]
    rfl
  rw [display, if_pos hbelow, components_name_append hr hs, components_name hr]
  rfl

/-- The last component of a path does not depend on the name in front, unless it is that name. -/
theorem extension?_name_append {r' : Text} (hr : IsName r) (hr' : IsName r') (hs : Trails s)
    (h : trailComponents s ≠ []) : extension? (r ++ s) = extension? (r' ++ s) := by
  have hname : fileName? (r ++ s) = fileName? (r' ++ s) := by
    rw [fileName?, fileName?, components_name_append hr hs, components_name_append hr' hs, List.getLast?_cons,
      List.getLast?_cons, List.getLast?_eq_some_getLast h]
    rfl
  rw [extension?, extension?, hname]

theorem trails_slash (u : Text) : Trails ('/' :: u) := .inr rfl

theorem trails_slashed_append (hs : Trails s) (n : Text) : Trails (slashed s ++ n) := by
  rcases hs with rfl | hs
  · exact trails_slash n
  · obtain ⟨u, rfl⟩ := List.head?_eq_some_iff.mp hs
    rw [slashed]
    split <;> exact trails_slash _

theorem slashed_name_append (hr : IsName r) (s : Path) : slashed (r ++ s) = r ++ slashed s := by
  have hlast : (r ++ s).getLast? = some '/' ↔ s.getLast? = some '/' := by
    by_cases hs : s = []
    · have hname := hr.getLast? []
      rw [List.nil_append] at hname
      rw [hs, List.append_nil]
      exact iff_of_false hname nofun
    · rw [List.getLast?_append_of_ne_nil r hs]
  rw [slashed, slashed]
  by_cases h : s.getLast? = some '/'
  · rw [if_pos h, if_pos (hlast.mpr h)]
  · rw [if_neg h, if_neg (mt hlast.mp h), List.append_assoc]

theorem join_name_append (hr : IsName r) (s : Path) (hn : isAbsolute n = false) :
    join (r ++ s) n = r ++ (slashed s ++ n) := by
  have hne : r ++ s ≠ [] := List.append_ne_nil_of_left_ne_nil hr.ne_nil s
  rw [join_eq hne hn, slashed_name_append hr, List.append_assoc]

theorem join_absolute (root : Path) (he : isAbsolute e = true) : join root e = e := by
  rw [join, he, Bool.true_or, if_pos rfl]

theorem join_name (hr : IsName r) (hn : isAbsolute n = false) : join r n = r ++ '/' :: n := by
  have h := join_name_append hr [] hn
  rwa [List.append_nil] at h

/-- What stands behind a directory after names are joined to it. -/
def below (s : Path) (ns : List Text) : Path := ns.foldl (slashed · ++ ·) s

theorem foldl_join_name_append (hr : IsName r) (hns : ∀ n ∈ ns, IsName n) (s : Path) :
    ns.foldl join (r ++ s) = r ++ below s ns := by
  induction ns generalizing s with
  | nil => rfl
  | cons n ns ih =>
    rw [List.foldl_cons, join_name_append hr s (isAbsolute_name (hns n List.mem_cons_self)),
      ih fun m hm => hns m (List.mem_cons_of_mem n hm)]
    rfl

/-- How deep one segment leads from a depth below a directory; `none` when it leads out of the directory. -/
def climb (depth : Nat) (segment : Text) : Option Nat :=
  if isVoid segment then some depth
  else if segment = ['.', '.'] then (if depth = 0 then none else some (depth - 1))
  else some (depth + 1)

theorem climb_name (hn : IsName n) (d : Nat) : climb d n = some (d + 1) := by
  rw [climb, if_neg (by rw [hn.isVoid]; exact Bool.false_ne_true), if_neg hn.2.2.1]

/-- Whether a text behind a directory leads down to a depth, and never above the directory. -/
structure Descends (s : Path) (depth : Nat) : Prop where
  trails : Trails s
  foldlM_climb : (trail s).foldlM climb 0 = some depth

theorem descends_nil : Descends [] 0 := ⟨.inl rfl, rfl⟩

theorem foldlM_climb_void {segments : List Text} (h : ∀ n ∈ segments, isVoid n = true) (d : Nat) :
    segments.foldlM climb d = some d := by
  induction segments with
  | nil => rfl
  | cons n segments ih =>
    have hn : climb d n = some d := if_pos (h n List.mem_cons_self)
    rw [List.foldlM_cons, hn]
    exact ih fun m hm => h m (List.mem_cons_of_mem n hm)

/-- Below the directory, something is added to its name. -/
theorem Descends.trailComponents_ne_nil (h : Descends s d) (hd : d ≠ 0) : trailComponents s ≠ [] := by
  intro hnil
  have hvoid : ∀ n ∈ trail s, isVoid n = true := by
    intro n hn
    have hnot := List.filter_eq_nil_iff.mp (List.map_eq_nil_iff.mp hnil) n hn
    simpa using hnot
  have hzero := foldlM_climb_void hvoid 0
  rw [h.foldlM_climb] at hzero
  exact hd (Option.some.inj hzero)

/-- A slash at the end does not change the depth. -/
theorem Descends.append (h : Descends s d) (hn : (segments n).foldlM climb d = some k) :
    Descends (slashed s ++ n) k := by
  refine ⟨trails_slashed_append h.trails n, ?_⟩
  rcases h.trails with rfl | hs
  · obtain rfl := Option.some.inj h.foldlM_climb
    have htrail : trail (slashed [] ++ n) = segments n :=
      List.cons_inj_right [] |>.mp (segments_append_trail List.not_mem_nil (trails_slash n)).symm
    rw [htrail]
    exact hn
  · have hne : s ≠ [] := by
      rintro rfl
      cases hs
    have hlength : 1 ≤ (Glob.componentTexts s).length := List.length_pos_iff.mpr (componentTexts_ne_nil hne)
    have hfront : ((Glob.componentTexts s).drop 1).foldlM climb 0 = some d := by
      rw [← h.foldlM_climb, trail]
      rcases segments_eq s with heq | heq
      · rw [heq]
      · rw [heq, List.drop_append_of_le_length hlength, List.foldlM_append]
        exact (bind_pure _).symm
    rw [trail, segments_slashed_append hne, List.drop_append_of_le_length hlength, List.foldlM_append, hfront]
    exact hn

theorem Descends.append_segment (h : Descends s d) (hn : '/' ∉ n) (hk : climb d n = some k) :
    Descends (slashed s ++ n) k := by
  refine h.append ?_
  rw [segments_of_not_mem hn, List.foldlM_cons, hk]
  rfl

theorem Descends.below (h : Descends s d) (hns : ∀ n ∈ ns, IsName n) :
    Descends (below s ns) (d + ns.length) := by
  induction ns generalizing s d with
  | nil => exact h
  | cons n ns ih =>
    have hn := hns n List.mem_cons_self
    have hdepth : d + (n :: ns).length = d + 1 + ns.length := by
      rw [List.length_cons]
      omega
    rw [hdepth]
    exact ih (h.append_segment hn.not_mem (climb_name hn d)) fun m hm => hns m (List.mem_cons_of_mem n hm)

end SfcContract.Path
