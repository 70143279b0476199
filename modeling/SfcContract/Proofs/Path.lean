import Mathlib.Data.List.Basic
import Mathlib.Tactic.SplitIfs
import SfcContract.Glob

/-!
# Paths made of names

Below a directory, a path that is written plainly is a list of names between slashes. Such a path gives
back its names, whatever the path of the directory looks like.
-/

namespace SfcContract.Path

open Glob (componentTexts)

/-- What an entry of a directory may be called. -/
def IsName (n : Text) : Prop := n ≠ [] ∧ n ≠ ['.'] ∧ n ≠ ['.', '.'] ∧ '/' ∉ n

instance (n : Text) : Decidable (IsName n) := inferInstanceAs (Decidable (_ ∧ _))

/-- Whether a path is nothing but names with single slashes between them, and perhaps one at the end. -/
def IsPlain (p : Path) : Prop := ∀ n ∈ componentTexts p, IsName n

instance (p : Path) : Decidable (IsPlain p) := inferInstanceAs (Decidable (∀ n ∈ componentTexts p, IsName n))

variable {root p q x : Path} {n : Text} {ms ns : List Text}

namespace IsName

theorem ne_nil (h : IsName n) : n ≠ [] := h.1

theorem not_mem (h : IsName n) : '/' ∉ n := h.2.2.2

theorem isVoid (h : IsName n) : isVoid n = false := by
  rw [Path.isVoid, Bool.or_eq_false_iff, beq_eq_false_iff_ne, beq_eq_false_iff_ne]
  exact ⟨h.1, h.2.1⟩

theorem componentOf (h : IsName n) : componentOf n = .name n := if_neg h.2.2.1

theorem head? (h : IsName n) (t : Text) : (n ++ t).head? ≠ some '/' := by
  obtain ⟨hne, -, -, hmem⟩ := h
  cases n with
  | nil => exact absurd rfl hne
  | cons c n => exact fun heq => hmem (Option.some.inj heq ▸ List.mem_cons_self)

theorem getLast? (h : IsName n) (t : Text) : (t ++ n).getLast? ≠ some '/' := by
  obtain ⟨hne, -, -, hmem⟩ := h
  rw [List.getLast?_append_of_ne_nil t hne]
  exact fun heq => hmem (List.mem_of_getLast? heq)

end IsName

theorem segments_append_slash (p q : Path) : segments (p ++ '/' :: q) = segments p ++ segments q :=
  List.splitOnP_append_cons p q (by decide)

theorem not_mem_of_mem_segments (h : n ∈ segments p) : '/' ∉ n := by
  induction p generalizing n with
  | nil =>
    rw [List.mem_singleton.mp h]
    exact List.not_mem_nil
  | cons c p ih =>
    rw [segments, List.splitOnP_cons_eq_if_modifyHead] at h
    change n ∈ if (c == '/') = true then [] :: segments p else (segments p).modifyHead (c :: ·) at h
    split_ifs at h with hc
    · rcases List.mem_cons.mp h with rfl | h
      · exact List.not_mem_nil
      · exact ih h
    · cases hp : segments p with
      | nil => exact absurd hp (List.splitOnP_ne_nil _ p)
      | cons first rest =>
        rw [hp] at h ih
        rcases List.mem_cons.mp h with rfl | h
        · rw [List.mem_cons, not_or]
          exact ⟨fun heq => hc (beq_iff_eq.mpr heq.symm), ih List.mem_cons_self⟩
        · exact ih (List.mem_cons_of_mem first h)

theorem segments_ne_nil (p : Path) : segments p ≠ [] := List.splitOnP_ne_nil _ p

theorem ofSegments_segments (p : Path) : ofSegments (segments p) = p := List.intercalate_splitOn '/'

theorem segments_ofSegments_of_not_mem (hne : ns ≠ []) (h : ∀ n ∈ ns, '/' ∉ n) : segments (ofSegments ns) = ns :=
  List.splitOn_intercalate '/' h hne

theorem segments_ofSegments (hne : ns ≠ []) (h : ∀ n ∈ ns, IsName n) : segments (ofSegments ns) = ns :=
  segments_ofSegments_of_not_mem hne fun n hn => (h n hn).not_mem

theorem ofSegments_singleton (n : Text) : ofSegments [n] = n := List.intercalate_singleton

theorem ofSegments_cons (n : Text) (hne : ns ≠ []) : ofSegments (n :: ns) = n ++ '/' :: ofSegments ns := by
  cases ns with
  | nil => exact absurd rfl hne
  | cons m ns =>
    rw [ofSegments, List.intercalate_cons_cons, List.append_assoc]
    rfl

theorem ofSegments_append (hm : ms ≠ []) (hn : ns ≠ []) :
    ofSegments (ms ++ ns) = ofSegments ms ++ '/' :: ofSegments ns := by
  induction ms with
  | nil => exact absurd rfl hm
  | cons m ms ih =>
    rw [List.cons_append, ofSegments_cons m (List.append_ne_nil_of_right_ne_nil ms hn)]
    by_cases hms : ms = []
    · rw [hms, List.nil_append, ofSegments_singleton]
    · rw [ih hms, ofSegments_cons m hms, List.append_assoc, List.cons_append]

theorem ofSegments_concat (hne : ms ≠ []) (n : Text) : ofSegments (ms ++ [n]) = ofSegments ms ++ '/' :: n := by
  rw [ofSegments_append hne (List.cons_ne_nil n []), ofSegments_singleton]

theorem ofSegments_injective (hm : ms ≠ []) (hn : ns ≠ []) (hms : ∀ n ∈ ms, IsName n)
    (hns : ∀ n ∈ ns, IsName n) (h : ofSegments ms = ofSegments ns) : ms = ns := by
  rw [← segments_ofSegments hm hms, h, segments_ofSegments hn hns]

theorem subset_of_mem_segments (h : n ∈ segments p) : n ⊆ p := by
  suffices hall : ∀ ns : List Text, n ∈ ns → n ⊆ ofSegments ns by
    rw [← ofSegments_segments p]
    exact hall _ h
  intro ns hn
  induction ns with
  | nil => cases hn
  | cons m ns ih =>
    by_cases hns : ns = []
    · rw [hns, List.mem_singleton] at hn
      rw [hns, ofSegments_singleton, hn]
      exact List.Subset.refl m
    · rw [ofSegments_cons m hns]
      rcases List.mem_cons.mp hn with rfl | hn
      · exact List.subset_append_left n _
      · exact fun c hc => List.mem_append_right m (List.mem_cons_of_mem '/' (ih hn hc))

theorem head?_ofSegments (hne : ns ≠ []) (h : ∀ n ∈ ns, IsName n) : (ofSegments ns).head? ≠ some '/' := by
  cases ns with
  | nil => exact absurd rfl hne
  | cons n ns =>
    have hn := h n List.mem_cons_self
    cases ns with
    | nil =>
      rw [ofSegments_singleton]
      simpa using hn.head? []
    | cons m ns =>
      rw [ofSegments_cons n (by simp)]
      exact hn.head? _

theorem isAbsolute_ofSegments (hne : ns ≠ []) (h : ∀ n ∈ ns, IsName n) : isAbsolute (ofSegments ns) = false := by
  rw [isAbsolute, beq_eq_false_iff_ne]
  exact head?_ofSegments hne h

/-- A slash at the end adds an empty segment, which is no component. -/
theorem segments_eq (p : Path) : segments p = componentTexts p ∨ segments p = componentTexts p ++ [[]] := by
  rw [componentTexts]
  split
  · rename_i hlast
    obtain ⟨front, hfront⟩ := List.getLast?_eq_some_iff.mp hlast
    rw [hfront, List.dropLast_concat]
    exact .inr rfl
  · exact .inl rfl

theorem mem_segments_of_mem_componentTexts (h : n ∈ componentTexts p) : n ∈ segments p := by
  rcases segments_eq p with heq | heq
  · exact heq ▸ h
  · exact heq ▸ List.mem_append_left _ h

theorem not_mem_of_mem_componentTexts (h : n ∈ componentTexts p) : '/' ∉ n :=
  not_mem_of_mem_segments (mem_segments_of_mem_componentTexts h)

theorem componentTexts_ne_nil (hp : p ≠ []) : componentTexts p ≠ [] := by
  intro hnil
  have heq := segments_eq p
  rw [hnil, List.nil_append] at heq
  rcases heq with heq | heq
  · exact segments_ne_nil p heq
  · exact hp (by rw [← ofSegments_segments p, heq]; rfl)

/-- Nothing stands in front of the first slash of an absolute path. -/
theorem nil_mem_componentTexts (h : isAbsolute p = true) : [] ∈ componentTexts p := by
  cases p with
  | nil => cases h
  | cons c p =>
    obtain rfl := Option.some.inj (beq_iff_eq.mp h)
    have hne := componentTexts_ne_nil (List.cons_ne_nil '/' p)
    have hhead : (segments ('/' :: p)).head? = some [] := by
      rw [← List.nil_append ('/' :: p), segments_append_slash]
      rfl
    rcases segments_eq ('/' :: p) with heq | heq
    · exact List.mem_of_head? (heq ▸ hhead)
    · rw [heq, List.head?_append_of_ne_nil _ hne] at hhead
      exact List.mem_of_head? hhead

theorem IsPlain.isAbsolute (h : IsPlain p) : isAbsolute p = false :=
  Bool.eq_false_iff.mpr fun habsolute => (h [] (nil_mem_componentTexts habsolute)).ne_nil rfl

/-- A path as it stands in front of a name. -/
def slashed (p : Path) : Path := if p.getLast? = some '/' then p else p ++ ['/']

theorem componentTexts_append_slash (p : Path) : componentTexts (p ++ ['/']) = segments p := by
  have hsegments : segments (p ++ ['/']) = segments p ++ [[]] := segments_append_slash p []
  rw [componentTexts, hsegments, List.getLast?_concat, if_pos rfl, List.dropLast_concat]

theorem slashed_eq (hp : p ≠ []) : slashed p = ofSegments (componentTexts p) ++ ['/'] := by
  rw [slashed]
  split
  · rename_i hlast
    obtain ⟨r, rfl⟩ := List.getLast?_eq_some_iff.mp hlast
    rw [componentTexts_append_slash, ofSegments_segments]
  · rename_i hlast
    rcases segments_eq p with heq | heq
    · rw [← heq, ofSegments_segments]
    · have hconcat := ofSegments_concat (componentTexts_ne_nil hp) []
      rw [← heq, ofSegments_segments] at hconcat
      exact absurd (hconcat ▸ List.getLast?_concat) hlast

theorem isAbsolute_slashed_append (hroot : root ≠ []) (q : Path) :
    isAbsolute (slashed root ++ q) = isAbsolute root := by
  cases root with
  | nil => exact absurd rfl hroot
  | cons c root =>
    rw [slashed]
    split <;> rfl

theorem slashed_append_slash (p : Path) : slashed (p ++ ['/']) = p ++ ['/'] := if_pos List.getLast?_concat

theorem join_eq (hroot : root ≠ []) (hp : isAbsolute p = false) : join root p = slashed root ++ p := by
  have hcond : (isAbsolute p || root.isEmpty) = false := by
    rw [hp, Bool.false_or, List.isEmpty_eq_false_iff]
    exact hroot
  rw [join, if_neg (by rw [hcond]; exact Bool.false_ne_true), slashed]
  split <;> rfl

theorem isAbsolute_name (h : IsName n) : isAbsolute n = false := by
  rw [← ofSegments_singleton n]
  exact isAbsolute_ofSegments (by simp) (by simpa using h)

theorem exists_concat_ofSegments (hne : ms ≠ []) (h : ∀ n ∈ ms, IsName n) :
    ∃ t n, IsName n ∧ ofSegments ms = t ++ n := by
  induction ms with
  | nil => exact absurd rfl hne
  | cons m ms ih =>
    cases ms with
    | nil => exact ⟨[], m, h m List.mem_cons_self, ofSegments_singleton m⟩
    | cons k ms =>
      obtain ⟨t, n, hn, heq⟩ := ih (by simp) fun n hn => h n (List.mem_cons_of_mem m hn)
      exact ⟨m ++ '/' :: t, n, hn, by rw [ofSegments_cons m (by simp), heq]; simp⟩

theorem join_ofSegments (x : Path) (hne : ms ≠ []) (hms : ∀ n ∈ ms, IsName n) (hn : IsName n) :
    join (x ++ ofSegments ms) n = x ++ ofSegments (ms ++ [n]) := by
  obtain ⟨t, m, hm, heq⟩ := exists_concat_ofSegments hne hms
  have hnil : x ++ ofSegments ms ≠ [] := by
    rw [heq]
    simp [hm.ne_nil]
  have hslash : slashed (x ++ ofSegments ms) = x ++ ofSegments ms ++ ['/'] := by
    rw [heq, ← List.append_assoc]
    exact if_neg (hm.getLast? (x ++ t))
  rw [join_eq hnil (isAbsolute_name hn), hslash, ofSegments_concat hne, List.append_assoc, List.append_assoc]
  rfl

theorem foldl_join_ofSegments (x : Path) (hne : ms ≠ []) (hms : ∀ n ∈ ms, IsName n)
    (hns : ∀ n ∈ ns, IsName n) : ns.foldl join (x ++ ofSegments ms) = x ++ ofSegments (ms ++ ns) := by
  induction ns generalizing ms with
  | nil => rw [List.append_nil, List.foldl_nil]
  | cons n ns ih =>
    have hn := hns n List.mem_cons_self
    rw [List.foldl_cons, join_ofSegments x hne hms hn,
      ih (by simp) (List.forall_mem_append.mpr ⟨hms, by simpa using hn⟩)
        fun m hm => hns m (List.mem_cons_of_mem n hm), List.append_assoc]
    rfl

theorem foldl_join_cons (hroot : root ≠ []) (h : ∀ m ∈ n :: ns, IsName m) :
    (n :: ns).foldl join root = slashed root ++ ofSegments (n :: ns) := by
  have hn := h n List.mem_cons_self
  rw [List.foldl_cons, join_eq hroot (isAbsolute_name hn), ← ofSegments_singleton n,
    foldl_join_ofSegments _ (by simp) (by simpa using hn) fun m hm => h m (List.mem_cons_of_mem n hm),
    ofSegments_singleton]
  rfl

/-- Whether a path is some names after a lead. -/
def IsSpelt (lead p : Path) : Prop := ∃ ns, ns ≠ [] ∧ (∀ n ∈ ns, IsName n) ∧ p = lead ++ ofSegments ns

/-- A slash at the end of a path makes no difference when it stands in front of another one. -/
theorem segments_slashed_append (hroot : root ≠ []) (q : Path) :
    segments (slashed root ++ q) = componentTexts root ++ segments q := by
  have hfront : segments (ofSegments (componentTexts root)) = componentTexts root :=
    List.splitOn_intercalate '/' (fun n hn => not_mem_of_mem_componentTexts hn) (componentTexts_ne_nil hroot)
  rw [slashed_eq hroot, List.append_assoc, List.singleton_append, segments_append_slash, hfront]

theorem componentTexts_slashed_append (hroot : root ≠ []) (q : Path) :
    componentTexts (slashed root ++ q) = componentTexts root ++ componentTexts q := by
  have hne := segments_ne_nil q
  have hq : componentTexts q = if (segments q).getLast? = some [] then (segments q).dropLast else segments q := rfl
  rw [hq, componentTexts, segments_slashed_append hroot, List.getLast?_append_of_ne_nil _ hne]
  split
  · rw [List.dropLast_append_of_ne_nil hne]
  · rfl

theorem components_of_names (h : ∀ n ∈ ns, IsName n) :
    (ns.filter (!isVoid ·)).map componentOf = ns.map .name := by
  rw [List.filter_eq_self.mpr fun n hn => by rw [(h n hn).isVoid]; rfl]
  exact List.map_congr_left fun n hn => (h n hn).componentOf

theorem components_ofSegments (hne : ns ≠ []) (h : ∀ n ∈ ns, IsName n) :
    components (ofSegments ns) = ns.map .name := by
  have hhead : (segments (ofSegments ns)).head? ≠ some ['.'] := by
    rw [segments_ofSegments hne h]
    exact fun heq => (h _ (List.mem_of_head? heq)).2.1 rfl
  rw [components, lead, isAbsolute_ofSegments hne h, if_neg Bool.false_ne_true, if_neg hhead,
    segments_ofSegments hne h]
  exact components_of_names h

/-- Behind a path no segment leads, so what is not void is a component. -/
theorem components_slashed (hroot : root ≠ []) (q : Path) :
    components (slashed root ++ q) = components root ++ ((segments q).filter (!isVoid ·)).map componentOf := by
  have hfront := componentTexts_ne_nil hroot
  have hsegments := segments_slashed_append hroot q
  have hhead : (segments (slashed root ++ q)).head? = (segments root).head? := by
    rw [hsegments, List.head?_append_of_ne_nil _ hfront]
    rcases segments_eq root with heq | heq
    · rw [heq]
    · rw [heq, List.head?_append_of_ne_nil _ hfront]
  -- The empty segment of a slash at the end is void, so it makes no component.
  have hbody (k : Nat) (hk : k ≤ (componentTexts root).length) :
      (((componentTexts root ++ segments q).drop k).filter (!isVoid ·)).map componentOf =
        (((segments root).drop k).filter (!isVoid ·)).map componentOf ++
          ((segments q).filter (!isVoid ·)).map componentOf := by
    rw [List.drop_append_of_le_length hk, List.filter_append, List.map_append]
    rcases segments_eq root with heq | heq
    · rw [heq]
    · rw [heq, List.drop_append_of_le_length hk, List.filter_append]
      simp [isVoid]
  have hone : 1 ≤ (componentTexts root).length := List.length_pos_iff.mpr hfront
  rw [components, components, lead, lead, isAbsolute_slashed_append hroot, hhead, hsegments]
  split_ifs
  · rw [hbody 1 hone, List.append_assoc]
  · rw [hbody 1 hone, List.append_assoc]
  · have hall := hbody 0 (Nat.zero_le _)
    rw [List.drop_zero, List.drop_zero] at hall
    rw [hall, List.append_assoc]

theorem components_slashed_append (hroot : root ≠ []) (hne : ns ≠ []) (h : ∀ n ∈ ns, IsName n) :
    components (slashed root ++ ofSegments ns) = components root ++ ns.map .name := by
  rw [components_slashed hroot, segments_ofSegments hne h, components_of_names h]

theorem components_slashed_self (hroot : root ≠ []) : components (slashed root) = components root := by
  have h := components_slashed hroot []
  rw [List.append_nil] at h
  exact h.trans (List.append_nil _)

theorem components_foldl_join (hroot : root ≠ []) (h : ∀ n ∈ ns, IsName n) :
    components (ns.foldl join root) = components root ++ ns.map .name := by
  cases ns with
  | nil => exact (List.append_nil _).symm
  | cons n ns => rw [foldl_join_cons hroot h, components_slashed_append hroot (List.cons_ne_nil n ns) h]

theorem names_displayed (ns : List Text) :
    ofSegments (((ns.map Component.name).filter (· != .current)).map Component.text) = ofSegments ns := by
  have hall : (ns.map Component.name).filter (· != .current) = ns.map Component.name := by
    refine List.filter_eq_self.mpr fun c hc => ?_
    obtain ⟨n, -, rfl⟩ := List.mem_map.mp hc
    rfl
  rw [hall, List.map_map]
  exact congrArg ofSegments (List.map_id ns)

theorem display_slashed_append (hroot : root ≠ []) (hne : ns ≠ []) (h : ∀ n ∈ ns, IsName n) :
    display root (slashed root ++ ofSegments ns) = ofSegments ns := by
  have hbelow : isBelow (slashed root ++ ofSegments ns) root = true := by
    rw [isBelow, components_slashed_append hroot hne h, List.isPrefixOf_iff_prefix]
    exact List.prefix_append _ _
  rw [display, if_pos hbelow, components_slashed_append hroot hne h, List.drop_left]
  exact names_displayed ns

/-- In the working directory, a path without a leading dot is displayed in the same way. -/
theorem display_current (hne : ns ≠ []) (h : ∀ n ∈ ns, IsName n) :
    display ['.'] (ofSegments ns) = ofSegments ns := by
  have hcurrent : components ['.'] = [.current] := by decide
  have hbelow : ¬ isBelow (ofSegments ns) ['.'] = true := by
    rw [isBelow, components_ofSegments hne h, hcurrent]
    cases ns with
    | nil => exact absurd rfl hne
    | cons n ns => exact Bool.false_ne_true
  rw [display, if_neg hbelow, components_ofSegments hne h]
  exact names_displayed ns

/-- Whether a path stays below where it is seen from. It may have dots and slashes that make no difference. -/
def IsDownward (p : Path) : Prop := isAbsolute p = false ∧ ['.', '.'] ∉ segments p

instance (p : Path) : Decidable (IsDownward p) := inferInstanceAs (Decidable (_ ∧ _))

/-- The segments of a path that lead on. -/
def names (p : Path) : List Text := (segments p).filter (!isVoid ·)

theorem IsDownward.isName_of_mem_segments (h : IsDownward p) (hn : n ∈ segments p) (hvoid : isVoid n = false) :
    IsName n := by
  rw [isVoid, Bool.or_eq_false_iff, beq_eq_false_iff_ne, beq_eq_false_iff_ne] at hvoid
  exact ⟨hvoid.1, hvoid.2, fun heq => h.2 (heq ▸ hn), not_mem_of_mem_segments hn⟩

theorem IsDownward.isName (h : IsDownward p) (hn : n ∈ names p) : IsName n := by
  obtain ⟨hn, hvoid⟩ := List.mem_filter.mp hn
  exact h.isName_of_mem_segments hn (by simpa using hvoid)

theorem IsPlain.isDownward (h : IsPlain p) : IsDownward p := by
  refine ⟨h.isAbsolute, fun hparent => ?_⟩
  rcases segments_eq p with heq | heq
  · exact (h _ (heq ▸ hparent)).2.2.1 rfl
  · rcases List.mem_append.mp (heq ▸ hparent) with hparent | hnil
    · exact (h _ hparent).2.2.1 rfl
    · cases List.mem_singleton.mp hnil

theorem components_join (hroot : root ≠ []) (hp : IsDownward p) :
    components (join root p) = components root ++ (names p).map .name := by
  rw [join_eq hroot hp.1, components_slashed hroot]
  exact congrArg _ (List.map_congr_left fun n hn => (hp.isName hn).componentOf)

theorem fileName?_slashed_append (hroot : root ≠ []) (hne : ns ≠ []) (h : ∀ n ∈ ns, IsName n) :
    fileName? (slashed root ++ ofSegments ns) = ns.getLast? := by
  rw [fileName?, components_slashed_append hroot hne h, List.getLast?_append_of_ne_nil _ (by simpa using hne),
    List.getLast?_map]
  cases ns.getLast? <;> rfl

/-- An extension is what follows the last dot, and something must come before that dot. -/
theorem extension?_eq_some_iff {ext : Text} :
    extension? p = some ext ↔ ∃ stem, stem ≠ [] ∧ '.' ∉ ext ∧ fileName? p = some (stem ++ '.' :: ext) := by
  rw [extension?]
  cases hn : fileName? p with
  | none => simp
  | some n =>
    dsimp only
    have hsplit := List.takeWhile_append_dropWhile (p := (· != '.')) (l := n.reverse)
    constructor
    · intro h
      cases hrest : n.reverse.dropWhile (· != '.') with
      | nil => simp [hrest] at h
      | cons c rest =>
        cases rest with
        | nil => simp [hrest] at h
        | cons d rest =>
          obtain rfl : c = '.' := by
            have hnot := List.head?_dropWhile_not (· != '.') n.reverse
            rw [hrest] at hnot
            simpa using hnot
          simp only [hrest, Option.some.injEq] at h
          refine ⟨(d :: rest).reverse, by simp, fun hdot => ?_, ?_⟩
          · rw [← h, List.mem_reverse] at hdot
            exact absurd (List.all_eq_true.mp List.all_takeWhile '.' hdot) (by decide)
          · rw [hrest] at hsplit
            rw [← List.reverse_reverse n, ← hsplit, ← h]
            simp
    · rintro ⟨stem, hstem, hext, hname⟩
      obtain rfl := Option.some.inj hname
      have hdots : ∀ c ∈ ext.reverse, (c != '.') = true := fun c hc =>
        bne_iff_ne.mpr fun heq => hext (heq ▸ List.mem_reverse.mp hc)
      rw [List.reverse_append, List.reverse_cons, List.append_assoc, List.dropWhile_append_of_pos hdots,
        List.takeWhile_append_of_pos hdots]
      cases hrev : stem.reverse with
      | nil => exact absurd (List.reverse_eq_nil_iff.mp hrev) hstem
      | cons d rest => simp

end SfcContract.Path
