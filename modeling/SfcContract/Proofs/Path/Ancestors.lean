import Mathlib.Data.List.DropRight
import SfcContract.Proofs.Path

/-!
# The way up

The parent of a path has all its components but the last, and it is shorter. Going up therefore comes to an end, and
the ancestors of a path are all that is met on the way.
-/

namespace SfcContract.Path

variable {p q : Path} {ns ms : List Text} {k fuel : Nat}

/-- What is reached after so many steps to the parent. -/
def up? : Nat → Path → Option Path
  | 0, p => some p
  | k + 1, p => (up? k p).bind parent?

/-- The steps may be counted from either end. -/
theorem up?_succ (k : Nat) (p : Path) : up? (k + 1) p = (parent? p).bind (up? k) := by
  induction k with
  | zero =>
    rw [up?, up?, Option.bind_some]
    exact (Option.bind_fun_some (parent? p)).symm
  | succ k ih =>
    rw [up?, ih, Option.bind_assoc]
    rfl

/-- The length of segments with a slash behind each of them. -/
def span : List Text → Nat
  | [] => 0
  | n :: ns => n.length + 1 + span ns

theorem span_cons (n : Text) (ns : List Text) : span (n :: ns) = n.length + 1 + span ns := rfl

theorem span_append (ms ns : List Text) : span (ms ++ ns) = span ms + span ns := by
  induction ms with
  | nil => exact (Nat.zero_add _).symm
  | cons m ms ih => rw [List.cons_append, span_cons, span_cons, ih, Nat.add_assoc (m.length + 1)]

theorem span_le_of_isPrefix (h : ms <+: ns) : span ms ≤ span ns := by
  obtain ⟨rest, rfl⟩ := h
  rw [span_append]
  exact Nat.le_add_right _ _

/-- No slash stands behind the last segment of a path. -/
theorem length_ofSegments (hne : ns ≠ []) : (ofSegments ns).length + 1 = span ns := by
  induction ns with
  | nil => exact absurd rfl hne
  | cons n ns ih =>
    by_cases hns : ns = []
    · rw [hns, ofSegments_singleton]
      rfl
    · rw [ofSegments_cons n hns, List.length_append, List.length_cons, ih hns, span_cons]
      omega

theorem length_ofSegments_le (ns : List Text) : (ofSegments ns).length ≤ span ns := by
  by_cases hne : ns = []
  · rw [hne]
    rfl
  · have h := length_ofSegments hne
    omega

/-- What the segments of a path begin with when it has a leading component that is no name. -/
def front : Option Component → List Text
  | none => []
  | some c => [if c = .root then [] else c.text]

theorem segments_eq_front (p : Path) : segments p = front (lead p).1 ++ (lead p).2 := by
  have hdrop : ∀ n, (segments p).head? = some n → segments p = [n] ++ (segments p).drop 1 := fun n hn => by
    obtain ⟨rest, hrest⟩ := List.head?_eq_some_iff.mp hn
    rw [hrest]
    rfl
  rw [lead]
  split_ifs with habsolute hcurrent
  · refine hdrop [] ?_
    obtain ⟨rest, rfl⟩ := List.head?_eq_some_iff.mp (beq_iff_eq.mp habsolute)
    rw [← List.nil_append ('/' :: rest), segments_append_slash]
    rfl
  · exact hdrop ['.'] hcurrent
  · rfl

theorem lead_cases (p : Path) :
    (lead p).1 = none ∨ (lead p).1 = some .root ∨ (lead p).1 = some .current := by
  rw [lead]
  split_ifs
  · exact .inr (.inl rfl)
  · exact .inr (.inr rfl)
  · exact .inl rfl

theorem length_eq_span (p : Path) : p.length + 1 = span (front (lead p).1) + span (lead p).2 := by
  rw [← span_append, ← segments_eq_front, ← length_ofSegments (segments_ne_nil p), ofSegments_segments]

theorem dropLastVoid_eq (ns : List Text) : dropLastVoid ns = ns.rdropWhile isVoid := rfl

/-- The segments that the parent of a path keeps. -/
def kept (p : Path) : List Text := dropLastVoid (dropLastVoid (lead p).2).dropLast

theorem dropLastVoid_isPrefix (ns : List Text) : dropLastVoid ns <+: ns := List.rdropWhile_prefix isVoid ns

theorem kept_isPrefix (p : Path) : kept p <+: (lead p).2 :=
  ((dropLastVoid_isPrefix _).trans (List.dropLast_prefix _)).trans (dropLastVoid_isPrefix _)

/-- The last segment that is not void is not empty, and it is not kept. -/
theorem span_kept_lt (h : dropLastVoid (lead p).2 ≠ []) : span (kept p) + 2 ≤ span (lead p).2 := by
  have hlast : (dropLastVoid (lead p).2).getLast h ≠ [] := fun hnil =>
    List.rdropWhile_last_not isVoid (lead p).2 h (hnil ▸ rfl)
  have hlength := List.length_pos_iff.mpr hlast
  calc span (kept p) + 2
      ≤ span (dropLastVoid (lead p).2).dropLast + span [(dropLastVoid (lead p).2).getLast h] := by
        have hle := span_le_of_isPrefix (dropLastVoid_isPrefix (dropLastVoid (lead p).2).dropLast)
        rw [kept, span_cons]
        omega
    _ = span (dropLastVoid (lead p).2) := by rw [← span_append, List.dropLast_concat_getLast]
    _ ≤ span (lead p).2 := span_le_of_isPrefix (dropLastVoid_isPrefix (lead p).2)

/-- What a path has as its parent. Only a leading `.` is left out as a whole; otherwise the last name is, and all
void segments around it. -/
theorem parent?_cases (h : parent? p = some q) :
    (lead p).1 = some .current ∧ dropLastVoid (lead p).2 = [] ∧ q = [] ∨
      dropLastVoid (lead p).2 ≠ [] ∧
        (kept p = [] ∧ q = (lead p).1.elim [] Component.text ∨
          kept p ≠ [] ∧ q = ofSegments (front (lead p).1 ++ kept p)) := by
  rw [kept]
  rcases hlead : lead p with ⟨leading, body⟩
  have hcases := lead_cases p
  rw [hlead] at hcases
  rw [parent?, hlead] at h
  cases hbody : dropLastVoid body with
  | nil =>
    rw [hbody] at h
    rcases hcases with rfl | rfl | rfl
    · cases h
    · cases h
    · exact .inl ⟨rfl, rfl, (Option.some.inj h).symm⟩
  | cons n ns =>
    rw [hbody] at h
    refine .inr ⟨List.cons_ne_nil n ns, ?_⟩
    cases hkept : dropLastVoid (n :: ns).dropLast with
    | nil =>
      cases leading with
      | none =>
        rw [← Option.some.inj h, hkept]
        exact .inl ⟨rfl, rfl⟩
      | some c =>
        simp only [hkept] at h
        exact .inl ⟨rfl, (Option.some.inj h).symm⟩
    | cons m ms =>
      refine .inr ⟨List.cons_ne_nil m ms, ?_⟩
      cases leading with
      | none =>
        rw [← Option.some.inj h, hkept]
        rfl
      | some c =>
        simp only [hkept] at h
        exact (Option.some.inj h).symm

theorem length_text_le_span_front (p : Path) :
    ((lead p).1.elim [] Component.text).length ≤ span (front (lead p).1) := by
  rcases lead_cases p with hc | hc | hc <;> rw [hc] <;> decide

theorem length_lt_of_parent? (h : parent? p = some q) : q.length < p.length := by
  have hp := length_eq_span p
  rcases parent?_cases h with ⟨hc, -, rfl⟩ | ⟨hbody, ⟨-, rfl⟩ | ⟨-, rfl⟩⟩
  · have hfront : span (front (some Component.current)) = 2 := rfl
    rw [hc, hfront] at hp
    rw [List.length_nil]
    omega
  · have hspan := span_kept_lt hbody
    have hq := length_text_le_span_front p
    omega
  · have hspan := span_kept_lt hbody
    have hq := length_ofSegments_le (front (lead p).1 ++ kept p)
    rw [span_append] at hq
    omega

theorem filter_dropLastVoid (ns : List Text) :
    (dropLastVoid ns).filter (!isVoid ·) = ns.filter (!isVoid ·) := by
  induction ns using List.reverseRecOn with
  | nil => rfl
  | append_singleton ns n ih =>
    rw [dropLastVoid_eq, List.rdropWhile_concat]
    split_ifs with hvoid
    · rw [← dropLastVoid_eq, ih, List.filter_append, List.filter_singleton, hvoid]
      exact (List.append_nil _).symm
    · rfl

theorem isAbsolute_iff : isAbsolute p = true ↔ p ≠ [] ∧ (segments p).head? = some [] := by
  cases p with
  | nil => decide
  | cons d p =>
    rw [isAbsolute, segments, List.splitOnP_cons_eq_if_modifyHead, List.head?_cons, beq_iff_eq, Option.some_inj]
    obtain ⟨first, rest, hsplit⟩ := List.exists_cons_of_ne_nil (List.splitOnP_ne_nil (· == '/') p)
    rw [hsplit]
    by_cases hd : d = '/'
    · simp [hd]
    · simp [hd]

theorem lead_of_head? {n : Text} (hp : p ≠ []) (h : (segments p).head? = some n) :
    lead p = if n = [] then (some .root, (segments p).drop 1)
      else if n = ['.'] then (some .current, (segments p).drop 1) else (none, segments p) := by
  rw [lead, h]
  by_cases hn : n = []
  · rw [if_pos (isAbsolute_iff.mpr ⟨hp, hn ▸ h⟩), if_pos hn]
  · rw [if_neg (fun habsolute => hn ?_), if_neg hn]
    · simp
    · exact Option.some.inj (h.symm.trans (isAbsolute_iff.mp habsolute).2)

/-- A path whose first segments are written for a leading component has that component. -/
theorem lead_ofSegments_front {leading : Option Component} (hne : ns ≠ []) (hslash : ∀ n ∈ ns, '/' ∉ n)
    (h : leading = none ∧ ns.head? ≠ some [] ∧ ns.head? ≠ some ['.'] ∨ leading = some .root ∨ leading = some .current) :
    lead (ofSegments (front leading ++ ns)) = (leading, ns) := by
  have hsegments : segments (ofSegments (front leading ++ ns)) = front leading ++ ns := by
    refine segments_ofSegments_of_not_mem (List.append_ne_nil_of_right_ne_nil _ hne)
      (List.forall_mem_append.mpr ⟨?_, hslash⟩)
    rcases h with ⟨rfl, -⟩ | rfl | rfl <;> decide
  obtain ⟨n, rest, rfl⟩ := List.exists_cons_of_ne_nil hne
  have hnil : ofSegments (front leading ++ n :: rest) ≠ [] := by
    intro hnil
    have hempty : segments [] = [[]] := rfl
    rw [hnil, hempty] at hsegments
    rcases h with ⟨rfl, hn, -⟩ | rfl | rfl
    · exact hn (congrArg List.head? hsegments).symm
    · simp [front] at hsegments
    · simp [front] at hsegments
  rcases h with ⟨rfl, hn, hdot⟩ | rfl | rfl
  · rw [lead_of_head? hnil (congrArg List.head? hsegments), if_neg, if_neg, hsegments]
    · rfl
    · simpa using hdot
    · simpa using hn
  · rw [lead_of_head? hnil (congrArg List.head? hsegments), hsegments]
    rfl
  · rw [lead_of_head? hnil (congrArg List.head? hsegments), hsegments]
    rfl

/-- The last segment that is not void is the last component. -/
theorem exists_components_eq_concat (h : dropLastVoid (lead p).2 ≠ []) : ∃ c,
    components p = (lead p).1.toList ++ ((kept p).filter (!isVoid ·)).map componentOf ++ [c] := by
  have hlast : isVoid ((dropLastVoid (lead p).2).getLast h) = false :=
    Bool.eq_false_iff.mpr (List.rdropWhile_last_not isVoid _ h)
  have hfilter : (lead p).2.filter (!isVoid ·) =
      (kept p).filter (!isVoid ·) ++ [(dropLastVoid (lead p).2).getLast h] := by
    rw [kept, filter_dropLastVoid, ← filter_dropLastVoid (lead p).2]
    conv_lhs => rw [← List.dropLast_concat_getLast h]
    rw [List.filter_append, List.filter_singleton, hlast]
    rfl
  exact ⟨_, by rw [components, hfilter, List.map_append, ← List.append_assoc]; rfl⟩

/-- Without a leading component, what is kept does not begin with one either. -/
theorem head?_kept (hc : (lead p).1 = none) (h : kept p ≠ []) :
    (kept p).head? ≠ some [] ∧ (kept p).head? ≠ some ['.'] := by
  have hhead : (kept p).head? = (segments p).head? := by
    obtain ⟨rest, hrest⟩ := kept_isPrefix p
    rw [segments_eq_front, hc, front, List.nil_append, ← hrest, List.head?_append_of_ne_nil _ h]
  have hne : p ≠ [] := by
    rintro rfl
    exact h rfl
  rw [hhead]
  rw [lead] at hc
  split_ifs at hc with habsolute hcurrent
  exact ⟨fun hnil => habsolute (isAbsolute_iff.mpr ⟨hne, hnil⟩), hcurrent⟩

theorem components_of_parent? (h : parent? p = some q) : components q = (components p).dropLast := by
  rcases parent?_cases h with ⟨hc, hbody, rfl⟩ | ⟨hbody, hrest⟩
  · have hp : components p = [.current] := by
      rw [components, ← filter_dropLastVoid, hc, hbody]
      rfl
    rw [hp]
    decide
  · obtain ⟨c, hp⟩ := exists_components_eq_concat hbody
    rw [hp, List.dropLast_concat]
    rcases hrest with ⟨hkept, rfl⟩ | ⟨hkept, rfl⟩
    · rw [hkept]
      rcases lead_cases p with hc | hc | hc <;> rw [hc] <;> decide
    · have hslash : ∀ n ∈ kept p, '/' ∉ n := fun n hn => by
        refine not_mem_of_mem_segments (p := p) ?_
        rw [segments_eq_front]
        exact List.mem_append_right _ ((kept_isPrefix p).subset hn)
      rw [components, lead_ofSegments_front hkept hslash]
      exact (lead_cases p).imp_left fun hc => ⟨hc, head?_kept hc hkept⟩

/-- A path without a parent has nothing to leave out. -/
theorem components_of_parent?_eq_none (h : parent? p = none) : components p = [] ∨ components p = [.root] := by
  rw [components, ← filter_dropLastVoid]
  rcases hlead : lead p with ⟨leading, body⟩
  have hcases := lead_cases p
  rw [hlead] at hcases
  rw [parent?, hlead] at h
  cases hbody : dropLastVoid body with
  | nil =>
    rw [hbody] at h
    rcases hcases with rfl | rfl | rfl
    · exact .inl rfl
    · exact .inr rfl
    · cases h
  | cons n ns =>
    rw [hbody] at h
    cases leading with
    | none => cases h
    | some c => cases hkept : dropLastVoid (n :: ns).dropLast <;> simp [hkept] at h

/-- Every step up costs a character. -/
theorem length_add_le_of_up? (h : up? k p = some q) : q.length + k ≤ p.length := by
  induction k generalizing q with
  | zero => exact (congrArg List.length (Option.some.inj h)).ge
  | succ k ih =>
    obtain ⟨r, hr, hq⟩ := Option.bind_eq_some_iff.mp h
    have hlt := length_lt_of_parent? hq
    have hle := ih hr
    omega

/-- The way up from a path has an end. -/
theorem up?_length_succ (p : Path) : up? (p.length + 1) p = none := by
  rw [Option.eq_none_iff_forall_ne_some]
  intro q hq
  have hle := length_add_le_of_up? hq
  omega

theorem getElem?_ancestorsFrom (hfuel : p.length ≤ fuel) (k : Nat) : (ancestorsFrom fuel p)[k]? = up? k p := by
  induction fuel generalizing p k with
  | zero =>
    cases k with
    | zero => rfl
    | succ k =>
      obtain rfl := List.length_eq_zero_iff.mp (Nat.le_zero.mp hfuel)
      rw [up?_succ]
      rfl
  | succ fuel ih =>
    cases k with
    | zero => rfl
    | succ k =>
      rw [up?_succ, ancestorsFrom, List.getElem?_cons_succ]
      cases hparent : parent? p with
      | none => rfl
      | some q =>
        have hlt := length_lt_of_parent? hparent
        exact ih (by omega) k

/-- The ancestors of a path are what is met on the way up, from the path itself on. -/
theorem getElem?_ancestors (p : Path) (k : Nat) : (ancestors p)[k]? = up? k p :=
  getElem?_ancestorsFrom (Nat.le_refl p.length) k

end SfcContract.Path
