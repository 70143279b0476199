import SfcContract.Proofs.Glob
import SfcContract.Proofs.Tree.Placed

/-!
# Patterns in a directory

The name of a directory stands in front of a pattern as text. A name without signs only stands for itself.
What the pattern leads to then depends on the content of the directory, unless the pattern leads out of it.
-/

namespace SfcContract.Glob

/-- Whether a component can stand for a text that a component must begin with a dot to stand for. -/
def matchesDots (component : List Token) (dots : Text) : Bool :=
  component.head? == some (.char '.') && matchesText component dots

/-- Whether components never lead above the directory that they start from at a depth. -/
def staysBelow : Nat → List (List Token) → Bool
  | _, [] => true
  | depth, component :: rest =>
    if isRecursive component then staysBelow depth rest
    else if matchesDots component ['.', '.'] then 0 < depth && staysBelow (depth - 1) rest
    else if component == [] || matchesDots component ['.'] then staysBelow depth rest
    else staysBelow (depth + 1) rest

section Depths

variable {components rest : List (List Token)} {component : List Token} {n : Text} {d k : Nat}

theorem staysBelow_mono (h : staysBelow d components = true) (hdk : d ≤ k) : staysBelow k components = true := by
  induction components generalizing d k with
  | nil => rfl
  | cons component rest ih =>
    rw [staysBelow] at h ⊢
    split_ifs at h ⊢
    · exact ih h hdk
    · rw [Bool.and_eq_true, decide_eq_true_iff] at h ⊢
      exact ⟨by omega, ih h.2 (by omega)⟩
    · exact ih h hdk
    · exact ih h (by omega)

theorem staysBelow_succ (h : staysBelow d (component :: rest) = true)
    (hrecursive : ¬ isRecursive component = true) : staysBelow (d + 1) rest = true := by
  rw [staysBelow, if_neg hrecursive] at h
  split_ifs at h
  · rw [Bool.and_eq_true] at h
    exact staysBelow_mono h.2 (by omega)
  · exact staysBelow_mono h (Nat.le_succ d)
  · exact h

/-- Whatever a component may stand for, the other components do not lead out from there. -/
theorem exists_climb (h : staysBelow d (component :: rest) = true) (hrecursive : ¬ isRecursive component = true)
    (hempty : n = [] → component = [])
    (hdots : n = ['.'] ∨ n = ['.', '.'] → matchesDots component n = true) :
    ∃ k, Path.climb d n = some k ∧ staysBelow k rest = true := by
  rw [Path.climb]
  by_cases hparent : n = ['.', '.']
  · rw [hparent] at hdots
    rw [staysBelow, if_neg hrecursive, if_pos (hdots (.inr rfl)), Bool.and_eq_true, decide_eq_true_iff] at h
    rw [hparent, if_neg (by decide), if_pos rfl, if_neg (by omega)]
    exact ⟨d - 1, rfl, h.2⟩
  by_cases hvoid : Path.isVoid n = true
  · rw [if_pos hvoid]
    refine ⟨d, rfl, ?_⟩
    rw [Path.isVoid, Bool.or_eq_true, beq_iff_eq, beq_iff_eq] at hvoid
    have hstays : (component == [] || matchesDots component ['.']) = true := by
      rw [Bool.or_eq_true, beq_iff_eq]
      rcases hvoid with hnil | hdot
      · exact .inl (hempty hnil)
      · exact .inr (hdot ▸ hdots (.inl hdot))
    rw [staysBelow, if_neg hrecursive, if_pos hstays] at h
    split_ifs at h
    · rw [Bool.and_eq_true] at h
      exact staysBelow_mono h.2 (Nat.sub_le d 1)
    · exact h
  · rw [if_neg hvoid, if_neg hparent]
    exact ⟨d + 1, rfl, staysBelow_succ h hrecursive⟩

end Depths

section Placed

variable {t t₁ t₂ T : Tree} {r r₁ r₂ s n : Text} {d : Nat} {q : Path} {ns : List Text}

/-- Whether names lead from a directory, which is written behind a dot, to an entry. -/
def Leads (T : Tree) (s : Path) (ns : List Text) : Prop :=
  ∃ l e, T.find ('.' :: s) = .ok (l, .directory) ∧ T.get? (l ++ ns) = some e

theorem Leads.isName (h : Leads T s ns) (hT : T.IsProper) : ∀ n ∈ ns, Path.IsName n := by
  obtain ⟨l, e, -, hget⟩ := h
  exact fun n hn => hT.isName hget n (List.mem_append_right l hn)

theorem extend_name_append (hr : Path.IsName r) (hs : Path.Trails s) (hn : '/' ∉ n) :
    extend (r ++ s) n = r ++ (Path.slashed s ++ n) := by
  have hcomponents : Path.components (r ++ s) ≠ [.current] := by
    rw [Path.components_name_append hr hs]
    exact fun h => Path.Component.noConfusion (List.cons.inj h).1
  rw [extend, if_neg hcomponents, Path.join_name_append hr s (Path.isAbsolute_of_not_mem hn)]

/-- What is taken from the entries of a directory is taken from the names that lead to them. -/
theorem mem_filterMap_entries_iff (h : t.Holds r T) (hs : Path.Descends s d)
    {f : Option (List Text) → Option (Text × Path)} (hnone : f none = none) {y : Text × Path} :
    y ∈ (match t.find (r ++ s) with
      | .ok (l, .directory) => t.entries.filterMap fun (x : Location × Entry) => f (l.isPrefixOf? x.1)
      | _ => []) ↔ ∃ ns, Leads T s ns ∧ f (some ns) = some y := by
  rw [h.find hs]
  cases hfind : T.find ('.' :: s) with
  | error fault => simp [Leads, hfind, Except.map]
  | ok found =>
    obtain ⟨l, e⟩ := found
    cases e with
    | file content => simp [Leads, hfind, Except.map]
    | directory =>
      refine List.mem_filterMap.trans ⟨?_, ?_⟩
      · rintro ⟨⟨k, e⟩, hentry, hx⟩
        dsimp only at hx
        cases hleads : List.isPrefixOf? (r :: l) k with
        | none =>
          rw [hleads, hnone] at hx
          cases hx
        | some ns =>
          obtain ⟨e', hget⟩ := h.exists_mem_entries_iff.mp ⟨_, hentry, hleads⟩
          rw [hleads] at hx
          exact ⟨ns, ⟨l, e', hfind, hget⟩, hx⟩
      · rintro ⟨ns, ⟨l', e, hl', hget⟩, hx⟩
        obtain ⟨rfl, -⟩ := Prod.mk.inj (Except.ok.inj (hl'.symm.trans hfind))
        obtain ⟨x, hentry, hleads⟩ := h.exists_mem_entries_iff.mpr ⟨e, hget⟩
        refine ⟨x, hentry, ?_⟩
        dsimp only
        rw [hleads, hx]

def childAt (p : Path) : Option (List Text) → Option (Text × Path)
  | some [n] => some (n, extend p n)
  | _ => none

def descendantAt (p : Path) : Option (List Text) → Option (Text × Path)
  | some (n :: ns) => some ((n :: ns).getLast?.getD [], ns.foldl Path.join (extend p n))
  | _ => none

theorem mem_children_iff (h : t.Holds r T) (hT : T.IsProper) (hs : Path.Descends s d) :
    (n, q) ∈ children t (r ++ s) ↔ Leads T s [n] ∧ q = r ++ Path.below s [n] := by
  have hextend {m : Text} (hlead : Leads T s [m]) : extend (r ++ s) m = r ++ Path.below s [m] :=
    extend_name_append h.isName hs.trails (hlead.isName hT m (List.mem_singleton_self m)).not_mem
  refine (mem_filterMap_entries_iff h hs (f := childAt (r ++ s)) rfl).trans ⟨?_, ?_⟩
  · rintro ⟨ns, hlead, hx⟩
    cases ns with
    | nil => cases hx
    | cons m ms =>
      cases ms with
      | nil =>
        obtain ⟨rfl, rfl⟩ := Prod.mk.inj (Option.some.inj hx)
        exact ⟨hlead, hextend hlead⟩
      | cons m' ms => cases hx
  · rintro ⟨hlead, rfl⟩
    refine ⟨[n], hlead, ?_⟩
    rw [childAt, hextend hlead]

theorem mem_descendants_iff (h : t.Holds r T) (hT : T.IsProper) (hs : Path.Descends s d) :
    (n, q) ∈ descendants t (r ++ s) ↔
      ∃ ns, ns ≠ [] ∧ Leads T s ns ∧ n = ns.getLast?.getD [] ∧ q = r ++ Path.below s ns := by
  have hextend {m : Text} {ns : List Text} (hlead : Leads T s (m :: ns)) :
      ns.foldl Path.join (extend (r ++ s) m) = r ++ Path.below s (m :: ns) := by
    have hns := hlead.isName hT
    rw [extend_name_append h.isName hs.trails (hns m List.mem_cons_self).not_mem,
      Path.foldl_join_name_append h.isName fun n hn => hns n (List.mem_cons_of_mem m hn)]
    rfl
  refine (mem_filterMap_entries_iff h hs (f := descendantAt (r ++ s)) rfl).trans ⟨?_, ?_⟩
  · rintro ⟨ns, hlead, hx⟩
    cases ns with
    | nil => cases hx
    | cons m ns =>
      obtain ⟨rfl, rfl⟩ := Prod.mk.inj (Option.some.inj hx)
      exact ⟨m :: ns, List.cons_ne_nil m ns, hlead, rfl, hextend hlead⟩
  · rintro ⟨ns, hne, hlead, rfl, rfl⟩
    refine ⟨ns, hlead, ?_⟩
    cases ns with
    | nil => exact absurd rfl hne
    | cons m ns => rw [descendantAt, hextend hlead]

/-- Whether a path in one directory has a counterpart among the paths in another directory. -/
def HasCounterpart (r₁ r₂ : Text) (q : Path) (paths : List Path) : Prop :=
  ∃ s d, Path.Descends s d ∧ q = r₁ ++ s ∧ r₂ ++ s ∈ paths

theorem HasCounterpart.mono {paths paths' : List Path} (h : HasCounterpart r₁ r₂ q paths)
    (hsub : ∀ p ∈ paths, p ∈ paths') : HasCounterpart r₁ r₂ q paths' := by
  obtain ⟨s, d, hs, hq, hmem⟩ := h
  exact ⟨s, d, hs, hq, hsub _ hmem⟩

section Expand

variable {component next : List Token} {rest : List (List Token)} {p : Path} {name : Text} {x : Text × Path}

theorem mem_expand_descendants (hrecursive : isRecursive component = true) (hnext : ¬ isRecursive next = true)
    (hx : x ∈ descendants t p) (hmatch : matchesText next x.1 = true) (hq : q ∈ expand t rest x.2) :
    q ∈ expand t (component :: next :: rest) p := by
  rw [expand, if_pos hrecursive, if_neg hnext]
  exact List.mem_flatMap.mpr ⟨x, List.mem_filter.mpr ⟨hx, hmatch⟩, hq⟩

theorem mem_expand_literal (hrecursive : ¬ isRecursive component = true) (hname : literal? component = some name)
    (hfound : (if name = ['.'] ∨ name = ['.', '.'] then t.isDirectory p else t.contains (extend p name)) = true)
    (hq : q ∈ expand t rest (extend p name)) : q ∈ expand t (component :: rest) p := by
  rw [expand.eq_def]
  dsimp only
  rw [if_neg hrecursive, hname]
  dsimp only
  rw [if_pos hfound]
  exact hq

theorem mem_expand_children (hrecursive : ¬ isRecursive component = true) (hname : literal? component = none)
    (hx : x ∈ children t p) (hmatch : matchesText component x.1 = true) (hq : q ∈ expand t rest x.2) :
    q ∈ expand t (component :: rest) p := by
  rw [expand.eq_def]
  dsimp only
  rw [if_neg hrecursive, hname]
  exact List.mem_append_left _ (List.mem_flatMap.mpr ⟨x, List.mem_filter.mpr ⟨hx, hmatch⟩, hq⟩)

theorem mem_expand_dots (hrecursive : ¬ isRecursive component = true) (hname : literal? component = none)
    (hdot : component.head? = some (.char '.') ∧ t.isDirectory p = true)
    (hmem : name ∈ [['.'], ['.', '.']].filter (matchesText component))
    (hq : q ∈ expand t rest (Path.join p name)) : q ∈ expand t (component :: rest) p := by
  rw [expand.eq_def]
  dsimp only
  rw [if_neg hrecursive, hname]
  dsimp only
  rw [if_pos hdot]
  exact List.mem_append_right _ (List.mem_flatMap.mpr ⟨name, hmem, hq⟩)

end Expand

/-- Every path that components lead to in one directory has a counterpart in each directory with the same
content. -/
theorem hasCounterpart_of_mem_expand (h₁ : t₁.Holds r₁ T) (h₂ : t₂.Holds r₂ T) (hT : T.IsProper)
    {components : List (List Token)} (hstays : staysBelow d components = true)
    (hslash : ∀ c ∈ components, .char '/' ∉ c) (hs : Path.Descends s d)
    (hq : q ∈ expand t₁ components (r₁ ++ s)) :
    HasCounterpart r₁ r₂ q (expand t₂ components (r₂ ++ s)) := by
  generalize hp : r₁ ++ s = p at hq
  fun_induction expand t₁ components p generalizing s d with
  | case1 => exact ⟨s, d, hs, (List.mem_singleton.mp hq).trans hp.symm, List.mem_singleton_self _⟩
  | case2 component p hrecursive =>
    subst hp
    rw [List.mem_filter, List.mem_map] at hq
    obtain ⟨⟨⟨n, q⟩, hfound, rfl⟩, hdirectory⟩ := hq
    obtain ⟨ns, hne, hlead, rfl, rfl⟩ := (mem_descendants_iff h₁ hT hs).mp hfound
    have hbelow := hs.below (hlead.isName hT)
    refine ⟨_, _, hbelow, rfl, ?_⟩
    rw [expand, if_pos hrecursive, List.mem_filter, List.mem_map]
    refine ⟨⟨_, (mem_descendants_iff h₂ hT hs).mpr ⟨ns, hne, hlead, rfl, rfl⟩, rfl⟩, ?_⟩
    rw [h₂.isDirectory hbelow, ← h₁.isDirectory hbelow]
    exact hdirectory
  | case3 component p hrecursive next rest hnext ih =>
    rw [staysBelow, if_pos hrecursive] at hstays
    rw [expand, if_pos hrecursive, if_pos hnext]
    exact ih hstays (fun c hc => hslash c (List.mem_cons_of_mem component hc)) hs hp hq
  | case4 component p hrecursive next rest hnext ih =>
    subst hp
    rw [staysBelow, if_pos hrecursive] at hstays
    obtain ⟨⟨n, p⟩, hfound, hrest⟩ := List.mem_flatMap.mp hq
    rw [List.mem_filter] at hfound
    obtain ⟨ns, hne, hlead, rfl, rfl⟩ := (mem_descendants_iff h₁ hT hs).mp hfound.1
    have hbelow := hs.below (hlead.isName hT)
    have hlength : 1 ≤ ns.length := List.length_pos_iff.mpr hne
    have hstays := staysBelow_mono (staysBelow_succ hstays hnext) (Nat.add_le_add_left hlength d)
    have hslash : ∀ c ∈ rest, .char '/' ∉ c := fun c hc =>
      hslash c (List.mem_cons_of_mem component (List.mem_cons_of_mem next hc))
    refine (ih (_, _) hstays hslash hbelow rfl hrest).mono fun p hp => ?_
    exact mem_expand_descendants hrecursive hnext ((mem_descendants_iff h₂ hT hs).mpr ⟨ns, hne, hlead, rfl, rfl⟩)
      hfound.2 hp
  | case5 component rest p hrecursive name hname =>
    rename_i hfound ih
    subst hp
    obtain rfl := eq_chars_of_literal? hname
    have hname' : '/' ∉ name := fun h => hslash _ List.mem_cons_self (List.mem_map_of_mem h)
    obtain ⟨k, hk, hrest⟩ := exists_climb hstays hrecursive (n := name) (by rintro rfl; rfl)
      (by rintro (rfl | rfl) <;> decide)
    have hnext := hs.append_segment hname' hk
    have hextend₁ := extend_name_append h₁.isName hs.trails hname'
    have hextend₂ := extend_name_append h₂.isName hs.trails hname'
    refine (ih hrest (fun c hc => hslash c (List.mem_cons_of_mem _ hc)) hnext hextend₁.symm hq).mono fun p hp => ?_
    refine mem_expand_literal hrecursive hname ?_ (hextend₂ ▸ hp)
    rw [hextend₂, h₂.isDirectory hs, h₂.contains hnext, ← h₁.isDirectory hs, ← h₁.contains hnext, ← hextend₁]
    exact hfound
  | case6 => cases hq
  | case7 component rest p hrecursive hname ih ih' =>
    subst hp
    have hslash' : ∀ c ∈ rest, .char '/' ∉ c := fun c hc => hslash c (List.mem_cons_of_mem component hc)
    rcases List.mem_append.mp hq with hq | hq
    · obtain ⟨⟨n, p⟩, hfound, hrest⟩ := List.mem_flatMap.mp hq
      rw [List.mem_filter] at hfound
      obtain ⟨hlead, rfl⟩ := (mem_children_iff h₁ hT hs).mp hfound.1
      have hbelow := hs.below (hlead.isName hT)
      refine (ih (n, _) (staysBelow_succ hstays hrecursive) hslash' hbelow rfl hrest).mono fun p hp => ?_
      exact mem_expand_children hrecursive hname ((mem_children_iff h₂ hT hs).mpr ⟨hlead, rfl⟩) hfound.2 hp
    · -- Only the component itself knows whether a dot may lead out.
      split_ifs at hq with hdot
      · obtain ⟨name, hmem, hrest⟩ := List.mem_flatMap.mp hq
        have hdots : name = ['.'] ∨ name = ['.', '.'] := by simpa using (List.mem_filter.mp hmem).1
        have hmatches : matchesDots component name = true := by
          rw [matchesDots, hdot.1, (List.mem_filter.mp hmem).2]
          rfl
        have hslash : '/' ∉ name := by rcases hdots with rfl | rfl <;> decide
        obtain ⟨k, hk, hstays⟩ := exists_climb hstays hrecursive (n := name)
          (by rcases hdots with rfl | rfl <;> exact fun h => absurd h (List.cons_ne_nil _ _)) fun _ => hmatches
        have hnext := hs.append_segment hslash hk
        have hjoin {r : Text} (hr : Path.IsName r) : Path.join (r ++ s) name = r ++ (Path.slashed s ++ name) :=
          Path.join_name_append hr s (Path.isAbsolute_of_not_mem hslash)
        refine (ih' name hstays hslash' hnext (hjoin h₁.isName).symm hrest).mono fun p hp => ?_
        refine mem_expand_dots hrecursive hname ⟨hdot.1, ?_⟩ hmem (hjoin h₂.isName ▸ hp)
        rw [h₂.isDirectory hs, ← h₁.isDirectory hs]
        exact hdot.2
      · cases hq

/-- Whether the rest of a text is read does not depend on where it stands, nor on the tokens before it. -/
theorem exists_parseFrom {position skip : Nat} {prev : Option Char} {tokens parsed : List Token} {e : Text}
    (position' : Nat) (tokens' : List Token) (h : parseFrom position prev tokens skip e = .ok parsed) :
    ∃ parsed', parseFrom position' prev tokens' skip e = .ok parsed' := by
  fun_induction parseFrom position prev tokens skip e generalizing position' tokens' with
  | case1 => exact ⟨tokens', by rw [parseFrom]⟩
  | case2 _ _ _ _ c e ih => exact ih (position' + 1) tokens' h
  | case3 _ _ _ e ih => exact ih (position' + 1) (tokens' ++ [.anyChar]) h
  | case4 _ _ _ e _ hmore _ ih =>
    obtain ⟨parsed', hparsed⟩ := ih (position' + 1) (tokens' ++ [.sequence]) h
    refine ⟨parsed', ?_⟩
    rw [parseFrom, if_neg (by decide), if_pos rfl]
    exact (if_pos hmore).trans hparsed
  | case5 => cases h
  | case6 => cases h
  | case7 _ prev _ e _ hmore hmany hprev hend =>
    refine ⟨addComponents tokens', ?_⟩
    rw [parseFrom, if_neg (by decide), if_pos rfl, if_neg hmore, if_neg hmany, if_neg hprev, hend]
  | case8 _ prev _ e _ hmore hmany hprev rest hslash hnext ih =>
    obtain ⟨parsed', hparsed⟩ := ih (position' + 1) (addComponents tokens') h
    refine ⟨parsed', ?_⟩
    rw [parseFrom, if_neg (by decide), if_pos rfl, if_neg hmore, if_neg hmany, if_neg hprev, hnext]
    exact (if_pos rfl).trans hparsed
  | case9 => cases h
  | case10 _ _ _ e token length hbracket _ _ ih =>
    obtain ⟨parsed', hparsed⟩ := ih (position' + 1) (tokens' ++ [token]) h
    refine ⟨parsed', ?_⟩
    rw [parseFrom, if_neg (by decide), if_neg (by decide), if_pos rfl, hbracket]
    exact hparsed
  | case11 => cases h
  | case12 _ _ _ c e hany hstar hbracket ih =>
    obtain ⟨parsed', hparsed⟩ := ih (position' + 1) (tokens' ++ [.char c]) h
    refine ⟨parsed', ?_⟩
    rw [parseFrom, if_neg hany, if_neg hstar, if_neg hbracket, hparsed]

variable {e : Text}

theorem exists_parse_name_append {parsed : List Token} (h₁ : ∀ c ∈ r₁, isSign c = false)
    (h₂ : ∀ c ∈ r₂, isSign c = false) (h : parse (r₁ ++ '/' :: e) = .ok parsed) :
    ∃ parsed', parse (r₂ ++ '/' :: e) = .ok parsed' := by
  have hread {r : Text} (hr : ∀ c ∈ r, isSign c = false) : parse (r ++ '/' :: e) =
      parseFrom (0 + (r ++ ['/']).length) (some '/') ([] ++ (r ++ ['/']).map .char) 0 e := by
    have hsigns : ∀ c ∈ r ++ ['/'], isSign c = false := List.forall_mem_append.mpr ⟨hr, by decide⟩
    have hall := parseFrom_append_of_no_sign 0 none [] e hsigns
    rw [List.getLast?_concat, Option.some_or, List.append_assoc] at hall
    exact hall
  rw [hread h₁] at h
  rw [hread h₂]
  exact exists_parseFrom _ _ h

theorem componentTexts_name_append (hr : Path.IsName r) (e : Text) :
    componentTexts (r ++ '/' :: e) = r :: componentTexts e := by
  have hslashed : Path.slashed r = r ++ ['/'] := if_neg (by simpa using hr.getLast? [])
  have hname : componentTexts r = [r] := by
    rw [componentTexts, Path.segments_of_not_mem hr.not_mem]
    exact if_neg fun h => hr.ne_nil (Option.some.inj h)
  have hall := Path.componentTexts_slashed_append hr.ne_nil e
  rwa [hslashed, hname, List.append_assoc] at hall

/-- A name without signs is the first component of what is written behind it. -/
theorem directories_name_append (hr : Path.IsName r) (hsigns : ∀ c ∈ r, isSign c = false) :
    directories t (r ++ '/' :: e) = do
      let _ ← parse (r ++ '/' :: e)
      let components ← (componentTexts e).mapM parse
      return (expand t (r.map .char :: components) ['.']).filter t.isDirectory := by
  rw [directories, componentTexts_name_append hr, List.mapM_cons, parse_of_no_sign hsigns,
    Path.isAbsolute_name_append hr]
  cases (componentTexts e).mapM parse <;> rfl

theorem mem_expand_name_iff (h : t.Holds r T) {components : List (List Token)} :
    q ∈ expand t (r.map .char :: components) ['.'] ↔ q ∈ expand t components (r ++ []) := by
  have hextend : extend ['.'] r = r := if_pos (by decide)
  constructor
  · intro hq
    have hrest := mem_expand_of_chars hq
    rwa [hextend, ← List.append_nil r] at hrest
  · intro hq
    refine mem_expand_literal (by rw [isRecursive_chars]; exact Bool.false_ne_true) (literal?_chars r) ?_ ?_
    · rw [if_neg (not_or.mpr ⟨h.isName.2.1, h.isName.2.2.1⟩), hextend]
      exact h.contains_name
    · rwa [hextend, ← List.append_nil r]

/-- A pattern leads to the same directories behind two names without signs. -/
theorem hasCounterpart_of_mem_directories (h₁ : t₁.Holds r₁ T) (h₂ : t₂.Holds r₂ T) (hT : T.IsProper)
    (hsigns₁ : ∀ c ∈ r₁, isSign c = false) (hsigns₂ : ∀ c ∈ r₂, isSign c = false)
    (hstays : ∀ components, (componentTexts e).mapM parse = .ok components → staysBelow 0 components = true)
    {paths : List Path} (h : directories t₁ (r₁ ++ '/' :: e) = .ok paths) (hq : q ∈ paths) :
    ∃ paths', directories t₂ (r₂ ++ '/' :: e) = .ok paths' ∧ HasCounterpart r₁ r₂ q paths' := by
  rw [directories_name_append h₁.isName hsigns₁] at h
  obtain ⟨parsed, hparsed, h⟩ := Tree.exists_of_bind_eq_ok h
  obtain ⟨components, hcomponents, h⟩ := Tree.exists_of_bind_eq_ok h
  obtain rfl := Except.ok.inj h
  obtain ⟨parsed', hparsed'⟩ := exists_parse_name_append hsigns₁ hsigns₂ hparsed
  have hslash : ∀ c ∈ components, .char '/' ∉ c := by
    intro c hc hmem
    obtain ⟨part, hpart, hparse⟩ := exists_of_mem_mapM hcomponents c hc
    exact Path.not_mem_of_mem_componentTexts hpart (mem_of_parse hparse hmem)
  obtain ⟨hexpand, hdirectory⟩ := List.mem_filter.mp hq
  obtain ⟨s, d, hs, rfl, hmem⟩ := hasCounterpart_of_mem_expand h₁ h₂ hT (hstays components hcomponents) hslash
    Path.descends_nil ((mem_expand_name_iff h₁).mp hexpand)
  have hexpand' : r₂ ++ s ∈ expand t₂ (r₂.map .char :: components) ['.'] := (mem_expand_name_iff h₂).mpr hmem
  refine ⟨(expand t₂ (r₂.map .char :: components) ['.']).filter t₂.isDirectory, ?_, s, d, hs, rfl,
    List.mem_filter.mpr ⟨hexpand', ?_⟩⟩
  · rw [directories_name_append h₂.isName hsigns₂, hparsed', hcomponents]
    rfl
  · rw [h₂.isDirectory hs, ← h₁.isDirectory hs]
    exact hdirectory

theorem matchesText_chars_append {part u : Text} {tokens : List Token} :
    matchesText (part.map .char ++ tokens) u = true ↔
      ∃ rest, u = part ++ rest ∧ matchesText tokens rest = true := by
  induction part generalizing u with
  | nil => exact ⟨fun h => ⟨u, rfl, h⟩, fun ⟨rest, hu, h⟩ => hu ▸ h⟩
  | cons c part ih =>
    cases u with
    | nil => exact iff_of_false Bool.false_ne_true fun ⟨rest, hu, _⟩ => List.cons_ne_nil c _ hu.symm
    | cons d u =>
      change (d == c && matchesText (part.map .char ++ tokens) u) = true ↔ _
      rw [Bool.and_eq_true, ih, beq_iff_eq]
      constructor
      · rintro ⟨rfl, rest, rfl, h⟩
        exact ⟨rest, rfl, h⟩
      · rintro ⟨rest, heq, h⟩
        obtain ⟨rfl, rfl⟩ := List.cons.inj heq
        exact ⟨rfl, rest, rfl, h⟩

theorem anyAfterSlash_name_append (hr : '/' ∉ r) (p : Text → Bool) (u : Text) :
    anyAfterSlash p (r ++ '/' :: u) = (p u || anyAfterSlash p u) := by
  induction r with
  | nil => rw [List.nil_append, anyAfterSlash, beq_self_eq_true, Bool.true_and]
  | cons c r ih =>
    rw [List.mem_cons, not_or] at hr
    rw [List.cons_append, anyAfterSlash, beq_eq_false_iff_ne.mpr (Ne.symm hr.1), Bool.false_and, Bool.false_or,
      ih hr.2]

/-- The pattern for everything in the directories of one name. -/
def everythingIn (n : Text) : List Token := .components :: ((n ++ ['/']).map .char ++ [.components])

/-- Behind another name, such a pattern matches what it matches without it. -/
theorem matchesText_everythingIn (hr : '/' ∉ r) (hn : '/' ∉ n) (hne : r ≠ n) (u : Text) :
    matchesText (everythingIn n) (r ++ '/' :: u) = matchesText (everythingIn n) u := by
  have hfront : matchesText ((n ++ ['/']).map .char ++ [.components]) (r ++ '/' :: u) = false := by
    rw [Bool.eq_false_iff]
    intro h
    obtain ⟨rest, heq, -⟩ := matchesText_chars_append.mp h
    have hsegments := congrArg Path.segments heq
    rw [List.append_assoc, List.singleton_append, Path.segments_append_slash, Path.segments_append_slash,
      Path.segments_of_not_mem hr, Path.segments_of_not_mem hn] at hsegments
    exact hne (List.cons.inj hsegments).1
  rw [everythingIn, matchesText, hfront, anyAfterSlash_name_append hr, Bool.false_or, matchesText]

end Placed

end SfcContract.Glob
