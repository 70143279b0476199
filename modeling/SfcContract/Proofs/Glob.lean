import SfcContract.Glob
import SfcContract.Proofs.Tree.Below

/-!
# Where plain patterns lead

A pattern is plain when none of its components can stand for `.`, for `..` or for nothing. Each directory
that it stands for is then reached by names, and it is written as these names. Components without signs
are names themselves.
-/

namespace SfcContract.Glob

section Components

variable {component : List Token} {name part : Text}

/-- Whether a character can be more than itself in a pattern. -/
def isSign (c : Char) : Bool := c == '*' || c == '?' || c == '['

theorem parseFrom_append_of_no_sign (position : Nat) (prev : Option Char) (tokens : List Token) (t : Text)
    (h : ∀ c ∈ part, isSign c = false) : parseFrom position prev tokens 0 (part ++ t) =
      parseFrom (position + part.length) (part.getLast?.or prev) (tokens ++ part.map .char) 0 t := by
  induction part generalizing position prev tokens with
  | nil =>
    rw [List.nil_append, List.length_nil, Nat.add_zero, List.getLast?_nil, Option.none_or, List.map_nil,
      List.append_nil]
  | cons c part ih =>
    have hc := h c List.mem_cons_self
    simp only [isSign, Bool.or_eq_false_iff, beq_eq_false_iff_ne] at hc
    have hlast : part.getLast?.or (some c) = (c :: part).getLast?.or prev := by
      rw [List.getLast?_cons]
      cases part.getLast? <;> rfl
    rw [List.cons_append, parseFrom, if_neg hc.1.2, if_neg hc.1.1, if_neg hc.2,
      ih _ _ _ fun d hd => h d (List.mem_cons_of_mem c hd), hlast, List.append_assoc, List.length_cons,
      Nat.add_assoc, Nat.add_comm 1]
    rfl

theorem parse_of_no_sign (h : ∀ c ∈ part, isSign c = false) : parse part = .ok (part.map .char) := by
  have hall := parseFrom_append_of_no_sign 0 none [] [] h
  rw [List.append_nil] at hall
  rw [parse, hall, parseFrom, List.nil_append]

theorem literal?_chars (name : Text) : literal? (name.map .char) = some name := by
  induction name with
  | nil => rfl
  | cons c name ih =>
    rw [literal?] at ih ⊢
    rw [List.map_cons, List.mapM_cons, ih]
    rfl

theorem eq_chars_of_literal? (h : literal? component = some name) : component = name.map .char := by
  induction component generalizing name with
  | nil =>
    obtain rfl := Option.some.inj h
    rfl
  | cons token component ih =>
    rw [literal?, List.mapM_cons] at h
    obtain ⟨c, hc, h⟩ := Option.bind_eq_some_iff.mp h
    obtain ⟨rest, hrest, h⟩ := Option.bind_eq_some_iff.mp h
    obtain rfl := Option.some.inj h
    cases token with
    | char d =>
      obtain rfl := Option.some.inj hc
      rw [ih hrest, List.map_cons]
    | _ => cases hc

theorem mem_addComponents {c : Char} {tokens : List Token} (h : .char c ∈ addComponents tokens) :
    .char c ∈ tokens := by
  rw [addComponents] at h
  split at h
  · exact h
  · simpa using h

theorem ne_char_of_bracket? {token : Token} {length : Nat} {c : Char}
    (h : bracket? part = some (token, length)) : token ≠ .char c := by
  unfold bracket? at h
  split at h
  · obtain ⟨body, -, heq⟩ := Option.map_eq_some_iff.mp h
    obtain ⟨rfl, -⟩ := Prod.mk.inj heq
    exact Token.noConfusion
  · cases h
  · obtain ⟨body, -, heq⟩ := Option.map_eq_some_iff.mp h
    obtain ⟨rfl, -⟩ := Prod.mk.inj heq
    exact Token.noConfusion
  · cases h

/-- A parsed character stands in the text, unless it was there before. -/
theorem mem_of_parseFrom {position skip : Nat} {prev : Option Char} {tokens : List Token} {c : Char}
    (h : parseFrom position prev tokens skip part = .ok component) (hc : .char c ∈ component) :
    .char c ∈ tokens ∨ c ∈ part := by
  -- Every other token that is added stands for no single character.
  have hadded {tokens : List Token} {token : Token} (hne : token ≠ .char c)
      (h : .char c ∈ tokens ++ [token]) : .char c ∈ tokens := by
    rcases List.mem_append.mp h with h | h
    · exact h
    · exact absurd (List.mem_singleton.mp h).symm hne
  fun_induction parseFrom position prev tokens skip part with
  | case1 => exact .inl (Except.ok.inj h ▸ hc)
  | case2 _ _ _ _ d t ih => exact (ih h).imp_right (List.mem_cons_of_mem d)
  | case3 _ _ _ t ih => exact (ih h).imp (hadded Token.noConfusion) (List.mem_cons_of_mem _)
  | case4 _ _ _ t _ _ _ ih => exact (ih h).imp (hadded Token.noConfusion) (List.mem_cons_of_mem _)
  | case5 => cases h
  | case6 => cases h
  | case7 => exact .inl (mem_addComponents (Except.ok.inj h ▸ hc))
  | case8 _ _ _ t _ _ _ _ _ _ _ ih => exact (ih h).imp mem_addComponents (List.mem_cons_of_mem _)
  | case9 => cases h
  | case10 _ _ _ t token length hbracket _ _ ih =>
    exact (ih h).imp (hadded (ne_char_of_bracket? hbracket)) (List.mem_cons_of_mem _)
  | case11 => cases h
  | case12 _ _ tokens d t _ _ _ ih =>
    rcases ih h with htokens | ht
    · rcases List.mem_append.mp htokens with htokens | hd
      · exact .inl htokens
      · obtain rfl := Token.char.inj (List.mem_singleton.mp hd)
        exact .inr List.mem_cons_self
    · exact .inr (List.mem_cons_of_mem d ht)

theorem mem_of_parse {c : Char} (h : parse part = .ok component) (hc : .char c ∈ component) : c ∈ part :=
  (mem_of_parseFrom h hc).resolve_left List.not_mem_nil

/-- Whether a component of a pattern can stand for something else than a name. -/
def standsForNoName (part : Text) : Bool :=
  match parse part with
  | .error _ => false
  | .ok component => component == [] ||
      component.head? == some (.char '.') &&
        (matchesText component ['.'] || matchesText component ['.', '.'])

structure NamesOnly (component : List Token) : Prop where
  isName : ∀ name, literal? component = some name → Path.IsName name
  not_matches : component.head? = some (.char '.') →
    matchesText component ['.'] = false ∧ matchesText component ['.', '.'] = false

theorem namesOnly_of_parse (hslash : '/' ∉ part) (hpart : standsForNoName part = false)
    (h : parse part = .ok component) : NamesOnly component := by
  rw [standsForNoName, h] at hpart
  simp only [Bool.or_eq_false_iff, Bool.and_eq_false_imp, beq_eq_false_iff_ne, beq_iff_eq] at hpart
  obtain ⟨hne, hdots⟩ := hpart
  refine ⟨fun name hname => ?_, hdots⟩
  obtain rfl := eq_chars_of_literal? hname
  refine ⟨?_, ?_, ?_, fun hmem => hslash (mem_of_parse h (List.mem_map_of_mem hmem))⟩
  · rintro rfl
    exact hne rfl
  · rintro rfl
    exact absurd (hdots rfl).1 (by decide)
  · rintro rfl
    exact absurd (hdots rfl).2 (by decide)

end Components

section Directories

variable {t : Tree} {p q : Path} {ms ns : List Text} {n : Text}

/-- How a directory is written that names lead to. -/
def reached (ns : List Text) : Path := if ns = [] then ['.'] else Path.ofSegments ns

theorem reached_of_ne_nil (h : ns ≠ []) : reached ns = Path.ofSegments ns := if_neg h

theorem extend_reached (hms : ∀ n ∈ ms, Path.IsName n) (hn : Path.IsName n) :
    extend (reached ms) n = reached (ms ++ [n]) := by
  rw [reached_of_ne_nil (List.append_ne_nil_of_right_ne_nil ms (List.cons_ne_nil n []))]
  by_cases hne : ms = []
  · rw [hne, reached, if_pos rfl, extend, if_pos (by decide), List.nil_append, Path.ofSegments_singleton]
  · have hcomponents : Path.components (Path.ofSegments ms) ≠ [.current] := by
      rw [Path.components_ofSegments hne hms]
      cases ms with
      | nil => exact absurd rfl hne
      | cons m ms => simp
    rw [reached_of_ne_nil hne, extend, if_neg hcomponents]
    exact Path.join_ofSegments [] hne hms hn

/-- Whether names lead from a directory to one below it. -/
def LeadsDown (ms : List Text) (q : Path) : Prop :=
  ∃ ns, ns ≠ [] ∧ (∀ n ∈ ns, Path.IsName n) ∧ q = reached (ms ++ ns)

theorem LeadsDown.trans {P : Prop} (h : LeadsDown ms p) (hms : ∀ n ∈ ms, Path.IsName n)
    (hnext : ∀ {ks}, (∀ n ∈ ks, Path.IsName n) → reached ks = p → P ∧ q = p ∨ LeadsDown ks q) :
    LeadsDown ms q := by
  obtain ⟨ns, hne, hns, rfl⟩ := h
  rcases hnext (List.forall_mem_append.mpr ⟨hms, hns⟩) rfl with ⟨-, rfl⟩ | ⟨ns', -, hns', rfl⟩
  · exact ⟨ns, hne, hns, rfl⟩
  · exact ⟨ns ++ ns', List.append_ne_nil_of_left_ne_nil hne ns', List.forall_mem_append.mpr ⟨hns, hns'⟩,
      by rw [List.append_assoc]⟩

theorem leadsDown_extend (hms : ∀ n ∈ ms, Path.IsName n) (hn : Path.IsName n) :
    LeadsDown ms (extend (reached ms) n) :=
  ⟨[n], List.cons_ne_nil n [], by simpa using hn, extend_reached hms hn⟩

theorem isName_of_mem (ht : t.IsProper) {l k : Location} {e : Entry} (hmem : (k, e) ∈ t.entries)
    (h : l.isPrefixOf? k = some ns) : ∀ n ∈ ns, Path.IsName n := by
  rw [List.isPrefixOf?_eq_some_iff_append_eq] at h
  subst h
  exact fun n hn => ht _ hmem n (List.mem_append_right l hn)

theorem leadsDown_of_mem_children (ht : t.IsProper) (hms : ∀ n ∈ ms, Path.IsName n)
    (h : (n, q) ∈ children t (reached ms)) : LeadsDown ms q := by
  rw [children] at h
  split at h
  · obtain ⟨⟨k, e⟩, hmem, hstep⟩ := List.mem_filterMap.mp h
    dsimp only at hstep
    split at hstep
    · rename_i m hleads
      obtain ⟨rfl, rfl⟩ := Prod.mk.inj (Option.some.inj hstep)
      exact leadsDown_extend hms (isName_of_mem ht hmem hleads m List.mem_cons_self)
    · cases hstep
  · cases h

theorem leadsDown_of_mem_descendants (ht : t.IsProper) (hms : ∀ n ∈ ms, Path.IsName n)
    (h : (n, q) ∈ descendants t (reached ms)) : LeadsDown ms q := by
  rw [descendants] at h
  split at h
  · obtain ⟨⟨k, e⟩, hmem, hstep⟩ := List.mem_filterMap.mp h
    dsimp only at hstep
    split at hstep
    · rename_i m ns hleads
      obtain ⟨-, rfl⟩ := Prod.mk.inj (Option.some.inj hstep)
      have hnames := isName_of_mem ht hmem hleads
      have hm := hnames m List.mem_cons_self
      refine ⟨m :: ns, List.cons_ne_nil m ns, hnames, ?_⟩
      rw [extend_reached hms hm, reached_of_ne_nil (by simp), reached_of_ne_nil (by simp)]
      have hall : ns.foldl Path.join (Path.ofSegments (ms ++ [m])) = Path.ofSegments (ms ++ [m] ++ ns) :=
        Path.foldl_join_ofSegments [] (by simp) (List.forall_mem_append.mpr ⟨hms, by simpa using hm⟩)
          fun n hn => hnames n (List.mem_cons_of_mem m hn)
      rw [List.append_assoc] at hall
      exact hall
    · cases hstep
  · cases h

/-- Each component of a pattern leads further down, and so does the whole pattern. -/
theorem leadsDown_of_mem_expand (ht : t.IsProper) {components : List (List Token)}
    (hcomponents : ∀ c ∈ components, NamesOnly c) (hms : ∀ n ∈ ms, Path.IsName n)
    (h : q ∈ expand t components (reached ms)) : components = [] ∧ q = reached ms ∨ LeadsDown ms q := by
  generalize hp : reached ms = p at h
  fun_induction expand t components p generalizing ms with
  | case1 => exact .inl ⟨rfl, List.mem_singleton.mp h⟩
  | case2 component p =>
    subst hp
    obtain ⟨⟨n, q⟩, hfound, rfl⟩ := List.mem_map.mp (List.mem_of_mem_filter h)
    exact .inr (leadsDown_of_mem_descendants ht hms hfound)
  | case3 component p _ next rest _ ih =>
    rcases ih (fun c hc => hcomponents c (List.mem_cons_of_mem component hc)) hms hp h with ⟨hnil, -⟩ | hdown
    · exact absurd hnil (List.cons_ne_nil next rest)
    · exact .inr hdown
  | case4 component p _ next rest _ ih =>
    subst hp
    obtain ⟨⟨n, d⟩, hfound, hrest⟩ := List.mem_flatMap.mp h
    have hdown := leadsDown_of_mem_descendants ht hms (List.mem_of_mem_filter hfound)
    have hcomponents' : ∀ c ∈ rest, NamesOnly c := fun c hc =>
      hcomponents c (List.mem_cons_of_mem component (List.mem_cons_of_mem next hc))
    exact .inr (hdown.trans hms fun hks hd => ih (n, d) hcomponents' hks hd hrest)
  | case5 component rest p _ name hname =>
    rename_i ih
    subst hp
    have hdown := leadsDown_extend hms ((hcomponents component List.mem_cons_self).isName name hname)
    have hcomponents' : ∀ c ∈ rest, NamesOnly c := fun c hc =>
      hcomponents c (List.mem_cons_of_mem component hc)
    exact .inr (hdown.trans hms fun hks hd => ih hcomponents' hks hd h)
  | case6 => cases h
  | case7 component rest p _ _ ih _ =>
    subst hp
    have hcomponents' : ∀ c ∈ rest, NamesOnly c := fun c hc =>
      hcomponents c (List.mem_cons_of_mem component hc)
    rcases List.mem_append.mp h with h | h
    · obtain ⟨⟨n, d⟩, hfound, hrest⟩ := List.mem_flatMap.mp h
      have hdown := leadsDown_of_mem_children ht hms (List.mem_of_mem_filter hfound)
      exact .inr (hdown.trans hms fun hks hd => ih (n, d) hcomponents' hks hd hrest)
    · -- A component that only stands for names matches neither dot.
      split at h
      · rename_i hdot
        obtain ⟨hone, htwo⟩ := (hcomponents component List.mem_cons_self).not_matches hdot.1
        simp [hone, htwo] at h
      · cases h

end Directories

section Patterns

variable {t : Tree} {root entry q : Path} {ms ns : List Text} {parts : List Text}

/-- Whether each component of a pattern only stands for names. -/
def IsPlain (entry : Text) : Prop := ∀ part ∈ componentTexts entry, standsForNoName part = false

instance (entry : Text) : Decidable (IsPlain entry) :=
  inferInstanceAs (Decidable (∀ part ∈ componentTexts entry, standsForNoName part = false))

theorem exists_of_mem_mapM {α β ε : Type} {f : α → Except ε β} {xs : List α} {ys : List β}
    (h : xs.mapM f = .ok ys) : ∀ y ∈ ys, ∃ x ∈ xs, f x = .ok y := by
  induction xs generalizing ys with
  | nil =>
    obtain rfl := Except.ok.inj h
    nofun
  | cons x xs ih =>
    rw [List.mapM_cons] at h
    obtain ⟨y, hy, h⟩ := Tree.exists_of_bind_eq_ok h
    obtain ⟨rest, hrest, h⟩ := Tree.exists_of_bind_eq_ok h
    obtain rfl := Except.ok.inj h
    intro z hz
    rcases List.mem_cons.mp hz with rfl | hz
    · exact ⟨x, List.mem_cons_self, hy⟩
    · obtain ⟨w, hw, hfw⟩ := ih hrest z hz
      exact ⟨w, List.mem_cons_of_mem x hw, hfw⟩

theorem ne_nil_of_mapM {α β ε : Type} {f : α → Except ε β} {xs : List α} {ys : List β} (hne : xs ≠ [])
    (h : xs.mapM f = .ok ys) : ys ≠ [] := by
  cases xs with
  | nil => exact absurd rfl hne
  | cons x xs =>
    rw [List.mapM_cons] at h
    obtain ⟨y, -, h⟩ := Tree.exists_of_bind_eq_ok h
    obtain ⟨rest, -, h⟩ := Tree.exists_of_bind_eq_ok h
    exact Except.ok.inj h ▸ List.cons_ne_nil y rest

theorem mapM_parse_of_no_sign (h : ∀ part ∈ parts, ∀ c ∈ part, isSign c = false) :
    parts.mapM parse = .ok (parts.map (List.map .char)) := by
  induction parts with
  | nil => rfl
  | cons part parts ih =>
    rw [List.mapM_cons, parse_of_no_sign (h part List.mem_cons_self),
      ih fun p hp => h p (List.mem_cons_of_mem part hp)]
    rfl

theorem namesOnly_of_mem (hentry : IsPlain entry) {components : List (List Token)}
    (h : (componentTexts entry).mapM parse = .ok components) : ∀ c ∈ components, NamesOnly c := by
  intro c hc
  obtain ⟨part, hpart, hparse⟩ := exists_of_mem_mapM h c hc
  exact namesOnly_of_parse (Path.not_mem_of_mem_componentTexts hpart) (hentry part hpart) hparse

theorem isRecursive_chars (name : Text) : isRecursive (name.map .char) = false := by
  rw [isRecursive, List.contains_eq_mem, decide_eq_false_iff_not]
  intro h
  obtain ⟨c, -, hc⟩ := List.mem_map.mp h
  cases hc

theorem mem_expand_of_chars {name : Text} {rest : List (List Token)} {p : Path}
    (h : q ∈ expand t (name.map .char :: rest) p) : q ∈ expand t rest (extend p name) := by
  rw [expand.eq_def] at h
  dsimp only at h
  rw [if_neg (by rw [isRecursive_chars]; exact Bool.false_ne_true), literal?_chars] at h
  dsimp only at h
  split_ifs at h
  · exact h
  · cases h
  · exact h
  · cases h

/-- Names in front of a pattern lead to where it starts. -/
theorem mem_expand_of_names {components : List (List Token)} (hms : ∀ n ∈ ms, Path.IsName n)
    (hns : ∀ n ∈ ns, Path.IsName n) (h : q ∈ expand t (ns.map (List.map .char) ++ components) (reached ms)) :
    q ∈ expand t components (reached (ms ++ ns)) := by
  induction ns generalizing ms with
  | nil => rwa [List.append_nil]
  | cons n ns ih =>
    have hn := hns n List.mem_cons_self
    have hrest := mem_expand_of_chars h
    rw [extend_reached hms hn] at hrest
    rw [List.append_cons]
    exact ih (List.forall_mem_append.mpr ⟨hms, by simpa using hn⟩) (fun m hm => hns m (List.mem_cons_of_mem n hm))
      hrest

/-- A relative root without signs is passed by its components, as they are written. -/
theorem exists_of_mem_directories {paths : List Path} (hroot : root ≠ [])
    (hrelative : Path.isAbsolute root = false) (hsigns : ∀ c ∈ root, isSign c = false)
    (hentry : IsPlain entry) (hpattern : isPattern entry = true)
    (h : directories t (Path.slashed root ++ entry) = .ok paths) (hq : q ∈ paths) :
    ∃ components, components ≠ [] ∧ (∀ c ∈ components, NamesOnly c) ∧
      q ∈ expand t ((componentTexts root).map (List.map .char) ++ components) ['.'] := by
  have hfront : (componentTexts root).mapM parse = .ok ((componentTexts root).map (List.map .char)) :=
    mapM_parse_of_no_sign fun part hpart c hc =>
      hsigns c (Path.subset_of_mem_segments (Path.mem_segments_of_mem_componentTexts hpart) hc)
  rw [directories] at h
  obtain ⟨-, -, h⟩ := Tree.exists_of_bind_eq_ok h
  obtain ⟨all, hall, h⟩ := Tree.exists_of_bind_eq_ok h
  rw [Path.componentTexts_slashed_append hroot, List.mapM_append, hfront] at hall
  obtain ⟨components, hcomponents, hall⟩ := Tree.exists_of_bind_eq_ok (x := (componentTexts entry).mapM parse) hall
  obtain rfl := Except.ok.inj hall
  refine ⟨components, ?_, namesOnly_of_mem hentry hcomponents, ?_⟩
  · refine ne_nil_of_mapM (Path.componentTexts_ne_nil ?_) hcomponents
    rintro rfl
    exact Bool.noConfusion hpattern
  · have hnot : ¬ Path.isAbsolute (Path.slashed root ++ entry) = true := by
      rw [Path.isAbsolute_slashed_append hroot, hrelative]
      exact Bool.false_ne_true
    obtain rfl := Except.ok.inj h
    rw [if_neg hnot] at hq
    exact List.mem_of_mem_filter hq

/-- In the working directory a pattern leads to directories that are written without a dot. -/
theorem isSpelt_of_mem_directories_current (ht : t.IsProper) {paths : List Path} (hentry : IsPlain entry)
    (hpattern : isPattern entry = true) (h : directories t (Path.slashed ['.'] ++ entry) = .ok paths)
    (hq : q ∈ paths) : Path.IsSpelt [] q := by
  obtain ⟨components, hne, hcomponents, hexpand⟩ :=
    exists_of_mem_directories (by decide) rfl (by decide) hentry hpattern h hq
  have hcurrent : componentTexts ['.'] = [['.']] := by decide
  rw [hcurrent] at hexpand
  have hextend : extend ['.'] ['.'] = reached [] := by decide
  have hrest := mem_expand_of_chars hexpand
  rw [hextend] at hrest
  rcases leadsDown_of_mem_expand ht hcomponents (by simp) hrest with ⟨hnil, -⟩ | ⟨ns, hns, hnames, rfl⟩
  · exact absurd hnil hne
  · exact ⟨ns, hns, hnames, reached_of_ne_nil hns⟩

theorem isSpelt_of_mem_directories (ht : t.IsProper) {paths : List Path} (hroot : root ≠ [])
    (hplain : Path.IsPlain root) (hsigns : ∀ c ∈ root, isSign c = false) (hentry : IsPlain entry)
    (hpattern : isPattern entry = true) (h : directories t (Path.slashed root ++ entry) = .ok paths)
    (hq : q ∈ paths) : Path.IsSpelt (Path.slashed root) q := by
  obtain ⟨components, hne, hcomponents, hexpand⟩ :=
    exists_of_mem_directories hroot hplain.isAbsolute hsigns hentry hpattern h hq
  have hrest : q ∈ expand t components (reached (componentTexts root)) :=
    mem_expand_of_names (List.forall_mem_nil _) hplain hexpand
  rcases leadsDown_of_mem_expand ht hcomponents hplain hrest with ⟨hnil, -⟩ | ⟨ns, hns, hnames, rfl⟩
  · exact absurd hnil hne
  · refine ⟨ns, hns, hnames, ?_⟩
    rw [reached_of_ne_nil (List.append_ne_nil_of_right_ne_nil _ hns),
      Path.ofSegments_append (Path.componentTexts_ne_nil hroot) hns, Path.slashed_eq hroot, List.append_assoc]
    rfl

end Patterns

end SfcContract.Glob
