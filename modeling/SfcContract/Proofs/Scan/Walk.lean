import SfcContract.Proofs.Scan.Distinct

/-!
# What a scan finds

Where every included entry is names below the base, a scan finds each component file below one of them that is not
ignored, written as names after the base, and it finds nothing else.
-/

namespace SfcContract.Scan

variable {t : Tree} {base p : Path} {includes ignores : List Text} {entry : Text} {l₀ : Location} {d : Entry}
  {names ms : List Text}

/-- A path is covered by an entry without wildcards that it lies below, or by a pattern that it matches. -/
theorem covers_eq_false_iff : (Ignores.ofEntries base ignores).covers p = false ↔
    (∀ e ∈ ignores, Glob.isPattern e = false → ¬ Path.components (Path.join base e) <+: Path.components p) ∧
      ∀ e ∈ ignores, Glob.isPattern e = true → ∀ tokens, Glob.parse e = .ok tokens →
        Glob.matchesText tokens p = false := by
  rw [Ignores.covers, Bool.or_eq_false_iff, List.any_eq_false, List.any_eq_false, Ignores.ofEntries]
  dsimp only
  refine and_congr ?_ ?_
  · rw [List.forall_mem_map]
    constructor
    · intro h e he hpattern hbelow
      exact h e (List.mem_filter.mpr ⟨he, by rw [hpattern]; rfl⟩) (List.isPrefixOf_iff_prefix.mpr hbelow)
    · intro h e he hbelow
      obtain ⟨he, hpattern⟩ := List.mem_filter.mp he
      exact h e he (by simpa using hpattern) (List.isPrefixOf_iff_prefix.mp hbelow)
  · constructor
    · intro h e he hpattern tokens htokens
      refine Bool.eq_false_iff.mpr (h tokens (List.mem_filterMap.mpr ⟨e, List.mem_filter.mpr ⟨he, hpattern⟩, ?_⟩))
      rw [htokens]
      rfl
    · intro h tokens htokens
      obtain ⟨e, he, hparse⟩ := List.mem_filterMap.mp htokens
      obtain ⟨he, hpattern⟩ := List.mem_filter.mp he
      refine Bool.eq_false_iff.mp (h e he hpattern tokens ?_)
      cases hresult : Glob.parse e with
      | error fault =>
        rw [hresult] at hparse
        cases hparse
      | ok parsed =>
        rw [hresult] at hparse
        rw [Option.some.inj hparse]

/-- A scan finds the component files that names lead to from a start and that are not covered. -/
theorem mem_files_iff_below : p ∈ (files t base includes ignores).paths ↔
    ∃ start ∈ (starts t base includes).1, ∃ l d, t.find start = .ok (l, d) ∧
      ∃ ns content, t.get? (l ++ ns) = some (.file content) ∧ p = ns.foldl Path.join start ∧
        isComponentFile p = true ∧ (Ignores.ofEntries base ignores).covers p = false := by
  rw [mem_files_iff]
  refine exists_congr fun start => and_congr_right fun _ => ?_
  constructor
  · rintro ⟨found, hfound, hp⟩
    obtain ⟨entries, e, hentries, hmem, hcond⟩ := (mem_componentFiles_iff hfound).mp hp
    obtain ⟨⟨l, d⟩, hfind, -⟩ := Tree.exists_of_bind_eq_ok hentries
    obtain ⟨entries', hentries', hbelow⟩ := Tree.below_of_find hfind
    obtain rfl := Except.ok.inj (hentries.symm.trans hentries')
    obtain ⟨ns, hget, rfl⟩ := (hbelow _ _).mp hmem
    rw [Bool.and_eq_true, Bool.and_eq_true, Bool.not_eq_true', Bool.not_eq_true'] at hcond
    cases e with
    | directory => exact Bool.noConfusion hcond.1.1
    | file content => exact ⟨l, d, hfind, ns, content, hget, rfl, hcond.1.2, hcond.2⟩
  · rintro ⟨l, d, hfind, ns, content, hget, rfl, hcomponent, hcovers⟩
    obtain ⟨entries, hentries, hbelow⟩ := Tree.below_of_find hfind
    obtain ⟨found, hfound⟩ := exists_componentFiles (Ignores.ofEntries base ignores) hentries
    refine ⟨found, hfound, (mem_componentFiles_iff hfound).mpr
      ⟨entries, .file content, hentries, (hbelow _ _).mpr ⟨ns, hget, rfl⟩, ?_⟩⟩
    rw [hcomponent, hcovers]
    rfl

theorem inaccessible_not_mem_ignoreNotes {fault : FileFault} : .inaccessible p fault ∉ ignoreNotes ignores := by
  intro hnote
  obtain ⟨e, -, heq⟩ := List.mem_filterMap.mp hnote
  obtain ⟨_, -, heq⟩ := Option.map_eq_some_iff.mp heq
  cases heq

theorem inaccessible_not_mem_starts {fault : FileFault} : .inaccessible p fault ∉ (starts t base includes).2 := by
  rw [starts]
  split_ifs
  · exact List.not_mem_nil
  · intro hnote
    obtain ⟨e, -, hnote⟩ := List.mem_flatMap.mp hnote
    rw [included] at hnote
    split_ifs at hnote
    · split at hnote
      · cases hnote
      · cases List.mem_singleton.mp hnote
    · cases hnote
    · cases List.mem_singleton.mp hnote

/-- Where every start leads to something, nothing is skipped. -/
theorem skipped_files (h : ∀ start ∈ (starts t base includes).1, ∃ x, t.find start = .ok x) :
    (files t base includes ignores).skipped = 0 := by
  rw [Files.skipped, List.countP_eq_zero]
  intro note hnote
  cases note with
  | inaccessible path fault =>
    refine absurd hnote ?_
    rw [files]
    dsimp only
    rw [List.mem_append, List.mem_append, not_or, not_or]
    refine ⟨⟨inaccessible_not_mem_ignoreNotes, inaccessible_not_mem_starts⟩, fun hfound => ?_⟩
    obtain ⟨⟨start, result⟩, hresult, heq⟩ := List.mem_filterMap.mp hfound
    obtain ⟨start', hstart, hpair⟩ := List.mem_map.mp hresult
    obtain ⟨rfl, rfl⟩ := Prod.mk.inj hpair
    obtain ⟨⟨l, d⟩, hfind⟩ := h start' hstart
    obtain ⟨entries, hentries, -⟩ := Tree.below_of_find hfind
    obtain ⟨found, hfound⟩ := exists_componentFiles (Ignores.ofEntries base ignores) hentries
    rw [hfound] at heq
    cases heq
  | _ => exact Bool.false_ne_true

/-- Whether each entry is names with single slashes between them and no wildcards. -/
def AreNames (entries : List Text) : Prop :=
  ∀ e ∈ entries, Glob.isPattern e = false ∧ ∀ n ∈ Path.segments e, Path.IsName n

instance (entries : List Text) : Decidable (AreNames entries) :=
  inferInstanceAs (Decidable (∀ e ∈ entries, Glob.isPattern e = false ∧ ∀ n ∈ Path.segments e, Path.IsName n))

/-- Names that lead from the base to a start: none without entries, and those of an entry that leads to something. -/
def StartsAt (t : Tree) (base : Path) (includes : List Text) (ms : List Text) : Prop :=
  includes = [] ∧ ms = [] ∨ ∃ e ∈ includes, t.contains (Path.join base e) = true ∧ ms = Path.segments e

theorem join_eq_foldl (hbase : base ≠ []) (h : ∀ n ∈ Path.segments entry, Path.IsName n) :
    Path.join base entry = (Path.segments entry).foldl Path.join base := by
  have hne := Path.segments_ne_nil entry
  obtain ⟨n, ns, hcons⟩ := List.exists_cons_of_ne_nil hne
  have hrelative := Path.isAbsolute_ofSegments hne h
  rw [Path.ofSegments_segments] at hrelative
  rw [Path.join_eq hbase hrelative, hcons, Path.foldl_join_cons hbase (hcons ▸ h), ← hcons, Path.ofSegments_segments]

theorem mem_starts_iff {start : Path} (hbase : base ≠ []) (hincludes : AreNames includes) :
    start ∈ (starts t base includes).1 ↔ ∃ ms, StartsAt t base includes ms ∧ start = ms.foldl Path.join base := by
  rw [starts]
  by_cases hnil : includes = []
  · subst hnil
    rw [List.isEmpty_nil, if_pos rfl, List.mem_singleton]
    constructor
    · rintro rfl
      exact ⟨[], .inl ⟨rfl, rfl⟩, rfl⟩
    · rintro ⟨ms, ⟨-, rfl⟩ | ⟨e, he, -⟩, rfl⟩
      · rfl
      · cases he
  · rw [if_neg (by simpa using hnil)]
    dsimp only
    rw [List.mem_flatMap]
    constructor
    · rintro ⟨e, he, hstart⟩
      obtain ⟨hpattern, hnames⟩ := hincludes e he
      obtain ⟨hcontains, rfl⟩ := (mem_included_literal_iff hpattern).mp hstart
      exact ⟨Path.segments e, .inr ⟨e, he, hcontains, rfl⟩, join_eq_foldl hbase hnames⟩
    · rintro ⟨ms, ⟨hempty, -⟩ | ⟨e, he, hcontains, rfl⟩, rfl⟩
      · exact absurd hempty hnil
      · obtain ⟨hpattern, hnames⟩ := hincludes e he
        exact ⟨e, he, (mem_included_literal_iff hpattern).mpr ⟨hcontains, (join_eq_foldl hbase hnames).symm⟩⟩

/-- What lies below some start is included. -/
theorem exists_startsAt_iff : (∃ ms, StartsAt t base includes ms ∧ ms <+: names) ↔
    includes = [] ∨ ∃ e ∈ includes, t.contains (Path.join base e) = true ∧ Path.segments e <+: names := by
  constructor
  · rintro ⟨ms, ⟨hnil, -⟩ | ⟨e, he, hcontains, rfl⟩, hprefix⟩
    · exact .inl hnil
    · exact .inr ⟨e, he, hcontains, hprefix⟩
  · rintro (hnil | ⟨e, he, hcontains, hprefix⟩)
    · exact ⟨[], .inl ⟨hnil, rfl⟩, List.nil_prefix⟩
    · exact ⟨Path.segments e, .inr ⟨e, he, hcontains, rfl⟩, hprefix⟩

theorem find_of_startsAt (hbase : t.find base = .ok (l₀, d)) (hincludes : AreNames includes)
    (h : StartsAt t base includes ms) : ∃ e, t.find (ms.foldl Path.join base) = .ok (l₀ ++ ms, e) := by
  obtain ⟨hlocate, -⟩ := Tree.locate_of_find hbase
  have hne := (Tree.follow_of_locate hlocate).2
  rcases h with ⟨-, rfl⟩ | ⟨e, he, hcontains, rfl⟩
  · exact ⟨d, by rw [List.append_nil, List.foldl_nil, hbase]⟩
  · have hnames := (hincludes e he).2
    rw [join_eq_foldl hne hnames] at hcontains
    cases hfind : t.find ((Path.segments e).foldl Path.join base) with
    | error fault =>
      rw [Tree.contains, hfind] at hcontains
      cases hcontains
    | ok found =>
      obtain ⟨l, e'⟩ := found
      refine ⟨e', ?_⟩
      have hl := (Tree.locate_of_find hfind).1
      obtain ⟨n, ns, hcons⟩ := List.exists_cons_of_ne_nil (Path.segments_ne_nil e)
      rw [hcons] at hl hnames ⊢
      rw [Path.foldl_join_cons hne hnames] at hl
      rw [Tree.locate_slashed_append hlocate (List.cons_ne_nil n ns) hnames hl]

/-- Whether names lead from the base to a file that a scan is to find. -/
structure IsScanned (t : Tree) (base : Path) (l₀ : Location) (includes ignores names : List Text) : Prop where
  isFile : ∃ content, t.get? (l₀ ++ names) = some (.file content)
  included : includes = [] ∨
    ∃ e ∈ includes, t.contains (Path.join base e) = true ∧ Path.segments e <+: names
  extension : ∃ stem, stem ≠ [] ∧ names.getLast? = some (stem ++ ".vue".toList)
  paths : ∀ e ∈ ignores, Glob.isPattern e = false →
    ¬ Path.components (Path.join base e) <+: Path.components (Path.slashed base ++ Path.ofSegments names)
  patterns : ∀ e ∈ ignores, Glob.isPattern e = true → ∀ tokens, Glob.parse e = .ok tokens →
    Glob.matchesText tokens (Path.slashed base ++ Path.ofSegments names) = false

/-- A file lies at names below the base, which itself is a directory. -/
theorem foldl_join_of_file (ht : t.IsProper) (hbase : t.find base = .ok (l₀, .directory)) {content : ByteArray}
    (hget : t.get? (l₀ ++ names) = some (.file content)) : names ≠ [] ∧ (∀ n ∈ names, Path.IsName n) ∧
      names.foldl Path.join base = Path.slashed base ++ Path.ofSegments names := by
  obtain ⟨hlocate, hdirectory⟩ := Tree.locate_of_find hbase
  have hnames : ∀ n ∈ names, Path.IsName n := fun n hn => ht.isName hget n (List.mem_append_right l₀ hn)
  cases names with
  | nil =>
    rw [List.append_nil, hdirectory] at hget
    cases hget
  | cons n ns =>
    exact ⟨List.cons_ne_nil n ns, hnames, Path.foldl_join_cons (Tree.follow_of_locate hlocate).2 hnames⟩

theorem isComponentFile_iff (hbase : base ≠ []) (hne : names ≠ []) (hnames : ∀ n ∈ names, Path.IsName n) :
    isComponentFile (Path.slashed base ++ Path.ofSegments names) = true ↔
      ∃ stem, stem ≠ [] ∧ names.getLast? = some (stem ++ ".vue".toList) := by
  rw [isComponentFile, beq_iff_eq, Path.extension?_eq_some_iff, Path.fileName?_slashed_append hbase hne hnames]
  exact exists_congr fun stem => and_congr_right fun _ => and_iff_right (by decide)

example : isComponentFile "src/..vue".toList = true ∧ isComponentFile "src/.vue".toList = false := by decide

/-- A scan finds exactly the component files, each once and in order, and skips nothing. -/
theorem files_exact (ht : t.IsProper) (hbase : t.find base = .ok (l₀, .directory)) (hincludes : AreNames includes)
    (ignores : List Text) :
    (∀ p, p ∈ (files t base includes ignores).paths ↔
      ∃ names, IsScanned t base l₀ includes ignores names ∧ p = Path.slashed base ++ Path.ofSegments names) ∧
    (files t base includes ignores).paths.Pairwise (fun a b => a.bytes ≤ b.bytes) ∧
    (files t base includes ignores).paths.Nodup ∧ (files t base includes ignores).skipped = 0 := by
  have hroot := Tree.ne_nil_of_find hbase
  refine ⟨fun p => ?_, (pairwise_files t base includes ignores).imp fun h => (Text.isAtMost_iff_bytes_le _ _).mp h,
    nodup_files t base includes ignores, skipped_files fun start hstart => ?_⟩
  · rw [mem_files_iff_below]
    constructor
    · rintro ⟨start, hstart, l, d, hfind, ns, content, hget, rfl, hcomponent, hcovers⟩
      obtain ⟨ms, hms, rfl⟩ := (mem_starts_iff hroot hincludes).mp hstart
      obtain ⟨e, hfind'⟩ := find_of_startsAt hbase hincludes hms
      obtain ⟨rfl, rfl⟩ := Prod.mk.inj (Except.ok.inj (hfind.symm.trans hfind'))
      -- The names to the start and those below it lead to the file from the base.
      rw [List.append_assoc] at hget
      obtain ⟨hne, hnames, hjoin⟩ := foldl_join_of_file ht hbase hget
      rw [← List.foldl_append, hjoin] at hcomponent hcovers ⊢
      obtain ⟨hpaths, hpatterns⟩ := covers_eq_false_iff.mp hcovers
      have hincluded := exists_startsAt_iff.mp ⟨ms, hms, List.prefix_append ms ns⟩
      have hextension := (isComponentFile_iff hroot hne hnames).mp hcomponent
      exact ⟨ms ++ ns, ⟨⟨content, hget⟩, hincluded, hextension, hpaths, hpatterns⟩, rfl⟩
    · rintro ⟨names, h, rfl⟩
      obtain ⟨content, hget⟩ := h.isFile
      obtain ⟨hne, hnames, hjoin⟩ := foldl_join_of_file ht hbase hget
      obtain ⟨ms, hms, ns, rfl⟩ := exists_startsAt_iff.mpr h.included
      obtain ⟨e, hfind⟩ := find_of_startsAt hbase hincludes hms
      refine ⟨_, (mem_starts_iff hroot hincludes).mpr ⟨ms, hms, rfl⟩, l₀ ++ ms, e, hfind, ns, content,
        by rw [List.append_assoc, hget], by rw [← List.foldl_append, hjoin],
        (isComponentFile_iff hroot hne hnames).mpr h.extension, covers_eq_false_iff.mpr ⟨h.paths, h.patterns⟩⟩
  · obtain ⟨ms, hms, rfl⟩ := (mem_starts_iff hroot hincludes).mp hstart
    obtain ⟨e, hfind⟩ := find_of_startsAt hbase hincludes hms
    exact ⟨_, hfind⟩

theorem files_exact_overlapping :
    "./src/ui/A.vue".toList ∈ (files overlappingTree ['.'] ["src".toList, "src/ui".toList]
        ["src/gen".toList, "**/dist/**".toList]).paths ∧
      (files overlappingTree ['.'] ["src".toList, "src/ui".toList]
        ["src/gen".toList, "**/dist/**".toList]).skipped = 0 := by
  have hbase : overlappingTree.find ['.'] = .ok ([], .directory) := rfl
  have hincludes : AreNames ["src".toList, "src/ui".toList] := by decide
  obtain ⟨hmem, -, -, hskipped⟩ :=
    files_exact (by decide +kernel) hbase hincludes ["src/gen".toList, "**/dist/**".toList]
  refine ⟨(hmem _).mpr ⟨["src".toList, "ui".toList, "A.vue".toList], ⟨?_, ?_, ?_, ?_, ?_⟩, by decide⟩, hskipped⟩
  · exact ⟨Tree.encode "<template/>".toList, by rfl⟩
  · exact .inr ⟨"src".toList, by decide, by decide +kernel, by decide⟩
  · exact ⟨['A'], by decide, by decide⟩
  · decide
  · have hall : ∀ e ∈ ["src/gen".toList, "**/dist/**".toList], ((Glob.parse e).toOption.all fun tokens =>
        !Glob.matchesText tokens "./src/ui/A.vue".toList) = true := by decide +kernel
    intro e he hpattern tokens htokens
    have hnot := hall e he
    rw [htokens] at hnot
    exact Bool.not_eq_true' _ ▸ hnot

end SfcContract.Scan
