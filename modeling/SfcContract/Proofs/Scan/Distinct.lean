import SfcContract.Proofs.Glob
import SfcContract.Proofs.Names
import SfcContract.Proofs.Scan.Isolation
import SfcContract.Proofs.Scan.Plan

/-!
# Each component once

Files are told apart by their paths as these are written. A file is met once when all paths to it are
written in one way, which depends on the scanned directory and on how the included entries are written.
-/

namespace SfcContract.Scan

variable {t : Tree} {root lead start file : Path} {entry : Text} {includes : List Text}

/-- Whether the paths to the files below a root are all written in one way. -/
inductive SpeltOnce (root : Path) (includes : List Text) : Prop where
  /-- The root stands in front of every name. -/
  | literals (h : ∀ e ∈ includes, Glob.isPattern e = false ∧ Path.IsPlain e)
  /-- Patterns leave out the dot of the working directory. -/
  | patterns (hroot : root = ['.']) (h : ∀ e ∈ includes, Glob.isPattern e = true ∧ Glob.IsPlain e)
  /-- A root of names stands in front of every path, and patterns read it as it is written. -/
  | named (hroot : Path.IsPlain root ∧ ∀ c ∈ root, Glob.isSign c = false)
      (h : ∀ e ∈ includes, if Glob.isPattern e then Glob.IsPlain e else Path.IsPlain e)

example : SpeltOnce "app".toList ["src".toList, "**/ui/*".toList] := .named (by decide) (by decide)

/-- What may stand in front of the names of a file. -/
def IsLead (root lead : Path) : Prop := root ≠ [] ∧ (lead = Path.slashed root ∨ root = ['.'] ∧ lead = [])

theorem IsLead.display {ns : List Text} (h : IsLead root lead) (hne : ns ≠ []) (hns : ∀ n ∈ ns, Path.IsName n) :
    Path.display root (lead ++ Path.ofSegments ns) = Path.ofSegments ns := by
  obtain ⟨hroot, rfl | ⟨rfl, rfl⟩⟩ := h
  · exact Path.display_slashed_append hroot hne hns
  · exact Path.display_current hne hns

theorem IsLead.locate {ns : List Text} {l m : Location} (h : IsLead root lead) (hroot : t.locate root = .ok l)
    (hne : ns ≠ []) (hns : ∀ n ∈ ns, Path.IsName n) (hm : t.locate (lead ++ Path.ofSegments ns) = .ok m) :
    m = l ++ ns := by
  obtain ⟨-, rfl | ⟨rfl, rfl⟩⟩ := h
  · exact Tree.locate_slashed_append hroot hne hns hm
  · have hcurrent : t.locate ['.'] = .ok [] := rfl
    obtain rfl := Except.ok.inj (hcurrent.symm.trans hroot)
    exact Tree.locate_ofSegments hne hns hm

/-- Paths that are written differently after a lead are displayed differently and lead to different places. -/
theorem IsLead.apart {f g : Path} {l₀ : Location} (h : IsLead root lead) (hroot : t.locate root = .ok l₀)
    (hf : Path.IsSpelt lead f) (hg : Path.IsSpelt lead g) (hne : f ≠ g) :
    Path.display root f ≠ Path.display root g ∧ ∀ l, t.locate f = .ok l → t.locate g ≠ .ok l := by
  obtain ⟨ms, hms, hmnames, rfl⟩ := hf
  obtain ⟨ns, hns, hnnames, rfl⟩ := hg
  have hnames : ms ≠ ns := fun heq => hne (heq ▸ rfl)
  refine ⟨fun hdisplay => hnames ?_, fun l hl hl' => hnames ?_⟩
  · rw [h.display hms hmnames, h.display hns hnnames] at hdisplay
    exact Path.ofSegments_injective hms hns hmnames hnnames hdisplay
  · have hlocations := (h.locate hroot hms hmnames hl).symm.trans (h.locate hroot hns hnnames hl')
    exact List.append_cancel_left hlocations

/-- Whether all files at or below a start are written as names after a lead. -/
structure Leads (t : Tree) (lead start : Path) : Prop where
  below : ∀ ns, ns ≠ [] → (∀ n ∈ ns, Path.IsName n) → Path.IsSpelt lead (ns.foldl Path.join start)
  itself : Path.IsSpelt lead start ∨ ∀ l, t.locate start = .ok l → t.get? l = some .directory

theorem leads_of_isSpelt (h : Path.IsSpelt lead start) : Leads t lead start where
  below ns _ hns := by
    obtain ⟨ms, hms, hnames, rfl⟩ := h
    exact ⟨ms ++ ns, List.append_ne_nil_of_left_ne_nil hms ns, List.forall_mem_append.mpr ⟨hnames, hns⟩,
      Path.foldl_join_ofSegments lead hms hnames hns⟩
  itself := .inl h

theorem leads_of_directory (hstart : start ≠ []) (hdirectory : ∀ l, t.locate start = .ok l → t.get? l = some .directory)
    (hlead : ∀ ns, ns ≠ [] → (∀ n ∈ ns, Path.IsName n) →
      Path.IsSpelt lead (Path.slashed start ++ Path.ofSegments ns)) : Leads t lead start where
  below ns hne hns := by
    cases ns with
    | nil => exact absurd rfl hne
    | cons n ns =>
      rw [Path.foldl_join_cons hstart hns]
      exact hlead (n :: ns) hne hns
  itself := .inr hdirectory

theorem leads_root (hroot : t.isDirectory root = true) (hne : root ≠ []) : Leads t (Path.slashed root) root := by
  obtain ⟨k, hk, hdirectory⟩ := Tree.exists_of_isDirectory hroot
  refine leads_of_directory hne (fun l hl => ?_) fun ns hns hnames => ⟨ns, hns, hnames, rfl⟩
  exact Except.ok.inj (hk.symm.trans hl) ▸ hdirectory

theorem leads_join (hroot : root ≠ []) (hentry : Path.IsPlain entry) :
    Leads t (Path.slashed root) (Path.join root entry) := by
  have hslashed : ∃ r, Path.slashed root = r ++ ['/'] := ⟨_, Path.slashed_eq hroot⟩
  obtain ⟨r, hr⟩ := hslashed
  rw [Path.join_eq hroot hentry.isDownward.1]
  by_cases hnil : entry = []
  · rw [hnil, List.append_nil, hr]
    refine leads_of_directory (by simp) (fun l hl => Tree.get?_of_locate_slash hl) fun ns hns hnames => ?_
    exact ⟨ns, hns, hnames, by rw [Path.slashed_append_slash]⟩
  · have hne := Path.componentTexts_ne_nil hnil
    rcases Path.segments_eq entry with heq | heq
    · refine leads_of_isSpelt ⟨_, hne, hentry, ?_⟩
      rw [← heq, Path.ofSegments_segments]
    · have hentry' : entry = Path.ofSegments (Glob.componentTexts entry) ++ ['/'] := by
        rw [← Path.ofSegments_concat hne, ← heq, Path.ofSegments_segments]
      rw [hentry', ← List.append_assoc]
      refine leads_of_directory (by simp) (fun l hl => Tree.get?_of_locate_slash hl) fun ns hns hnames => ?_
      refine ⟨Glob.componentTexts entry ++ ns, List.append_ne_nil_of_left_ne_nil hne ns,
        List.forall_mem_append.mpr ⟨hentry, hnames⟩, ?_⟩
      rw [Path.slashed_append_slash, Path.ofSegments_append hne hns]
      simp

theorem mem_included_literal_iff (hpattern : Glob.isPattern entry = false) :
    start ∈ (included t root entry).1 ↔ t.contains (Path.join root entry) = true ∧ start = Path.join root entry := by
  rw [included, if_neg (by rw [hpattern]; exact Bool.false_ne_true)]
  split_ifs with hcontains
  · exact List.mem_singleton.trans (iff_and_self.mpr fun _ => hcontains)
  · exact iff_of_false List.not_mem_nil fun h => hcontains h.1

theorem exists_of_mem_included (hpattern : Glob.isPattern entry = true) (h : start ∈ (included t root entry).1) :
    ∃ paths, Glob.directories t (Path.join root entry) = .ok paths ∧ start ∈ paths := by
  rw [included, if_pos hpattern] at h
  split at h
  · rename_i paths hpaths
    exact ⟨paths, hpaths, h⟩
  · cases h

theorem join_pattern (hroot : root ≠ []) (hentry : Glob.IsPlain entry) :
    Path.join root entry = Path.slashed root ++ entry := by
  refine Path.join_eq hroot ?_
  rw [← Bool.not_eq_true]
  exact fun h => absurd (hentry [] (Path.nil_mem_componentTexts h)) (by decide)

theorem isSpelt_of_mem_included (ht : t.IsProper) (hne : root ≠ [])
    (hroot : Path.IsPlain root ∧ ∀ c ∈ root, Glob.isSign c = false) (hpattern : Glob.isPattern entry = true)
    (hentry : Glob.IsPlain entry) (h : start ∈ (included t root entry).1) :
    Path.IsSpelt (Path.slashed root) start := by
  obtain ⟨paths, hpaths, hstart⟩ := exists_of_mem_included hpattern h
  rw [join_pattern hne hentry] at hpaths
  exact Glob.isSpelt_of_mem_directories ht hne hroot.1 hroot.2 hentry hpattern hpaths hstart

theorem isSpelt_of_mem_included_current (ht : t.IsProper) (hpattern : Glob.isPattern entry = true)
    (hentry : Glob.IsPlain entry) (h : start ∈ (included t ['.'] entry).1) : Path.IsSpelt [] start := by
  obtain ⟨paths, hpaths, hstart⟩ := exists_of_mem_included hpattern h
  rw [join_pattern (List.cons_ne_nil '.' []) hentry] at hpaths
  exact Glob.isSpelt_of_mem_directories_current ht hentry hpattern hpaths hstart

theorem exists_lead (ht : t.IsProper) (hroot : t.isDirectory root = true) (h : SpeltOnce root includes) :
    ∃ lead, IsLead root lead ∧ ∀ start ∈ (starts t root includes).1, Leads t lead start := by
  have hne : root ≠ [] := by
    rintro rfl
    exact Bool.noConfusion hroot
  by_cases hnil : includes = []
  · refine ⟨Path.slashed root, ⟨hne, .inl rfl⟩, ?_⟩
    rw [starts, hnil, List.isEmpty_nil, if_pos rfl]
    intro start hstart
    rw [List.mem_singleton.mp hstart]
    exact leads_root hroot hne
  rw [starts, if_neg (by simpa using hnil)]
  dsimp only
  cases h with
  | literals h =>
    refine ⟨Path.slashed root, ⟨hne, .inl rfl⟩, fun start hstart => ?_⟩
    obtain ⟨entry, hentry, hstart⟩ := List.mem_flatMap.mp hstart
    rw [((mem_included_literal_iff (h entry hentry).1).mp hstart).2]
    exact leads_join hne (h entry hentry).2
  | patterns hcurrent h =>
    subst hcurrent
    refine ⟨[], ⟨hne, .inr ⟨rfl, rfl⟩⟩, fun start hstart => ?_⟩
    obtain ⟨entry, hentry, hstart⟩ := List.mem_flatMap.mp hstart
    obtain ⟨hpattern, hplain⟩ := h entry hentry
    exact leads_of_isSpelt (isSpelt_of_mem_included_current ht hpattern hplain hstart)
  | named hnames h =>
    refine ⟨Path.slashed root, ⟨hne, .inl rfl⟩, fun start hstart => ?_⟩
    obtain ⟨entry, hentry, hstart⟩ := List.mem_flatMap.mp hstart
    have hplain := h entry hentry
    split_ifs at hplain with hpattern
    · exact leads_of_isSpelt (isSpelt_of_mem_included ht hne hnames hpattern hplain hstart)
    · rw [((mem_included_literal_iff (by simpa using hpattern)).mp hstart).2]
      exact leads_join hne hplain

theorem exists_componentFiles (i : Ignores) {entries : List (Path × Entry)} (h : t.below start = .ok entries) :
    ∃ found, componentFiles t i start = .ok found := by
  rw [componentFiles, h]
  exact ⟨_, rfl⟩

/-- The component files are among all that lies below. -/
theorem mem_componentFiles_iff {i : Ignores} {found : List Path} (h : componentFiles t i start = .ok found) :
    file ∈ found ↔ ∃ entries e, t.below start = .ok entries ∧ (file, e) ∈ entries ∧
      (!e.isDirectory && isComponentFile file && !i.covers file) = true := by
  rw [componentFiles] at h
  obtain ⟨entries, hentries, h⟩ := Tree.exists_of_bind_eq_ok h
  obtain rfl := Except.ok.inj h
  refine List.mem_filterMap.trans ⟨?_, ?_⟩
  · rintro ⟨⟨p, e⟩, hmem, hkept⟩
    dsimp only at hkept
    split_ifs at hkept with hcond
    obtain rfl := Option.some.inj hkept
    exact ⟨entries, e, hentries, hmem, hcond⟩
  · rintro ⟨entries', e, hentries', hmem, hcond⟩
    obtain rfl := Except.ok.inj (hentries.symm.trans hentries')
    exact ⟨(file, e), hmem, if_pos hcond⟩

theorem mem_files_iff {ignores : List Text} : file ∈ (files t root includes ignores).paths ↔
    ∃ start ∈ (starts t root includes).1, ∃ found,
      componentFiles t (Ignores.ofEntries root ignores) start = .ok found ∧ file ∈ found := by
  rw [files]
  dsimp only
  rw [List.mem_mergeSort, List.mem_eraseDups, List.mem_flatMap]
  constructor
  · rintro ⟨⟨p, result⟩, hp, hfile⟩
    obtain ⟨start, hstart, heq⟩ := List.mem_map.mp hp
    obtain ⟨rfl, rfl⟩ := Prod.mk.inj heq
    dsimp only at hfile
    cases hfound : componentFiles t (Ignores.ofEntries root ignores) start with
    | error fault =>
      rw [hfound] at hfile
      cases hfile
    | ok found =>
      rw [hfound] at hfile
      exact ⟨start, hstart, found, hfound, hfile⟩
  · rintro ⟨start, hstart, found, hfound, hfile⟩
    refine ⟨(start, .ok found), List.mem_map.mpr ⟨start, hstart, by rw [hfound]⟩, hfile⟩

theorem isSpelt_of_mem_componentFiles (ht : t.IsProper) (hstart : Leads t lead start) {ignores : Ignores}
    {found : List Path} (h : componentFiles t ignores start = .ok found) (hfile : file ∈ found) :
    Path.IsSpelt lead file := by
  obtain ⟨entries, e, hentries, hmem, hcond⟩ := (mem_componentFiles_iff h).mp hfile
  obtain ⟨l, ns, hl, rfl, hget⟩ := Tree.exists_of_mem_below hentries hmem
  by_cases hne : ns = []
  · subst hne
    rcases hstart.itself with hspelt | hdirectory
    · exact hspelt
    · rw [List.append_nil, hdirectory l hl] at hget
      obtain rfl := Option.some.inj hget
      cases hcond
  · exact hstart.below ns hne fun n hn => ht.isName hget n (List.mem_append_right l hn)

theorem isSpelt_of_mem_files (ht : t.IsProper) (hstarts : ∀ start ∈ (starts t root includes).1, Leads t lead start)
    {ignores : List Text} (hfile : file ∈ (files t root includes ignores).paths) : Path.IsSpelt lead file := by
  obtain ⟨start, hstart, found, hfound, hfile⟩ := mem_files_iff.mp hfile
  exact isSpelt_of_mem_componentFiles ht (hstarts start hstart) hfound hfile

theorem nodup_files (t : Tree) (root : Path) (includes ignores : List Text) :
    (files t root includes ignores).paths.Nodup := by
  rw [files]
  dsimp only
  rw [(List.mergeSort_perm _ _).nodup_iff, ← Names.ofList_eq_eraseDups]
  exact Names.nodup_ofList _

theorem pairwise_files (t : Tree) (root : Path) (includes ignores : List Text) :
    (files t root includes ignores).paths.Pairwise fun a b => Text.isAtMost a b = true :=
  List.pairwise_mergeSort Text.isAtMost_trans Text.isAtMost_total _

theorem path_of_contractOf? {c : Contract} (h : contractOf? t root file = some c) :
    c.path = Path.display root file := by
  obtain ⟨source, -, rfl⟩ := Option.map_eq_some_iff.mp h
  rfl

/-- Where the paths are written in one way, each file and each component path is there once. -/
theorem Plan.nodup_path_analyze {r : Request} {p : Plan} {loaded : Config.Loaded} (ht : t.IsProper)
    (hplan : plan t r = .ok p) (hconfig : Config.load t r.root = .ok loaded)
    (h : SpeltOnce r.root loaded.config.includes) :
    ((p.analyze t).components.map Contract.path).Nodup ∧
      p.files.Pairwise fun f g => ∀ l, t.locate f = .ok l → t.locate g ≠ .ok l := by
  obtain ⟨hroot, loaded', hconfig', hplanRoot, hfiles, -, -⟩ := exists_of_plan hplan
  obtain rfl := Except.ok.inj (hconfig.symm.trans hconfig')
  obtain ⟨lead, hlead, hstarts⟩ := exists_lead ht hroot h
  have hspelt : ∀ file ∈ p.files, Path.IsSpelt lead file := fun file hfile =>
    isSpelt_of_mem_files ht hstarts (hfiles ▸ hfile)
  have hnodup : p.files.Nodup := hfiles ▸ nodup_files t r.root _ _
  obtain ⟨l₀, hl₀, -⟩ := Tree.exists_of_isDirectory hroot
  have hapart : p.files.Pairwise fun f g => Path.display r.root f ≠ Path.display r.root g ∧
      ∀ l, t.locate f = .ok l → t.locate g ≠ .ok l :=
    hnodup.imp_of_mem fun hf hg hne => hlead.apart hl₀ (hspelt _ hf) (hspelt _ hg) hne
  refine ⟨?_, hapart.imp fun h => h.2⟩
  rw [components_analyze, ((List.mergeSort_perm _ _).map _).nodup_iff, List.Nodup, List.pairwise_map,
    List.pairwise_filterMap, hplanRoot]
  refine hapart.imp fun {f g} h c hc d hd => ?_
  rw [path_of_contractOf? hc, path_of_contractOf? hd]
  exact h.1

def configuredTree (configuration : Text) : Tree :=
  (((Tree.empty.set ["src".toList] .directory).set ["src".toList, "ui".toList] .directory).set
    ["src".toList, "ui".toList, "A.vue".toList] (.file (Tree.encode "<template/>".toList))).set
      [Config.fileName] (.file (Tree.encode configuration))

def overlappingTree : Tree := configuredTree "\x7b\"includes\": [\"src\", \"src/ui/\"]\x7d".toList

def overlappingPlan : Plan where
  root := ['.']
  files := ["./src/ui/A.vue".toList]
  manifestPath := "vuepact.manifest.json".toList
  reportPath := none
  notes := []

theorem nodup_path_analyze_overlapping :
    plan overlappingTree {} = .ok overlappingPlan ∧
      ((overlappingPlan.analyze overlappingTree).components.map Contract.path).Nodup := by
  have hplan : plan overlappingTree {} = .ok overlappingPlan := by decide +kernel
  have hconfig : Config.load overlappingTree ['.'] =
      .ok ⟨{ includes := ["src".toList, "src/ui/".toList] }, true⟩ := by decide +kernel
  have hspelt : SpeltOnce ['.'] ["src".toList, "src/ui/".toList] := .literals (by decide)
  exact ⟨hplan, (Plan.nodup_path_analyze (by decide +kernel) hplan hconfig hspelt).1⟩

def respeltTree : Tree := configuredTree "\x7b\"includes\": [\"./src\", \"src\"]\x7d".toList

/-- A directory that is included under two spellings has each of its components twice. -/
theorem duplicate_path_analyze_respelt : ∃ p, plan respeltTree {} = .ok p ∧
    (p.analyze respeltTree).components.map Contract.path = ["src/ui/A.vue".toList, "src/ui/A.vue".toList] := by
  obtain ⟨p, hplan⟩ : ∃ p, plan respeltTree {} = .ok p := by
    have hok : (plan respeltTree {}).toOption.isSome = true := by decide +kernel
    cases hplan : plan respeltTree {} with
    | ok p => exact ⟨p, rfl⟩
    | error failure => rw [hplan] at hok; cases hok
  have hconfig : Config.load respeltTree ['.'] =
      .ok ⟨{ includes := ["./src".toList, "src".toList] }, true⟩ := by decide +kernel
  obtain ⟨-, loaded, hloaded, hroot, hfiles, -⟩ := exists_of_plan hplan
  obtain rfl := Except.ok.inj (hconfig.symm.trans hloaded)
  have hsorted : p.files = ["././src/ui/A.vue".toList, "./src/ui/A.vue".toList] := by
    rw [hfiles, files]
    refine Eq.trans (congrArg (fun l => l.mergeSort Text.isAtMost)
      (?_ : _ = ["././src/ui/A.vue".toList, "./src/ui/A.vue".toList])) (List.mergeSort_of_pairwise (by decide))
    decide +kernel
  have hpaths : (p.files.filterMap (contractOf? respeltTree p.root)).map Contract.path =
      List.replicate 2 "src/ui/A.vue".toList := by
    rw [hsorted, hroot]
    decide +kernel
  refine ⟨p, hplan, ?_⟩
  have hperm := (records_analyze p respeltTree).contracts.map Contract.path
  rw [hpaths] at hperm
  exact List.perm_replicate.mp hperm

end SfcContract.Scan
