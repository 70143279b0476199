import SfcContract.Proofs.Scan.Walk

/-!
# What is ignored

Ignored entries are held against paths as these are written, and each included entry writes its paths in its own
way. Whether a file is ignored depends on the file alone as long as the included entries write it in one way.
-/

namespace SfcContract.Scan

variable {t : Tree} {root lead start p q : Path} {ignores includes includes₁ includes₂ : List Text} {l₀ : Location}
  {names ms ns : List Text}

theorem isComponentFile_congr (h : Path.components p = Path.components q) :
    isComponentFile p = isComponentFile q := by
  rw [isComponentFile, isComponentFile, Path.extension?, Path.extension?, Path.fileName?, Path.fileName?, h]

theorem display_congr (h : Path.components p = Path.components q) : Path.display root p = Path.display root q := by
  rw [Path.display, Path.display, Path.isBelow, Path.isBelow, h]

/-- Whether some ignored entry reads paths as they are written. -/
def ReadsText (ignores : List Text) : Prop := ∃ e ∈ ignores, Glob.isPattern e = true

instance (ignores : List Text) : Decidable (ReadsText ignores) :=
  inferInstanceAs (Decidable (∃ e ∈ ignores, Glob.isPattern e = true))

theorem covers_eq_of_components_eq (h : Path.components p = Path.components q) (htext : ReadsText ignores → p = q) :
    (Ignores.ofEntries root ignores).covers p = (Ignores.ofEntries root ignores).covers q := by
  by_cases hreads : ReadsText ignores
  · rw [htext hreads]
  · have hpatterns : (Ignores.ofEntries root ignores).patterns = [] := by
      rw [Ignores.ofEntries]
      dsimp only
      rw [List.filter_eq_nil_iff.mpr fun e he hpattern => hreads ⟨e, he, hpattern⟩, List.filterMap_nil]
    have hbelow : Path.isBelow p = Path.isBelow q := funext fun base => by rw [Path.isBelow, Path.isBelow, h]
    rw [Ignores.covers, Ignores.covers, hpatterns, hbelow, List.any_nil, List.any_nil]

/-- Whether a path is some names after a lead, component by component and, where that counts, as a text. -/
structure Spells (ignores : List Text) (lead : Path) (names : List Text) (p : Path) : Prop where
  components : Path.components p = Path.components lead ++ names.map .name
  text : ReadsText ignores → Path.IsSpelt lead p

theorem IsLead.components (h : IsLead root lead) (hne : names ≠ []) (hnames : ∀ n ∈ names, Path.IsName n) :
    Path.components (lead ++ Path.ofSegments names) = Path.components lead ++ names.map .name := by
  obtain ⟨hroot, rfl | ⟨rfl, rfl⟩⟩ := h
  · rw [Path.components_slashed_append hroot hne hnames, Path.components_slashed_self hroot]
  · exact Path.components_ofSegments hne hnames

/-- Such a path is as good as the lead followed by the names. -/
theorem Spells.components_eq (hlead : IsLead root lead) (hne : names ≠ []) (hnames : ∀ n ∈ names, Path.IsName n)
    (h : Spells ignores lead names p) : Path.components p = Path.components (lead ++ Path.ofSegments names) :=
  h.components.trans (hlead.components hne hnames).symm

theorem Spells.eq_of_readsText (hlead : IsLead root lead) (h : Spells ignores lead names p)
    (hreads : ReadsText ignores) : p = lead ++ Path.ofSegments names := by
  obtain ⟨ms, hms, hmnames, rfl⟩ := h.text hreads
  have hcomponents := h.components
  rw [hlead.components hms hmnames] at hcomponents
  rw [List.map_injective_iff.mpr (fun _ _ => Path.Component.name.inj) (List.append_cancel_left hcomponents)]

/-- Whether what lies below a start is written as names after a lead, the names that lead to the start first. -/
structure Begins (t : Tree) (ignores : List Text) (lead : Path) (l₀ : Location) (start : Path) (ms : List Text) :
    Prop where
  isName : ∀ n ∈ ms, Path.IsName n
  locate : ∀ l, t.locate start = .ok l → l = l₀ ++ ms
  components : Path.components start = Path.components lead ++ ms.map .name
  leads : ReadsText ignores → Leads t lead start

theorem Begins.spells (h : Begins t ignores lead l₀ start ms) (ht : t.IsProper) {l : Location} {d : Entry}
    (hstart : t.find start = .ok (l, d)) {content : ByteArray} (hfile : t.get? (l ++ ns) = some (.file content)) :
    Spells ignores lead (ms ++ ns) (ns.foldl Path.join start) := by
  obtain ⟨hlocate, hget⟩ := Tree.locate_of_find hstart
  have hns : ∀ n ∈ ns, Path.IsName n := fun n hn => ht.isName hfile n (List.mem_append_right l hn)
  refine ⟨?_, fun hreads => ?_⟩
  · rw [Path.components_foldl_join (Tree.follow_of_locate hlocate).2 hns, h.components, List.append_assoc,
      List.map_append]
  · by_cases hnil : ns = []
    · subst hnil
      rcases (h.leads hreads).itself with hspelt | hdirectory
      · exact hspelt
      · rw [List.append_nil, hdirectory l hlocate] at hfile
        cases hfile
    · exact (h.leads hreads).below ns hnil hns

theorem begins_of_isSpelt (hlead : IsLead root lead) (hroot : t.locate root = .ok l₀)
    (h : Path.IsSpelt lead start) : ∃ ms, Begins t ignores lead l₀ start ms := by
  obtain ⟨ms, hms, hnames, rfl⟩ := h
  exact ⟨ms, hnames, fun l hl => hlead.locate hroot hms hnames hl, hlead.components hms hnames,
    fun _ => leads_of_isSpelt ⟨ms, hms, hnames, rfl⟩⟩

/-- How the included entries are written so that the paths to a file are alike for the ignored ones. -/
inductive SpeltFor (root : Path) (ignores includes : List Text) : Path → Prop where
  /-- The root stands in front of all names. An entry without wildcards may have dots and further slashes where no
  ignored entry reads the text. -/
  | rooted (h : ∀ e ∈ includes,
      if Glob.isPattern e then Glob.IsPlain e ∧ Path.IsPlain root ∧ ∀ c ∈ root, Glob.isSign c = false
      else Path.IsPlain e ∨ Path.IsDownward e ∧ ¬ ReadsText ignores) :
      SpeltFor root ignores includes (Path.slashed root)
  /-- Patterns leave out the dot of the working directory. -/
  | current (hroot : root = ['.']) (hne : includes ≠ [])
      (h : ∀ e ∈ includes, Glob.isPattern e = true ∧ Glob.IsPlain e) : SpeltFor root ignores includes []

theorem SpeltFor.isLead (h : SpeltFor root ignores includes lead) (hroot : root ≠ []) : IsLead root lead := by
  cases h with
  | rooted => exact ⟨hroot, .inl rfl⟩
  | current hcurrent => exact ⟨hroot, .inr ⟨hcurrent, rfl⟩⟩

theorem begins_root (hroot : t.find root = .ok (l₀, .directory)) :
    Begins t ignores (Path.slashed root) l₀ root [] := by
  obtain ⟨hlocate, hget⟩ := Tree.locate_of_find hroot
  have hne := (Tree.follow_of_locate hlocate).2
  refine ⟨nofun, fun l hl => ?_, ?_, fun _ => leads_root ?_ hne⟩
  · rw [List.append_nil]
    exact Except.ok.inj (hl.symm.trans hlocate)
  · rw [Path.components_slashed_self hne]
    exact (List.append_nil _).symm
  · rw [Tree.isDirectory, hroot]

theorem begins_join (hroot : t.locate root = .ok l₀) {e : Text}
    (he : Path.IsPlain e ∨ Path.IsDownward e ∧ ¬ ReadsText ignores) :
    Begins t ignores (Path.slashed root) l₀ (Path.join root e) (Path.names e) := by
  have hne := (Tree.follow_of_locate hroot).2
  have hdown : Path.IsDownward e := he.elim Path.IsPlain.isDownward And.left
  refine ⟨fun n hn => hdown.isName hn, fun l hl => ?_, ?_, fun hreads => ?_⟩
  · rw [Path.join_eq hne hdown.1] at hl
    exact Tree.foldlM_step_down (fun n hn hvoid => hdown.isName_of_mem_segments hn hvoid)
      (Tree.foldlM_of_locate_slashed hroot hl)
  · rw [Path.components_join hne hdown, Path.components_slashed_self hne]
  · exact leads_join hne (he.resolve_right fun h => h.2 hreads)

theorem exists_begins (ht : t.IsProper) (hroot : t.find root = .ok (l₀, .directory))
    (h : SpeltFor root ignores includes lead) (hstart : start ∈ (starts t root includes).1) :
    ∃ ms, Begins t ignores lead l₀ start ms := by
  have hlocate := (Tree.locate_of_find hroot).1
  have hne := (Tree.follow_of_locate hlocate).2
  have hlead := h.isLead hne
  rw [starts] at hstart
  by_cases hnil : includes = []
  · cases h with
    | rooted =>
      rw [hnil, List.isEmpty_nil, if_pos rfl] at hstart
      rw [List.mem_singleton.mp hstart]
      exact ⟨[], begins_root hroot⟩
    | current _ hsome => exact absurd hnil hsome
  rw [if_neg (by simpa using hnil)] at hstart
  obtain ⟨e, he, hstart⟩ := List.mem_flatMap.mp hstart
  cases h with
  | rooted h =>
    have hentry := h e he
    split_ifs at hentry with hpattern
    · exact begins_of_isSpelt hlead hlocate (isSpelt_of_mem_included ht hne hentry.2 hpattern hentry.1 hstart)
    · rw [((mem_included_literal_iff (by simpa using hpattern)).mp hstart).2]
      exact ⟨Path.names e, begins_join hlocate hentry⟩
  | current hcurrent _ h =>
    subst hcurrent
    obtain ⟨hpattern, hplain⟩ := h e he
    exact begins_of_isSpelt hlead hlocate (isSpelt_of_mem_included_current ht hpattern hplain hstart)

/-- Whether some start leads to a location or above it. -/
def Reaches (t : Tree) (root : Path) (includes : List Text) (l : Location) : Prop :=
  ∃ start ∈ (starts t root includes).1, ∃ k d, t.find start = .ok (k, d) ∧ k <+: l

def displayed (t : Tree) (root : Path) (includes ignores : List Text) : List Path :=
  (files t root includes ignores).paths.map (Path.display root)

/-- A file that is reached is displayed by its names, unless the lead followed by these names is ignored. -/
theorem mem_displayed_iff (ht : t.IsProper) (hroot : t.find root = .ok (l₀, .directory))
    (h : SpeltFor root ignores includes lead) {content : ByteArray}
    (hfile : t.get? (l₀ ++ names) = some (.file content)) (hreach : Reaches t root includes (l₀ ++ names)) :
    Path.ofSegments names ∈ displayed t root includes ignores ↔
      isComponentFile (lead ++ Path.ofSegments names) = true ∧
        (Ignores.ofEntries root ignores).covers (lead ++ Path.ofSegments names) = false := by
  obtain ⟨hne, hnames, -⟩ := foldl_join_of_file ht hroot hfile
  have hlead := h.isLead (Tree.ne_nil_of_find hroot)
  rw [displayed, List.mem_map]
  constructor
  · rintro ⟨p, hp, hdisplay⟩
    obtain ⟨start, hstart, l, d, hfind, ns, content', hget, rfl, hcomponent, hcovers⟩ := mem_files_iff_below.mp hp
    obtain ⟨ms, hbegins⟩ := exists_begins ht hroot h hstart
    have hspells := hbegins.spells ht hfind hget
    -- What is displayed gives back the names, so this is the file.
    obtain rfl := hbegins.locate l (Tree.locate_of_find hfind).1
    rw [List.append_assoc] at hget
    obtain ⟨hne', hnames', -⟩ := foldl_join_of_file ht hroot hget
    obtain rfl : ms ++ ns = names := by
      rw [display_congr (hspells.components_eq hlead hne' hnames'), hlead.display hne' hnames'] at hdisplay
      exact Path.ofSegments_injective hne' hne hnames' hnames hdisplay
    have heq := hspells.components_eq hlead hne hnames
    exact ⟨isComponentFile_congr heq ▸ hcomponent,
      covers_eq_of_components_eq heq (hspells.eq_of_readsText hlead) ▸ hcovers⟩
  · rintro ⟨hcomponent, hcovers⟩
    obtain ⟨start, hstart, l, d, hfind, hprefix⟩ := hreach
    obtain ⟨ms, hbegins⟩ := exists_begins ht hroot h hstart
    obtain rfl := hbegins.locate l (Tree.locate_of_find hfind).1
    obtain ⟨ns, rfl⟩ := (List.prefix_append_right_inj l₀).mp hprefix
    rw [← List.append_assoc] at hfile
    have hspells := hbegins.spells ht hfind hfile
    have heq := hspells.components_eq hlead hne hnames
    refine ⟨_, mem_files_iff_below.mpr ⟨start, hstart, _, d, hfind, ns, content, hfile, rfl,
      (isComponentFile_congr heq).trans hcomponent,
      (covers_eq_of_components_eq heq (hspells.eq_of_readsText hlead)).trans hcovers⟩, ?_⟩
    rw [display_congr heq, hlead.display hne hnames]

/-- A directory that is ignored without wildcards covers all that lies below it where the root is the lead. -/
theorem covers_of_directory (hroot : root ≠ []) (hnames : ∀ n ∈ names, Path.IsName n) {e : Text} (he : e ∈ ignores)
    (hpattern : Glob.isPattern e = false) (hdown : Path.IsDownward e) (hne : names ≠ []) (h : Path.names e <+: names) :
    (Ignores.ofEntries root ignores).covers (Path.slashed root ++ Path.ofSegments names) = true := by
  rw [← Bool.not_eq_false, covers_eq_false_iff]
  intro hcovers
  refine hcovers.1 e he hpattern ?_
  rw [Path.components_join hroot hdown, Path.components_slashed_append hroot hne hnames]
  exact (List.prefix_append_right_inj _).mpr (h.map _)

/-- Included entries that write a file in one way decide alike whether it is ignored, and with the root in front no
file below an ignored directory is found. -/
theorem displayed_iff_of_speltFor (ht : t.IsProper) (hroot : t.find root = .ok (l₀, .directory))
    {content : ByteArray} (hfile : t.get? (l₀ ++ names) = some (.file content))
    (h₁ : SpeltFor root ignores includes₁ lead) (h₂ : SpeltFor root ignores includes₂ lead)
    (hreach₁ : Reaches t root includes₁ (l₀ ++ names)) (hreach₂ : Reaches t root includes₂ (l₀ ++ names)) :
    (Path.ofSegments names ∈ displayed t root includes₁ ignores ↔
      Path.ofSegments names ∈ displayed t root includes₂ ignores) ∧
    (lead = Path.slashed root → ∀ e ∈ ignores, Glob.isPattern e = false → Path.IsDownward e →
      Path.names e <+: names → Path.ofSegments names ∉ displayed t root includes₁ ignores) := by
  have hiff₁ := mem_displayed_iff ht hroot h₁ hfile hreach₁
  refine ⟨hiff₁.trans (mem_displayed_iff ht hroot h₂ hfile hreach₂).symm, ?_⟩
  rintro rfl e he hpattern hdown hbelow hmem
  obtain ⟨hne, hnames, -⟩ := foldl_join_of_file ht hroot hfile
  have hcovers := covers_of_directory (Tree.ne_nil_of_find hroot) hnames he hpattern hdown hne hbelow
  rw [(hiff₁.mp hmem).2] at hcovers
  cases hcovers

theorem displayed_iff_of_speltFor_named :
    Path.ofSegments ["ui".toList, "A.vue".toList] ∈
        displayed overlappingTree "src".toList [] ["gen".toList, "**/dist/**".toList] ↔
      Path.ofSegments ["ui".toList, "A.vue".toList] ∈
        displayed overlappingTree "src".toList ["u*".toList, "ui/".toList] ["gen".toList, "**/dist/**".toList] := by
  have hroot : overlappingTree.find "src".toList = .ok (["src".toList], .directory) := by rfl
  have hfile : overlappingTree.get? (["src".toList] ++ ["ui".toList, "A.vue".toList]) =
      some (.file (Tree.encode "<template/>".toList)) := by rfl
  have hfind : overlappingTree.find "src/ui".toList = .ok (["src".toList, "ui".toList], .directory) := by rfl
  exact (displayed_iff_of_speltFor (by decide +kernel) hroot hfile (.rooted (by decide)) (.rooted (by decide))
    ⟨"src".toList, by decide +kernel, _, _, hroot, by decide⟩
    ⟨"src/ui".toList, by decide +kernel, _, _, hfind, by decide⟩).1

/-- A pattern leaves out the dot of the working directory, and what it reaches is no longer below an ignored
directory. -/
theorem displayed_ne_of_pattern :
    Reaches overlappingTree ['.'] [] ["src".toList, "ui".toList, "A.vue".toList] ∧
      Reaches overlappingTree ['.'] ["s*".toList] ["src".toList, "ui".toList, "A.vue".toList] ∧
      "src/ui/A.vue".toList ∉ displayed overlappingTree ['.'] [] ["src/ui".toList] ∧
      "src/ui/A.vue".toList ∈ displayed overlappingTree ['.'] ["s*".toList] ["src/ui".toList] := by
  have hroot : overlappingTree.find ['.'] = .ok ([], .directory) := by rfl
  have hsrc : overlappingTree.find "src".toList = .ok (["src".toList], .directory) := by rfl
  exact ⟨⟨['.'], by decide +kernel, _, _, hroot, by decide⟩, ⟨"src".toList, by decide +kernel, _, _, hsrc, by decide⟩,
    by decide +kernel, by decide +kernel⟩

end SfcContract.Scan
