import SfcContract.Proofs.Glob.Placed
import SfcContract.Proofs.Scan.Distinct

/-!
# One directory under two names

The name of the scanned directory stands in front of every path of a scan. It is left out when a path is
displayed, but ignored patterns are matched with the whole path, and included patterns begin with the name. A
scan gives the same under two names that the configuration does not tell apart.
-/

namespace SfcContract

namespace Config

variable {t t₁ t₂ T : Tree} {r r₁ r₂ : Text}

theorem ancestors_name (hr : Path.IsName r) : Path.ancestors r = [r, []] := by
  have hsegments := Path.segments_of_not_mem hr.not_mem
  have habsolute : Path.isAbsolute r = false := Path.isAbsolute_of_not_mem hr.not_mem
  have hhead : (Path.segments r).head? ≠ some ['.'] := by
    rw [hsegments]
    exact fun h => hr.2.1 (Option.some.inj h)
  have hlead : Path.lead r = (none, [r]) := by
    rw [Path.lead, habsolute, if_neg Bool.false_ne_true, if_neg hhead, hsegments]
  have hbody : Path.dropLastVoid [r] = [r] := by
    have hkept : ¬ Path.isVoid r = true := by
      rw [hr.isVoid]
      exact Bool.false_ne_true
    rw [Path.dropLastVoid, List.reverse_singleton, List.dropWhile_cons_of_neg hkept, List.reverse_singleton]
  have hparent : Path.parent? r = some [] := by
    rw [Path.parent?, hlead]
    dsimp only
    rw [hbody]
    rfl
  have hempty (fuel : Nat) : Path.ancestorsFrom fuel [] = [[]] := by cases fuel <;> rfl
  obtain ⟨fuel, hfuel⟩ : ∃ fuel, r.length = fuel + 1 :=
    Nat.exists_eq_add_one_of_ne_zero fun h => hr.ne_nil (List.length_eq_zero_iff.mp h)
  rw [Path.ancestors, hfuel, Path.ancestorsFrom, hparent]
  dsimp only
  rw [hempty]

theorem descends_fileName : Path.Descends ('/' :: fileName) 1 := ⟨.inr rfl, by decide⟩

/-- The configuration file of a directory comes before any other one. -/
theorem find?_of_holds (h : t.Holds r T) (hfile : (T.get? [fileName]).isSome = true) :
    find? t r = some (Path.join r fileName) := by
  have hjoin : Path.join r fileName = r ++ '/' :: fileName := Path.join_name h.isName (by decide)
  have hcontains : t.contains (Path.join r fileName) = true := by
    rw [hjoin, h.contains descends_fileName, ← hfile]
    exact contains_of_locate (locate_current T)
  rw [find?, ancestors_name h.isName, search, if_pos hcontains]

/-- A directory with a configuration file, or without any, has the same configuration under each name. -/
theorem load_congr (h₁ : t₁.Holds r₁ T) (h₂ : t₂.Holds r₂ T)
    (hconfig : (T.get? [fileName]).isSome = true ∨ find? t₁ r₁ = none ∧ find? t₂ r₂ = none) :
    (load t₁ r₁).toOption = (load t₂ r₂).toOption := by
  rcases hconfig with hfile | ⟨hnone₁, hnone₂⟩
  · have hread {t : Tree} {r : Text} (h : t.Holds r T) :
        t.read (Path.join r fileName) = T.read ('.' :: '/' :: fileName) := by
      rw [Path.join_name h.isName (by decide)]
      exact h.read descends_fileName
    rw [load, load, find?_of_holds h₁ hfile, find?_of_holds h₂ hfile]
    dsimp only
    rw [hread h₁, hread h₂]
    cases T.read ('.' :: '/' :: fileName) with
    | error fault => rfl
    | ok content =>
      dsimp only
      cases parse content with
      | error fault => rfl
      | ok config => rfl
  · rw [load, load, hnone₁, hnone₂]

end Config

namespace Scan

open Glob (HasCounterpart)

variable {t t₁ t₂ T : Tree} {r r₁ r₂ s entry : Text} {d : Nat} {start file : Path} {includes ignores : List Text}

/-- Whether an included entry never leads out of the scanned directory. A pattern that cannot be read leads
nowhere. -/
def staysInside (entry : Text) : Bool :=
  !Path.isAbsolute entry &&
    if Glob.isPattern entry then
      match (Glob.componentTexts entry).mapM Glob.parse with
      | .ok components => Glob.staysBelow 0 components
      | .error _ => true
    else ((Path.segments entry).foldlM Path.climb 0).isSome

example : staysInside "src/../lib".toList = true ∧ staysInside "src/../../lib".toList = false ∧
    staysInside "/src".toList = false := by decide

/-- Whether a configuration means the same for the same directory under two names. -/
structure Overlooks (config : Config) (r₁ r₂ : Text) : Prop where
  /-- No ignored pattern matches a path behind one of the names alone. -/
  ignores : ∀ entry ∈ config.ignores, Glob.isPattern entry = true → ∀ tokens, Glob.parse entry = .ok tokens →
    ∀ u, Glob.matchesText tokens (r₁ ++ '/' :: u) = Glob.matchesText tokens (r₂ ++ '/' :: u)
  inside : ∀ entry ∈ config.includes, staysInside entry = true
  /-- Behind an included pattern the names are read as they are written. -/
  noSign : ∀ entry ∈ config.includes, Glob.isPattern entry = true → ∀ c ∈ r₁ ++ r₂, Glob.isSign c = false

theorem Overlooks.symm {config : Config} (h : Overlooks config r₁ r₂) : Overlooks config r₂ r₁ where
  ignores entry hentry hpattern tokens hparse u := (h.ignores entry hentry hpattern tokens hparse u).symm
  inside := h.inside
  noSign entry hentry hpattern c hc := h.noSign entry hentry hpattern c (by
    rw [List.mem_append] at hc ⊢
    exact hc.symm)

/-- The default configuration only minds the names that it ignores. -/
theorem overlooks_default (h₁ : Path.IsName r₁) (h₂ : Path.IsName r₂)
    (hr : ∀ r ∈ [r₁, r₂], r ≠ "node_modules".toList ∧ r ≠ "dist".toList) : Overlooks {} r₁ r₂ where
  ignores entry hentry _ tokens hparse u := by
    have hmodules : Glob.parse "**/node_modules/**".toList = .ok (Glob.everythingIn "node_modules".toList) := by
      decide
    have hdist : Glob.parse "**/dist/**".toList = .ok (Glob.everythingIn "dist".toList) := by decide
    obtain ⟨hne₁, hne₁'⟩ := hr r₁ (by simp)
    obtain ⟨hne₂, hne₂'⟩ := hr r₂ (by simp)
    have hentries : entry = "**/node_modules/**".toList ∨ entry = "**/dist/**".toList := by
      simpa only [List.mem_cons, List.not_mem_nil, or_false] using hentry
    rcases hentries with rfl | rfl
    · obtain rfl := Except.ok.inj (hmodules.symm.trans hparse)
      rw [Glob.matchesText_everythingIn h₁.not_mem (by decide) hne₁,
        Glob.matchesText_everythingIn h₂.not_mem (by decide) hne₂]
    · obtain rfl := Except.ok.inj (hdist.symm.trans hparse)
      rw [Glob.matchesText_everythingIn h₁.not_mem (by decide) hne₁',
        Glob.matchesText_everythingIn h₂.not_mem (by decide) hne₂']
  inside := by nofun
  noSign := by nofun

theorem hasCounterpart_of_mem_included (h₁ : t₁.Holds r₁ T) (h₂ : t₂.Holds r₂ T) (hT : T.IsProper)
    (hinside : staysInside entry = true)
    (hsigns : Glob.isPattern entry = true → ∀ c ∈ r₁ ++ r₂, Glob.isSign c = false)
    (hstart : start ∈ (included t₁ r₁ entry).1) : HasCounterpart r₁ r₂ start (included t₂ r₂ entry).1 := by
  rw [staysInside, Bool.and_eq_true, Bool.not_eq_true'] at hinside
  obtain ⟨hrelative, hinside⟩ := hinside
  by_cases hpattern : Glob.isPattern entry = true
  · rw [if_pos hpattern] at hinside
    obtain ⟨paths, hpaths, hstart⟩ := exists_of_mem_included hpattern hstart
    rw [Path.join_name h₁.isName hrelative] at hpaths
    obtain ⟨hsigns₁, hsigns₂⟩ := List.forall_mem_append.mp (hsigns hpattern)
    have hstays : ∀ components, (Glob.componentTexts entry).mapM Glob.parse = .ok components →
        Glob.staysBelow 0 components = true := by
      intro components hcomponents
      rwa [hcomponents] at hinside
    obtain ⟨paths', hpaths', hcounterpart⟩ :=
      Glob.hasCounterpart_of_mem_directories h₁ h₂ hT hsigns₁ hsigns₂ hstays hpaths hstart
    rw [included, if_pos hpattern, Path.join_name h₂.isName hrelative, hpaths']
    exact hcounterpart
  · rw [if_neg hpattern] at hinside
    obtain ⟨k, hk⟩ := Option.isSome_iff_exists.mp hinside
    have hdescends : Path.Descends ('/' :: entry) k := Path.descends_nil.append hk
    rw [included, if_neg hpattern, Path.join_name h₁.isName hrelative, h₁.contains hdescends] at hstart
    rw [included, if_neg hpattern, Path.join_name h₂.isName hrelative, h₂.contains hdescends]
    split_ifs at hstart ⊢ with hcontains
    · exact ⟨_, k, hdescends, List.mem_singleton.mp hstart, List.mem_singleton_self _⟩
    · cases hstart

theorem hasCounterpart_of_mem_starts (h₁ : t₁.Holds r₁ T) (h₂ : t₂.Holds r₂ T) (hT : T.IsProper) {config : Config}
    (hconfig : Overlooks config r₁ r₂) (hstart : start ∈ (starts t₁ r₁ config.includes).1) :
    HasCounterpart r₁ r₂ start (starts t₂ r₂ config.includes).1 := by
  rw [starts] at hstart ⊢
  split_ifs at hstart ⊢ with hnil
  · refine ⟨[], 0, Path.descends_nil, ?_, ?_⟩
    · rw [List.append_nil, List.mem_singleton.mp hstart]
    · rw [List.append_nil]
      exact List.mem_singleton_self r₂
  · obtain ⟨entry, hentry, hstart⟩ := List.mem_flatMap.mp hstart
    have hcounterpart := hasCounterpart_of_mem_included h₁ h₂ hT (hconfig.inside entry hentry)
      (hconfig.noSign entry hentry) hstart
    exact hcounterpart.mono fun p hp => List.mem_flatMap.mpr ⟨entry, hentry, hp⟩

theorem covers_congr (h₁ : Path.IsName r₁) (h₂ : Path.IsName r₂) {config : Config}
    (hconfig : Overlooks config r₁ r₂) (hs : Path.Trails s) (hne : s ≠ []) :
    (Ignores.ofEntries r₁ config.ignores).covers (r₁ ++ s) =
      (Ignores.ofEntries r₂ config.ignores).covers (r₂ ++ s) := by
  obtain ⟨u, rfl⟩ := List.head?_eq_some_iff.mp (hs.resolve_left hne)
  have hpaths : (Ignores.ofEntries r₁ config.ignores).paths.any (Path.isBelow (r₁ ++ '/' :: u)) =
      (Ignores.ofEntries r₂ config.ignores).paths.any (Path.isBelow (r₂ ++ '/' :: u)) := by
    rw [Ignores.ofEntries, Ignores.ofEntries, List.any_map, List.any_map]
    congr 1
    funext entry
    by_cases habsolute : Path.isAbsolute entry = true
    · rw [Function.comp_apply, Function.comp_apply, Path.join_absolute r₁ habsolute,
        Path.join_absolute r₂ habsolute, Path.isBelow_absolute h₁ hs habsolute, Path.isBelow_absolute h₂ hs habsolute]
    · rw [Function.comp_apply, Function.comp_apply, Path.join_name h₁ (Bool.eq_false_iff.mpr habsolute),
        Path.join_name h₂ (Bool.eq_false_iff.mpr habsolute),
        Path.isBelow_name_append h₁ hs (Path.trails_slash entry),
        Path.isBelow_name_append h₂ hs (Path.trails_slash entry)]
  have hpatterns : (Ignores.ofEntries r₁ config.ignores).patterns.any (Glob.matchesText · (r₁ ++ '/' :: u)) =
      (Ignores.ofEntries r₂ config.ignores).patterns.any (Glob.matchesText · (r₂ ++ '/' :: u)) := by
    rw [Bool.eq_iff_iff, List.any_eq_true, List.any_eq_true]
    refine exists_congr fun tokens => and_congr_right fun hmem => ?_
    obtain ⟨entry, hentry, hparse⟩ := List.mem_filterMap.mp hmem
    obtain ⟨hentry, hpattern⟩ := List.mem_filter.mp hentry
    cases htokens : Glob.parse entry with
    | error problem =>
      rw [htokens] at hparse
      cases hparse
    | ok parsed =>
      rw [htokens] at hparse
      obtain rfl := Option.some.inj hparse
      rw [hconfig.ignores entry hentry hpattern parsed htokens u]
  rw [Ignores.covers, Ignores.covers, hpaths, hpatterns]

theorem hasCounterpart_of_mem_componentFiles (h₁ : t₁.Holds r₁ T) (h₂ : t₂.Holds r₂ T) (hT : T.IsProper)
    {config : Config} (hconfig : Overlooks config r₁ r₂) (hs : Path.Descends s d) {found : List Path}
    (h : componentFiles t₁ (Ignores.ofEntries r₁ config.ignores) (r₁ ++ s) = .ok found) (hfile : file ∈ found) :
    ∃ found', componentFiles t₂ (Ignores.ofEntries r₂ config.ignores) (r₂ ++ s) = .ok found' ∧
      HasCounterpart r₁ r₂ file found' := by
  obtain ⟨entries, e, hentries, hmem, hcond⟩ := (mem_componentFiles_iff h).mp hfile
  obtain ⟨entries', hentries'⟩ := h₁.below_congr h₂ hs hentries
  obtain ⟨found', hfound'⟩ := exists_componentFiles (Ignores.ofEntries r₂ config.ignores) hentries'
  obtain ⟨l, ns, hl, hget, rfl⟩ := h₁.exists_of_mem_below hT hs hentries hmem
  have hbelow := hs.below fun n hn => hT.isName hget n (List.mem_append_right l hn)
  -- Only the directory itself is at depth zero, and it is no file.
  have hdepth : d + ns.length ≠ 0 := by
    rw [← h₁.length_of_locate hs hl, ← List.length_append]
    intro hzero
    rw [List.length_eq_zero_iff.mp hzero] at hget
    obtain rfl := Option.some.inj hget
    cases hcond
  have hadds := hbelow.trailComponents_ne_nil hdepth
  have hne : Path.below s ns ≠ [] := fun hnil => hadds (by rw [hnil]; rfl)
  have hmem' := h₂.mem_below hT hs hentries' hl hget
  refine ⟨found', hfound', _, _, hbelow, rfl, ?_⟩
  refine (mem_componentFiles_iff hfound').mpr ⟨entries', e, hentries', hmem', ?_⟩
  rw [isComponentFile, Path.extension?_name_append h₂.isName h₁.isName hbelow.trails hadds,
    ← covers_congr h₁.isName h₂.isName hconfig hbelow.trails hne]
  exact hcond

theorem hasCounterpart_of_mem_files (h₁ : t₁.Holds r₁ T) (h₂ : t₂.Holds r₂ T) (hT : T.IsProper) {config : Config}
    (hconfig : Overlooks config r₁ r₂) (hfile : file ∈ (files t₁ r₁ config.includes config.ignores).paths) :
    HasCounterpart r₁ r₂ file (files t₂ r₂ config.includes config.ignores).paths := by
  obtain ⟨start, hstart, found, hfound, hfile⟩ := mem_files_iff.mp hfile
  obtain ⟨s, d, hs, rfl, hstart'⟩ := hasCounterpart_of_mem_starts h₁ h₂ hT hconfig hstart
  obtain ⟨found', hfound', hcounterpart⟩ :=
    hasCounterpart_of_mem_componentFiles h₁ h₂ hT hconfig hs hfound hfile
  exact hcounterpart.mono fun p hp => mem_files_iff.mpr ⟨_, hstart', found', hfound', hp⟩

theorem exists_map_of_counterparts {files₁ files₂ : List Path}
    (h : ∀ file ∈ files₁, HasCounterpart r₁ r₂ file files₂) : ∃ texts : List Text,
      (∀ s ∈ texts, (∃ d, Path.Descends s d) ∧ r₂ ++ s ∈ files₂) ∧ files₁ = texts.map (r₁ ++ ·) := by
  induction files₁ with
  | nil => exact ⟨[], nofun, rfl⟩
  | cons file files₁ ih =>
    obtain ⟨s, d, hs, rfl, hmem⟩ := h file List.mem_cons_self
    obtain ⟨texts, htexts, rfl⟩ := ih fun f hf => h f (List.mem_cons_of_mem _ hf)
    exact ⟨s :: texts, List.forall_mem_cons.mpr ⟨⟨⟨d, hs⟩, hmem⟩, htexts⟩, rfl⟩

/-- The files of two scans are the same texts behind the two names, in the same order. -/
theorem exists_files (h₁ : t₁.Holds r₁ T) (h₂ : t₂.Holds r₂ T) (hT : T.IsProper) {config : Config}
    (hconfig : Overlooks config r₁ r₂) : ∃ texts : List Text, (∀ s ∈ texts, ∃ d, Path.Descends s d) ∧
      (files t₁ r₁ config.includes config.ignores).paths = texts.map (r₁ ++ ·) ∧
      (files t₂ r₂ config.includes config.ignores).paths = texts.map (r₂ ++ ·) := by
  have hthere : ∀ file ∈ (files t₁ r₁ config.includes config.ignores).paths, HasCounterpart r₁ r₂ file
      (files t₂ r₂ config.includes config.ignores).paths :=
    fun file => hasCounterpart_of_mem_files h₁ h₂ hT hconfig
  have hback : ∀ file ∈ (files t₂ r₂ config.includes config.ignores).paths, HasCounterpart r₂ r₁ file
      (files t₁ r₁ config.includes config.ignores).paths :=
    fun file => hasCounterpart_of_mem_files h₂ h₁ hT hconfig.symm
  have hnodup₁ := nodup_files t₁ r₁ config.includes config.ignores
  have hnodup₂ := nodup_files t₂ r₂ config.includes config.ignores
  have hsorted₁ := pairwise_files t₁ r₁ config.includes config.ignores
  have hsorted₂ := pairwise_files t₂ r₂ config.includes config.ignores
  generalize (files t₁ r₁ config.includes config.ignores).paths = files₁ at *
  generalize (files t₂ r₂ config.includes config.ignores).paths = files₂ at *
  obtain ⟨texts, htexts, rfl⟩ := exists_map_of_counterparts hthere
  refine ⟨texts, fun s hs => (htexts s hs).1, rfl, ?_⟩
  have hnodup : (texts.map (r₂ ++ ·)).Nodup := (hnodup₁.of_map _).map (List.append_right_injective r₂)
  have hsorted : (texts.map (r₂ ++ ·)).Pairwise fun a b => Text.isAtMost a b = true := by
    rw [List.pairwise_map] at hsorted₁ ⊢
    simp only [Text.isAtMost_append_left] at hsorted₁ ⊢
    exact hsorted₁
  refine List.Perm.eq_of_pairwise (fun a b _ _ => Text.isAtMost_antisymm) hsorted₂ hsorted ?_
  refine (List.perm_ext_iff_of_nodup hnodup₂ hnodup).mpr fun file => ⟨fun hfile => ?_, fun hfile => ?_⟩
  · obtain ⟨s, d, -, rfl, hmem⟩ := hback file hfile
    obtain ⟨s', hs', heq⟩ := List.mem_map.mp hmem
    exact List.mem_map.mpr ⟨s, List.append_cancel_left heq ▸ hs', rfl⟩
  · obtain ⟨s, hs, rfl⟩ := List.mem_map.mp hfile
    exact (htexts s hs).2

def outcome? (t : Tree) (q : Request) : Option Outcome := (plan t q).toOption.map (·.analyze t)

theorem record_congr (h₁ : t₁.Holds r₁ T) (h₂ : t₂.Holds r₂ T) (hs : Path.Descends s d) :
    record t₁ r₁ (r₁ ++ s) = record t₂ r₂ (r₂ ++ s) := by
  rw [record, record, h₁.read hs, h₂.read hs, Path.display_name_append h₁.isName hs.trails,
    Path.display_name_append h₂.isName hs.trails]

theorem analyze_eq_of_records {p₁ p₂ : Plan}
    (h : p₁.files.map (record t₁ p₁.root) = p₂.files.map (record t₂ p₂.root)) : p₁.analyze t₁ = p₂.analyze t₂ := by
  rw [Plan.analyze, Plan.analyze, h]

theorem exists_plan {q : Request} {loaded : Config.Loaded} (hroot : t.isDirectory q.root = true)
    (hload : Config.load t q.root = .ok loaded) : ∃ p, plan t q = .ok p ∧ p.root = q.root ∧
      p.files = (files t q.root loaded.config.includes loaded.config.ignores).paths := by
  rw [plan, hroot, hload]
  exact ⟨_, rfl, rfl, rfl⟩

theorem outcome?_of_load_error {q : Request} {failure : Failure} (hload : Config.load t q.root = .error failure) :
    outcome? t q = none := by
  rw [outcome?, plan, hload]
  split_ifs <;> rfl

/-- A directory that is scanned under two names has the same contracts and the same skipped files, in the same
order, when its configuration does not tell the names apart. -/
theorem outcome_relocated {q : Request} (hT : T.IsProper) (h₁ : t₁.Holds r₁ T) (h₂ : t₂.Holds r₂ T)
    (hconfig : (T.get? [Config.fileName]).isSome = true ∨ Config.find? t₁ r₁ = none ∧ Config.find? t₂ r₂ = none)
    (hnames : ∀ loaded, Config.load t₁ r₁ = .ok loaded → Overlooks loaded.config r₁ r₂) :
    outcome? t₁ { q with root := r₁ } = outcome? t₂ { q with root := r₂ } := by
  have hload := Config.load_congr h₁ h₂ hconfig
  cases hload₁ : Config.load t₁ r₁ with
  | error failure =>
    cases hload₂ : Config.load t₂ r₂ with
    | error failure' => rw [outcome?_of_load_error hload₁, outcome?_of_load_error hload₂]
    | ok loaded =>
      rw [hload₁, hload₂] at hload
      cases hload
  | ok loaded =>
    cases hload₂ : Config.load t₂ r₂ with
    | error failure =>
      rw [hload₁, hload₂] at hload
      cases hload
    | ok loaded' =>
      rw [hload₁, hload₂] at hload
      obtain rfl := Option.some.inj hload
      obtain ⟨p₁, hplan₁, hroot₁, hfiles₁⟩ := exists_plan (q := { q with root := r₁ }) h₁.isDirectory_name hload₁
      obtain ⟨p₂, hplan₂, hroot₂, hfiles₂⟩ := exists_plan (q := { q with root := r₂ }) h₂.isDirectory_name hload₂
      obtain ⟨texts, hdescends, htexts₁, htexts₂⟩ := exists_files h₁ h₂ hT (hnames loaded hload₁)
      rw [outcome?, outcome?, hplan₁, hplan₂]
      refine congrArg some (analyze_eq_of_records ?_)
      rw [hfiles₁, hfiles₂, hroot₁, hroot₂, htexts₁, htexts₂, List.map_map, List.map_map]
      refine List.map_congr_left fun s hs => ?_
      obtain ⟨d, hd⟩ := hdescends s hs
      exact record_congr h₁ h₂ hd

def patternedTree : Tree := configuredTree "\x7b\"includes\": [\"s*\"]\x7d".toList

theorem outcome_relocated_web :
    outcome? (patternedTree.place "app".toList) { root := "app".toList } =
      outcome? (patternedTree.place "web".toList) { root := "web".toList } ∧
    (outcome? (patternedTree.place "web".toList) { root := "web".toList }).map (·.components.map Contract.path) =
      some ["src/ui/A.vue".toList] := by
  have hproper : patternedTree.IsProper := by decide
  have happ : (patternedTree.place "app".toList).Holds "app".toList patternedTree := Tree.holds_place (by decide) _
  have hweb : (patternedTree.place "web".toList).Holds "web".toList patternedTree := Tree.holds_place (by decide) _
  have hload : Config.load (patternedTree.place "app".toList) "app".toList =
      .ok ⟨{ includes := ["s*".toList] }, true⟩ := by decide +kernel
  have hnames : Overlooks { includes := ["s*".toList] } "app".toList "web".toList :=
    ⟨(overlooks_default happ.isName hweb.isName (by decide)).ignores, by decide, by decide⟩
  refine ⟨outcome_relocated (q := {}) hproper happ hweb (.inl rfl) fun loaded hloaded => ?_, by decide +kernel⟩
  obtain rfl := Except.ok.inj (hload.symm.trans hloaded)
  exact hnames

def plainTree : Tree := Tree.empty.set ["A.vue".toList] (.file (Tree.encode "<template/>".toList))

/-- The default configuration ignores all of a directory that is named like one it ignores, and in front of an
included pattern a name can be read as a pattern itself. -/
theorem outcome_ne_of_name :
    outcome? (plainTree.place "dist".toList) { root := "dist".toList } ≠
      outcome? (plainTree.place "app".toList) { root := "app".toList } ∧
    outcome? (patternedTree.place "app[1]".toList) { root := "app[1]".toList } ≠
      outcome? (patternedTree.place "app".toList) { root := "app".toList } := by
  constructor
  · intro h
    have hpaths := congrArg (Option.map (·.components.map Contract.path)) h
    exact absurd hpaths (by decide +kernel)
  · intro h
    have hpaths := congrArg (Option.map (·.components.map Contract.path)) h
    exact absurd hpaths (by decide +kernel)

end Scan

end SfcContract
