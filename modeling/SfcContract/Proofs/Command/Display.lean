import SfcContract.Proofs.Command.Outputs
import SfcContract.Proofs.Manifest.RoundTrip
import SfcContract.Proofs.Scan.Isolation
import SfcContract.Proofs.Scan.Plan

/-!
# What a scan wrote is displayed

A scan of the working directory and a display find the manifest by the same configuration, as long as the
outputs of the scan leave the configuration file alone. The display then shows what the scan found.
-/

namespace SfcContract

namespace Scan

variable {t : Tree}

/-- What was found in files of less than `2 ^ 63` bytes fits into a manifest. -/
theorem fits_analyze (hsize : ∀ l content, t.get? l = some (.file content) → content.size < Nat.pow 2 63)
    (p : Plan) : ∀ c ∈ (p.analyze t).components, c.metrics.Fits := by
  intro c hc
  rw [(records_analyze p t).contracts.mem_iff, List.mem_filterMap] at hc
  obtain ⟨file, -, hc⟩ := hc
  obtain ⟨source, hsource, rfl⟩ := Option.map_eq_some_iff.mp hc
  obtain ⟨content, hcontent, hdecode⟩ := Option.bind_eq_some_iff.mp hsource
  obtain ⟨l, -, hget⟩ := Tree.content?_eq_some_iff.mp hcontent
  refine Contract.fits_analyze (Nat.lt_of_le_of_lt ?_ (hsize l content hget)) _
  have hlength := Text.length_le_bytes source
  rw [Text.bytes_of_decode? hdecode] at hlength
  exact hlength

end Scan

namespace Command

/-- What a display answers when some contracts match, or none. -/
structure Displays (s : Setting) (q : ShowRequest) (manifestPath : Path) (found : List Contract) (run : Run) :
    Prop where
  none : found = [] → run.status = .ok 1 ∧ run.output = Terminal.noMatch s.color q.query manifestPath
  /-- The selected contract is shown in full, below a list of all that match when there are several. -/
  selected : 1 ≤ q.select → q.select ≤ found.length → ∃ c, found[q.select - 1]? = some c ∧
    run.status = .ok 0 ∧ run.output =
      (if 1 < found.length then Terminal.matchList s.color found (q.select - 1) ++ ['\n'] else []) ++
        Terminal.contract s.color c
  outOfRange : found ≠ [] → ¬ (1 ≤ q.select ∧ q.select ≤ found.length) →
    run.status = .error (.selectOutOfRange q.select found.length)

variable {t : Tree} {q : ShowRequest} {p : Path} {m : Manifest}

theorem runDisplay_of_load (s : Setting) (hp : manifestPathOf t q = .ok p) (hm : Manifest.load t p = .ok m) :
    runDisplay s t q = match pick m q with
      | .error failure => { tree := t, status := .error failure }
      | .ok none => { tree := t, output := Terminal.noMatch s.color q.query p, status := .ok 1 }
      | .ok (some (found, i)) => { tree := t, output := Terminal.selection s.color found i, status := .ok 0 } := by
  rw [runDisplay, hp]
  simp only [bind, Except.bind, hm]
  cases pick m q with
  | error failure => rfl
  | ok picked => cases picked <;> rfl

theorem displays_of_load (s : Setting) (hp : manifestPathOf t q = .ok p) (hm : Manifest.load t p = .ok m) :
    Displays s q p (m.filter q.query) (runDisplay s t q) := by
  have hrun := runDisplay_of_load s hp hm
  rw [pick] at hrun
  refine ⟨?_, ?_, ?_⟩
  · intro hnone
    rw [hnone] at hrun
    rw [hrun]
    exact ⟨rfl, rfl⟩
  · intro hone hlast
    have hsome : ¬ (m.filter q.query).isEmpty = true := by
      rw [List.isEmpty_iff_length_eq_zero]
      omega
    rw [if_neg hsome, if_neg (by omega)] at hrun
    have hc := List.getElem?_eq_getElem (l := m.filter q.query) (i := q.select - 1) (by omega)
    refine ⟨_, hc, ?_⟩
    rw [hrun]
    refine ⟨rfl, ?_⟩
    dsimp only
    rw [Terminal.selection, hc]
  · intro hsome hrange
    rw [Ne, ← List.isEmpty_iff] at hsome
    rw [if_neg hsome, if_pos (by omega)] at hrun
    rw [hrun]

/-- The outputs of a plan are different files, and neither is the configuration file nor has it on the way. -/
structure KeepsConfiguration (t : Tree) (plan : Scan.Plan) : Prop where
  manifest : t.locate plan.manifestPath ≠ .ok [Config.fileName]
  report : ∀ p ∈ plan.reportPath, t.locate p ≠ .ok [Config.fileName]
  apart : ∀ p ∈ plan.reportPath, t.locate p ≠ t.locate plan.manifestPath
  above : ∀ p ∈ plan.outputs, ∀ directory ∈ p.above, t.locate directory ≠ .ok [Config.fileName]

variable {s : Setting} {r : Scan.Request} {plan : Scan.Plan} {status : Nat}

theorem load_config_of_scan (hplan : Scan.plan t r = .ok plan)
    (hkeeps : KeepsConfiguration (runScan s t r).tree plan) :
    Config.load (runScan s t r).tree ['.'] = Config.load t ['.'] := by
  apply Config.load_current_congr
  refine (changesAt_runScan hplan).get?_eq ?_ ?_
  · intro p hp
    rcases List.mem_cons.mp hp with rfl | hp
    · exact hkeeps.manifest
    · exact hkeeps.report p (Option.mem_toList.mp hp)
  · intro directory hdirectory
    obtain ⟨p, hp, habove⟩ := List.mem_flatMap.mp hdirectory
    exact hkeeps.above p hp directory habove

theorem load_manifest_of_scan (hplan : Scan.plan t r = .ok plan) (hscan : (runScan s t r).status = .ok status)
    (hkeeps : KeepsConfiguration (runScan s t r).tree plan)
    (hsize : ∀ l content, t.get? l = some (.file content) → content.size < Nat.pow 2 63) :
    Manifest.load (runScan s t r).tree plan.manifestPath = .ok (manifestOf s t plan) := by
  have hread : (runScan s t r).tree.read plan.manifestPath = .ok (manifestOf s t plan).fileText := by
    rw [Tree.read_eq_ok_iff, (content?_runScan hplan hscan hkeeps.apart).1]
    exact Tree.decode?_encode _
  rw [Manifest.load, hread]
  dsimp only
  rw [Manifest.parse_fileText (m := manifestOf s t plan) (Scan.fits_analyze hsize plan)]

/-- After a scan of the working directory that ended well, a display loads the manifest that the scan built
and shows what of it a query matches. -/
theorem runDisplay_of_scan (s' : Setting) (hroot : r.root = ['.']) (hout : r.out = none)
    (hplan : Scan.plan t r = .ok plan) (hscan : (runScan s t r).status = .ok status)
    (hkeeps : KeepsConfiguration (runScan s t r).tree plan)
    (hsize : ∀ l content, t.get? l = some (.file content) → content.size < Nat.pow 2 63)
    (hq : q.manifest = none) :
    manifestPathOf (runScan s t r).tree q = .ok plan.manifestPath ∧
      Manifest.load (runScan s t r).tree plan.manifestPath =
        .ok (Manifest.ofScan s.now (plan.analyze t).components) ∧
      Displays s' q plan.manifestPath ((plan.analyze t).components.filter (·.answers q.query))
        (runDisplay s' (runScan s t r).tree q) := by
  have hpath : manifestPathOf (runScan s t r).tree q = .ok plan.manifestPath := by
    rw [manifestPathOf, hq]
    dsimp only
    rw [load_config_of_scan hplan hkeeps]
    exact Scan.manifestPath_of_plan hroot hout hplan
  have hload := load_manifest_of_scan hplan hscan hkeeps hsize
  exact ⟨hpath, hload, displays_of_load s' hpath hload⟩

def scannedTree : Tree :=
  Tree.empty.set ["App.vue".toList] (.file (Tree.encode "<template><img></template>".toList))

def scannedPlan : Scan.Plan where
  root := ['.']
  files := ["./App.vue".toList]
  manifestPath := "vuepact.manifest.json".toList
  reportPath := some "out/report.md".toList
  notes := [.defaultConfig]

def reportedRun : Run := runScan {} scannedTree { report := some "out/report.md".toList }

theorem runDisplay_of_scan_reported : reportedRun.status = .ok 0 ∧ KeepsConfiguration reportedRun.tree scannedPlan ∧
    Manifest.load reportedRun.tree "vuepact.manifest.json".toList =
      .ok (Manifest.ofScan [] (scannedPlan.analyze scannedTree).components) := by
  have hplan : Scan.plan scannedTree { report := some "out/report.md".toList } = .ok scannedPlan := by
    decide +kernel
  have hscan : reportedRun.status = .ok 0 := by decide +kernel
  have hkeeps : KeepsConfiguration reportedRun.tree scannedPlan := by
    refine ⟨?_, ?_, ?_, ?_⟩ <;> decide +kernel
  have hsize : ∀ l content, scannedTree.get? l = some (.file content) → content.size < Nat.pow 2 63 := by
    intro l content h
    rw [scannedTree, Tree.get?_set _ (by decide)] at h
    split_ifs at h
    · obtain rfl := Entry.file.inj (Option.some.inj h)
      decide +kernel
    · rw [Tree.get?] at h
      split_ifs at h <;> cases h
  exact ⟨hscan, hkeeps, (runDisplay_of_scan (q := {}) {} rfl rfl hplan hscan hkeeps hsize rfl).2.1⟩

def passingRun : Run :=
  runScan {} Tree.empty { report := some "docs/../.vuepactrc.json/../report.md".toList }

/-- Saving under a path makes every directory that the path names. So a report beside the manifest can put a
directory where the configuration is looked for, and the next display fails on it. -/
theorem runDisplay_of_scan_passing : passingRun.status = .ok 0 ∧
    passingRun.tree.locate "vuepact.manifest.json".toList = .ok ["vuepact.manifest.json".toList] ∧
    passingRun.tree.locate "docs/../.vuepactrc.json/../report.md".toList = .ok ["report.md".toList] ∧
    (runDisplay {} passingRun.tree {}).status =
      .error (.readConfig "./.vuepactrc.json".toList .isDirectory) := by
  decide +kernel

end Command

end SfcContract
