import SfcContract.Command
import SfcContract.Proofs.Tree.Change

/-!
# A scan touches only its outputs

A scan that cannot be planned leaves the tree as it is. Any other scan saves the manifest and then the
report, so whatever differs afterwards lies where their paths lead.
-/

namespace SfcContract

def Scan.Plan.outputs (p : Plan) : List Path := p.manifestPath :: p.reportPath.toList

namespace Command

def manifestOf (s : Setting) (t : Tree) (plan : Scan.Plan) : Manifest :=
  Manifest.ofScan s.now (plan.analyze t).components

/-- What a scan does to a tree, whether it ends well or not. -/
structure TouchesOutputs (s : Setting) (t : Tree) (r : Scan.Request) : Prop where
  /-- A scan that cannot be planned changes nothing. -/
  unplanned : ∀ failure, Scan.plan t r = .error failure →
    (runScan s t r).status = .error failure ∧ (runScan s t r).tree = t
  /-- Files are made or changed under the output paths alone, and directories are made above them. -/
  only : ∀ plan, Scan.plan t r = .ok plan →
    t.ChangesAt plan.outputs (plan.outputs.flatMap Path.above) (runScan s t r).tree
  /-- Without a manifest there is no report, and every file is as it was. -/
  unwritten : ∀ plan failure, Scan.plan t r = .ok plan →
    (Manifest.save t plan.manifestPath (manifestOf s t plan)).2 = .error failure →
    (runScan s t r).status = .error failure ∧ ∀ l content,
      (runScan s t r).tree.get? l = some (.file content) ↔ t.get? l = some (.file content)
  /-- A scan that ends well has written the manifest and a report on it. -/
  written : ∀ plan status, Scan.plan t r = .ok plan → (runScan s t r).status = .ok status →
    (∀ p ∈ plan.reportPath,
      (runScan s t r).tree.locate p ≠ (runScan s t r).tree.locate plan.manifestPath) →
    (runScan s t r).tree.content? plan.manifestPath =
        some (Tree.encode ((manifestOf s t plan).write ++ ['\n'])) ∧
      ∀ p ∈ plan.reportPath,
        (runScan s t r).tree.content? p = some (Tree.encode (Report.write (manifestOf s t plan)))

variable {s : Setting} {t : Tree} {r : Scan.Request} {plan : Scan.Plan} {m : Manifest}

theorem tree_runScan (h : Scan.plan t r = .ok plan) :
    (runScan s t r).tree = (saveOutputs t plan (manifestOf s t plan)).1 := by
  rw [runScan, h]
  dsimp only
  rw [← manifestOf]
  cases saveOutputs t plan (manifestOf s t plan) with
  | mk t' result => cases result <;> rfl

theorem status_runScan (h : Scan.plan t r = .ok plan) :
    (runScan s t r).status = (saveOutputs t plan (manifestOf s t plan)).2.map fun _ =>
      if r.strict && (manifestOf s t plan).diagnosticCount != 0 then 1 else 0 := by
  rw [runScan, h]
  dsimp only
  rw [← manifestOf]
  cases saveOutputs t plan (manifestOf s t plan) with
  | mk t' result => cases result <;> rfl

/-- Either the manifest cannot be written, or it is written and nothing but a report follows. -/
theorem saveOutputs_cases (t : Tree) (plan : Scan.Plan) (m : Manifest) :
    (∃ t' failure, Manifest.save t plan.manifestPath m = (t', .error failure) ∧
      saveOutputs t plan m = (t', .error failure)) ∨
    ∃ t', Manifest.save t plan.manifestPath m = (t', .ok ()) ∧
      ((plan.reportPath = none ∧ saveOutputs t plan m = (t', .ok ())) ∨
        ∃ p, plan.reportPath = some p ∧ saveOutputs t plan m = Report.save t' p m) := by
  rw [saveOutputs]
  cases Manifest.save t plan.manifestPath m with
  | mk t' result =>
    cases result with
    | error failure => exact .inl ⟨t', failure, rfl, rfl⟩
    | ok done =>
      refine .inr ⟨t', rfl, ?_⟩
      cases plan.reportPath with
      | none => exact .inl ⟨rfl, rfl⟩
      | some p => exact .inr ⟨p, rfl, rfl⟩

theorem changesAt_manifest (t : Tree) (p : Path) (m : Manifest) :
    t.ChangesAt [p] p.above (Manifest.save t p m).1 := Tree.changesAt_save t p m.fileText _

theorem changesAt_report (t : Tree) (p : Path) (m : Manifest) :
    t.ChangesAt [p] p.above (Report.save t p m).1 := Tree.changesAt_save t p (Report.write m) _

theorem changesAt_saveOutputs (t : Tree) (plan : Scan.Plan) (m : Manifest) :
    t.ChangesAt plan.outputs (plan.outputs.flatMap Path.above) (saveOutputs t plan m).1 := by
  have hout {t t' : Tree} {p : Path} (hp : p ∈ plan.outputs) (h : t.ChangesAt [p] p.above t') :
      t.ChangesAt plan.outputs (plan.outputs.flatMap Path.above) t' :=
    h.mono (by simpa using hp) (fun q hq => List.mem_flatMap.mpr ⟨p, hp, hq⟩)
  have hmanifest := hout (List.mem_cons_self ..) (changesAt_manifest t plan.manifestPath m)
  rcases saveOutputs_cases t plan m with ⟨t', failure, hsave, hall⟩ | ⟨t', hsave, ⟨-, hall⟩ | ⟨p, hp, hall⟩⟩
  · rw [hsave] at hmanifest
    rw [hall]
    exact hmanifest
  · rw [hsave] at hmanifest
    rw [hall]
    exact hmanifest
  · rw [hsave] at hmanifest
    rw [hall]
    have hmem : p ∈ plan.outputs := by
      rw [Scan.Plan.outputs, hp]
      exact List.mem_cons_of_mem _ (List.mem_singleton_self p)
    exact hmanifest.trans (hout hmem (changesAt_report t' p m))

theorem content?_saveOutputs {t t' : Tree} {plan : Scan.Plan} (h : saveOutputs t plan m = (t', .ok ()))
    (hne : ∀ p ∈ plan.reportPath, t'.locate p ≠ t'.locate plan.manifestPath) :
    t'.content? plan.manifestPath = some (Tree.encode m.fileText) ∧
      ∀ p ∈ plan.reportPath, t'.content? p = some (Tree.encode (Report.write m)) := by
  rcases saveOutputs_cases t plan m with ⟨t₁, failure, -, hall⟩ | ⟨t₁, hsave, hreport⟩
  · cases h.symm.trans hall
  have hmanifest : t₁.content? plan.manifestPath = some (Tree.encode m.fileText) := Tree.content?_save hsave
  rcases hreport with ⟨hnone, hall⟩ | ⟨p, hp, hall⟩
  · obtain ⟨rfl, -⟩ := Prod.mk.inj (h.symm.trans hall)
    refine ⟨hmanifest, fun p hp => ?_⟩
    rw [hnone] at hp
    cases hp
  · have hchanges := changesAt_report t₁ p m
    have hsaved := hall.symm.trans h
    rw [hsaved] at hchanges
    refine ⟨hchanges.content? hmanifest (by simpa using hne p hp), fun q hq => ?_⟩
    obtain rfl : p = q := Option.some.inj (hp.symm.trans hq)
    exact Tree.content?_save hsaved

theorem changesAt_runScan (h : Scan.plan t r = .ok plan) :
    t.ChangesAt plan.outputs (plan.outputs.flatMap Path.above) (runScan s t r).tree := by
  rw [tree_runScan h]
  exact changesAt_saveOutputs t plan _

theorem content?_runScan {status : Nat} (h : Scan.plan t r = .ok plan)
    (hstatus : (runScan s t r).status = .ok status)
    (hne : ∀ p ∈ plan.reportPath,
      (runScan s t r).tree.locate p ≠ (runScan s t r).tree.locate plan.manifestPath) :
    (runScan s t r).tree.content? plan.manifestPath = some (Tree.encode (manifestOf s t plan).fileText) ∧
      ∀ p ∈ plan.reportPath,
        (runScan s t r).tree.content? p = some (Tree.encode (Report.write (manifestOf s t plan))) := by
  rw [tree_runScan h] at hne ⊢
  rw [status_runScan h] at hstatus
  cases hall : saveOutputs t plan (manifestOf s t plan) with
  | mk t' result =>
    rw [hall] at hne hstatus
    cases result with
    | error failure => cases hstatus
    | ok done => exact content?_saveOutputs hall hne

/-- Every scan touches its outputs only. -/
theorem runScan_touchesOutputs (s : Setting) (t : Tree) (r : Scan.Request) : TouchesOutputs s t r where
  unplanned failure h := by
    rw [runScan, h]
    exact ⟨rfl, rfl⟩
  only _ h := changesAt_runScan h
  unwritten plan failure h hsave := by
    rw [tree_runScan h, status_runScan h]
    rcases saveOutputs_cases t plan (manifestOf s t plan) with ⟨t', failure', hsave', hall⟩ | ⟨t', hsave', -⟩
    · rw [hsave'] at hsave
      obtain rfl : failure' = failure := Except.error.inj hsave
      rw [hall]
      exact ⟨rfl, (Tree.changesAt_save_of_error hsave').file_iff⟩
    · rw [hsave'] at hsave
      cases hsave
  written _ _ h hstatus hne := content?_runScan h hstatus hne

end Command

end SfcContract
