import SfcContract.Scan
import SfcContract.Proofs.Tree

/-!
# Plans

A plan is made from the configuration, which for a scan of the working directory lies in one place.
-/

namespace SfcContract

namespace Config

variable {t t' : Tree}

theorem locate_fileName (t : Tree) : t.locate fileName = .ok [fileName] := rfl

theorem locate_current (t : Tree) : t.locate (Path.join ['.'] fileName) = .ok [fileName] := rfl

theorem contains_of_locate {p : Path} {l : Location} (h : t.locate p = .ok l) :
    t.contains p = (t.get? l).isSome := by
  rw [Tree.contains, Tree.find_of_locate h]
  cases t.get? l <;> rfl

theorem ancestors_current : Path.ancestors ['.'] = [['.'], []] := by decide

/-- In the working directory there is one place to look, which is met twice. -/
theorem find?_current (t : Tree) :
    find? t ['.'] = if (t.get? [fileName]).isSome then some (Path.join ['.'] fileName) else none := by
  have hcurrent := contains_of_locate (locate_current t)
  have hempty : t.contains (Path.join [] fileName) = (t.get? [fileName]).isSome :=
    contains_of_locate (locate_fileName t)
  rw [find?, ancestors_current, search, search, search, hcurrent, hempty]
  by_cases h : (t.get? [fileName]).isSome = true
  · rw [if_pos h, if_pos h]
  · rw [if_neg h, if_neg h, if_neg h]
    split_ifs <;> rfl

/-- The configuration depends on one entry of the working directory. -/
theorem load_current_congr (h : t'.get? [fileName] = t.get? [fileName]) : load t' ['.'] = load t ['.'] := by
  have hread : t'.read (Path.join ['.'] fileName) = t.read (Path.join ['.'] fileName) := by
    rw [Tree.read, Tree.read, Tree.find_of_locate (locate_current t'), Tree.find_of_locate (locate_current t), h]
  have hfind : find? t' ['.'] = find? t ['.'] := by rw [find?_current, find?_current, h]
  rw [load, load, hfind, find?_current]
  split_ifs with hsome
  · dsimp only
    rw [hread]
  · rfl

end Config

namespace Scan

variable {t : Tree} {r : Request} {p : Plan}

theorem exists_of_plan (h : plan t r = .ok p) :
    t.isDirectory r.root = true ∧ ∃ loaded, Config.load t r.root = .ok loaded ∧ p.root = r.root ∧
      p.files = (files t r.root loaded.config.includes loaded.config.ignores).paths ∧
      p.manifestPath = r.out.getD (Path.fromRoot r.root loaded.config.manifestPath) ∧
      p.reportPath = (r.report <|> loaded.config.reportPath.map (Path.fromRoot r.root)) := by
  rw [plan] at h
  split_ifs at h with hroot
  obtain ⟨loaded, hloaded, h⟩ := Tree.exists_of_bind_eq_ok h
  obtain rfl := Except.ok.inj h
  exact ⟨by simpa using hroot, loaded, hloaded, rfl, rfl, rfl, rfl⟩

theorem fromRoot_current (p : Path) : Path.fromRoot ['.'] p = p := by
  have hroot : (Path.components ['.']).all (· == .current) = true := by decide
  rw [Path.fromRoot, if_pos hroot, ite_self]

/-- Without a path of its own, a scan of the working directory takes the configured path as it is. -/
theorem manifestPath_of_plan (hroot : r.root = ['.']) (hout : r.out = none) (h : plan t r = .ok p) :
    (Config.load t ['.']).map (·.config.manifestPath) = .ok p.manifestPath := by
  obtain ⟨-, loaded, hloaded, -, -, hmanifest, -⟩ := exists_of_plan h
  rw [hroot] at hloaded
  rw [hloaded, hmanifest, hout, hroot, Option.getD_none, fromRoot_current]
  rfl

end Scan

end SfcContract
