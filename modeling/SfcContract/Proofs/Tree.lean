import Mathlib.Tactic.SplitIfs
import SfcContract.Store

/-!
# What is written is read

Writing a file changes the tree at the location of the file alone. A path is followed through directories,
so it leads to the same location in every tree that has the same directories.
-/

namespace SfcContract.Tree

variable {t t' t'' : Tree} {l k m : Location} {e : Entry} {p : Path}

def content? (t : Tree) (p : Path) : Option ByteArray :=
  match t.find p with
  | .ok (_, .file content) => some content
  | _ => none

theorem exists_of_bind_eq_ok {ε α β : Type} {x : Except ε α} {f : α → Except ε β} {b : β}
    (h : x >>= f = .ok b) : ∃ a, x = .ok a ∧ f a = .ok b := by
  cases x with
  | error fault => cases h
  | ok a => exact ⟨a, rfl, h⟩

theorem find_of_locate (h : t.locate p = .ok l) :
    t.find p = match t.get? l with
      | some e => .ok (l, e)
      | none => .error .notFound := by
  rw [find, h]
  rfl

theorem content?_eq_some_iff {content : ByteArray} :
    t.content? p = some content ↔ ∃ l, t.locate p = .ok l ∧ t.get? l = some (.file content) := by
  cases hlocate : t.locate p with
  | error fault =>
    have hfind : t.find p = .error fault := by
      rw [find, hlocate]
      rfl
    simp [content?, hfind]
  | ok l =>
    rw [content?, find_of_locate hlocate]
    cases hget : t.get? l with
    | none => simp [hget]
    | some e => cases e <;> simp [hget]

theorem read_eq_ok_iff {text : Text} : t.read p = .ok text ↔ (t.content? p).bind decode? = some text := by
  rw [read, content?]
  cases t.find p with
  | error fault => exact iff_of_false nofun nofun
  | ok found =>
    obtain ⟨l, e⟩ := found
    cases e with
    | directory => exact iff_of_false nofun nofun
    | file content =>
      rw [Option.bind_some]
      cases hdecode : decode? content <;> simp [bind, Except.bind, pure, Except.pure, hdecode]

def KeepsDirectories (t t' : Tree) : Prop := ∀ l, t.get? l = some .directory → t'.get? l = some .directory

theorem KeepsDirectories.trans (h : t.KeepsDirectories t') (h' : t'.KeepsDirectories t'') :
    t.KeepsDirectories t'' := fun l hl => h' l (h l hl)

theorem ne_nil_of_not_directory (h : ¬ (t.get? l).any Entry.isDirectory = true) : l ≠ [] := by
  rintro rfl
  exact h rfl

/-- Nothing but a directory in the way of a path can turn it elsewhere. -/
theorem keepsDirectories_set (h : ¬ (t.get? l).any Entry.isDirectory = true) : t.KeepsDirectories (t.set l e) := by
  intro k hk
  have hne : k ≠ l := by
    rintro rfl
    rw [hk] at h
    exact h rfl
  rw [get?_set t (ne_nil_of_not_directory h), if_neg hne]
  exact hk

theorem get?_of_step {segment : Text} (h : t.step k segment = .ok m) : t.get? k = some .directory := by
  rw [step] at h
  split at h
  · cases h
  · cases h
  · assumption

theorem KeepsDirectories.step (h : t.KeepsDirectories t') {segment : Text} (hs : t.step k segment = .ok m) :
    t'.step k segment = .ok m := by
  have hk := get?_of_step hs
  rw [Tree.step, hk] at hs
  rw [Tree.step, h k hk]
  exact hs

theorem KeepsDirectories.foldlM_step (h : t.KeepsDirectories t') {segments : List Text}
    (hs : segments.foldlM (Tree.step t) k = .ok m) : segments.foldlM (Tree.step t') k = .ok m := by
  induction segments generalizing k with
  | nil => exact hs
  | cons segment segments ih =>
    rw [List.foldlM_cons] at hs ⊢
    obtain ⟨next, hstep, hrest⟩ := exists_of_bind_eq_ok hs
    rw [h.step hstep]
    exact ih hrest

theorem KeepsDirectories.locate (h : t.KeepsDirectories t') (hp : t.locate p = .ok l) :
    t'.locate p = .ok l := by
  rw [Tree.locate] at hp ⊢
  split_ifs at hp ⊢ with hnone
  exact h.foldlM_step hp

/-- A file is written where its path leads, over nothing or another file. -/
theorem target_eq_ok (h : t.target p = .ok l) :
    t.locate p = .ok l ∧ ¬ (t.get? l).any Entry.isDirectory = true := by
  rw [target] at h
  split_ifs at h with hnone hslash
  · obtain ⟨k, -, h⟩ := exists_of_bind_eq_ok h
    obtain ⟨m, -, h⟩ := exists_of_bind_eq_ok h
    cases h
  · obtain ⟨k, hlocate, h⟩ := exists_of_bind_eq_ok h
    split_ifs at h with hdirectory
    obtain rfl := Except.ok.inj h
    exact ⟨hlocate, hdirectory⟩

theorem exists_of_write {content : ByteArray} (h : t.write p content = .ok t') :
    ∃ l, t.locate p = .ok l ∧ ¬ (t.get? l).any Entry.isDirectory = true ∧ t' = t.set l (.file content) := by
  cases htarget : t.target p with
  | error fault =>
    rw [write, htarget] at h
    cases h
  | ok l =>
    rw [write, htarget] at h
    obtain ⟨hlocate, hentry⟩ := target_eq_ok htarget
    exact ⟨l, hlocate, hentry, (Except.ok.inj h).symm⟩

theorem content?_write {content : ByteArray} (h : t.write p content = .ok t') :
    t'.content? p = some content := by
  obtain ⟨l, hlocate, hentry, rfl⟩ := exists_of_write h
  rw [content?_eq_some_iff]
  refine ⟨l, (keepsDirectories_set hentry).locate hlocate, ?_⟩
  rw [get?_set t (ne_nil_of_not_directory hentry), if_pos rfl]

theorem content?_save {content : Text} {failure : FileFault → Failure}
    (h : t.save p content failure = (t', .ok ())) : t'.content? p = some (encode content) := by
  rw [save] at h
  split at h
  · cases h
  · split at h
    · rename_i hwrite
      obtain ⟨rfl, -⟩ := Prod.mk.inj h
      exact content?_write hwrite
    · cases h

/-- A text that could be saved is read back. -/
theorem read_save {content : Text} {failure : FileFault → Failure}
    (h : t.save p content failure = (t', .ok ())) : t'.read p = .ok content := by
  rw [read_eq_ok_iff, content?_save h]
  exact decode?_encode content

end SfcContract.Tree
