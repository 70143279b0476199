import Mathlib.Logic.Basic
import Mathlib.Tactic.ByContra
import SfcContract.Proofs.Tree

/-!
# What saving a file may change

A file is saved under a path after the directories above it are made. Nothing is ever removed: what differs
afterwards is the file itself, and directories where there was nothing, and the path leads to all of it.
-/

namespace SfcContract

/-- The directories above a path, as it is written. -/
def Path.above (p : Path) : List Path := Path.ancestors ((Path.parent? p).getD [])

namespace Tree

variable {t t' t'' : Tree} {files files' directories directories' : List Path} {l : Location} {p : Path}

/-- What may become of a tree when files and directories are made under given paths. -/
structure ChangesAt (files directories : List Path) (t t' : Tree) : Prop where
  /-- Nothing is removed. -/
  remains : ∀ l, t.get? l ≠ none → t'.get? l ≠ none
  keeps : t.KeepsDirectories t'
  /-- A file that was made or changed has one of the paths. -/
  file : ∀ l content, t'.get? l = some (.file content) → t.get? l ≠ some (.file content) →
    ∃ p ∈ files, t'.locate p = .ok l
  /-- A directory that was made is a new entry and has one of the paths. -/
  directory : ∀ l, t'.get? l = some .directory → t.get? l ≠ some .directory →
    t.get? l = none ∧ ∃ p ∈ directories, t'.locate p = .ok l

namespace ChangesAt

theorem refl (files directories : List Path) (t : Tree) : ChangesAt files directories t t where
  remains _ h := h
  keeps _ h := h
  file _ _ h hne := absurd h hne
  directory _ h hne := absurd h hne

theorem mono (h : ChangesAt files directories t t') (hf : files ⊆ files') (hd : directories ⊆ directories') :
    ChangesAt files' directories' t t' where
  remains := h.remains
  keeps := h.keeps
  file l content hl hne := by
    obtain ⟨p, hp, hlocate⟩ := h.file l content hl hne
    exact ⟨p, hf hp, hlocate⟩
  directory l hl hne := by
    obtain ⟨hnone, p, hp, hlocate⟩ := h.directory l hl hne
    exact ⟨hnone, p, hd hp, hlocate⟩

theorem trans (h : ChangesAt files directories t t') (h' : ChangesAt files directories t' t'') :
    ChangesAt files directories t t'' where
  remains l hl := h'.remains l (h.remains l hl)
  keeps := h.keeps.trans h'.keeps
  file l content hl hne := by
    by_cases hmid : t'.get? l = some (.file content)
    · obtain ⟨p, hp, hlocate⟩ := h.file l content hmid hne
      exact ⟨p, hp, h'.keeps.locate hlocate⟩
    · exact h'.file l content hl hmid
  directory l hl hne := by
    by_cases hmid : t'.get? l = some .directory
    · obtain ⟨hnone, p, hp, hlocate⟩ := h.directory l hmid hne
      exact ⟨hnone, p, hp, h'.keeps.locate hlocate⟩
    · obtain ⟨hnone, hpath⟩ := h'.directory l hl hmid
      exact ⟨not_not.mp fun hsome => h.remains l hsome hnone, hpath⟩

theorem stays {e : Entry} (h : ChangesAt files directories t t') (hl : t.get? l = some e)
    (hf : ∀ p ∈ files, t'.locate p ≠ .ok l) : t'.get? l = some e := by
  cases hl' : t'.get? l with
  | none => exact absurd hl' (h.remains l (by rw [hl]; exact Option.some_ne_none e))
  | some e' =>
    by_contra hne
    have hchanged : t.get? l ≠ some e' := fun heq => hne (heq.symm.trans hl)
    cases e' with
    | directory =>
      obtain ⟨hnone, -⟩ := h.directory l hl' hchanged
      cases hl.symm.trans hnone
    | file content =>
      obtain ⟨p, hp, hlocate⟩ := h.file l content hl' hchanged
      exact hf p hp hlocate

/-- What no path leads to is as it was, also when it was nothing. -/
theorem get?_eq (h : ChangesAt files directories t t') (hf : ∀ p ∈ files, t'.locate p ≠ .ok l)
    (hd : ∀ p ∈ directories, t'.locate p ≠ .ok l) : t'.get? l = t.get? l := by
  cases hl : t.get? l with
  | some e => exact h.stays hl hf
  | none =>
    cases hl' : t'.get? l with
    | none => rfl
    | some e =>
      have hchanged : t.get? l ≠ some e := by
        rw [hl]
        nofun
      cases e with
      | directory =>
        obtain ⟨-, p, hp, hlocate⟩ := h.directory l hl' hchanged
        exact absurd hlocate (hd p hp)
      | file content =>
        obtain ⟨p, hp, hlocate⟩ := h.file l content hl' hchanged
        exact absurd hlocate (hf p hp)

/-- Where no file may be made, all files are as they were. -/
theorem file_iff (h : ChangesAt [] directories t t') (l : Location) (content : ByteArray) :
    t'.get? l = some (.file content) ↔ t.get? l = some (.file content) := by
  constructor
  · intro hl
    by_contra hne
    obtain ⟨p, hp, -⟩ := h.file l content hl hne
    exact List.not_mem_nil hp
  · exact fun hl => h.stays hl fun p hp => absurd hp List.not_mem_nil

theorem content? {content : ByteArray} (h : ChangesAt files directories t t')
    (hp : t.content? p = some content) (hne : ∀ q ∈ files, t'.locate q ≠ t'.locate p) :
    t'.content? p = some content := by
  rw [content?_eq_some_iff] at hp ⊢
  obtain ⟨l, hlocate, hget⟩ := hp
  have hthere := h.keeps.locate hlocate
  rw [hthere] at hne
  exact ⟨l, hthere, h.stays hget hne⟩

end ChangesAt

theorem changesAt_set {e : Entry} (hl : ¬ (t.get? l).any Entry.isDirectory = true)
    (hfile : e ≠ .directory → ∃ p ∈ files, t.locate p = .ok l)
    (hdirectory : e = .directory → t.get? l = none ∧ ∃ p ∈ directories, t.locate p = .ok l) :
    ChangesAt files directories t (t.set l e) := by
  have hkeeps := keepsDirectories_set (e := e) hl
  have hget := get?_set t (ne_nil_of_not_directory hl) (e := e)
  refine ⟨?_, hkeeps, ?_, ?_⟩
  · intro k hk
    rw [hget]
    split
    · exact Option.some_ne_none e
    · exact hk
  · intro k content hk hne
    by_cases heq : k = l
    · rw [hget, if_pos heq] at hk
      obtain ⟨p, hp, hlocate⟩ := hfile (by rw [Option.some.inj hk]; nofun)
      exact ⟨p, hp, heq ▸ hkeeps.locate hlocate⟩
    · rw [hget, if_neg heq] at hk
      exact absurd hk hne
  · intro k hk hne
    by_cases heq : k = l
    · rw [hget, if_pos heq] at hk
      obtain ⟨hnone, p, hp, hlocate⟩ := hdirectory (Option.some.inj hk)
      exact ⟨heq ▸ hnone, p, hp, heq ▸ hkeeps.locate hlocate⟩
    · rw [hget, if_neg heq] at hk
      exact absurd hk hne

theorem changesAt_write {content : ByteArray} (h : t.write p content = .ok t') : ChangesAt [p] [] t t' := by
  obtain ⟨l, hlocate, hl, rfl⟩ := exists_of_write h
  exact changesAt_set hl (fun _ => ⟨p, List.mem_singleton_self p, hlocate⟩) nofun

theorem changesAt_makeDirectory (h : t.makeDirectory p = .ok t') : ChangesAt [] [p] t t' := by
  rw [makeDirectory] at h
  obtain ⟨l, hlocate, h⟩ := exists_of_bind_eq_ok h
  split_ifs at h with hl
  obtain rfl := Except.ok.inj h
  have hnone := Option.not_isSome_iff_eq_none.mp hl
  refine changesAt_set ?_ (absurd rfl) fun _ => ⟨hnone, p, List.mem_singleton_self p, hlocate⟩
  rw [hnone]
  exact Bool.false_ne_true

/-- Directories are made one after another, also when making the last of them fails. -/
theorem changesAt_makeDirectories (t : Tree) (ps : List Path) : ChangesAt [] ps t (t.makeDirectories ps).1 := by
  induction ps with
  | nil => exact .refl [] [] t
  | cons p above ih =>
    have hone {t t' : Tree} (h : t.makeDirectory p = .ok t') : ChangesAt [] (p :: above) t t' :=
      (changesAt_makeDirectory h).mono (List.Subset.refl _) (List.cons_subset_cons p (List.nil_subset above))
    have habove := ih.mono (List.Subset.refl _) (List.subset_cons_self p above)
    rw [makeDirectories]
    by_cases hp : p.isEmpty = true
    · rw [if_pos hp]
      exact .refl _ _ t
    rw [if_neg hp]
    cases hfirst : t.makeDirectory p with
    | ok t' => exact hone hfirst
    | error fault =>
      cases fault with
      | notFound =>
        dsimp only
        cases hrest : t.makeDirectories above with
        | mk t' result =>
          rw [hrest] at habove
          cases result with
          | error fault => exact habove
          | ok done =>
            dsimp only
            cases hlast : t'.makeDirectory p with
            | ok t'' => exact habove.trans (hone hlast)
            | error fault => exact habove
      | _ => exact .refl _ _ t

/-- A file that could not be saved is not there, but directories above it may be. -/
theorem save_cases (t : Tree) (p : Path) (content : Text) (failure : FileFault → Failure) :
    ∃ made, ChangesAt [] p.above t made ∧
      ((∃ reason, t.save p content failure = (made, .error reason)) ∨
        ∃ t', made.write p (encode content) = .ok t' ∧ t.save p content failure = (t', .ok ())) := by
  have hmake := changesAt_makeDirectories t p.above
  change ChangesAt [] p.above t (t.makeDirectoryPath ((Path.parent? p).getD [])).1 at hmake
  rw [save]
  cases hresult : t.makeDirectoryPath ((Path.parent? p).getD []) with
  | mk made result =>
    rw [hresult] at hmake
    refine ⟨made, hmake, ?_⟩
    cases result with
    | error fault => exact .inl ⟨_, rfl⟩
    | ok done =>
      dsimp only
      cases made.write p (encode content) with
      | error fault => exact .inl ⟨_, rfl⟩
      | ok t' => exact .inr ⟨t', rfl, rfl⟩

theorem changesAt_save_of_error {content : Text} {failure : FileFault → Failure} {reason : Failure}
    (h : t.save p content failure = (t', .error reason)) : ChangesAt [] p.above t t' := by
  obtain ⟨made, hmake, ⟨_, hsave⟩ | ⟨_, -, hsave⟩⟩ := save_cases t p content failure
  · obtain ⟨rfl, -⟩ := Prod.mk.inj (h.symm.trans hsave)
    exact hmake
  · cases h.symm.trans hsave

/-- Saving a file makes the file and the directories above it. -/
theorem changesAt_save (t : Tree) (p : Path) (content : Text) (failure : FileFault → Failure) :
    ChangesAt [p] p.above t (t.save p content failure).1 := by
  obtain ⟨made, hmake, hsave⟩ := save_cases t p content failure
  have hmake := hmake.mono (List.nil_subset [p]) (List.Subset.refl _)
  rcases hsave with ⟨_, hsave⟩ | ⟨t', hwrite, hsave⟩
  · rw [hsave]
    exact hmake
  · rw [hsave]
    exact hmake.trans ((changesAt_write hwrite).mono (List.Subset.refl _) (List.nil_subset _))

end Tree

end SfcContract
