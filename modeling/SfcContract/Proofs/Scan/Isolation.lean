import SfcContract.Scan
import SfcContract.Proofs.Text.Order
import SfcContract.Proofs.Tree

/-!
# Files are analysed apart

An analysis has one record for each file: a contract, or a skipped file. Contracts are sorted by path, and
the sort is stable, so it never matters which of the other files could be read.
-/

namespace SfcContract

section Sorting

variable {α : Type} {le : α → α → Bool} {l k : List α}

/-- The first item is sorted in behind all that it does not come before. -/
theorem mergeSort_cons_eq (trans : ∀ a b c, le a b → le b c → le a c) (total : ∀ a b, le a b || le b a)
    (a : α) (l : List α) : (a :: l).mergeSort le =
      (l.mergeSort le).filter (fun b => !le a b) ++ a :: (l.mergeSort le).filter (le a) := by
  obtain ⟨before, after, hwith, hwithout, hbefore⟩ := List.mergeSort_cons trans total a l
  have hsorted := List.pairwise_mergeSort trans total (a :: l)
  rw [hwith, List.pairwise_append, List.pairwise_cons] at hsorted
  have hafter : ∀ b ∈ after, le a b = true := hsorted.2.1.1
  have hnone : ∀ b ∈ before, ¬ le a b = true := by
    intro b hb h
    simpa [h] using hbefore b hb
  rw [hwith, hwithout, List.filter_append, List.filter_append, List.filter_eq_self.mpr hbefore,
    List.filter_eq_self.mpr hafter, List.filter_eq_nil_iff.mpr hnone,
    List.filter_eq_nil_iff.mpr fun b hb => by simp [hafter b hb], List.append_nil, List.nil_append]

theorem mergeSort_sublist_mergeSort (trans : ∀ a b c, le a b → le b c → le a c)
    (total : ∀ a b, le a b || le b a) (h : l.Sublist k) : (l.mergeSort le).Sublist (k.mergeSort le) := by
  induction h with
  | slnil => exact .refl _
  | @cons l k a _ ih =>
    obtain ⟨before, after, hwith, hwithout, -⟩ := List.mergeSort_cons trans total a k
    rw [hwithout] at ih
    rw [hwith]
    exact ih.trans ((List.sublist_cons_self a after).append_left before)
  | @cons_cons l k a _ ih =>
    rw [mergeSort_cons_eq trans total, mergeSort_cons_eq trans total]
    exact (ih.filter _).append ((ih.filter _).cons_cons a)

/-- Items that are alike stay in their order. -/
theorem filter_mergeSort (trans : ∀ a b c, le a b → le b c → le a c) (total : ∀ a b, le a b || le b a)
    {p : α → Bool} (alike : ∀ a b, p a → p b → le a b) (l : List α) :
    (l.mergeSort le).filter p = l.filter p := by
  have hordered : (l.filter p).Pairwise fun a b => le a b := by
    rw [List.pairwise_iff_forall_sublist]
    intro a b hab
    have hmem := fun c hc => List.of_mem_filter (hab.subset (a := c) hc)
    exact alike a b (hmem a (by simp)) (hmem b (by simp))
  have hpart := (List.sublist_mergeSort trans total hordered List.filter_sublist).filter p
  rw [List.filter_filter, List.filter_congr fun a _ => Bool.and_self (p a)] at hpart
  exact (hpart.eq_of_length ((List.mergeSort_perm l le).filter p).length_eq.symm).symm

end Sorting

namespace Tree

/-- Two trees that differ at most in the content of the file at one location. -/
structure DifferAt (l : Location) (t t' : Tree) : Prop where
  file : ∃ content, t.get? l = some (.file content)
  file' : ∃ content, t'.get? l = some (.file content)
  elsewhere : ∀ k, k ≠ l → t'.get? k = t.get? k

variable {t t' : Tree} {l : Location} {p : Path}

theorem DifferAt.step (h : DifferAt l t t') : t'.step = t.step := by
  funext k segment
  by_cases hk : k = l
  · subst hk
    obtain ⟨content, hcontent⟩ := h.file
    obtain ⟨content', hcontent'⟩ := h.file'
    rw [Tree.step, Tree.step, hcontent, hcontent']
  · rw [Tree.step, Tree.step, h.elsewhere k hk]

theorem DifferAt.locate (h : DifferAt l t t') : t'.locate p = t.locate p := by
  rw [Tree.locate, Tree.locate, follow, follow, h.step]

theorem DifferAt.read (h : DifferAt l t t') (hp : t.locate p ≠ .ok l) : t'.read p = t.read p := by
  have hfind : t'.find p = t.find p := by
    cases hlocate : t.locate p with
    | error fault => rw [find, find, h.locate, hlocate]; rfl
    | ok k =>
      have hk : k ≠ l := by
        rintro rfl
        exact hp hlocate
      rw [find_of_locate (h.locate.trans hlocate), find_of_locate hlocate, h.elsewhere k hk]
  rw [Tree.read, Tree.read, hfind]

end Tree

namespace Scan

variable {t t' : Tree} {root : Path}

def contractOf? (t : Tree) (root file : Path) : Option Contract :=
  ((t.content? file).bind Tree.decode?).map fun source => Contract.analyze source (Path.display root file)

/-- An outcome with one record for each of some files. -/
structure Outcome.Records (t : Tree) (root : Path) (files : List Path) (o : Outcome) : Prop where
  /-- Each file that holds text has its contract, and there are no others. -/
  contracts : o.components.Perm (files.filterMap (contractOf? t root))
  /-- Each other file is skipped, in the order of the files. -/
  skipped : o.skipped.map SkippedFile.path =
    (files.filter fun file => (contractOf? t root file).isNone).map (Path.display root)
  /-- No record is missing, and none is there twice. -/
  complete : o.components.length + o.skipped.length = files.length
  ordered : o.components.Pairwise fun a b => a.path.bytes ≤ b.path.bytes
  /-- Contracts with one path have the order of the files. -/
  stable : ∀ path, o.components.filter (·.path = path) =
    (files.filterMap (contractOf? t root)).filter (·.path = path)

/-- Whether all records of an outcome are records of another one, in the same order. -/
structure Outcome.IsPartOf (o whole : Outcome) : Prop where
  components : o.components.Sublist whole.components
  skipped : o.skipped.Sublist whole.skipped

/-- A plan for the files that do not lead to a location. -/
def Plan.apartFrom (p : Plan) (t : Tree) (l : Location) : Plan :=
  { p with files := p.files.filter fun file => (t.locate file).toOption ≠ some l }

/-- A file has a contract, or else it is skipped under its own path. -/
theorem record_cases (t : Tree) (root file : Path) :
    (∃ c, contractOf? t root file = some c ∧ record t root file = .ok c) ∨
      (contractOf? t root file = none ∧
        ∃ reason, record t root file = .error ⟨Path.display root file, reason⟩) := by
  rw [contractOf?, record]
  cases hread : t.read file with
  | ok source => exact .inl ⟨_, by rw [Tree.read_eq_ok_iff.mp hread]; rfl, rfl⟩
  | error fault =>
    right
    cases htext : (t.content? file).bind Tree.decode? with
    | none => exact ⟨rfl, _, rfl⟩
    | some source =>
      rw [Tree.read_eq_ok_iff.mpr htext] at hread
      cases hread

theorem components_analyze (p : Plan) (t : Tree) : (p.analyze t).components =
    (p.files.filterMap (contractOf? t p.root)).mergeSort fun a b => Text.isAtMost a.path b.path := by
  have hrecord : (Except.toOption ∘ record t p.root) = contractOf? t p.root := by
    funext file
    rcases record_cases t p.root file with ⟨c, hc, hrecord⟩ | ⟨hc, reason, hrecord⟩ <;>
      simp [hc, hrecord, Except.toOption]
  rw [Plan.analyze, List.filterMap_map, hrecord]

def skippedOf? (t : Tree) (root file : Path) : Option SkippedFile :=
  match record t root file with
  | .error s => some s
  | .ok _ => none

theorem skipped_analyze (p : Plan) (t : Tree) :
    (p.analyze t).skipped = p.files.filterMap (skippedOf? t p.root) := List.filterMap_map

theorem map_path_skippedOf? (t : Tree) (root file : Path) : (skippedOf? t root file).map SkippedFile.path =
    if (contractOf? t root file).isNone then some (Path.display root file) else none := by
  rcases record_cases t root file with ⟨c, hc, hrecord⟩ | ⟨hc, reason, hrecord⟩ <;>
    simp [skippedOf?, hc, hrecord]

theorem records_analyze (p : Plan) (t : Tree) : (p.analyze t).Records t p.root p.files where
  contracts := by
    rw [components_analyze]
    exact List.mergeSort_perm _ _
  skipped := by
    rw [skipped_analyze, List.map_filterMap, List.filterMap_congr fun file _ => map_path_skippedOf? t p.root file,
      ← List.filterMap_eq_map, List.filterMap_filter]
    rfl
  complete := by
    rw [components_analyze, skipped_analyze, List.length_mergeSort]
    induction p.files with
    | nil => rfl
    | cons file files ih =>
      rcases record_cases t p.root file with ⟨c, hc, hrecord⟩ | ⟨hc, reason, hrecord⟩
      · have hnone : skippedOf? t p.root file = none := by rw [skippedOf?, hrecord]
        rw [List.filterMap_cons_some hc, List.filterMap_cons_none hnone, List.length_cons, List.length_cons]
        omega
      · have hsome : skippedOf? t p.root file = some ⟨Path.display p.root file, reason⟩ := by
          rw [skippedOf?, hrecord]
        rw [List.filterMap_cons_none hc, List.filterMap_cons_some hsome, List.length_cons, List.length_cons]
        omega
  ordered := by
    rw [components_analyze]
    refine (List.pairwise_mergeSort ?_ ?_ _).imp fun h => (Text.isAtMost_iff_bytes_le _ _).mp h
    · exact fun a b c => Text.isAtMost_trans a.path b.path c.path
    · exact fun a b => Text.isAtMost_total a.path b.path
  stable path := by
    rw [components_analyze]
    refine filter_mergeSort ?_ ?_ ?_ _
    · exact fun a b c => Text.isAtMost_trans a.path b.path c.path
    · exact fun a b => Text.isAtMost_total a.path b.path
    · intro a b ha hb
      rw [of_decide_eq_true ha, of_decide_eq_true hb]
      exact (Bool.or_self _).symm.trans (Text.isAtMost_total path path)

/-- The records of some of the files are records of all of them. -/
theorem isPartOf_analyze {files files' : List Path} (p : Plan) (t : Tree) (h : files.Sublist files') :
    ({ p with files := files }.analyze t).IsPartOf ({ p with files := files' }.analyze t) where
  components := by
    rw [components_analyze, components_analyze]
    refine mergeSort_sublist_mergeSort ?_ ?_ (h.filterMap _)
    · exact fun a b c => Text.isAtMost_trans a.path b.path c.path
    · exact fun a b => Text.isAtMost_total a.path b.path
  skipped := by
    rw [skipped_analyze, skipped_analyze]
    exact h.filterMap _

theorem analyze_congr {p : Plan} (h : ∀ file ∈ p.files, record t' p.root file = record t p.root file) :
    p.analyze t' = p.analyze t := by
  rw [Plan.analyze, Plan.analyze, List.map_congr_left h]

theorem record_of_differAt {l : Location} {file : Path} (h : Tree.DifferAt l t t')
    (hfile : t.locate file ≠ .ok l) : record t' root file = record t root file := by
  rw [record, record, h.read hfile]

theorem locate_of_mem_apartFrom {p : Plan} {l : Location} {file : Path}
    (h : file ∈ (p.apartFrom t l).files) : t.locate file ≠ .ok l := by
  have hne := of_decide_eq_true (List.mem_filter.mp h).2
  intro hl
  exact hne (by rw [hl]; rfl)

/-- An analysis has one record for each file, and the records of all files but one do not depend on the
content of that one: they are the same, in the same order. -/
theorem Plan.analyze_isolated (p : Plan) (t : Tree) :
    (p.analyze t).Records t p.root p.files ∧
      ∀ t' l, Tree.DifferAt l t t' →
        (∀ file, t.locate file ≠ .ok l → record t' p.root file = record t p.root file) ∧
        ((p.apartFrom t l).analyze t).IsPartOf (p.analyze t) ∧
        ((p.apartFrom t l).analyze t).IsPartOf (p.analyze t') := by
  refine ⟨records_analyze p t, fun t' l h => ⟨fun file => record_of_differAt h, ?_, ?_⟩⟩
  · exact isPartOf_analyze p t List.filter_sublist
  · rw [← analyze_congr fun file hfile => record_of_differAt h (locate_of_mem_apartFrom hfile)]
    exact isPartOf_analyze p t' List.filter_sublist

end Scan

end SfcContract
