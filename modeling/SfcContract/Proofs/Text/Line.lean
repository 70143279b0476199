import SfcContract.Number.Shortest
import SfcContract.Proofs.Text.Word

/-!
# Lines

A text of several lines is cut at its line ends. What is written from names and numbers stands on one line.
-/

namespace SfcContract.Text

variable {c : Char} {a b t : Text} {ends : List Char}

def IsOneLine (t : Text) : Prop := '\r' ∉ t ∧ '\n' ∉ t

instance (t : Text) : Decidable (IsOneLine t) := inferInstanceAs (Decidable (_ ∧ _))

theorem isOneLine_nil : IsOneLine [] := by decide

@[simp] theorem isOneLine_append : IsOneLine (a ++ b) ↔ IsOneLine a ∧ IsOneLine b := by
  simp only [IsOneLine, List.mem_append, not_or]
  exact and_and_and_comm

theorem IsOneLine.mono (hb : IsOneLine b) (h : a <:+: b) : IsOneLine a :=
  ⟨fun hr => hb.1 (h.subset hr), fun hn => hb.2 (h.subset hn)⟩

theorem IsOneLine.singleton_of_mem (ht : IsOneLine t) (hc : c ∈ t) : IsOneLine [c] := by
  constructor
  · intro h
    exact ht.1 (List.mem_singleton.mp h ▸ hc)
  · intro h
    exact ht.2 (List.mem_singleton.mp h ▸ hc)

theorem isOneLine_of_forall {p : Char → Bool} (hp : p '\r' = false ∧ p '\n' = false) (ht : ∀ c ∈ t, p c = true) :
    IsOneLine t :=
  ⟨fun hr => Bool.false_ne_true (hp.1.symm.trans (ht _ hr)), fun hn => Bool.false_ne_true (hp.2.symm.trans (ht _ hn))⟩

theorem isOneLine_of_isPropertyName (h : isPropertyName t = true) : IsOneLine t :=
  isOneLine_of_forall (by decide) (isNameChar_of_mem h)

theorem isOneLine_substitute {f : Char → Text} (h : ∀ c ∈ t, IsOneLine (f c)) : IsOneLine (substitute f t) := by
  simp only [IsOneLine, substitute, List.mem_flatten, List.mem_map]
  constructor
  · rintro ⟨_, ⟨c, hc, rfl⟩, hr⟩
    exact (h c hc).1 hr
  · rintro ⟨_, ⟨c, hc, rfl⟩, hn⟩
    exact (h c hc).2 hn

theorem isOneLine_ofNat (n : Nat) : IsOneLine (ofNat n) :=
  isOneLine_of_forall (by decide) fun _ hc => Nat.isDigit_of_mem_toDigits (by decide) (by decide) hc

section Layout

open Binary64

variable (layout : Layout) {digits : Text}

private theorem isOneLine_zeros (n : Nat) : IsOneLine (zeros n) :=
  isOneLine_of_forall (p := (· == '0')) (by decide) fun _ hc => by simp [List.eq_of_mem_replicate hc]

private theorem isOneLine_fraction : IsOneLine (if layout.fraction then ['.', '0'] else []) := by split <;> decide

private theorem isOneLine_plain (hd : IsOneLine digits) (point : Int) : IsOneLine (layout.plain digits point) := by
  rw [Layout.plain]
  split
  · simp only [isOneLine_append]
    exact ⟨⟨by decide, isOneLine_zeros _⟩, hd⟩
  · split
    · simp only [isOneLine_append]
      exact ⟨⟨hd, isOneLine_zeros _⟩, isOneLine_fraction layout⟩
    · simp only [isOneLine_append]
      exact ⟨⟨hd.mono (List.take_prefix _ _).isInfix, by decide⟩, hd.mono (List.drop_suffix _ _).isInfix⟩

private theorem isOneLine_scientific (hd : IsOneLine digits) (lead : Int) :
    IsOneLine (Layout.scientific digits lead) := by
  have hdrop : IsOneLine (digits.drop 1) := hd.mono (List.drop_suffix 1 _).isInfix
  rw [Layout.scientific]
  simp only [isOneLine_append]
  refine ⟨⟨⟨⟨hd.mono (List.take_prefix _ _).isInfix, ?_⟩, by decide⟩, ?_⟩, isOneLine_ofNat _⟩
  · split
    · exact isOneLine_nil
    · exact isOneLine_append (a := ['.']).mpr ⟨by decide, hdrop⟩
  · split <;> decide

theorem isOneLine_write (x : Binary64) : IsOneLine (layout.write x) := by
  rw [Layout.write, isOneLine_append]
  refine ⟨by split <;> decide, ?_⟩
  rw [Layout.magnitude]
  split
  · exact isOneLine_append.mpr ⟨by decide, isOneLine_fraction layout⟩
  · split
    · exact isOneLine_plain layout (isOneLine_ofNat _) _
    · dsimp only
      split
      · exact isOneLine_plain layout (isOneLine_ofNat _) _
      · exact isOneLine_scientific (isOneLine_ofNat _) _

end Layout

structure AreLineEnds (ends : List Char) : Prop where
  lineFeed : '\n' ∈ ends
  isLineEnd : ∀ c ∈ ends, c = '\r' ∨ c = '\n'

/-- The lines of a text. The last one may be empty. -/
def linesOf (ends : List Char) (t : Text) : List Text := t.splitOnP (ends.contains ·)

theorem areLineEnds_lineFeed : AreLineEnds ['\n'] := ⟨by decide, by decide⟩

theorem AreLineEnds.contains_eq_false (h : AreLineEnds ends) (ht : IsOneLine t) :
    ∀ c ∈ t, ends.contains c = false := by
  intro c hc
  rw [Bool.eq_false_iff]
  intro hmem
  rcases h.isLineEnd c (List.contains_iff_mem.mp hmem) with rfl | rfl
  · exact ht.1 hc
  · exact ht.2 hc

theorem linesOf_append_lineFeed (h : AreLineEnds ends) (a t : Text) :
    linesOf ends (a ++ '\n' :: t) = linesOf ends a ++ linesOf ends t :=
  List.splitOnP_append_cons a t (List.contains_iff_mem.mpr h.lineFeed)

theorem linesOf_of_isOneLine (h : AreLineEnds ends) (ht : IsOneLine t) : linesOf ends t = [t] :=
  List.splitOnP_eq_singleton (h.contains_eq_false ht)

theorem unlines_cons (l : Text) (ls : List Text) : unlines (l :: ls) = l ++ '\n' :: unlines ls := by
  simp [unlines]

theorem unlines_append (ls ls' : List Text) : unlines (ls ++ ls') = unlines ls ++ unlines ls' := by
  simp [unlines]

/-- Written lines are read back. -/
theorem linesOf_unlines_append (h : AreLineEnds ends) {ls : List Text} (hls : ∀ l ∈ ls, IsOneLine l) (t : Text) :
    linesOf ends (unlines ls ++ t) = ls ++ linesOf ends t := by
  induction ls with
  | nil => rfl
  | cons l ls ih =>
    have hrest := ih fun l' hl' => hls l' (List.mem_cons_of_mem _ hl')
    rw [unlines_cons, List.append_assoc, List.cons_append, linesOf_append_lineFeed h,
      linesOf_of_isOneLine h (hls l List.mem_cons_self), hrest]
    rfl

end SfcContract.Text
