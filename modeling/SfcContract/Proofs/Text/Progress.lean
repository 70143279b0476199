import SfcContract.Proofs.Text.Search

/-!
# How a search goes on

A text that is written piece by piece is searched piece by piece. A recogniser either misses every place
of a piece or reads the piece as a whole, and then the search goes on with the next one.
-/

namespace SfcContract.Text

variable {α : Type} {r : Recognizer α} {prev : Option Char} {c : Char} {a b t : Text}

/-- A word at the start of `a ++ t` ends in `a` or goes on with what follows it. -/
theorem isPrefix_or_of_isPrefix_append {w : Text} (h : w <+: a ++ t) : w <+: a ∨ ∃ c ∈ t.head?, a ++ [c] <+: w := by
  rcases List.prefix_or_prefix_of_prefix h (List.prefix_append a t) with hw | ⟨v, rfl⟩
  · exact .inl hw
  · cases v with
    | nil => exact .inl ⟨[], by simp⟩
    | cons c v =>
      obtain ⟨s, hs⟩ := h
      rw [List.append_assoc] at hs
      have htail : t = c :: (v ++ s) := (List.append_cancel_left hs).symm
      exact .inr ⟨c, by simp [htail], v, by simp⟩

theorem isPrefix_of_isPrefix_append_of_head {w : Text} (h : w <+: a ++ t) (ht : ∀ c ∈ t.head?, c ∉ w) : w <+: a := by
  rcases isPrefix_or_of_isPrefix_append h with hw | ⟨c, hc, hw⟩
  · exact hw
  · exact absurd (hw.subset (by simp)) (ht c hc)

/-- What is read behind a word that `t` cannot go on with. -/
theorem exists_of_append_eq_append {w rest : Text} (h : a ++ t = w ++ rest) (ht : ∀ c ∈ t.head?, c ∉ w) :
    ∃ v, a = w ++ v ∧ rest = v ++ t := by
  obtain ⟨v, rfl⟩ := isPrefix_of_isPrefix_append_of_head ⟨rest, h.symm⟩ ht
  rw [List.append_assoc] at h
  exact ⟨v, rfl, (List.append_cancel_left h).symm⟩

/-- The recogniser succeeds at no place of `a` when `t` follows. -/
def Misses (r : Recognizer α) (a t : Text) : Prop :=
  ∀ b u, a = b ++ u → u ≠ [] → ∀ prev, r prev (u ++ t) = none

namespace Misses

theorem nil : Misses r [] t := by
  intro b u he hu
  have hnil := List.append_eq_nil_iff.mp he.symm
  exact absurd hnil.2 hu

theorem cons (hc : ∀ prev, r prev (c :: (a ++ t)) = none) (ha : Misses r a t) : Misses r (c :: a) t := by
  intro b u he hu
  cases b with
  | nil =>
    obtain rfl : c :: a = u := he
    exact hc
  | cons d b =>
    obtain ⟨-, rfl⟩ := List.cons.inj he
    exact ha b u rfl hu

theorem append (ha : Misses r a (b ++ t)) (hb : Misses r b t) : Misses r (a ++ b) t := by
  induction a with
  | nil => exact hb
  | cons c a ih =>
    refine cons ?_ (ih fun d u he hu => ha (c :: d) u (by rw [he, List.cons_append]) hu)
    have hfirst := ha [] (c :: a) rfl (by simp)
    simpa using hfirst

theorem of_first (h : ∀ c ∈ a, ∀ prev s, r prev (c :: s) = none) : Misses r a t := by
  induction a with
  | nil => exact nil
  | cons c a ih =>
    refine cons (fun prev => h c List.mem_cons_self prev _) (ih ?_)
    exact fun d hd => h d (List.mem_cons_of_mem _ hd)

end Misses

theorem getLast?_cons_or (c : Char) (a : Text) (prev : Option Char) :
    (c :: a).getLast?.or prev = a.getLast?.or (some c) := by
  rw [List.getLast?_cons]
  cases a.getLast? <;> rfl

theorem findFrom_append_of_misses (h : Misses r a t) :
    findFrom r prev 0 (a ++ t) = findFrom r (a.getLast?.or prev) 0 t := by
  induction a generalizing prev with
  | nil => rfl
  | cons c a ih =>
    have hnone := h [] (c :: a) rfl (by simp) prev
    have hrest := @ih (some c) fun b u he hu => h (c :: b) u (by rw [he, List.cons_append]) hu
    rw [List.cons_append] at hnone ⊢
    simp only [findFrom, hnone, hrest, getLast?_cons_or]

theorem findFrom_of_misses (h : Misses r t []) : findFrom r prev 0 t = [] := by
  have hall : findFrom r prev 0 (t ++ []) = _ := findFrom_append_of_misses h
  rw [List.append_nil] at hall
  rw [hall, findFrom]

theorem findFrom_length_append (r : Recognizer α) (prev : Option Char) (a t : Text) :
    findFrom r prev a.length (a ++ t) = findFrom r (a.getLast?.or prev) 0 t := by
  induction a generalizing prev with
  | nil => rfl
  | cons c a ih =>
    rw [List.length_cons, List.cons_append, findFrom, ih, getLast?_cons_or]

/-- What a recogniser reads as a whole is passed over. -/
theorem findFrom_append_of_some {x : α} (ha : a ≠ []) (h : r prev (a ++ t) = some (x, t)) :
    findFrom r prev 0 (a ++ t) = x :: findFrom r (a.getLast?.or prev) 0 t := by
  obtain ⟨c, a, rfl⟩ := List.exists_cons_of_ne_nil ha
  have hskip : (a ++ t).length - t.length = a.length := by
    rw [List.length_append, Nat.add_sub_cancel]
  rw [List.cons_append] at h ⊢
  simp only [findFrom, h, hskip, findFrom_length_append, getLast?_cons_or]

theorem findFirst?_of_some {x : α} {rest : Text} (ht : t ≠ []) (h : r none t = some (x, rest)) :
    findFirst? r t = some x := by
  obtain ⟨c, t, rfl⟩ := List.exists_cons_of_ne_nil ht
  simp [findFirst?, find?, h]

/-- A search reads `found` in `a` and goes on with `t`. -/
def Finds (r : Recognizer α) (a t : Text) (found : List α) : Prop :=
  ∀ prev, findFrom r prev 0 (a ++ t) = found ++ findFrom r (a.getLast?.or prev) 0 t

namespace Finds

variable {found more : List α}

theorem of_misses (h : Misses r a t) : Finds r a t [] := fun _ => findFrom_append_of_misses h

theorem of_some {x : α} (ha : a ≠ []) (h : ∀ prev, r prev (a ++ t) = some (x, t)) : Finds r a t [x] :=
  fun prev => findFrom_append_of_some ha (h prev)

theorem append (ha : Finds r a (b ++ t) found) (hb : Finds r b t more) :
    Finds r (a ++ b) t (found ++ more) := by
  intro prev
  rw [List.append_assoc, ha, hb, List.append_assoc, List.getLast?_append, Option.or_assoc]

theorem findAll_eq (h : Finds r t [] found) : findAll r t = found := by
  have hall := h none
  rwa [List.append_nil, findFrom, List.append_nil] at hall

end Finds

theorem find?_append_of_misses (h : Misses r a t) : find? r prev (a ++ t) = find? r (a.getLast?.or prev) t := by
  induction a generalizing prev with
  | nil => rfl
  | cons c a ih =>
    have hnone := h [] (c :: a) rfl (by simp) prev
    have hrest := @ih (some c) fun b u he hu => h (c :: b) u (by rw [he, List.cons_append]) hu
    rw [List.cons_append] at hnone ⊢
    simp only [find?, hnone, hrest, getLast?_cons_or]

/-- A search reads in `a` nothing but things of the given list and goes on with `t`. -/
def FindsAmong (r : Recognizer α) (a t : Text) (among : List α) : Prop :=
  ∀ prev, ∃ found, found ⊆ among ∧ findFrom r prev 0 (a ++ t) = found ++ findFrom r (a.getLast?.or prev) 0 t

namespace FindsAmong

variable {among more : List α}

theorem of_misses (h : Misses r a t) : FindsAmong r a t among := fun _ =>
  ⟨[], List.nil_subset among, findFrom_append_of_misses h⟩

theorem append (ha : FindsAmong r a (b ++ t) among) (hb : FindsAmong r b t more) :
    FindsAmong r (a ++ b) t (among ++ more) := by
  intro prev
  obtain ⟨found, hfound, hsearch⟩ := ha prev
  obtain ⟨found', hfound', hsearch'⟩ := hb (a.getLast?.or prev)
  refine ⟨found ++ found', List.append_subset.mpr ⟨?_, ?_⟩, ?_⟩
  · exact List.subset_append_of_subset_left more hfound
  · exact List.subset_append_of_subset_right among hfound'
  · rw [List.append_assoc, hsearch, hsearch', List.append_assoc, List.getLast?_append, Option.or_assoc]

end FindsAmong

/-- A recogniser that reads only texts with a certain character finds nothing where there is none. -/
theorem findFrom_eq_nil_of_not_mem (hr : ∀ prev s x, r prev s = some x → c ∈ s) (hc : c ∉ t) :
    findFrom r prev 0 t = [] := by
  rw [List.eq_nil_iff_forall_not_mem]
  intro x hx
  obtain ⟨p, s, rest, hs, hread⟩ := mem_findFrom hx
  exact hc (hs.subset (hr p s (x, rest) hread))

/-- A search tries every place. -/
theorem find?_isSome_iff {before : Text} : (find? r before.getLast? t).isSome = true ↔
    ∃ b u, t = b ++ u ∧ u ≠ [] ∧ (r (before ++ b).getLast? u).isSome = true := by
  induction t generalizing before with
  | nil =>
    simp only [find?, Option.isSome_none, Bool.false_eq_true, false_iff]
    rintro ⟨b, u, he, hu, -⟩
    exact hu (List.append_eq_nil_iff.mp he.symm).2
  | cons c t ih =>
    have hlast : some c = (before ++ [c]).getLast? := by simp
    cases hr : r before.getLast? (c :: t) with
    | some hit =>
      simp only [find?, hr, Option.isSome_some, true_iff]
      exact ⟨[], c :: t, rfl, by simp, by simp [hr]⟩
    | none =>
      simp only [find?, hr]
      rw [hlast, ih]
      constructor
      · rintro ⟨b, u, rfl, hu, hsome⟩
        exact ⟨c :: b, u, rfl, hu, by simpa using hsome⟩
      · rintro ⟨b, u, he, hu, hsome⟩
        cases b with
        | nil =>
          obtain rfl : c :: t = u := he
          simp [hr] at hsome
        | cons d b =>
          obtain ⟨rfl, rfl⟩ := List.cons.inj he
          exact ⟨b, u, rfl, hu, by simpa using hsome⟩

/-- What is read from a place of `a` on is the same whether `t` follows `a` or nothing does. -/
def ReadsWithin (r : Recognizer α) (a t : Text) : Prop :=
  ∀ b u, a = b ++ u → u ≠ [] → ∀ prev, r prev (u ++ t) = (r prev u).map fun hit => (hit.1, hit.2 ++ t)

theorem ReadsWithin.findFrom_append {skip : Nat} (h : ReadsWithin r a t) (hskip : skip ≤ a.length) :
    findFrom r prev skip (a ++ t) = findFrom r prev skip a ++ findFrom r (a.getLast?.or prev) 0 t := by
  induction a generalizing prev skip with
  | nil =>
    obtain rfl := Nat.le_zero.mp hskip
    simp [findFrom]
  | cons c a ih =>
    have hrest : ReadsWithin r a t := fun b u he hu => h (c :: b) u (by rw [he, List.cons_append]) hu
    rw [getLast?_cons_or]
    cases skip with
    | succ skip => exact ih hrest (Nat.le_of_succ_le_succ hskip)
    | zero =>
      have hhere := h [] (c :: a) rfl (List.cons_ne_nil c a) prev
      cases hr : r prev (c :: a) with
      | none =>
        rw [hr, Option.map_none, List.cons_append] at hhere
        simp only [List.cons_append, findFrom, hhere, hr]
        exact ih hrest (Nat.zero_le _)
      | some hit =>
        rw [hr, Option.map_some, List.cons_append] at hhere
        -- As many characters are skipped in `a` alone, so the search is back in step before `t` begins.
        have hlen : (a ++ t).length - (hit.2 ++ t).length = a.length - hit.2.length := by
          rw [List.length_append, List.length_append, Nat.add_sub_add_right]
        simp only [List.cons_append, findFrom, hhere, hr, hlen]
        rw [ih hrest (Nat.sub_le _ _)]

theorem after?_append_of_isPrefix {lead : Text} (h : lead <+: a ++ t → lead <+: a) :
    after? lead (a ++ t) = (after? lead a).map (· ++ t) := by
  by_cases hpart : lead <+: a
  · obtain ⟨rest, rfl⟩ := hpart
    rw [after?_eq_some_iff.mpr rfl, Option.map_some, after?_eq_some_iff, List.append_assoc]
  · rw [after?_eq_none_iff.mpr hpart, Option.map_none, after?_eq_none_iff]
    exact mt h hpart

/-- A word that can only end with a character of `a` does not reach over the end of `a`. -/
theorem after?_append {lead : Text} (hlead : c ∉ lead.dropLast) (ha : c ∈ a) (t : Text) :
    after? lead (a ++ t) = (after? lead a).map (· ++ t) := by
  refine after?_append_of_isPrefix fun h => ?_
  rcases isPrefix_or_of_isPrefix_append h with h | ⟨d, -, s, rfl⟩
  · exact h
  · rw [List.append_assoc, List.dropLast_append_of_ne_nil (by simp)] at hlead
    exact absurd (List.mem_append_left _ ha) hlead

/-- A word does not reach over a character that is not part of it. -/
theorem after?_append_of_head {lead : Text} (h : ∀ c ∈ t.head?, c ∉ lead) :
    after? lead (a ++ t) = (after? lead a).map (· ++ t) :=
  after?_append_of_isPrefix fun hlead => isPrefix_of_isPrefix_append_of_head hlead h

/-- Something a recogniser read in a source, and where. -/
structure Occurrence (r : Recognizer α) (source : Text) where
  before : Text
  text : Text
  after : Text
  value : α
  source_eq : source = before ++ (text ++ after)
  read : r before.getLast? (text ++ after) = some (value, after)

/-- The recogniser passes some text whenever it succeeds. -/
def Advances (r : Recognizer α) : Prop :=
  ∀ prev t x rest, r prev t = some (x, rest) → ∃ text, text ≠ [] ∧ t = text ++ rest

namespace Occurrence

variable {source : Text}

def EndsBefore (o o' : Occurrence r source) : Prop := o.before.length + o.text.length ≤ o'.before.length

/-- Occurrences that follow one another from a place on. No occurrence at all comes between that place and the
first of them. -/
structure AreFrom (start : Nat) (os : List (Occurrence r source)) : Prop where
  ordered : os.Pairwise EndsBefore
  start_le : ∀ o ∈ os, start ≤ o.before.length
  first : ∀ o : Occurrence r source, o.text ≠ [] → start ≤ o.before.length →
    ∃ o' ∈ os, o'.before.length ≤ o.before.length

namespace AreFrom

variable {start : Nat} {os : List (Occurrence r source)}

theorem nil : AreFrom source.length ([] : List (Occurrence r source)) where
  ordered := List.Pairwise.nil
  start_le := by simp
  first := by
    intro o hne hstart
    have hlen := congrArg List.length o.source_eq
    have hpos := List.length_pos_iff.mpr hne
    simp only [List.length_append] at hlen
    omega

theorem cons (h : AreFrom start os) {o : Occurrence r source} (ho : o.before.length + o.text.length ≤ start) :
    AreFrom o.before.length (o :: os) where
  ordered := List.pairwise_cons.mpr ⟨fun o' ho' => Nat.le_trans ho (h.start_le o' ho'), h.ordered⟩
  start_le := by
    intro o' ho'
    rcases List.mem_cons.mp ho' with rfl | ho'
    · exact Nat.le_refl _
    · have hle := h.start_le o' ho'
      omega
  first := fun _ _ hle => ⟨o, List.mem_cons_self, hle⟩

/-- A place where nothing is read may be left out. -/
theorem of_succ (h : AreFrom (start + 1) os) (hnone : ∀ o : Occurrence r source, o.before.length ≠ start) :
    AreFrom start os where
  ordered := h.ordered
  start_le := fun o ho => Nat.le_of_succ_le (h.start_le o ho)
  first := fun o hne ho => h.first o hne (Nat.lt_of_le_of_ne ho (hnone o).symm)

end AreFrom

end Occurrence

/-- What a search finds stands at places that follow one another. -/
theorem exists_occurrences_findFrom (hr : Advances r) {source before : Text} (hs : source = before ++ t)
    {skip : Nat} (hskip : skip ≤ t.length) : ∃ os : List (Occurrence r source),
      os.map Occurrence.value = findFrom r before.getLast? skip t ∧
      Occurrence.AreFrom (before.length + skip) os := by
  induction t generalizing before skip with
  | nil =>
    obtain rfl := Nat.le_zero.mp hskip
    have hlen : before.length + 0 = source.length := by simp [hs]
    exact ⟨[], by simp [findFrom], hlen ▸ Occurrence.AreFrom.nil⟩
  | cons c t ih =>
    have hlast : some c = (before ++ [c]).getLast? := by simp
    have hsource : source = (before ++ [c]) ++ t := by simp [hs]
    have hlength : (before ++ [c]).length = before.length + 1 := by simp
    cases skip with
    | succ skip =>
      obtain ⟨os, hos, hfrom⟩ := ih hsource (Nat.le_of_succ_le_succ hskip)
      rw [hlength, Nat.add_assoc, Nat.add_comm 1] at hfrom
      exact ⟨os, by rw [findFrom, hlast, hos], hfrom⟩
    | zero =>
      cases hread : r before.getLast? (c :: t) with
      | none =>
        obtain ⟨os, hos, hfrom⟩ := ih hsource (Nat.zero_le _)
        rw [hlength] at hfrom
        refine ⟨os, by simp only [findFrom, hread]; rw [hlast, hos], hfrom.of_succ ?_⟩
        intro o hstart
        obtain ⟨hbefore, htext⟩ := List.append_inj (hs.symm.trans o.source_eq) hstart.symm
        have hsome := o.read
        rw [← hbefore, ← htext, hread] at hsome
        cases hsome
      | some hit =>
        obtain ⟨x, rest⟩ := hit
        obtain ⟨text, hne, htext⟩ := hr _ _ x rest hread
        obtain ⟨os, hos, hfrom⟩ := ih hsource (Nat.sub_le t.length rest.length)
        let o : Occurrence r source := ⟨before, text, rest, x, by rw [hs, htext], by rw [← htext, hread]⟩
        refine ⟨o :: os, ?_, hfrom.cons (o := o) ?_⟩
        · simp only [List.map_cons, findFrom, hread]
          rw [hlast, hos]
        · have hlen := congrArg List.length htext
          have hpos := List.length_pos_iff.mpr hne
          simp only [List.length_cons, List.length_append, o, hlength] at hlen ⊢
          omega

section Run

variable {p : Char → Bool}

theorem takeWhile_append_of_head (ha : ∀ c ∈ a, p c = true) (ht : ∀ c ∈ t.head?, p c = false) :
    (a ++ t).takeWhile p = a := by
  rw [List.takeWhile_append_of_pos ha]
  cases t with
  | nil => simp
  | cons c t => simp [ht c rfl]

theorem dropWhile_append_of_head (ha : ∀ c ∈ a, p c = true) (ht : ∀ c ∈ t.head?, p c = false) :
    (a ++ t).dropWhile p = t := by
  rw [List.dropWhile_append_of_pos ha]
  cases t with
  | nil => rfl
  | cons c t => simp [ht c rfl]

end Run

section Between

variable {quotes : List Char} {q d : Char}

theorem between?_cons_append (ha : ∀ c ∈ a, c ∉ quotes) (hd : d ∈ quotes) (t : Text) :
    between? quotes (q :: (a ++ d :: t)) = if q ∈ quotes ∧ a ≠ [] then some (a, t) else none := by
  have hrun : ∀ c ∈ a, (!quotes.contains c) = true := by simpa using ha
  have hend : ∀ c ∈ (d :: t).head?, (!quotes.contains c) = false := by simpa using hd
  have htake := takeWhile_append_of_head hrun hend
  have hdrop := dropWhile_append_of_head hrun hend
  simp only [between?, htake, hdrop, List.contains_iff_mem]
  cases a <;> by_cases hq : q ∈ quotes <;> simp [hq]

theorem between?_append (hq : q ∈ quotes) (ha : a ≠ []) (hin : ∀ c ∈ a, c ∉ quotes) (t : Text) :
    between? quotes (q :: (a ++ q :: t)) = some (a, t) := by
  rw [between?_cons_append hin hq, if_pos ⟨hq, ha⟩]

theorem between?_cons_of_not_mem (hq : q ∉ quotes) (t : Text) : between? quotes (q :: t) = none := by
  simp [between?, hq]

/-- What stands in quotes that are closed is read whatever follows. -/
theorem between?_append_of_mem (h : ∃ c ∈ a, c ∈ quotes) (t : Text) :
    between? quotes (q :: (a ++ t)) = (between? quotes (q :: a)).map fun hit => (hit.1, hit.2 ++ t) := by
  obtain ⟨c, hc, hquote⟩ := h
  obtain ⟨d, hfirst⟩ := Option.isSome_iff_exists.mp
    (List.find?_isSome.mpr ⟨c, hc, List.contains_iff_mem.mpr hquote⟩)
  obtain ⟨hd, inner, rest, rfl, hinner⟩ := List.find?_eq_some_iff_append.mp hfirst
  have hd : d ∈ quotes := List.contains_iff_mem.mp hd
  have hinner : ∀ c ∈ inner, c ∉ quotes := by simpa using hinner
  rw [List.append_assoc, List.cons_append, between?_cons_append hinner hd, between?_cons_append hinner hd]
  split_ifs <;> rfl

end Between

end SfcContract.Text
