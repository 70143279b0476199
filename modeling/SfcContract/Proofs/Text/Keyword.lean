import SfcContract.Proofs.Text.Progress
import SfcContract.Proofs.Text.Word

/-!
# Where no keyword stands

A recogniser that reads a keyword first misses every text without the keyword. It also misses a longer word
that ends with it, unless what has to follow the keyword follows that word.
-/

namespace SfcContract.Text

variable {α : Type} {r : Recognizer α} {keyword : Text} {follows : Text → Prop} {a t w : Text}

/-- The recogniser reads a keyword first, and goes on only before certain texts. -/
def ReadsKeyword (keyword : Text) (follows : Text → Prop) (r : Recognizer α) : Prop :=
  ∀ prev s x, r prev s = some x → ∃ rest, s = keyword ++ rest ∧ follows rest

namespace ReadsKeyword

theorem misses_of_not_infix (hr : ReadsKeyword keyword follows r) (ha : ¬ keyword <:+: a)
    (ht : ∀ c ∈ t.head?, c ∉ keyword) : Misses r a t := by
  rintro b u rfl - prev
  rw [Option.eq_none_iff_forall_ne_some]
  intro x hread
  obtain ⟨rest, hs, -⟩ := hr prev _ x hread
  have hlead : keyword <+: u ++ t := ⟨rest, hs.symm⟩
  apply ha
  exact (isPrefix_of_isPrefix_append_of_head hlead ht).isInfix.trans (List.suffix_append b u).isInfix

theorem misses_of_not_mem (hr : ReadsKeyword keyword follows r) (hne : keyword ≠ [])
    (ha : ∀ c ∈ a, c ∉ keyword) : Misses r a t := by
  obtain ⟨first, others, rfl⟩ := List.exists_cons_of_ne_nil hne
  refine Misses.of_first ?_
  intro c hc prev s
  rw [Option.eq_none_iff_forall_ne_some]
  intro x hread
  obtain ⟨rest, hs, -⟩ := hr prev _ x hread
  obtain ⟨rfl, -⟩ := List.cons.inj hs
  exact ha _ hc List.mem_cons_self

theorem misses_blanks (hr : ReadsKeyword keyword follows r) (hne : keyword ≠ [])
    (hkeyword : ∀ c ∈ keyword, isWord c = true) (ha : IsBlanks a) : Misses r a t :=
  hr.misses_of_not_mem hne fun c hc => not_mem_of_isWord hkeyword (isWord_of_isBlank (ha c hc))

/-- No keyword starts in front of a word break and ends behind it. -/
theorem misses_of_wordBreak (hr : ReadsKeyword keyword follows r) (hne : keyword ≠ [])
    (hkeyword : ∀ c ∈ keyword, isWord c = true) (ha : ¬ keyword <:+: a) (hlast : a.getLast?.any isWord = false) :
    Misses r a t := by
  rcases List.eq_nil_or_concat' a with rfl | ⟨a, c, rfl⟩
  · exact Misses.nil
  · have hc : c ∉ keyword := not_mem_of_isWord hkeyword (by simpa using hlast)
    have hshort : ¬ keyword <:+: a := fun h => ha (h.trans (List.prefix_append a [c]).isInfix)
    refine (hr.misses_of_not_infix hshort ?_).append (hr.misses_of_not_mem hne ?_)
    · simpa using hc
    · simpa using hc

/-- A word is missed, even one that ends with the keyword, when what has to follow is not there. -/
theorem misses_word (hr : ReadsKeyword keyword follows r) (hkeyword : ∀ c ∈ keyword, isWord c = true)
    (hfollows : ∀ c s, isWord c = true → ¬ follows (c :: s)) (ha : ∀ c ∈ a, isWord c = true)
    (ht : ∀ c ∈ t.head?, isWord c = false) (hstop : ¬ follows t) : Misses r a t := by
  rintro b u rfl - prev
  rw [Option.eq_none_iff_forall_ne_some]
  intro x hread
  obtain ⟨rest, hs, hrest⟩ := hr prev _ x hread
  have hhead : ∀ c ∈ t.head?, c ∉ keyword := fun c hc => not_mem_of_isWord hkeyword (ht c hc)
  obtain ⟨v, rfl, rfl⟩ := exists_of_append_eq_append hs hhead
  cases v with
  | nil => exact hstop hrest
  | cons c v => exact hfollows c _ (ha c (by simp)) hrest

end ReadsKeyword

theorem any_isWord_append_blanks (ha : a.getLast?.any isWord = false) (hg : IsBlanks t) :
    (a ++ t).getLast?.any isWord = false := by
  rw [List.getLast?_append]
  cases hl : t.getLast? with
  | none => exact ha
  | some c => exact isWord_of_isBlank (hg c (List.mem_of_getLast? hl))

theorem findFirst?_of_misses (h : Misses r t []) : findFirst? r t = none := by
  rw [findFirst?_eq_head?, findAll, findFrom_of_misses h]
  rfl

theorem findFirst?_append_of_misses {x : α} {rest : Text} (h : Misses r a t) (ht : t ≠ [])
    (hread : r a.getLast? t = some (x, rest)) : findFirst? r (a ++ t) = some x := by
  obtain ⟨c, t, rfl⟩ := List.exists_cons_of_ne_nil ht
  rw [findFirst?, find?_append_of_misses h, Option.or_none, find?, hread]
  rfl

/-- One reading, that of a part between two others which are missed. -/
theorem findAll_of_misses {x : α} {b : Text} (ha : Misses r a (b ++ t)) (hb : b ≠ [])
    (hread : r a.getLast? (b ++ t) = some (x, t)) (ht : Misses r t []) : findAll r (a ++ (b ++ t)) = [x] := by
  rw [findAll, findFrom_append_of_misses ha, Option.or_none, findFrom_append_of_some hb hread,
    findFrom_of_misses ht]

theorem Misses.orElse {r' : Recognizer α} (h : Misses r a t) (h' : Misses r' a t) :
    Misses (fun prev s => r prev s <|> r' prev s) a t := by
  intro b u he hu prev
  have hnone := h b u he hu prev
  have hnone' := h' b u he hu prev
  simp only [hnone, hnone']
  rfl

/-- A sign, maybe after blanks. -/
def LeadsTo (sign : Char) (t : Text) : Prop := ∃ rest, skipBlanks t = sign :: rest

theorem leadsTo_cons_iff {sign c : Char} (hc : isBlank c = false) : LeadsTo sign (c :: t) ↔ sign = c := by
  rw [LeadsTo, skipBlanks_cons_of_not hc]
  constructor
  · rintro ⟨rest, h⟩
    exact (List.cons.inj h).1.symm
  · rintro rfl
    exact ⟨t, rfl⟩

theorem leadsTo_cons_of_blank {sign c : Char} (hc : isBlank c = true) : LeadsTo sign (c :: t) ↔ LeadsTo sign t := by
  rw [LeadsTo, skipBlanks_cons_of_blank hc, LeadsTo]

def LeadsToBlank (t : Text) : Prop := t.head?.any isBlank = true

end SfcContract.Text
