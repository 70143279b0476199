import Mathlib.Data.List.Basic
import SfcContract.Proofs.Text.Trim
import SfcContract.Text.Search

/-!
# What a search reads

Every reading step names the part of the text it passed, so whatever a search answers was read at some
place of the text. A recogniser that succeeds at one place only is found there, once.
-/

namespace SfcContract.Text

variable {α : Type}

theorem expect?_eq_some_iff {c : Char} {t rest : Text} : expect? c t = some rest ↔ t = c :: rest := by
  cases t with
  | nil => simp [expect?]
  | cons d t => simp [expect?]

theorem expect?_append_cons {c d : Char} (h : d ≠ c) (a t : Text) :
    expect? c (a ++ d :: t) = (expect? c a).map (· ++ d :: t) := by
  cases a with
  | nil => simp [expect?, h]
  | cons e a => by_cases he : e = c <;> simp [expect?, he]

/-- Neither blanks nor a sign reach over another sign. -/
theorem expect?_skipBlanks_append_cons {c d : Char} (hd : isBlank d = false) (h : d ≠ c) (a t : Text) :
    expect? c (skipBlanks (a ++ d :: t)) = (expect? c (skipBlanks a)).map (· ++ d :: t) := by
  rw [skipBlanks_append_cons hd, expect?_append_cons h]

theorem after?_eq_some_iff {lead t rest : Text} : after? lead t = some rest ↔ t = lead ++ rest := by
  rw [after?, List.isPrefixOf?_eq_some_iff_append_eq, eq_comm]

theorem after?_eq_none_iff {lead t : Text} : after? lead t = none ↔ ¬ lead <+: t := by
  rw [Option.eq_none_iff_forall_ne_some]
  constructor
  · rintro h ⟨rest, hrest⟩
    exact h rest (after?_eq_some_iff.mpr hrest.symm)
  · intro h rest hrest
    exact h ⟨rest, (after?_eq_some_iff.mp hrest).symm⟩

theorem before?_eq_some_iff {tail t lead : Text} : before? tail t = some lead ↔ t = lead ++ tail := by
  simp only [before?, Option.map_eq_some_iff, after?_eq_some_iff]
  constructor
  · rintro ⟨r, hr, rfl⟩
    simpa using congrArg List.reverse hr
  · rintro rfl
    exact ⟨lead.reverse, by simp, by simp⟩

theorem wordStart?_eq_some_iff {word t rest : Text} {prev : Option Char} :
    wordStart? word prev t = some rest ↔ prev.any isWord = false ∧ t = word ++ rest := by
  cases h : prev.any isWord <;> simp [wordStart?, h, after?_eq_some_iff]

theorem between?_eq_some {quotes : List Char} {t a rest : Text} (h : between? quotes t = some (a, rest)) :
    a ≠ [] ∧ ∃ q r, t = q :: a ++ r := by
  cases t with
  | nil => simp [between?] at h
  | cons q t =>
    have ht := List.takeWhile_append_dropWhile (p := (!quotes.contains ·)) (l := t)
    simp only [between?] at h
    split at h
    · cases hi : t.takeWhile (!quotes.contains ·) with
      | nil => simp only [hi, reduceCtorEq] at h
      | cons c inner =>
        cases hd : t.dropWhile (!quotes.contains ·) with
        | nil => simp only [hi, hd, reduceCtorEq] at h
        | cons q' r =>
          simp only [hi, hd, Option.some.injEq, Prod.mk.injEq] at h
          obtain ⟨rfl, rfl⟩ := h
          refine ⟨by simp, q, q' :: r, ?_⟩
          rw [← hi, ← hd, List.cons_append, ht]
    · simp at h

section LazyReading

variable {tail : Text → Option Text} {c : Char} {a t rest : Text}

/-- A lazy reading fails when the tail can be read nowhere. -/
theorem upTo?_eq_none_iff : upTo? tail t = none ↔ ∀ u v, t = u ++ v → tail v = none := by
  induction t with
  | nil =>
    rw [upTo?, Option.map_eq_none_iff]
    constructor
    · rintro h u v he
      obtain ⟨rfl, rfl⟩ := List.append_eq_nil_iff.mp he.symm
      exact h
    · exact fun h => h [] [] rfl
  | cons c t ih =>
    constructor
    · rintro h u v he
      cases hc : tail (c :: t) with
      | some rest => simp [upTo?, hc] at h
      | none =>
        simp only [upTo?, hc, Option.map_eq_none_iff] at h
        cases u with
        | nil =>
          obtain rfl : c :: t = v := he
          exact hc
        | cons d u =>
          obtain ⟨-, rfl⟩ := List.cons.inj he
          exact ih.mp h u v rfl
    · intro h
      have hhere := h [] (c :: t) rfl
      have hrest := ih.mpr fun u v he => h (c :: u) v (by rw [he, List.cons_append])
      simp only [upTo?, hhere, hrest, Option.map_none]

theorem upTo?_append_of_none (h : ∀ u v, a = u ++ v → v ≠ [] → tail (v ++ t) = none) :
    upTo? tail (a ++ t) = (upTo? tail t).map fun r => (a ++ r.1, r.2) := by
  induction a with
  | nil => simp
  | cons c a ih =>
    have hnone := h [] (c :: a) rfl (by simp)
    have hrest := ih fun u v he hv => h (c :: u) v (by rw [he, List.cons_append]) hv
    rw [List.cons_append] at hnone ⊢
    simp only [upTo?, hnone, hrest, Option.map_map]
    rfl

theorem upTo?_append_of_some (h : ∀ u v, a = u ++ v → v ≠ [] → tail (v ++ t) = none)
    (ht : tail t = some rest) : upTo? tail (a ++ t) = some (a, rest) := by
  have hhere : upTo? tail t = some ([], rest) := by
    cases t with
    | nil => simp [upTo?, ht]
    | cons c t => simp [upTo?, ht]
  rw [upTo?_append_of_none h, hhere, Option.map_some, List.append_nil]

/-- A lazy reading ends at the first place where the tail can be read. -/
theorem upTo?_eq_some_iff : upTo? tail t = some (a, rest) ↔
    ∃ s, t = a ++ s ∧ tail s = some rest ∧ ∀ u v, a = u ++ v → v ≠ [] → tail (v ++ s) = none := by
  constructor
  · intro h
    induction t generalizing a with
    | nil =>
      simp only [upTo?, Option.map_eq_some_iff, Prod.mk.injEq] at h
      obtain ⟨u, hu, rfl, rfl⟩ := h
      exact ⟨[], rfl, hu, fun u v he hv => absurd (List.append_eq_nil_iff.mp he.symm).2 hv⟩
    | cons c t ih =>
      cases hc : tail (c :: t) with
      | some u =>
        simp only [upTo?, hc, Option.some.injEq, Prod.mk.injEq] at h
        obtain ⟨rfl, rfl⟩ := h
        exact ⟨c :: t, rfl, hc, fun u v he hv => absurd (List.append_eq_nil_iff.mp he.symm).2 hv⟩
      | none =>
        simp only [upTo?, hc, Option.map_eq_some_iff, Prod.mk.injEq] at h
        obtain ⟨⟨b, u⟩, hu, rfl, rfl⟩ := h
        obtain ⟨s, rfl, hs, hearlier⟩ := ih hu
        refine ⟨s, rfl, hs, ?_⟩
        intro u v he hv
        cases u with
        | nil =>
          obtain rfl : c :: b = v := he
          exact hc
        | cons d u => exact hearlier u v (List.cons.inj he).2 hv
  · rintro ⟨s, rfl, hs, hearlier⟩
    exact upTo?_append_of_some hearlier hs

theorem upToChar?_append (ha : c ∉ a) (t : Text) : upToChar? c (a ++ c :: t) = some (a, t) := by
  refine upTo?_append_of_some ?_ (by simp [expect?])
  rintro u v rfl hv
  obtain ⟨d, v, rfl⟩ := List.exists_cons_of_ne_nil hv
  have hd : d ≠ c := by
    rintro rfl
    exact ha (by simp)
  simp [expect?, hd]

theorem upToChar?_eq_some_iff : upToChar? c t = some (a, rest) ↔ t = a ++ c :: rest ∧ c ∉ a := by
  constructor
  · intro h
    obtain ⟨s, rfl, hs, hearlier⟩ := upTo?_eq_some_iff.mp h
    refine ⟨by rw [expect?_eq_some_iff.mp hs], fun hmem => ?_⟩
    obtain ⟨u, v, rfl, -⟩ := List.eq_append_cons_of_mem hmem
    have hnone := hearlier u (c :: v) rfl (List.cons_ne_nil c v)
    simp [expect?] at hnone
  · rintro ⟨rfl, hc⟩
    exact upToChar?_append hc rest

theorem upTo?_eq_some (h : upTo? tail t = some (a, rest)) : ∃ s, t = a ++ s ∧ tail s = some rest := by
  obtain ⟨s, ht, hs, -⟩ := upTo?_eq_some_iff.mp h
  exact ⟨s, ht, hs⟩

theorem upToChar?_eq_some (h : upToChar? c t = some (a, rest)) : t = a ++ c :: rest :=
  (upToChar?_eq_some_iff.mp h).1

end LazyReading

/-- Whatever is found was read at some place, after the character before that place. -/
theorem exists_of_mem_findFrom {r : Recognizer α} {x : α} {before t : Text} {skip : Nat}
    (h : x ∈ findFrom r before.getLast? skip t) :
    ∃ b u rest, t = b ++ u ∧ r (before ++ b).getLast? u = some (x, rest) := by
  induction t generalizing before skip with
  | nil => cases h
  | cons c t ih =>
    have hlast : some c = (before ++ [c]).getLast? := by simp
    have later {skip} (h : x ∈ findFrom r (some c) skip t) :
        ∃ b u rest, c :: t = b ++ u ∧ r (before ++ b).getLast? u = some (x, rest) := by
      rw [hlast] at h
      obtain ⟨b, u, rest, rfl, hr⟩ := ih h
      exact ⟨c :: b, u, rest, rfl, by simpa using hr⟩
    cases skip with
    | succ skip => exact later h
    | zero =>
      cases hr : r before.getLast? (c :: t) with
      | none => exact later (by simpa [findFrom, hr] using h)
      | some hit =>
        obtain ⟨y, rest⟩ := hit
        simp only [findFrom, hr, List.mem_cons] at h
        rcases h with rfl | h
        · exact ⟨[], c :: t, rest, rfl, by simpa using hr⟩
        · exact later h

theorem mem_findFrom {r : Recognizer α} {a : α} {prev : Option Char} {skip : Nat} {t : Text}
    (h : a ∈ findFrom r prev skip t) : ∃ p s rest, s <:+ t ∧ r p s = some (a, rest) := by
  have hprev : prev = prev.toList.getLast? := by cases prev <;> rfl
  rw [hprev] at h
  obtain ⟨b, u, rest, rfl, hr⟩ := exists_of_mem_findFrom h
  exact ⟨_, u, rest, List.suffix_append b u, hr⟩

theorem mem_findAll {r : Recognizer α} {a : α} {t : Text} (h : a ∈ findAll r t) :
    ∃ p s rest, s <:+ t ∧ r p s = some (a, rest) := mem_findFrom h

theorem find?_eq_some {r : Recognizer α} {prev : Option Char} {t rest : Text} {a : α}
    (h : find? r prev t = some (a, rest)) : ∃ p s, s <:+ t ∧ r p s = some (a, rest) := by
  induction t generalizing prev with
  | nil => simp [find?] at h
  | cons c t ih =>
    cases hr : r prev (c :: t) with
    | some hit =>
      simp only [find?, hr, Option.some.injEq] at h
      exact ⟨prev, c :: t, List.suffix_refl _, h ▸ hr⟩
    | none =>
      obtain ⟨p, s, hs, hp⟩ := ih (by simpa [find?, hr] using h)
      exact ⟨p, s, hs.trans (List.suffix_cons c t), hp⟩

theorem findFirst?_eq_some {r : Recognizer α} {t : Text} {a : α} (h : findFirst? r t = some a) :
    ∃ p s rest, s <:+ t ∧ r p s = some (a, rest) := by
  obtain ⟨⟨b, rest⟩, hb, rfl⟩ := Option.map_eq_some_iff.mp h
  obtain ⟨p, s, hs, hr⟩ := find?_eq_some hb
  exact ⟨p, s, rest, hs, hr⟩

/-- What can be read at some place is found, unless an earlier occurrence reaches over that place. -/
theorem mem_findFrom_or_covered {r : Recognizer α} {x : α} {before b u rest : Text} {skip : Nat}
    (hskip : skip ≤ b.length) (hu : u ≠ []) (hr : r (before ++ b).getLast? u = some (x, rest)) :
    x ∈ findFrom r before.getLast? skip (b ++ u) ∨
      ∃ d e y rest', b = d ++ e ∧ e ≠ [] ∧ r (before ++ d).getLast? (e ++ u) = some (y, rest') ∧
        rest'.length < u.length := by
  induction b generalizing before skip with
  | nil =>
    obtain ⟨c, u, rfl⟩ := List.exists_cons_of_ne_nil hu
    obtain rfl := Nat.le_zero.mp hskip
    rw [List.append_nil] at hr
    exact .inl (by simp [findFrom, hr])
  | cons c b ih =>
    have hlast : some c = (before ++ [c]).getLast? := by simp
    have later {skip} (hskip : skip ≤ b.length) : x ∈ findFrom r (some c) skip (b ++ u) ∨
        ∃ d e y rest', c :: b = d ++ e ∧ e ≠ [] ∧ r (before ++ d).getLast? (e ++ u) = some (y, rest') ∧
          rest'.length < u.length := by
      rw [hlast]
      refine (ih hskip (by simpa using hr)).imp_right ?_
      rintro ⟨d, e, y, rest', rfl, he, hread, hlen⟩
      exact ⟨c :: d, e, y, rest', rfl, he, by simpa using hread, hlen⟩
    cases skip with
    | succ skip => exact later (Nat.le_of_succ_le_succ hskip)
    | zero =>
      cases hhere : r before.getLast? (c :: (b ++ u)) with
      | none => simpa only [List.cons_append, findFrom, hhere] using later (Nat.zero_le _)
      | some hit =>
        obtain ⟨y, rest'⟩ := hit
        by_cases hcover : (b ++ u).length - rest'.length ≤ b.length
        · refine (later hcover).imp_left fun hx => ?_
          simp only [List.cons_append, findFrom, hhere]
          exact List.mem_cons_of_mem y hx
        · rw [List.length_append] at hcover
          exact .inr ⟨[], c :: b, y, rest', rfl, List.cons_ne_nil c b, by simpa using hhere, by omega⟩

/-- The places of a text, counted in characters, at which a recogniser succeeds. -/
def places (r : Recognizer α) (t : Text) : List Nat :=
  (List.range t.length).filter fun n => (r (t.take n).getLast? (t.drop n)).isSome

def literally (letters : Text) : Recognizer Unit := fun _ t => (after? letters t).map fun rest => ((), rest)

theorem mem_places {r : Recognizer α} {a t : Text} (ht : t ≠ []) :
    a.length ∈ places r (a ++ t) ↔ (r a.getLast? t).isSome = true := by
  have hlen := List.length_pos_iff.mpr ht
  simp [places]
  omega

theorem findFrom_eq_nil {r : Recognizer α} {a t : Text} {skip : Nat}
    (h : ∀ b u, t = b ++ u → u ≠ [] → r (a ++ b).getLast? u = none) :
    findFrom r a.getLast? skip t = [] := by
  induction t generalizing a skip with
  | nil => simp [findFrom]
  | cons c t ih =>
    have hlast : some c = (a ++ [c]).getLast? := by simp
    have hrest : ∀ b u, t = b ++ u → u ≠ [] → r (a ++ [c] ++ b).getLast? u = none := by
      rintro b u rfl hu
      simpa using h (c :: b) u rfl hu
    cases skip with
    | succ skip =>
      rw [findFrom, hlast]
      exact ih hrest
    | zero =>
      have hnone : r a.getLast? (c :: t) = none := by simpa using h [] (c :: t) rfl (by simp)
      simp only [findFrom, hnone]
      rw [hlast]
      exact ih hrest

/-- The text before the only place holds no occurrence, and neither does the text after it. -/
private theorem findFrom_eq_singleton {r : Recognizer α} {a b t rest : Text} {x : α} (ht : t ≠ [])
    (hit : r (a ++ b).getLast? t = some (x, rest))
    (h : ∀ b' u, b ++ t = b' ++ u → u ≠ [] → b' ≠ b → r (a ++ b').getLast? u = none) :
    findFrom r a.getLast? 0 (b ++ t) = [x] := by
  induction b generalizing a with
  | nil =>
    obtain ⟨c, t, rfl⟩ := List.exists_cons_of_ne_nil ht
    have hnil : findFrom r (a ++ [c]).getLast? (t.length - rest.length) t = [] := by
      refine findFrom_eq_nil ?_
      rintro b u rfl hu
      simpa using h (c :: b) u rfl hu (by simp)
    simp only [List.append_nil] at hit
    simpa [findFrom, hit] using hnil
  | cons c b ih =>
    have hnone : r a.getLast? (c :: (b ++ t)) = none := by
      simpa using h [] (c :: b ++ t) rfl (by simp) (by simp)
    have hlast : some c = (a ++ [c]).getLast? := by simp
    simp only [List.cons_append, findFrom, hnone]
    rw [hlast]
    refine ih (by simpa using hit) ?_
    intro b' u he hu hb
    simpa using h (c :: b') u (by simp [he]) hu (by simpa using hb)

private theorem none_of_places {r : Recognizer α} {a t : Text} (h : ∀ n ∈ places r t, n = a.length)
    {b u : Text} (he : t = b ++ u) (hu : u ≠ []) (hb : b.length ≠ a.length) : r b.getLast? u = none := by
  by_contra hsome
  have hmem : b.length ∈ places r (b ++ u) := (mem_places hu).mpr (Option.isSome_iff_ne_none.mpr hsome)
  rw [← he] at hmem
  exact hb (h _ hmem)

/-- A recogniser that succeeds at one place finds what it reads there, and nothing else. -/
theorem findAll_of_places {r : Recognizer α} {a t rest : Text} {x : α}
    (h : ∀ n ∈ places r (a ++ t), n = a.length) (hit : r a.getLast? t = some (x, rest)) (ht : t ≠ []) :
    findAll r (a ++ t) = [x] := by
  refine findFrom_eq_singleton (a := []) ht hit ?_
  intro b u he hu hb
  refine none_of_places h he hu fun hlen => hb ?_
  exact List.append_inj_left he.symm hlen

/-- The first occurrence is the first of all. -/
theorem findFirst?_eq_head? (r : Recognizer α) (t : Text) : findFirst? r t = (findAll r t).head? := by
  have h : ∀ prev, (find? r prev t).map Prod.fst = (findFrom r prev 0 t).head? := by
    induction t with
    | nil => simp [find?, findFrom]
    | cons c t ih =>
      intro prev
      cases hr : r prev (c :: t) with
      | none => simpa [find?, findFrom, hr] using ih (some c)
      | some hit => simp [find?, findFrom, hr]
  exact h none

theorem findAll_of_places_nil {r : Recognizer α} {t : Text} (h : places r t = []) : findAll r t = [] := by
  refine findFrom_eq_nil (a := []) ?_
  rintro b u rfl hu
  by_contra hsome
  have hmem : b.length ∈ places r (b ++ u) := (mem_places hu).mpr (Option.isSome_iff_ne_none.mpr hsome)
  simp [h] at hmem

/-- A recogniser that starts with a word succeeds only where its letters stand. -/
theorem places_wordStart_subset {word : Text} (k : Text → Option (α × Text)) (t : Text) :
    places (fun prev u => (wordStart? word prev u).bind k) t ⊆ places (literally word) t := by
  intro n hn
  obtain ⟨hlt, hsome⟩ := List.mem_filter.mp hn
  obtain ⟨hit, hhit⟩ := Option.isSome_iff_exists.mp hsome
  obtain ⟨rest, hrest, -⟩ := Option.bind_eq_some_iff.mp hhit
  refine List.mem_filter.mpr ⟨hlt, ?_⟩
  rw [(wordStart?_eq_some_iff.mp hrest).2, literally, Option.isSome_map, after?_eq_some_iff.mpr rfl]
  rfl

end SfcContract.Text
