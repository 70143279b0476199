import SfcContract.Proofs.Text.Search
import SfcContract.Text.Case

/-!
# Parts of a text

Reading leaves an end of the text. What a recogniser reads is a part of the text it was tried on, and
then whatever a search finds with it is a part of the text searched.
-/

namespace SfcContract.Text

variable {c : Char} {t rest : Text}

theorem expect?_isSuffix (h : expect? c t = some rest) : rest <:+ t := by
  rw [expect?_eq_some_iff.mp h]
  exact List.suffix_cons c rest

theorem after?_isSuffix {lead : Text} (h : after? lead t = some rest) : rest <:+ t := by
  rw [after?_eq_some_iff.mp h]
  exact List.suffix_append lead rest

theorem before?_isPrefix {tail lead : Text} (h : before? tail t = some lead) : lead <+: t := by
  rw [before?_eq_some_iff.mp h]
  exact List.prefix_append lead tail

theorem wordStart?_isSuffix {word : Text} {prev : Option Char} (h : wordStart? word prev t = some rest) :
    rest <:+ t := by
  rw [(wordStart?_eq_some_iff.mp h).2]
  exact List.suffix_append word rest

theorem expect?_skipBlanks_isSuffix (h : expect? c (skipBlanks t) = some rest) : rest <:+ t :=
  (expect?_isSuffix h).trans (skipBlanks_isSuffix t)

theorem upTo?_isPrefix {tail : Text → Option Text} {a : Text} (h : upTo? tail t = some (a, rest)) :
    a <+: t := by
  obtain ⟨s, rfl, -⟩ := upTo?_eq_some h
  exact List.prefix_append a s

theorem upToChar?_isSuffix {a : Text} (h : upToChar? c t = some (a, rest)) : rest <:+ t := by
  rw [upToChar?_eq_some h]
  exact (List.suffix_cons c rest).trans (List.suffix_append a _)

theorem between?_isInfix {quotes : List Char} {a : Text} (h : between? quotes t = some (a, rest)) :
    a <:+: t := by
  obtain ⟨-, q, r, rfl⟩ := between?_eq_some h
  exact ⟨[q], r, rfl⟩

def ReadsPart (r : Recognizer Text) : Prop := ∀ prev t a rest, r prev t = some (a, rest) → a <:+: t

namespace ReadsPart

variable {r : Recognizer Text} {a : Text}

theorem mem_findAll (hr : ReadsPart r) (h : a ∈ findAll r t) : a <:+: t := by
  obtain ⟨p, s, rest, hs, hread⟩ := Text.mem_findAll h
  exact (hr p s a rest hread).trans hs.isInfix

theorem findFirst? (hr : ReadsPart r) (h : Text.findFirst? r t = some a) : a <:+: t := by
  obtain ⟨p, s, rest, hs, hread⟩ := findFirst?_eq_some h
  exact (hr p s a rest hread).trans hs.isInfix

theorem orElse {s : Recognizer Text} (hr : ReadsPart r) (hs : ReadsPart s) :
    ReadsPart fun prev t => r prev t <|> s prev t := by
  intro prev t a rest h
  simp only [Option.orElse_eq_orElse, Option.orElse_eq_or, Option.or_eq_some_iff] at h
  rcases h with h | ⟨-, h⟩
  · exact hr prev t a rest h
  · exact hs prev t a rest h

end ReadsPart

/-- What follows a byte offset follows a text of so many bytes. -/
theorem dropBytes?_eq_some_iff {offset : Nat} :
    dropBytes? offset t = some rest ↔ ∃ before, t = before ++ rest ∧ byteSize before = offset := by
  induction t generalizing offset with
  | nil =>
    cases offset with
    | zero => simp [dropBytes?, byteSize]
    | succ n =>
      simp only [dropBytes?, reduceCtorEq, false_iff]
      rintro ⟨before, he, hsize⟩
      rw [(List.append_eq_nil_iff.mp he.symm).1] at hsize
      cases hsize
  | cons c t ih =>
    have hpos := c.utf8Size_pos
    cases offset with
    | zero =>
      rw [dropBytes?, Option.some.injEq]
      constructor
      · rintro rfl
        exact ⟨[], rfl, rfl⟩
      · rintro ⟨before, he, hsize⟩
        cases before with
        | nil => exact he
        | cons d before =>
          have hd := d.utf8Size_pos
          simp only [byteSize] at hsize
          omega
    | succ n =>
      constructor
      · intro h
        rw [dropBytes?] at h
        split at h
        · obtain ⟨before, rfl, hsize⟩ := ih.mp h
          exact ⟨c :: before, rfl, by rw [byteSize]; omega⟩
        · cases h
      · rintro ⟨before, he, hsize⟩
        cases before with
        | nil => cases hsize
        | cons d before =>
          obtain ⟨rfl, rfl⟩ := List.cons.inj he
          rw [byteSize] at hsize
          rw [dropBytes?, if_pos (by omega), ih]
          exact ⟨before, rfl, by omega⟩

@[simp] theorem byteSize_append (a b : Text) : byteSize (a ++ b) = byteSize a + byteSize b := by
  induction a with
  | nil => simp [byteSize]
  | cons c a ih => simp [byteSize, ih, Nat.add_assoc]

end SfcContract.Text
