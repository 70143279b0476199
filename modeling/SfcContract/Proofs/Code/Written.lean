import SfcContract.Proofs.Code.Entry
import SfcContract.Proofs.Text.Word

/-!
# Keys and values as they are written

A key is a property name, bare or in quotes. A value is any balanced text without the separators of the
list it stands in. Between them stand blanks and the colon at which the two are told apart.
-/

namespace SfcContract.Code

variable {angles : Angles} {avoid separators : List Char} {b gap : Text}

/-- A property name as a script writes it. -/
structure Key where
  name : Text
  quote : Option Char := none
  isName : Text.isPropertyName name = true
  isQuote : ∀ q ∈ quote, q ∈ quotes

namespace Key

theorem isQuote_none : ∀ q ∈ (none : Option Char), q ∈ quotes := by simp

theorem isQuote_single : ∀ q ∈ some '\x27', q ∈ quotes := by simp [quotes]

def text (key : Key) : Text :=
  match key.quote with
  | none => key.name
  | some q => q :: key.name ++ [q]

theorem isPlain_of_mem (key : Key) : ∀ c ∈ key.name, IsPlain c := by
  intro c hc
  exact isPlain_of (p := Text.isNameChar) (by decide) (Text.isNameChar_of_mem key.isName c hc)

theorem passes_append (key : Key) (ha : ∀ c ∈ avoid, Text.isNameChar c = false)
    (hb : Passes angles avoid b) : Passes angles avoid (key.text ++ b) := by
  have hname := Text.isNameChar_of_mem key.isName
  cases hq : key.quote with
  | none =>
    rw [text, hq]
    refine Passes.plain_append ?_ hb
    intro c hc
    refine ⟨key.isPlain_of_mem c hc, fun hmem => ?_⟩
    have hfalse := ha c hmem
    rw [hname c hc] at hfalse
    cases hfalse
  | some q =>
    have hmem := key.isQuote q hq
    have hinner : ∀ c ∈ key.name, c ≠ '\\' ∧ c ≠ q := by
      intro c hc
      constructor
      · rintro rfl
        exact absurd (hname _ hc) (by decide)
      · rintro rfl
        have hsign : ∀ d ∈ quotes, d ∈ signs := by decide
        exact key.isPlain_of_mem _ hc (hsign _ hmem)
    rw [text, hq]
    simpa using Passes.quoted_append hmem hinner hb

theorem name_isTrimmed (key : Key) : Text.IsTrimmed key.name := by
  have hname := Text.isNameChar_of_mem key.isName
  obtain ⟨c, r, hn, hc, -⟩ := Text.isPropertyName_iff.mp key.isName
  have hne : key.name ≠ [] := by simp [hn]
  refine ⟨⟨c, r, hn, ?_⟩, key.name.dropLast, key.name.getLast hne, ?_, ?_⟩
  · exact Text.isBlank_of_isNameChar (Text.isNameChar_of_isNameStart hc)
  · exact (List.dropLast_append_getLast hne).symm
  · exact Text.isBlank_of_isNameChar (hname _ (List.getLast_mem hne))

theorem text_isTrimmed (key : Key) : Text.IsTrimmed key.text := by
  cases hq : key.quote with
  | none =>
    rw [text, hq]
    exact key.name_isTrimmed
  | some q =>
    have hblank : Text.isBlank q = false := (by decide : ∀ q ∈ quotes, Text.isBlank q = false) q
      (key.isQuote q hq)
    rw [text, hq]
    exact ⟨⟨q, key.name ++ [q], rfl, hblank⟩, q :: key.name, q, rfl, hblank⟩

theorem mem_text (key : Key) {c : Char} (hc : c ∈ key.text) : Text.isNameChar c = true ∨ c ∈ quotes := by
  have hname := Text.isNameChar_of_mem key.isName
  cases hq : key.quote with
  | none =>
    rw [text, hq] at hc
    exact .inl (hname c hc)
  | some q =>
    rw [text, hq] at hc
    simp only [List.mem_append, List.mem_cons, List.not_mem_nil, or_false] at hc
    rcases hc with (rfl | hc) | rfl
    · exact .inr (key.isQuote _ hq)
    · exact .inl (hname c hc)
    · exact .inr (key.isQuote _ hq)

theorem unquote_name (key : Key) : unquote key.name = key.name := by
  refine unquote_of_not ?_
  intro q hq r he
  have hmem : q ∈ key.name := by simp [he]
  have hsign : ∀ d ∈ quotes, d ∈ signs := by decide
  exact key.isPlain_of_mem q hmem (hsign q hq)

theorem unquote_text (key : Key) : unquote key.text = key.name := by
  cases hq : key.quote with
  | none =>
    rw [text, hq]
    exact key.unquote_name
  | some q =>
    rw [text, hq]
    exact unquote_of_quoted (key.isQuote q hq) key.name

theorem name_ne_nil (key : Key) : key.name ≠ [] := by
  obtain ⟨c, r, hn, -, -⟩ := Text.isPropertyName_iff.mp key.isName
  simp [hn]

end Key

/-- A text that may be written after a colon, in a list with the given separators that is cut with
angle brackets read in the given way. -/
structure Value (separators : List Char) (angles : Angles) where
  text : Text
  braced : Balanced .ignore text
  balanced : Balanced angles text
  uncut : ∀ m ∈ marks angles text, m.depth = some 0 → m.char ∉ separators

namespace Value

/-- Between brackets, a value after its colon is passed over. -/
theorem passes_braced (value : Value separators angles) : Passes .ignore [] (':' :: value.text) :=
  Passes.colon_cons value.braced (fun _ _ _ => List.not_mem_nil) List.not_mem_nil

theorem passes (value : Value separators angles) (hc : ':' ∉ separators) :
    Passes angles separators (':' :: value.text) :=
  Passes.colon_cons value.balanced value.uncut hc

end Value

/-- A text with a colon that does not start with a blank keeps everything before its value. -/
theorem trim_key_colon {key : Text} (hk : ∃ c r, key = c :: r ∧ Text.isBlank c = false) (value : Text) :
    Text.trim (key ++ ':' :: value) = key ++ ':' :: Text.trimEnd value := by
  obtain ⟨c, r, rfl, hc⟩ := hk
  have hcolon : Text.isBlank ':' = false := by decide
  rw [List.cons_append, Text.trim_cons_of_not hc, Text.trimEnd_append_cons hcolon]
  rfl

/-- An entry `key: value`, with blanks before the colon. -/
structure Entry (separators : List Char) (angles : Angles) where
  key : Key
  gap : Text := []
  value : Value separators angles
  isGap : Text.IsBlanks gap

namespace Entry

variable (entry : Entry separators angles)

def text : Text := entry.key.text ++ (entry.gap ++ ':' :: entry.value.text)

private theorem gap_plain : ∀ c ∈ entry.gap, IsPlain c := fun c hc => isPlain_of_isBlank (entry.isGap c hc)

theorem passes_braced : Passes .ignore [] entry.text := by
  refine entry.key.passes_append (by simp) ?_
  refine Passes.plain_append ?_ entry.value.passes_braced
  exact fun c hc => ⟨entry.gap_plain c hc, List.not_mem_nil⟩

theorem passes (entry : Entry [','] angles) : Passes angles [','] entry.text := by
  refine entry.key.passes_append (by decide) ?_
  refine Passes.plain_append ?_ (entry.value.passes (by decide))
  intro c hc
  refine ⟨entry.gap_plain c hc, fun hmem => ?_⟩
  rw [List.mem_singleton] at hmem
  subst hmem
  exact absurd (entry.isGap _ hc) (by decide)

theorem trim_text : Text.trim entry.text =
    entry.key.text ++ entry.gap ++ ':' :: Text.trimEnd entry.value.text := by
  obtain ⟨c, r, hc, hblank⟩ := entry.key.text_isTrimmed.first
  rw [text, ← List.append_assoc]
  exact trim_key_colon ⟨c, r ++ entry.gap, by rw [hc, List.cons_append], hblank⟩ _

theorem passes_key : Passes .brackets [':'] (entry.key.text ++ entry.gap) := by
  refine entry.key.passes_append (by decide) (Passes.plain ?_)
  intro c hc
  refine ⟨entry.gap_plain c hc, fun hmem => ?_⟩
  rw [List.mem_singleton] at hmem
  subst hmem
  exact absurd (entry.isGap _ hc) (by decide)

theorem keyValue?_text : keyValue? (Text.trim entry.text) =
    some (entry.key.name, Text.trim entry.value.text) := by
  have hname : unquote (Text.trim (entry.key.text ++ entry.gap)) = entry.key.name := by
    rw [entry.key.text_isTrimmed.trim_append entry.isGap, entry.key.unquote_text]
  have hread := keyValue?_of_passes entry.passes_key (by rw [hname]; exact entry.key.name_ne_nil)
    (Text.trimEnd entry.value.text)
  rw [entry.trim_text, hread, hname, Text.trim_trimEnd]

end Entry

end SfcContract.Code
