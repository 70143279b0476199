import SfcContract.Code.Bracket
import SfcContract.Code.Entry
import SfcContract.Proofs.Code.Scan
import SfcContract.Proofs.Text.Part

/-!
# Parts of code

A scan marks the characters of a text and keeps all of them in their order. So a body, a piece of a body
and the key and the value of an entry are parts of the text they were cut from, balanced or not.
-/

namespace SfcContract.Code

variable {t : Text}

theorem bracedBody?_isInfix {body : Text} (h : bracedBody? t = some body) : body <:+: t := by
  obtain ⟨n, -, rfl⟩ := Option.map_eq_some_iff.mp h
  exact (List.drop_suffix 1 _).isInfix.trans (List.take_prefix n t).isInfix

theorem unquote_isInfix (t : Text) : unquote t <:+: t := by
  cases hf : quotes.filterMap fun q => (Text.expect? q t).bind (Text.before? [q]) with
  | nil => simp [unquote, hf]
  | cons inner rest =>
    have hmem : inner ∈ quotes.filterMap fun q => (Text.expect? q t).bind (Text.before? [q]) := by simp [hf]
    obtain ⟨q, -, hq⟩ := List.mem_filterMap.mp hmem
    obtain ⟨u, hu, hinner⟩ := Option.bind_eq_some_iff.mp hq
    have hpart := (Text.before?_isPrefix hinner).isInfix.trans (Text.expect?_isSuffix hu).isInfix
    simpa [unquote, hf] using hpart

theorem chars_isInfix {angles : Angles} {ms : List Mark} (h : ms <:+: marks angles t) :
    ms.map Mark.char <:+: t := by
  have hchars := h.map Mark.char
  rwa [marks, map_char_marksFrom] at hchars

private theorem isPrefix_and_isInfix_of_splitOnP (p : Mark → Bool) (ms : List Mark) :
    ∃ first rest, ms.splitOnP p = first :: rest ∧ first <+: ms ∧ ∀ piece ∈ rest, piece <:+: ms := by
  induction ms with
  | nil => exact ⟨[], [], rfl, List.prefix_refl _, by simp⟩
  | cons m ms ih =>
    obtain ⟨first, rest, hsplit, hfirst, hrest⟩ := ih
    rw [List.splitOnP_cons_eq_if_modifyHead, hsplit]
    cases hp : p m with
    | true =>
      refine ⟨[], first :: rest, rfl, List.nil_prefix, ?_⟩
      intro piece hmem
      rcases List.mem_cons.mp hmem with rfl | hmem
      · exact List.infix_cons hfirst.isInfix
      · exact List.infix_cons (hrest piece hmem)
    | false =>
      refine ⟨m :: first, rest, rfl, (List.prefix_cons_inj m).mpr hfirst, ?_⟩
      exact fun piece hmem => List.infix_cons (hrest piece hmem)

theorem splitTop_isInfix {separators : List Char} {angles : Angles} {body piece : Text}
    (h : piece ∈ splitTop separators angles body) : piece <:+: body := by
  obtain ⟨ms, hms, rfl⟩ := List.mem_map.mp (List.mem_filter.mp h).1
  obtain ⟨first, rest, hsplit, hfirst, hrest⟩ := isPrefix_and_isInfix_of_splitOnP _ (marks angles body)
  have hpart : ms <:+: marks angles body := by
    rw [hsplit] at hms
    rcases List.mem_cons.mp hms with rfl | hms
    · exact hfirst.isInfix
    · exact hrest ms hms
  exact (Text.trim_isInfix _).trans (chars_isInfix hpart)

theorem keyValue?_isInfix {entry key value : Text} (h : keyValue? entry = some (key, value)) :
    key <:+: entry ∧ value <:+: entry := by
  have hstart : (marks .brackets entry).takeWhile (!isKeyColon ·) <:+: marks .brackets entry :=
    (List.takeWhile_prefix _).isInfix
  have hrest := List.dropWhile_suffix (!isKeyColon ·) (l := marks .brackets entry)
  rw [keyValue?] at h
  split at h
  · cases h
  · rename_i colon ms hms
    have hvalue : ms <:+: marks .brackets entry :=
      (List.suffix_cons colon ms).isInfix.trans (hms ▸ hrest).isInfix
    simp only at h
    split at h
    · cases h
    · obtain ⟨rfl, rfl⟩ := Prod.mk.inj (Option.some.inj h)
      refine ⟨?_, (Text.trim_isInfix _).trans (chars_isInfix hvalue)⟩
      exact (unquote_isInfix _).trans ((Text.trim_isInfix _).trans (chars_isInfix hstart))

end SfcContract.Code
