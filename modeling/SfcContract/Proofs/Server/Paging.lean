import SfcContract.Proofs.Manifest.RoundTrip
import SfcContract.Server.Tool

/-!
# Pages lose nothing

A client asks for the components of a manifest page by page: it writes a request, takes the items of the
answer, and goes on right after them for as long as more is announced. What is left of the matching
components is what the remaining pages hold, so the client ends, whatever limits it asks for, and has
every component once and in order.
-/

namespace SfcContract

/-- What a page says of the components it was cut from, and of those that remain after it. -/
structure Page.Describes (p : Page) (found : List Contract) (start : Nat) : Prop where
  totalCount : p.totalCount = found.length
  offset : p.offset = start
  hasMore : p.hasMore = true ↔ found.drop (start + p.items.length) ≠ []

namespace Manifest

variable {m : Manifest} {query : Text} {limit : Option Nat} {offset : Nat}

theorem page_describes (m : Manifest) (query : Text) (limit : Option Nat) (offset : Nat) :
    (m.page query limit offset).Describes (m.filter query) offset where
  totalCount := rfl
  offset := rfl
  hasMore := by simp [page]

/-- The items of a page and the components after them are all that were left at its offset. -/
theorem summary_drop_eq_items_append (m : Manifest) (query : Text) (limit : Option Nat) (offset : Nat) :
    ((m.filter query).drop offset).map Contract.summary = (m.page query limit offset).items ++
      ((m.filter query).drop (offset + (m.page query limit offset).items.length)).map Contract.summary := by
  have hcut (n : Nat) (cs : List Contract) :
      cs.map Contract.summary = (cs.take n).map Contract.summary ++
        (cs.drop ((cs.take n).map Contract.summary).length).map Contract.summary := by
    rw [List.length_map, List.length_take, ← List.map_append]
    rcases Nat.le_total n cs.length with hn | hn
    · rw [Nat.min_eq_left hn, List.take_append_drop]
    · rw [Nat.min_eq_right hn, List.take_of_length_le hn, List.drop_length, List.append_nil]
  rw [← List.drop_drop]
  exact hcut _ _

theorem lt_of_hasMore (h : (m.page query limit offset).hasMore = true) :
    offset + (m.page query limit offset).items.length < (m.filter query).length := by
  simpa using (m.page_describes query limit offset).hasMore.mp h

theorem drop_eq_nil_of_hasMore (h : (m.page query limit offset).hasMore = false) :
    (m.filter query).drop (offset + (m.page query limit offset).items.length) = [] := by
  by_contra hne
  have hmore := (m.page_describes query limit offset).hasMore.mpr hne
  exact Bool.false_ne_true (h.symm.trans hmore)

theorem length_items_pos (hlimit : ∀ n ∈ limit, 0 < n) (hoffset : offset < (m.filter query).length) :
    0 < (m.page query limit offset).items.length := by
  have hroom : 0 < min (limit.getD Page.defaultLimit) Page.maxLimit := by
    cases limit with
    | none => decide
    | some n =>
      have hn := hlimit n rfl
      simp only [Option.getD_some, Page.maxLimit]
      omega
  simp only [page, List.length_map, List.length_take, List.length_drop]
  omega

theorem page_of_length_le (hoffset : (m.filter query).length ≤ offset) :
    (m.page query limit offset).items = [] ∧ (m.page query limit offset).hasMore = false := by
  have hdrop : (m.filter query).drop offset = [] := List.drop_eq_nil_iff.mpr hoffset
  simp [page, hdrop, hoffset]

end Manifest

namespace Tool

namespace ListRequest

/-- A request as a client writes it. Without a limit of its own it leaves the limit out. -/
def toJson (r : ListRequest) : Json :=
  .object ([("manifestPath".toList, .string r.manifestPath), ("query".toList, .string r.query)] ++
    (r.limit.map fun n => ("limit".toList, Json.nat n)).toList ++ [("offset".toList, .nat r.offset)])

structure Fits (r : ListRequest) : Prop where
  limit : ∀ n ∈ r.limit, n < Nat.pow 2 32
  offset : r.offset < Nat.pow 2 32

theorem reads_toJson {r : ListRequest} (h : r.Fits) : Json.Reads reader r.toJson r := by
  obtain ⟨path, query, limit, offset⟩ := r
  have hsmall {n : Nat} (hn : n < Nat.pow 2 32) :
      Json.Reads (.nullable small) (.nat n) (some n) :=
    .nullable_nat hn (Nat.pow_le_pow_right (by decide) (by decide))
  have hoffset := hsmall h.offset
  cases limit with
  | none =>
    exact Json.Reads.record (.cons rfl rfl (.of (.string path)) <|
      .cons rfl rfl (.of (.nullable_string query)) <| .cons rfl rfl (.of hoffset) .nil) rfl
  | some n =>
    have hlimit := hsmall (h.limit n rfl)
    exact Json.Reads.record (.cons rfl rfl (.of (.string path)) <|
      .cons rfl rfl (.of (.nullable_string query)) <| .cons rfl rfl (.of hlimit) <|
      .cons rfl rfl (.of hoffset) .nil) rfl

theorem answer_of_load {t : Tree} {m : Manifest} {r : ListRequest}
    (hload : Manifest.load t r.manifestPath = .ok m) :
    r.answer t = .ok (m.page r.query r.limit r.offset) := by
  rw [answer, loadManifest, hload]
  rfl

end ListRequest

/-- A call with a written request is answered with the page as text. -/
theorem call_listComponents {t : Tree} {r : ListRequest} {p : Page} (hr : r.Fits) (hp : r.answer t = .ok p) :
    call t .listComponents r.toJson.write = .ok p.toJson.write := by
  have hdecode : decode ListRequest.reader r.toJson.write = .ok r := by
    have hwhole := Json.whole_of_reads (ListRequest.reads_toJson hr) Json.isSpaces_nil
    rw [List.append_nil] at hwhole
    rw [decode, hwhole]
    rfl
  rw [call, hdecode]
  simp only [bind, Except.bind, hp]
  rfl

/-- The requests and answers of a client from an offset on. Each request has a limit of its own and goes on
right after the page before it; the first page that announces no more is the last. -/
inductive Session (t : Tree) (path : Path) (query : Text) (limits : Nat → Option Nat) :
    Nat → Nat → List (ListRequest × Page) → Prop
  | last {k offset p} : (ListRequest.mk path query (limits k) offset).answer t = .ok p →
      p.hasMore = false → Session t path query limits k offset [(⟨path, query, limits k, offset⟩, p)]
  | more {k offset p log} : (ListRequest.mk path query (limits k) offset).answer t = .ok p →
      p.hasMore = true → Session t path query limits (k + 1) (offset + p.items.length) log →
      Session t path query limits k offset ((⟨path, query, limits k, offset⟩, p) :: log)

namespace Session

variable {t : Tree} {path : Path} {m : Manifest} {query : Text} {limits : Nat → Option Nat} {k offset : Nat}
  {log log' : List (ListRequest × Page)}

/-- Answers leave a client no choice. -/
theorem unique (h : Session t path query limits k offset log) (h' : Session t path query limits k offset log') :
    log' = log := by
  induction h generalizing log' with
  | last hp hmore =>
    cases h' with
    | last hp' hmore' =>
      obtain rfl := Except.ok.inj (hp.symm.trans hp')
      rfl
    | more hp' hmore' hrest' =>
      obtain rfl := Except.ok.inj (hp.symm.trans hp')
      exact absurd (hmore.symm.trans hmore') Bool.false_ne_true
  | more hp hmore hrest ih =>
    cases h' with
    | last hp' hmore' =>
      obtain rfl := Except.ok.inj (hp.symm.trans hp')
      exact absurd (hmore'.symm.trans hmore) Bool.false_ne_true
    | more hp' hmore' hrest' =>
      obtain rfl := Except.ok.inj (hp.symm.trans hp')
      rw [ih hrest']

/-- Each page that is not the last has an item, so that less is left after it. -/
theorem exists_of_load (hload : Manifest.load t path = .ok m) (query : Text)
    (hlimits : ∀ k, ∀ n ∈ limits k, 0 < n) (k offset : Nat) : ∃ log, Session t path query limits k offset log := by
  induction hleft : (m.filter query).length - offset using Nat.strongRecOn generalizing k offset with
  | ind left ih =>
    have hp := ListRequest.answer_of_load (r := ⟨path, query, limits k, offset⟩) hload
    cases hmore : (m.page query (limits k) offset).hasMore with
    | false => exact ⟨_, .last hp hmore⟩
    | true =>
      have hin := Manifest.lt_of_hasMore hmore
      have hitem : 0 < (m.page query (limits k) offset).items.length :=
        Manifest.length_items_pos (hlimits k) (Nat.lt_of_le_of_lt (Nat.le_add_right _ _) hin)
      have hless : (m.filter query).length - (offset + (m.page query (limits k) offset).items.length) < left := by
        omega
      obtain ⟨log, hlog⟩ := ih _ hless (k + 1) _ rfl
      exact ⟨_, .more hp hmore hlog⟩

/-- The items of a client are the components from its first offset on. -/
theorem items_eq (hload : Manifest.load t path = .ok m) (h : Session t path query limits k offset log) :
    log.flatMap (·.2.items) = ((m.filter query).drop offset).map Contract.summary := by
  induction h with
  | @last k offset p hp hmore =>
    obtain rfl := Except.ok.inj ((ListRequest.answer_of_load hload).symm.trans hp)
    rw [m.summary_drop_eq_items_append query (limits k) offset, Manifest.drop_eq_nil_of_hasMore hmore]
    simp
  | @more k offset p log hp hmore hrest ih =>
    obtain rfl := Except.ok.inj ((ListRequest.answer_of_load hload).symm.trans hp)
    rw [List.flatMap_cons, ih, m.summary_drop_eq_items_append query (limits k) offset]

theorem answer_of_mem {e : ListRequest × Page} (h : Session t path query limits k offset log) (he : e ∈ log) :
    e.1.answer t = .ok e.2 ∧ e.1.manifestPath = path ∧ e.1.query = query ∧ ∃ k, e.1.limit = limits k := by
  induction h with
  | @last k offset p hp hmore =>
    obtain rfl := List.mem_singleton.mp he
    exact ⟨hp, rfl, rfl, k, rfl⟩
  | @more k offset p log hp hmore hrest ih =>
    rcases List.mem_cons.mp he with rfl | he
    · exact ⟨hp, rfl, rfl, k, rfl⟩
    · exact ih he

theorem offset_le_of_mem {e : ListRequest × Page} (hload : Manifest.load t path = .ok m)
    (h : Session t path query limits k offset log) (hoffset : offset ≤ (m.filter query).length)
    (he : e ∈ log) : e.1.offset ≤ (m.filter query).length := by
  induction h with
  | last hp hmore =>
    obtain rfl := List.mem_singleton.mp he
    exact hoffset
  | @more k offset p log hp hmore hrest ih =>
    obtain rfl := Except.ok.inj ((ListRequest.answer_of_load hload).symm.trans hp)
    rcases List.mem_cons.mp he with rfl | he
    · exact hoffset
    · exact ih (Nat.le_of_lt (Manifest.lt_of_hasMore hmore)) he

end Session

section Lossless

variable {t : Tree} {path : Path} {m : Manifest}

/-- What a request for components of a manifest is answered with, as text. -/
structure Answers (t : Tree) (found : List Contract) (r : ListRequest) (p : Page) : Prop where
  text : call t .listComponents r.toJson.write = .ok p.toJson.write
  describes : p.Describes found r.offset

theorem answers_of_load {r : ListRequest} {p : Page} (hload : Manifest.load t r.manifestPath = .ok m)
    (hr : r.Fits) (hp : r.answer t = .ok p) : Answers t (m.filter r.query) r p where
  text := call_listComponents hr hp
  describes := by
    obtain rfl := Except.ok.inj ((ListRequest.answer_of_load hload).symm.trans hp)
    exact m.page_describes r.query r.limit r.offset

/-- A client that asks for page after page, with whatever limits, ends and has every component that matches
once and in order. Each answer tells how many match and whether some remain; past the end it is empty. -/
theorem listComponents_lossless (hload : Manifest.load t path = .ok m)
    (hsize : m.components.length < Nat.pow 2 32) (query : Text) {limits : Nat → Option Nat}
    (hlimits : ∀ k, ∀ n ∈ limits k, 0 < n ∧ n < Nat.pow 2 32) :
    (∃ log, (∀ log', Session t path query limits 0 0 log' ↔ log' = log) ∧
      log.flatMap (·.2.items) = (m.filter query).map Contract.summary ∧
      ∀ e ∈ log, Answers t (m.filter query) e.1 e.2) ∧
    ∀ limit offset, (∀ n ∈ limit, n < Nat.pow 2 32) → offset < Nat.pow 2 32 →
      (m.filter query).length ≤ offset → ∃ p, Answers t (m.filter query) ⟨path, query, limit, offset⟩ p ∧
        p.items = [] ∧ p.hasMore = false := by
  have hfound : (m.filter query).length < Nat.pow 2 32 :=
    Nat.lt_of_le_of_lt (List.length_filter_le _ _) hsize
  constructor
  · obtain ⟨log, hlog⟩ := Session.exists_of_load hload query (fun k n hn => (hlimits k n hn).1) 0 0
    refine ⟨log, fun log' => ⟨fun h' => hlog.unique h', fun h' => h' ▸ hlog⟩, hlog.items_eq hload, ?_⟩
    rintro ⟨r, p⟩ he
    obtain ⟨hp, rfl, rfl, k, hlimit⟩ := hlog.answer_of_mem he
    have hr : r.Fits := by
      constructor
      · intro n hn
        exact (hlimits k n (hlimit ▸ hn)).2
      · exact Nat.lt_of_le_of_lt (hlog.offset_le_of_mem hload (Nat.zero_le _) he) hfound
    exact answers_of_load hload hr hp
  · intro limit offset hlimit hoffset hpast
    have hr : (ListRequest.mk path query limit offset).Fits := ⟨hlimit, hoffset⟩
    exact ⟨m.page query limit offset, answers_of_load hload hr (ListRequest.answer_of_load hload),
      Manifest.page_of_length_le hpast⟩

-- Three components, of which two match, asked for one by one.
def threeManifest : Manifest :=
  .ofScan "today".toList <| ["a/X.vue", "b/Y.vue", "a/Z.vue"].map fun path =>
    Contract.analyze "<template><img></template>".toList path.toList

theorem listComponents_lossless_three : ∃ t, Manifest.load t "m.json".toList = .ok threeManifest ∧
    ∃ log, Session t "m.json".toList "A/".toList (fun _ => some 1) 0 0 log ∧
      log.flatMap (·.2.items) = (threeManifest.filter "A/".toList).map Contract.summary := by
  have hfits : ∀ c ∈ threeManifest.components, c.metrics.Fits := by
    intro c hc
    obtain ⟨path, -, rfl⟩ := List.mem_map.mp hc
    exact Contract.fits_analyze (by decide) _
  have hsave : (Manifest.save Tree.empty "m.json".toList threeManifest).2 = .ok () := rfl
  have hload := Manifest.load_save (Manifest.parse_fileText hfits) (Prod.ext rfl hsave)
  have hlimits : ∀ k, ∀ n ∈ (fun _ => some 1 : Nat → Option Nat) k, 0 < n ∧ n < Nat.pow 2 32 := by
    rintro k n ⟨⟩
    decide
  obtain ⟨⟨log, hlog, hitems, -⟩, -⟩ := listComponents_lossless hload (by decide) "A/".toList hlimits
  exact ⟨_, hload, log, (hlog log).mpr rfl, hitems⟩

end Lossless

end Tool

end SfcContract
