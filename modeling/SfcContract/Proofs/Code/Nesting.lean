import Mathlib.Data.Set.Card
import SfcContract.Proofs.Code.Scan
import SfcContract.Proofs.Text.Part

/-!
# Depth is nesting

A scan keeps a number where a reader would keep a stack. Its openers and closers are paired as on a stack, a closer
without an opener with nothing, and the depth of a character is the number of openers in front of it that are still
unpaired. This holds of any text, for whatever the scan takes for a bracket.
-/

namespace SfcContract.Code

variable {angles : Angles} {s : State} {c : Char} {t : Text}

/-- What a character of code does to the depth. -/
inductive Role where
  | opener
  | closer
  | other
  deriving DecidableEq, Repr

def State.role (angles : Angles) (s : State) (c : Char) : Role :=
  if s.opens angles c then .opener else if s.closes angles c then .closer else .other

/-- The roles of the characters of code, each in the state in which the scan comes to it. -/
def rolesFrom (angles : Angles) : State → Text → List Role
  | _, [] => []
  | s, c :: t =>
    if (s.step angles c t.head?).2.isSome then
      s.role angles c :: rolesFrom angles (s.step angles c t.head?).1 t
    else rolesFrom angles (s.step angles c t.head?).1 t

def roles (angles : Angles) (t : Text) : List Role := rolesFrom angles {} t

section Pairs

variable {rs : List Role} {i j k n : Nat} {paired paired' : Nat → Nat → Prop}

/-- An opener in front of a place that no closer in front of the place is paired with. -/
structure IsUnpaired (rs : List Role) (paired : Nat → Nat → Prop) (n i : Nat) : Prop where
  lt : i < n
  opener : rs[i]? = some .opener
  not_paired : ∀ j < n, ¬ paired i j

/-- Each closer is paired with the most recent opener in front of it that is still unpaired. -/
def IsPairing (rs : List Role) (paired : Nat → Nat → Prop) : Prop :=
  ∀ i j, paired i j ↔ rs[j]? = some .closer ∧ IsUnpaired rs paired j i ∧
    ∀ k, IsUnpaired rs paired j k → k ≤ i

/-- The openers around a character: those in front of it that are unpaired, for a closer once it is paired. -/
def openAround (rs : List Role) (paired : Nat → Nat → Prop) (i : Nat) : Set Nat :=
  {k | IsUnpaired rs paired (if rs[i]? = some .closer then i + 1 else i) k}

/-- There is only one way to pair, since what is paired later plays no part. -/
theorem IsPairing.unique (h : IsPairing rs paired) (h' : IsPairing rs paired') : paired = paired' := by
  funext i j
  rw [eq_iff_iff]
  induction j using Nat.strongRecOn generalizing i with
  | ind j ih =>
    have hunpaired (k : Nat) : IsUnpaired rs paired j k ↔ IsUnpaired rs paired' j k :=
      ⟨fun hk => ⟨hk.lt, hk.opener, fun l hl hp => hk.not_paired l hl ((ih l hl k).mpr hp)⟩,
        fun hk => ⟨hk.lt, hk.opener, fun l hl hp => hk.not_paired l hl ((ih l hl k).mp hp)⟩⟩
    rw [h i j, h' i j, hunpaired]
    simp only [hunpaired]

def Role.update (n : Nat) (stack : List Nat) : Role → List Nat
  | .opener => n :: stack
  | .closer => stack.tail
  | .other => stack

/-- The stack of unpaired openers in front of a place, the most recent on top. -/
def stackAt (rs : List Role) : Nat → List Nat
  | 0 => []
  | n + 1 => match rs[n]? with
    | some r => r.update n (stackAt rs n)
    | none => stackAt rs n

theorem stackAt_length_succ (before : List Role) (r : Role) (rs : List Role) :
    stackAt (before ++ r :: rs) (before.length + 1) =
      r.update before.length (stackAt (before ++ r :: rs) before.length) := by
  rw [stackAt, List.getElem?_append_right (Nat.le_refl _), Nat.sub_self]
  rfl

/-- A closer takes the top of the stack. -/
def IsTop (rs : List Role) (i j : Nat) : Prop := rs[j]? = some .closer ∧ (stackAt rs j).head? = some i

theorem stackAt_succ_cases (rs : List Role) (n : Nat) :
    (rs[n]? = some .opener ∧ stackAt rs (n + 1) = n :: stackAt rs n) ∨
      (rs[n]? = some .closer ∧ stackAt rs (n + 1) = (stackAt rs n).tail) ∨
      (rs[n]? ≠ some .opener ∧ rs[n]? ≠ some .closer ∧ stackAt rs (n + 1) = stackAt rs n) := by
  rw [stackAt]
  rcases rs[n]? with _ | _ | _ | _ <;> simp [Role.update]

theorem lt_of_mem_stackAt (h : i ∈ stackAt rs n) : i < n := by
  induction n with
  | zero => cases h
  | succ n ih =>
    rcases stackAt_succ_cases rs n with ⟨-, he⟩ | ⟨-, he⟩ | ⟨-, -, he⟩
    · rw [he, List.mem_cons] at h
      rcases h with rfl | h
      · exact Nat.lt_succ_self i
      · exact Nat.lt_succ_of_lt (ih h)
    · exact Nat.lt_succ_of_lt (ih (List.mem_of_mem_tail (he ▸ h)))
    · exact Nat.lt_succ_of_lt (ih (he ▸ h))

theorem pairwise_stackAt (rs : List Role) (n : Nat) : (stackAt rs n).Pairwise (· > ·) := by
  induction n with
  | zero => exact List.Pairwise.nil
  | succ n ih =>
    rcases stackAt_succ_cases rs n with ⟨-, he⟩ | ⟨-, he⟩ | ⟨-, -, he⟩
    · rw [he]
      exact List.pairwise_cons.mpr ⟨fun i hi => lt_of_mem_stackAt hi, ih⟩
    · rw [he]
      exact ih.tail
    · rw [he]
      exact ih

theorem nodup_stackAt (rs : List Role) (n : Nat) : (stackAt rs n).Nodup :=
  (pairwise_stackAt rs n).imp fun h => Nat.ne_of_gt h

/-- An opener stays on the stack until a closer takes it. -/
theorem mem_stackAt_succ_iff : i ∈ stackAt rs (n + 1) ↔
    (i = n ∧ rs[n]? = some .opener) ∨ (i ∈ stackAt rs n ∧ ¬ IsTop rs i n) := by
  rcases stackAt_succ_cases rs n with ⟨hr, he⟩ | ⟨hr, he⟩ | ⟨hopener, hcloser, he⟩
  · simp [he, IsTop, hr]
  · have hnodup := nodup_stackAt rs n
    rw [he, IsTop, hr]
    cases hs : stackAt rs n with
    | nil => simp
    | cons top stack =>
      rw [hs, List.nodup_cons] at hnodup
      have hne (hi : i ∈ stack) : top ≠ i := fun h => hnodup.1 (h ▸ hi)
      simp only [List.tail_cons, Option.some.injEq, reduceCtorEq, and_false, false_or, List.mem_cons, List.head?_cons,
        true_and]
      constructor
      · exact fun hi => ⟨.inr hi, hne hi⟩
      · rintro ⟨rfl | hi, h⟩
        · exact absurd rfl h
        · exact hi
  · simp [he, IsTop, hopener, hcloser]

theorem IsTop.lt (h : IsTop rs i j) : i < j := lt_of_mem_stackAt (List.mem_of_mem_head? h.2)

theorem mem_stackAt_iff : i ∈ stackAt rs n ↔ IsUnpaired rs (IsTop rs) n i := by
  induction n with
  | zero => exact iff_of_false List.not_mem_nil fun h => Nat.not_lt_zero _ h.lt
  | succ n ih =>
    rw [mem_stackAt_succ_iff, ih]
    constructor
    · rintro (⟨rfl, hr⟩ | ⟨h, hne⟩)
      · exact ⟨Nat.lt_succ_self i, hr, fun j hj hp => Nat.not_lt_of_le (Nat.le_of_lt_succ hj) hp.lt⟩
      · refine ⟨Nat.lt_succ_of_lt h.lt, h.opener, fun j hj => ?_⟩
        rcases Nat.lt_succ_iff_lt_or_eq.mp hj with hj | rfl
        · exact h.not_paired j hj
        · exact hne
    · intro h
      rcases Nat.lt_succ_iff_lt_or_eq.mp h.lt with hi | rfl
      · exact .inr ⟨⟨hi, h.opener, fun j hj => h.not_paired j (Nat.lt_succ_of_lt hj)⟩,
          h.not_paired n (Nat.lt_succ_self n)⟩
      · exact .inl ⟨rfl, h.opener⟩

theorem isPairing_isTop (rs : List Role) : IsPairing rs (IsTop rs) := by
  intro i j
  simp only [← mem_stackAt_iff]
  refine and_congr_right fun _ => ?_
  have hsorted := pairwise_stackAt rs j
  cases hs : stackAt rs j with
  | nil => simp
  | cons top stack =>
    rw [hs, List.pairwise_cons] at hsorted
    rw [List.head?_cons, Option.some.injEq]
    constructor
    · rintro rfl
      refine ⟨List.mem_cons_self, fun k hk => ?_⟩
      rcases List.mem_cons.mp hk with rfl | hk
      · exact Nat.le_refl k
      · exact Nat.le_of_lt (hsorted.1 k hk)
    · rintro ⟨hi, hmax⟩
      rcases List.mem_cons.mp hi with rfl | hi
      · rfl
      · exact absurd (hsorted.1 i hi) (Nat.not_lt_of_le (hmax top List.mem_cons_self))

theorem length_stackAt (h : IsPairing rs paired) (n : Nat) :
    (stackAt rs n).length = {i | IsUnpaired rs paired n i}.ncard := by
  obtain rfl := h.unique (isPairing_isTop rs)
  have hset : {i | IsUnpaired rs (IsTop rs) n i} = ↑(stackAt rs n).toFinset := by
    ext i
    rw [Set.mem_ofPred_eq, ← mem_stackAt_iff, List.coe_toFinset, Set.mem_ofPred_eq]
  rw [hset, Set.ncard_coe_finset, List.toFinset_card_of_nodup (nodup_stackAt rs n)]

/-- Below an opener lies the stack as it was in front of it. -/
theorem exists_stackAt_eq (h : i ∈ stackAt rs n) : ∃ above, stackAt rs n = above ++ i :: stackAt rs i := by
  induction n with
  | zero => cases h
  | succ n ih =>
    rcases stackAt_succ_cases rs n with ⟨-, he⟩ | ⟨-, he⟩ | ⟨-, -, he⟩
    · rw [he, List.mem_cons] at h
      rcases h with rfl | h
      · exact ⟨[], he⟩
      · obtain ⟨above, habove⟩ := ih h
        exact ⟨n :: above, by rw [he, habove, List.cons_append]⟩
    · rw [he] at h
      obtain ⟨above, habove⟩ := ih (List.mem_of_mem_tail h)
      cases above with
      | nil =>
        rw [habove, List.nil_append, List.tail_cons] at h
        exact absurd (lt_of_mem_stackAt h) (Nat.lt_irrefl i)
      | cons top above => exact ⟨above, by rw [he, habove, List.cons_append, List.tail_cons]⟩
    · rw [he] at h ⊢
      exact ih h

def Role.depthAt (stack : List Nat) : Role → Nat
  | .closer => stack.tail.length
  | _ => stack.length

/-- A closer has the depth behind it, any other character the depth in front of it. -/
theorem Role.depthAt_stackAt {r : Role} (h : rs[i]? = some r) :
    r.depthAt (stackAt rs i) = (stackAt rs (if rs[i]? = some .closer then i + 1 else i)).length := by
  rw [h]
  cases r with
  | opener => rfl
  | other => rfl
  | closer => rw [if_pos rfl, stackAt, h]; rfl

/-- A closer and the opener it is paired with have one depth, and all between them lies deeper. -/
theorem IsTop.depthAt (h : IsTop rs i j) :
    Role.depthAt (stackAt rs i) .opener = Role.depthAt (stackAt rs j) .closer ∧
      ∀ k r, i < k → k < j → rs[k]? = some r → (stackAt rs i).length < Role.depthAt (stackAt rs k) r := by
  have hmem : i ∈ stackAt rs j := List.mem_of_mem_head? h.2
  have hinside (k : Nat) (hik : i < k) (hkj : k ≤ j) : (stackAt rs i).length < (stackAt rs k).length := by
    have hunpaired := mem_stackAt_iff.mp hmem
    have hk : i ∈ stackAt rs k := mem_stackAt_iff.mpr
      ⟨hik, hunpaired.opener, fun l hl => hunpaired.not_paired l (Nat.lt_of_lt_of_le hl hkj)⟩
    obtain ⟨above, habove⟩ := exists_stackAt_eq hk
    rw [habove, List.length_append, List.length_cons]
    omega
  constructor
  · obtain ⟨above, habove⟩ := exists_stackAt_eq hmem
    have hnodup := nodup_stackAt rs j
    have htop := h.2
    cases above with
    | nil => rw [habove]; rfl
    | cons top above =>
      rw [habove, List.cons_append, List.head?_cons, Option.some.injEq] at htop
      rw [habove, htop, List.cons_append, List.nodup_cons] at hnodup
      exact absurd (List.mem_append_right above List.mem_cons_self) hnodup.1
  · intro k r hik hkj hr
    have hbefore := hinside k hik (Nat.le_of_lt hkj)
    cases r with
    | opener => exact hbefore
    | other => exact hbefore
    | closer =>
      have hbehind := hinside (k + 1) (Nat.lt_succ_of_lt hik) hkj
      rwa [stackAt, hr] at hbehind

end Pairs

section Scans

variable {n k : Nat} {stack : List Nat}

/-- A character is passed over at one depth, or it is code, whatever the scan came from. -/
theorem State.step_cases (angles : Angles) (s : State) (c : Char) (next : Option Char) :
    ((s.step angles c next).2 = none ∧ (s.step angles c next).1.depth = s.depth) ∨
      s.step angles c next = (({ s with mode := .code }.stepCode angles c).1,
        some ({ s with mode := .code }.stepCode angles c).2) := by
  obtain ⟨m, depth, angleDepth, prev⟩ := s
  cases m with
  | code =>
    simp only [State.step]
    split
    · exact .inl ⟨rfl, rfl⟩
    · split
      · exact .inl ⟨rfl, rfl⟩
      · split
        · exact .inl ⟨rfl, rfl⟩
        · exact .inr rfl
  | quoted q =>
    simp only [State.step]
    split
    · exact .inl ⟨rfl, rfl⟩
    · split <;> exact .inl ⟨rfl, rfl⟩
  | escaped q => exact .inl ⟨rfl, rfl⟩
  | lineComment =>
    simp only [State.step]
    split
    · exact .inr rfl
    · exact .inl ⟨rfl, rfl⟩
  | blockOpening => exact .inl ⟨rfl, rfl⟩
  | blockComment afterStar =>
    simp only [State.step]
    split <;> exact .inl ⟨rfl, rfl⟩

/-- The depth of a scan is the height of a stack, since a closer at depth zero takes nothing from either. -/
theorem State.stepCode_stack (angles : Angles) (c : Char) (n : Nat) (h : stack.length = s.depth) :
    (s.stepCode angles c).2 = (s.role angles c).depthAt stack ∧
      ((s.role angles c).update n stack).length = (s.stepCode angles c).1.depth := by
  rw [State.stepCode, State.role]
  split
  · exact ⟨h.symm, congrArg (· + 1) h⟩
  · split
    · have htail : stack.tail.length = s.depth - 1 := by rw [List.length_tail, h]
      exact ⟨htail.symm, htail⟩
    · exact ⟨h.symm, h⟩

/-- A step changes the stack where it reads code, and then its answer is the depth that goes with the stack. -/
theorem State.step_stack (angles : Angles) (c : Char) (n : Nat) (next : Option Char) (h : stack.length = s.depth) :
    ((s.step angles c next).2 = none ∧ stack.length = (s.step angles c next).1.depth) ∨
      ((s.step angles c next).2 = some ((s.role angles c).depthAt stack) ∧
        ((s.role angles c).update n stack).length = (s.step angles c next).1.depth) := by
  rcases s.step_cases angles c next with ⟨hnone, hdepth⟩ | hcode
  · exact .inl ⟨hnone, h.trans hdepth.symm⟩
  · obtain ⟨hdepth, hlength⟩ := State.stepCode_stack (s := { s with mode := .code }) angles c n h
    rw [hcode]
    exact .inr ⟨congrArg some hdepth, hlength⟩

/-- A scan that goes on behind the roles `before` gives each further one the depth that goes with its stack. -/
theorem depth_getElem?_marksFrom (angles : Angles) (before : List Role)
    (h : (stackAt (before ++ rolesFrom angles s t) before.length).length = s.depth) (k : Nat) :
    ((marksFrom angles s t).filterMap Mark.depth)[k]? = (rolesFrom angles s t)[k]?.map
      (Role.depthAt (stackAt (before ++ rolesFrom angles s t) (before.length + k))) := by
  induction t generalizing s before k with
  | nil => rfl
  | cons c t ih =>
    rcases State.step_stack angles c before.length t.head? h with
      ⟨hnone, hlength⟩ | ⟨hsome, hlength⟩
    · have hroles : rolesFrom angles s (c :: t) = rolesFrom angles (s.step angles c t.head?).1 t := by
        rw [rolesFrom, hnone]
        rfl
      rw [hroles] at hlength ⊢
      rw [marksFrom, List.filterMap_cons_none (show Mark.depth ⟨c, _⟩ = none from hnone)]
      exact ih before hlength k
    · have hroles : rolesFrom angles s (c :: t) =
          s.role angles c :: rolesFrom angles (s.step angles c t.head?).1 t := by
        rw [rolesFrom, hsome]
        rfl
      rw [hroles] at hsome hlength ⊢
      rw [marksFrom, List.filterMap_cons_some (show Mark.depth ⟨c, _⟩ = some _ from hsome)]
      cases k with
      | zero => rfl
      | succ k =>
        have hnext := ih (s := (s.step angles c t.head?).1) (before ++ [s.role angles c]) (k := k)
        rw [List.append_assoc, List.singleton_append, List.length_append, List.length_singleton,
          stackAt_length_succ, Nat.add_right_comm] at hnext
        exact hnext hlength

theorem length_rolesFrom (angles : Angles) (s : State) (t : Text) :
    (rolesFrom angles s t).length = ((marksFrom angles s t).filterMap Mark.depth).length := by
  induction t generalizing s with
  | nil => rfl
  | cons c t ih =>
    rw [rolesFrom, marksFrom, List.filterMap_cons]
    cases (s.step angles c t.head?).2 with
    | none => exact ih _
    | some d => exact congrArg (· + 1) (ih _)

theorem map_depth_codeCharsFrom (offset : Nat) (ms : List Mark) :
    (codeCharsFrom offset ms).map CodeChar.depth = ms.filterMap Mark.depth := by
  induction ms generalizing offset with
  | nil => rfl
  | cons m ms ih =>
    rw [codeCharsFrom, List.filterMap_cons]
    cases m.depth with
    | none => exact ih _
    | some d => exact congrArg (d :: ·) (ih _)

theorem length_roles (angles : Angles) (t : Text) : (roles angles t).length = (codeChars angles t).length := by
  rw [roles, length_rolesFrom, ← map_depth_codeCharsFrom 0, List.length_map]
  rfl

theorem depth_getElem?_codeChars (angles : Angles) (t : Text) (i : Nat) :
    (codeChars angles t)[i]?.map CodeChar.depth =
      (roles angles t)[i]?.map (Role.depthAt (stackAt (roles angles t) i)) := by
  have h := depth_getElem?_marksFrom (s := {}) (t := t) angles [] rfl i
  rw [List.nil_append, List.length_nil, Nat.zero_add] at h
  rw [← List.getElem?_map, codeChars, map_depth_codeCharsFrom]
  exact h

/-- A character that is yielded stands behind as many bytes as its offset says. -/
theorem exists_of_mem_codeCharsFrom {offset : Nat} {ms : List Mark} {c : CodeChar} (h : c ∈ codeCharsFrom offset ms) :
    ∃ before after, ms.map Mark.char = before ++ c.char :: after ∧ c.offset = offset + Text.byteSize before := by
  induction ms generalizing offset with
  | nil => cases h
  | cons m ms ih =>
    have hrest (h : c ∈ codeCharsFrom (offset + m.char.utf8Size) ms) : ∃ before after,
        (m :: ms).map Mark.char = before ++ c.char :: after ∧ c.offset = offset + Text.byteSize before := by
      obtain ⟨before, after, hms, hoffset⟩ := ih h
      refine ⟨m.char :: before, after, congrArg (m.char :: ·) hms, ?_⟩
      rw [hoffset, Text.byteSize, Nat.add_assoc]
    rw [codeCharsFrom] at h
    split at h
    · rcases List.mem_cons.mp h with rfl | h
      · exact ⟨[], ms.map Mark.char, rfl, rfl⟩
      · exact hrest h
    · exact hrest h

theorem pairwise_codeCharsFrom (offset : Nat) (ms : List Mark) :
    (codeCharsFrom offset ms).Pairwise fun a b => a.offset < b.offset := by
  induction ms generalizing offset with
  | nil => exact List.Pairwise.nil
  | cons m ms ih =>
    rw [codeCharsFrom]
    split
    · refine List.pairwise_cons.mpr ⟨fun c hc => ?_, ih _⟩
      have hsize := m.char.utf8Size_pos
      obtain ⟨before, -, -, hoffset⟩ := exists_of_mem_codeCharsFrom hc
      rw [hoffset]
      show offset < _
      omega
    · exact ih _

theorem exists_role {i : Nat} {c : CodeChar} (h : (codeChars angles t)[i]? = some c) :
    ∃ r, (roles angles t)[i]? = some r ∧ c.depth = r.depthAt (stackAt (roles angles t) i) := by
  have hdepth := depth_getElem?_codeChars angles t i
  rw [h, Option.map_some] at hdepth
  obtain ⟨r, hr, hc⟩ := Option.map_eq_some_iff.mp hdepth.symm
  exact ⟨r, hr, hc.symm⟩

/-- Whatever the text, the depth of a character is the number of openers around it. So a closer lies as deep as the
opener it is paired with, and all between them deeper. -/
theorem codeChars_nest (angles : Angles) (t : Text) :
    (codeChars angles t).Pairwise (fun a b => a.offset < b.offset) ∧
      (∀ c ∈ codeChars angles t, ∃ rest, Text.dropBytes? c.offset t = some (c.char :: rest)) ∧
      (roles angles t).length = (codeChars angles t).length ∧
      (∃ paired, IsPairing (roles angles t) paired) ∧
      ∀ paired, IsPairing (roles angles t) paired →
        (∀ i c, (codeChars angles t)[i]? = some c → c.depth = (openAround (roles angles t) paired i).ncard) ∧
        ∀ i j a b, paired i j → (codeChars angles t)[i]? = some a → (codeChars angles t)[j]? = some b →
          a.depth = b.depth ∧
            ∀ k c, i < k → k < j → (codeChars angles t)[k]? = some c → a.depth < c.depth := by
  refine ⟨pairwise_codeCharsFrom 0 _, ?_, length_roles angles t, ⟨_, isPairing_isTop _⟩, ?_⟩
  · intro c hc
    obtain ⟨before, after, ht, hoffset⟩ := exists_of_mem_codeCharsFrom hc
    rw [marks, map_char_marksFrom] at ht
    exact ⟨after, Text.dropBytes?_eq_some_iff.mpr ⟨before, ht, by rw [hoffset, Nat.zero_add]⟩⟩
  · intro paired hpairing
    constructor
    · intro i c hc
      obtain ⟨r, hr, hdepth⟩ := exists_role hc
      rw [hdepth, Role.depthAt_stackAt hr, length_stackAt hpairing, openAround]
    · intro i j a b hpaired ha hb
      obtain rfl := hpairing.unique (isPairing_isTop _)
      obtain ⟨r, hr, hadepth⟩ := exists_role ha
      obtain ⟨r', hr', hbdepth⟩ := exists_role hb
      obtain rfl : r = .opener := Option.some.inj
        (hr.symm.trans (mem_stackAt_iff.mp (List.mem_of_mem_head? hpaired.2)).opener)
      obtain rfl : r' = .closer := Option.some.inj (hr'.symm.trans hpaired.1)
      obtain ⟨heq, hinside⟩ := hpaired.depthAt
      refine ⟨by rw [hadepth, hbdepth, heq], ?_⟩
      intro k c hik hkj hc
      obtain ⟨r, hr, hdepth⟩ := exists_role hc
      rw [hadepth, hdepth]
      exact hinside k r hik hkj hr

/-- A closer without an opener is passed at depth zero, and what is opened behind it starts anew. -/
example : (codeChars .ignore [')', '(', 'x', ')', ')']).map CodeChar.depth = [0, 0, 1, 0, 0] := by decide

end Scans

end SfcContract.Code
