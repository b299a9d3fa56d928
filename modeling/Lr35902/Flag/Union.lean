import Lr35902.Flag.Delta

/-! When several deltas have a union. Each flag may be claimed by one of them at
most, and the union makes their claims and no others. Nothing in this depends on
an order, and a part may itself be a union; so whatever order and whatever
brackets a merge of many deltas follows, it gives their union or nothing. -/
namespace Lr35902.FlagDelta

/-- No flag is claimed by both. -/
def Apart (left right : FlagDelta) : Prop :=
  ∀ flag, left.claims flag = false ∨ right.claims flag = false

/-- No flag is claimed by two of the parts, and the whole makes exactly their
claims. -/
structure Unites (parts : List FlagDelta) (whole : FlagDelta) : Prop where
  apart : parts.Pairwise Apart
  get_claimed : ∀ part ∈ parts, ∀ flag, part.claims flag → whole.get flag = part.get flag
  get_unclaimed : ∀ flag, (∀ part ∈ parts, part.claims flag = false) →
    whole.get flag = .unchanged

variable {left right part other middle whole : FlagDelta} {parts inner outer : List FlagDelta}
  {flag : Flag}

theorem claims_eq_false_iff : part.claims flag = false ↔ part.get flag = .unchanged := by
  simp [claims, FlagState.isClaim]

theorem Apart.symm (apart : Apart left right) : Apart right left := fun flag => (apart flag).symm

/-- What one delta claims, a delta apart from it leaves alone. -/
theorem Apart.unclaimed (apart : Apart left right) (claimed : left.claims flag) :
    right.claims flag = false :=
  (apart flag).resolve_left (by simp [claimed])

/-! ### Unions -/

namespace Unites

/-- The whole leaves a flag alone if and only if all its parts do. -/
theorem unclaimed_iff (united : Unites parts whole) :
    whole.claims flag = false ↔ ∀ part ∈ parts, part.claims flag = false := by
  constructor
  · intro unclaimed part member
    cases claimed : part.claims flag with
    | false => rfl
    | true =>
      rw [claims, united.get_claimed part member flag claimed, ← claims, claimed] at unclaimed
      cases unclaimed
  · intro unclaimed
    exact claims_eq_false_iff.mpr (united.get_unclaimed flag unclaimed)

/-- The whole claims a flag if and only if one of its parts does. -/
theorem claims_iff (united : Unites parts whole) :
    whole.claims flag ↔ ∃ part ∈ parts, part.claims flag := by
  rw [← Bool.not_eq_false, united.unclaimed_iff]
  simp

/-- What is apart from every part is apart from the whole. -/
theorem apart_iff (united : Unites parts whole) :
    Apart whole other ↔ ∀ part ∈ parts, Apart part other := by
  constructor
  · intro apart part member flag
    exact (apart flag).imp_left fun unclaimed => united.unclaimed_iff.mp unclaimed part member
  · intro apart flag
    cases claimed : other.claims flag with
    | false => exact .inr rfl
    | true =>
      have unclaimed : ∀ part ∈ parts, part.claims flag = false :=
        fun part member => (apart part member).symm.unclaimed claimed
      exact .inl (united.unclaimed_iff.mpr unclaimed)

/-- There is one union at most. -/
theorem unique (united : Unites parts whole) (again : Unites parts other) : whole = other := by
  apply ext_get
  intro flag
  by_cases claimed : ∃ part ∈ parts, part.claims flag
  · obtain ⟨part, member, claimed⟩ := claimed
    rw [united.get_claimed part member flag claimed, again.get_claimed part member flag claimed]
  · have unclaimed : ∀ part ∈ parts, part.claims flag = false := by simpa using claimed
    rw [united.get_unclaimed flag unclaimed, again.get_unclaimed flag unclaimed]

theorem of_perm (united : Unites parts whole) (same : parts.Perm outer) : Unites outer whole where
  apart := (same.pairwise_iff Apart.symm).mp united.apart
  get_claimed part member := united.get_claimed part (same.mem_iff.mpr member)
  get_unclaimed flag unclaimed :=
    united.get_unclaimed flag fun part member => unclaimed part (same.mem_iff.mp member)

/-- In a union, a part can be replaced by parts that it unites. -/
theorem expand (within : Unites inner middle) (united : Unites (middle :: outer) whole) :
    Unites (inner ++ outer) whole := by
  obtain ⟨middle_apart, outer_apart⟩ := List.pairwise_cons.mp united.apart
  refine ⟨List.pairwise_append.mpr ⟨within.apart, outer_apart, ?_⟩, ?_, ?_⟩
  · intro part inside out outside
    exact within.apart_iff.mp (middle_apart out outside) part inside
  · intro part member flag claimed
    rcases List.mem_append.mp member with inside | outside
    · have claimed_middle := within.claims_iff.mpr ⟨part, inside, claimed⟩
      rw [united.get_claimed middle (by simp) flag claimed_middle,
        within.get_claimed part inside flag claimed]
    · exact united.get_claimed part (by simp [outside]) flag claimed
  · intro flag unclaimed
    obtain ⟨inner_unclaimed, outer_unclaimed⟩ := List.forall_mem_append.mp unclaimed
    have middle_unclaimed := within.unclaimed_iff.mpr inner_unclaimed
    exact united.get_unclaimed flag
      (List.forall_mem_cons.mpr ⟨middle_unclaimed, outer_unclaimed⟩)

/-- Some parts of a union have a union of their own, which can take their
place. It makes those claims of the whole that are theirs. -/
theorem collect (united : Unites (inner ++ outer) whole) :
    ∃ middle, Unites inner middle ∧ Unites (middle :: outer) whole := by
  obtain ⟨inner_apart, outer_apart, across⟩ := List.pairwise_append.mp united.apart
  obtain ⟨get_inner, get_outer⟩ := List.forall_mem_append.mp united.get_claimed
  let middle := ofFn fun flag => if inner.any (·.claims flag) then whole.get flag else .unchanged
  have within : Unites inner middle := by
    refine ⟨inner_apart, fun part inside flag claimed => ?_, fun flag unclaimed => ?_⟩
    · have any : inner.any (·.claims flag) := List.any_eq_true.mpr ⟨part, inside, claimed⟩
      rw [get_ofFn, if_pos any, get_inner part inside flag claimed]
    · have none : ¬ inner.any (·.claims flag) := by simpa using unclaimed
      rw [get_ofFn, if_neg none]
  refine ⟨middle, within, List.pairwise_cons.mpr ⟨?_, outer_apart⟩, ?_, ?_⟩
  · intro out outside
    exact within.apart_iff.mpr fun part inside => across part inside out outside
  · refine List.forall_mem_cons.mpr ⟨fun flag claimed => ?_, get_outer⟩
    obtain ⟨part, inside, part_claimed⟩ := within.claims_iff.mp claimed
    rw [get_inner part inside flag part_claimed, within.get_claimed part inside flag part_claimed]
  · intro flag unclaimed
    obtain ⟨middle_unclaimed, outer_unclaimed⟩ := List.forall_mem_cons.mp unclaimed
    have inner_unclaimed := within.unclaimed_iff.mp middle_unclaimed
    exact united.get_unclaimed flag (List.forall_mem_append.mpr ⟨inner_unclaimed, outer_unclaimed⟩)

end Unites

theorem unites_iff_of_perm (same : inner.Perm outer) : Unites inner whole ↔ Unites outer whole :=
  ⟨fun united => united.of_perm same, fun united => united.of_perm same.symm⟩

/-- A union of many is a union of two: of some of the parts, and of the others. -/
theorem unites_append_iff :
    Unites (inner ++ outer) whole ↔
      ∃ left right, Unites inner left ∧ Unites outer right ∧ Unites [left, right] whole := by
  constructor
  · intro united
    obtain ⟨left, within, united⟩ := united.collect
    have turned := united.of_perm (List.perm_append_singleton left outer).symm
    obtain ⟨right, without, united⟩ := turned.collect
    exact ⟨left, right, within, without, united.of_perm (.swap left right [])⟩
  · rintro ⟨left, right, within, without, united⟩
    have expanded := without.expand (united.of_perm (.swap right left []))
    exact within.expand (expanded.of_perm (List.perm_append_singleton left outer))

theorem unites_singleton_iff : Unites [part] whole ↔ whole = part := by
  have alone : Unites [part] part := by
    refine ⟨List.pairwise_singleton _ _, ?_, ?_⟩
    · simp
    · simp [claims_eq_false_iff]
  constructor
  · intro united
    exact united.unique alone
  · rintro rfl
    exact alone

/-- A delta that is given as it is unites itself alone. -/
theorem ok_eq_ok_iff {ε : Type} :
    (.ok part : Except ε FlagDelta) = .ok whole ↔ Unites [part] whole := by
  rw [unites_singleton_iff, Except.ok.injEq, eq_comm]

theorem unites_nil_unchanged : Unites [] unchanged where
  apart := .nil
  get_claimed _ member := absurd member List.not_mem_nil
  get_unclaimed flag _ := get_unchanged flag

/-- A delta that claims nothing makes no difference to a union. -/
theorem unites_unchanged_cons_iff : Unites (unchanged :: parts) whole ↔ Unites parts whole := by
  constructor
  · intro united
    exact unites_nil_unchanged.expand united
  · intro united
    have gathered : Unites ([] ++ parts) whole := united
    obtain ⟨middle, within, united⟩ := gathered.collect
    rwa [within.unique unites_nil_unchanged] at united

theorem clash_eq_none_iff : clash? left right = none ↔ Apart left right := by
  constructor
  · intro none flag
    have unshared := List.find?_eq_none.mp none flag (LawfulEnumerated.mem_all flag)
    rwa [Bool.and_eq_true, Decidable.not_and_iff_or_not, Bool.not_eq_true, Bool.not_eq_true]
      at unshared
  · intro apart
    refine List.find?_eq_none.mpr fun flag _ shared => ?_
    rw [Bool.and_eq_true] at shared
    rw [apart.unclaimed shared.1] at shared
    cases shared.2

/-- The delta at this place of a list claims the flag. -/
def ClaimedAt (parts : List FlagDelta) (flag : Flag) (place : Nat) : Prop :=
  ∃ part ∈ parts[place]?, part.claims flag

theorem claimedAt_map_iff {α : Type} {items : List α} {effect : α → FlagDelta} {place : Nat} :
    ClaimedAt (items.map effect) flag place ↔
      ∃ item ∈ items[place]?, (effect item).claims flag := by
  rw [ClaimedAt, List.getElem?_map]
  cases items[place]? <;> simp

/-- Deltas are pairwise apart if and only if no flag is claimed at two places. -/
theorem pairwise_apart_iff :
    parts.Pairwise Apart ↔ ∀ flag (earlier later : Nat), earlier < later →
      ¬ (ClaimedAt parts flag earlier ∧ ClaimedAt parts flag later) := by
  rw [List.pairwise_iff_getElem]
  constructor
  · rintro apart flag earlier later before ⟨⟨first, atEarlier, claimed⟩, second, atLater, again⟩
    obtain ⟨insideEarlier, rfl⟩ := List.getElem?_eq_some_iff.mp atEarlier
    obtain ⟨insideLater, rfl⟩ := List.getElem?_eq_some_iff.mp atLater
    have unclaimed := (apart earlier later insideEarlier insideLater before).unclaimed claimed
    rw [unclaimed] at again
    cases again
  · intro once earlier later insideEarlier insideLater before flag
    cases claimed : parts[earlier].claims flag with
    | false => exact .inl rfl
    | true =>
      refine .inr (Bool.eq_false_iff.mpr fun again => ?_)
      exact once flag earlier later before
        ⟨⟨_, List.getElem?_eq_getElem insideEarlier, claimed⟩,
          ⟨_, List.getElem?_eq_getElem insideLater, again⟩⟩

/-- Two deltas that are apart are united by laying one over the other. -/
theorem unites_overlay (apart : Apart left right) : Unites [left, right] (right.overlay left) := by
  refine ⟨List.pairwise_pair.mpr apart, ?_, ?_⟩
  · refine List.forall_mem_cons.mpr ⟨fun flag claimed => ?_, ?_⟩
    · rw [get_overlay, apart.unclaimed claimed]
      rfl
    · refine List.forall_mem_singleton.mpr fun flag claimed => ?_
      rw [get_overlay, if_pos claimed]
  · intro flag unclaimed
    rw [get_overlay, unclaimed right (by simp)]
    exact claims_eq_false_iff.mp (unclaimed left (by simp))

/-- Deltas have a union if and only if they are pairwise apart. -/
theorem exists_unites_iff : (∃ whole, Unites parts whole) ↔ parts.Pairwise Apart := by
  constructor
  · rintro ⟨whole, united⟩
    exact united.apart
  · intro apart
    induction parts with
    | nil => exact ⟨unchanged, unites_nil_unchanged⟩
    | cons part parts ih =>
      obtain ⟨first_apart, rest_apart⟩ := List.pairwise_cons.mp apart
      obtain ⟨rest, within⟩ := ih rest_apart
      have apart_rest : Apart rest part :=
        within.apart_iff.mpr fun other member => (first_apart other member).symm
      have united : Unites ([part] ++ parts) (rest.overlay part) :=
        unites_append_iff.mpr
          ⟨part, rest, unites_singleton_iff.mpr rfl, within, unites_overlay apart_rest.symm⟩
      exact ⟨_, united⟩

end Lr35902.FlagDelta
