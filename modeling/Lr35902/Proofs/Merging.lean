import Lr35902.Bracketing
import Lr35902.Flag.Union

/-! Merging deltas is a partial commutative monoid in which operands cancel. A
merge of any number of deltas gives their union, so it succeeds or fails, and
with what it succeeds, is no question of order or brackets; only the blame for
a failure is, and it falls on the first delta that claims what was claimed
before it. -/
namespace Lr35902.Merging
open FlagDelta Enumerated

variable {left right other whole : FlagDelta} {deltas : List FlagDelta}

/-! ### Two operands -/

theorem merge_of_apart (apart : Apart left right) :
    left.merge right = .ok (right.overlay left) := by
  rw [merge_eq, clash_eq_none_iff.mpr apart]

/-- To merge two deltas is to unite them. -/
theorem merge_eq_ok_iff : left.merge right = .ok whole ↔ Unites [left, right] whole := by
  constructor
  · intro merged
    have apart : Apart left right := by
      rw [merge_eq] at merged
      split at merged
      · cases merged
      · next none => exact clash_eq_none_iff.mp none
    rw [merge_of_apart apart] at merged
    cases merged
    exact unites_overlay apart
  · intro united
    have apart : Apart left right := List.pairwise_pair.mp united.apart
    rw [merge_of_apart apart, united.unique (unites_overlay apart)]

/-- A merge that fails blames the first flag in slot order that both deltas
claim. -/
theorem merge_eq_error_iff {clash : FlagClash} :
    left.merge right = .error clash ↔
      IsFirst (fun flag => left.claims flag ∧ right.claims flag) clash.flag := by
  have found : clash? left right = some clash.flag ↔ _ := find_all_eq_some_iff
  simp only [Bool.and_eq_true] at found
  rw [← found, merge_eq]
  obtain ⟨flag⟩ := clash
  cases clash? left right <;> simp

/-- A clash between deltas that were promised to be apart is a fault. -/
theorem join_eq (left right : FlagDelta) :
    left.join right =
      match clash? left right with
      | some flag => .error (.flagMerge ⟨flag⟩)
      | none => .ok (right.overlay left) := by
  rw [join, merge_eq]
  cases clash? left right <;> rfl

theorem join_eq_ok_iff : left.join right = .ok whole ↔ Unites [left, right] whole := by
  rw [← merge_eq_ok_iff, join_eq, merge_eq]
  cases clash? left right <;> simp

/-- The order of two deltas makes no difference, not even to the blame. -/
theorem merge_comm (left right : FlagDelta) : left.merge right = right.merge left := by
  cases merged : right.merge left with
  | ok whole =>
    rw [merge_eq_ok_iff] at merged ⊢
    exact merged.of_perm (.swap left right [])
  | error clash =>
    rw [merge_eq_error_iff] at merged ⊢
    simpa only [And.comm] using merged

theorem merge_unchanged (delta : FlagDelta) : delta.merge unchanged = .ok delta := by
  rw [merge_comm, merge_eq_ok_iff, unites_unchanged_cons_iff, unites_singleton_iff]

/-- Where a delta makes no claim, what was merged with it shows unaltered. -/
theorem get_of_merge {flag : Flag} (merged : left.merge right = .ok whole)
    (unclaimed : left.claims flag = false) : whole.get flag = right.get flag := by
  have united : Unites [left, right] whole := merge_eq_ok_iff.mp merged
  cases claimed : right.claims flag with
  | true => exact united.get_claimed right (by simp) flag claimed
  | false =>
    rw [claims_eq_false_iff.mp claimed]
    exact united.get_unclaimed flag (by simp [unclaimed, claimed])

theorem merge_cancel (merged : left.merge right = .ok whole)
    (again : left.merge other = .ok whole) : right = other := by
  have apart : Apart left right := List.pairwise_pair.mp (merge_eq_ok_iff.mp merged).apart
  have apart_other : Apart left other := List.pairwise_pair.mp (merge_eq_ok_iff.mp again).apart
  apply ext_get
  intro flag
  cases claimed : left.claims flag with
  | true =>
    rw [claims_eq_false_iff.mp (apart.unclaimed claimed),
      claims_eq_false_iff.mp (apart_other.unclaimed claimed)]
  | false => rw [← get_of_merge merged claimed, get_of_merge again claimed]

/-! ### Many operands -/

/-- The deltas of a fold are taken up one by one into the union so far. -/
theorem foldlM_merge_eq_ok_iff {start : FlagDelta} :
    deltas.foldlM merge start = .ok whole ↔ Unites (start :: deltas) whole := by
  induction deltas generalizing start with
  | nil =>
    rw [List.foldlM_nil, ← ok_eq_ok_iff]
    rfl
  | cons delta deltas ih =>
    rw [List.foldlM_cons, bind_eq_ok_iff]
    simp only [ih, merge_eq_ok_iff]
    constructor
    · rintro ⟨reached, within, united⟩
      exact within.expand united
    · intro united
      have gathered : Unites ([start, delta] ++ deltas) whole := united
      exact gathered.collect

/-- The fold of a merge over a list gives the union of the list. -/
theorem mergeAll_eq_ok_iff : mergeAll deltas = .ok whole ↔ Unites deltas whole := by
  rw [mergeAll, foldlM_merge_eq_ok_iff, unites_unchanged_cons_iff]

/-- So does a merge in any order of brackets. -/
theorem evaluate_merge_eq_ok_iff {tree : Bracketing FlagDelta} :
    tree.evaluate merge = .ok whole ↔ Unites tree.items whole := by
  induction tree generalizing whole with
  | single item =>
    rw [Bracketing.evaluate, Bracketing.items, ok_eq_ok_iff]
  | pair left right ihLeft ihRight =>
    simp only [Bracketing.evaluate_pair_eq_ok_iff, Bracketing.items, ihLeft, ihRight,
      merge_eq_ok_iff, unites_append_iff]

theorem mergeAll_succeeds_iff :
    (∃ merged, mergeAll deltas = .ok merged) ↔ deltas.Pairwise Apart := by
  simp only [mergeAll_eq_ok_iff, exists_unites_iff]

/-- A fold that fails does so at the first delta that is not apart from all
before it, and blames the first flag that it shares with them. -/
theorem mergeAll_eq_error {clash : FlagClash} (failed : mergeAll deltas = .error clash) :
    ∃ earlier delta later, deltas = earlier ++ delta :: later ∧ earlier.Pairwise Apart ∧
      IsFirst (fun flag => (∃ before ∈ earlier, before.claims flag) ∧ delta.claims flag)
        clash.flag := by
  obtain ⟨earlier, delta, later, reached, rfl, before, refused⟩ := foldlM_eq_error failed
  have united : Unites earlier reached := mergeAll_eq_ok_iff.mp before
  rw [merge_eq_error_iff] at refused
  simp only [united.claims_iff] at refused
  exact ⟨earlier, delta, later, rfl, united.apart, refused⟩

/-- Deltas that claim nothing can be left out, and the same flag is blamed if
the rest clash. -/
theorem mergeAll_filter (deltas : List FlagDelta) :
    mergeAll (deltas.filter fun delta => !delta.isUnchanged) = mergeAll deltas := by
  suffices every : ∀ start,
      (deltas.filter fun delta => !delta.isUnchanged).foldlM merge start =
        deltas.foldlM merge start from every unchanged
  intro start
  induction deltas generalizing start with
  | nil => rfl
  | cons delta deltas ih =>
    by_cases idle : delta = unchanged
    · subst idle
      rw [List.foldlM_cons, merge_unchanged, List.filter_cons_of_neg (by simp [isUnchanged]), ih]
      rfl
    · rw [List.filter_cons_of_pos (by simpa [isUnchanged] using idle), List.foldlM_cons,
        List.foldlM_cons]
      simp only [ih]

/-- **Merging is a partial commutative monoid in which operands cancel.** A list
of deltas can be merged if and only if no flag is claimed by two of them, and the
result makes exactly their claims. The order of the list and the brackets of the
merge make no difference to that, and deltas that claim nothing make no
difference at all. A merge of a list that fails does so at the first delta that
claims a flag claimed before it, and blames the first such flag. Two deltas can
be exchanged, and each can be told from the result and the other. -/
theorem mergeAll_unites (deltas : List FlagDelta) :
    ((∃ merged, mergeAll deltas = .ok merged) ↔ deltas.Pairwise Apart) ∧
    (∀ merged, mergeAll deltas = .ok merged → ∀ flag,
      (∀ delta ∈ deltas, delta.claims flag → merged.get flag = delta.get flag) ∧
      ((∀ delta ∈ deltas, delta.claims flag = false) → merged.get flag = .unchanged)) ∧
    (∀ others, others.Perm deltas →
      ∀ merged, mergeAll others = .ok merged ↔ mergeAll deltas = .ok merged) ∧
    (∀ tree : Bracketing FlagDelta, tree.items.Perm deltas →
      ∀ merged, tree.evaluate merge = .ok merged ↔ mergeAll deltas = .ok merged) ∧
    (∀ others, (others.filter fun delta => !delta.isUnchanged) =
        (deltas.filter fun delta => !delta.isUnchanged) → mergeAll others = mergeAll deltas) ∧
    (∀ clash, mergeAll deltas = .error clash →
      ∃ earlier delta later, deltas = earlier ++ delta :: later ∧ earlier.Pairwise Apart ∧
        IsFirst (fun flag => (∃ before ∈ earlier, before.claims flag) ∧ delta.claims flag)
          clash.flag) ∧
    (∀ left right : FlagDelta, left.merge right = right.merge left) ∧
    ∀ left right other whole : FlagDelta,
      left.merge right = .ok whole → left.merge other = .ok whole → right = other := by
  refine ⟨mergeAll_succeeds_iff, ?_, ?_, ?_, ?_, ?_, merge_comm, ?_⟩
  · intro merged succeeded flag
    have united : Unites deltas merged := mergeAll_eq_ok_iff.mp succeeded
    exact ⟨fun delta member => united.get_claimed delta member flag, united.get_unclaimed flag⟩
  · intro others same merged
    rw [mergeAll_eq_ok_iff, mergeAll_eq_ok_iff, unites_iff_of_perm same]
  · intro tree same merged
    rw [evaluate_merge_eq_ok_iff, mergeAll_eq_ok_iff, unites_iff_of_perm same]
  · intro others same
    rw [← mergeAll_filter others, same, mergeAll_filter]
  · intro clash failed
    exact mergeAll_eq_error failed
  · intro left right other whole merged again
    exact merge_cancel merged again

end Lr35902.Merging
