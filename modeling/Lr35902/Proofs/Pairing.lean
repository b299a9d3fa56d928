import Lr35902.Proofs.Merging

/-! A delta described by flags and states, in any order. The description is
refused if and only if it speaks for a flag twice, and the blame falls on the
first pair that speaks for a flag again; pairs that leave their flag unchanged
do not count, wherever they stand. The pairs of a delta describe that delta. -/
namespace Lr35902.Pairing
open FlagDelta Merging

variable {pairs others front rest : List (Flag × FlagState)} {pair : Flag × FlagState}
  {flag : Flag} {place : Nat} {delta : FlagDelta}

/-- The pair at this place speaks for the flag. -/
def SpeaksAt (pairs : List (Flag × FlagState)) (flag : Flag) (place : Nat) : Prop :=
  ∃ state, pairs[place]? = some (flag, state) ∧ state ≠ .unchanged

/-- The pair at this place speaks for the flag, and a pair before it does too. -/
def RepeatsAt (pairs : List (Flag × FlagState)) (flag : Flag) (place : Nat) : Prop :=
  SpeaksAt pairs flag place ∧ ∃ earlier < place, SpeaksAt pairs flag earlier

/-- The delta that one pair describes. -/
def ofPair (pair : Flag × FlagState) : FlagDelta := unchanged.set pair.1 pair.2

theorem get_ofPair (pair : Flag × FlagState) (flag : Flag) :
    (ofPair pair).get flag = if flag = pair.1 then pair.2 else .unchanged := by
  rw [ofPair, get_set, get_unchanged]

/-- A pair claims its own flag at most, and that only with a state that is a claim. -/
theorem claims_ofPair : (ofPair pair).claims flag ↔ flag = pair.1 ∧ pair.2 ≠ .unchanged := by
  rw [claims, get_ofPair]
  by_cases own : flag = pair.1
  · simp [own, FlagState.isClaim]
  · simp [own, FlagState.isClaim]

/-- Pairs of different flags have nothing to clash about. -/
theorem apart_ofPair {other : Flag × FlagState} (distinct : pair.1 ≠ other.1) :
    Apart (ofPair pair) (ofPair other) := by
  intro flag
  simp only [claims_eq_false_iff, get_ofPair]
  by_cases own : flag = pair.1
  · exact .inr (if_neg fun same => distinct (own.symm.trans same))
  · exact .inl (if_neg own)

theorem ofPairs_eq (pairs : List (Flag × FlagState)) :
    ofPairs pairs = (mergeAll (pairs.map ofPair)).mapError .flagMerge := rfl

/-! ### Descriptions that are accepted -/

theorem ofPairs_eq_ok_iff : ofPairs pairs = .ok delta ↔ Unites (pairs.map ofPair) delta := by
  rw [ofPairs_eq, mapError_eq_ok_iff, mergeAll_eq_ok_iff]

/-- A pair claims a flag where its delta does. -/
theorem claimedAt_ofPair_iff :
    ClaimedAt (pairs.map ofPair) flag place ↔ SpeaksAt pairs flag place := by
  simp only [claimedAt_map_iff, claims_ofPair]
  constructor
  · rintro ⟨pair, atPlace, rfl, claimed⟩
    exact ⟨pair.2, atPlace, claimed⟩
  · rintro ⟨state, atPlace, claimed⟩
    exact ⟨(flag, state), atPlace, rfl, claimed⟩

/-- The deltas of the pairs are pairwise apart if and only if no pair repeats an
earlier one. -/
theorem map_ofPair_apart_iff :
    (pairs.map ofPair).Pairwise Apart ↔ ∀ flag place, ¬ RepeatsAt pairs flag place := by
  simp only [pairwise_apart_iff, claimedAt_ofPair_iff]
  refine forall_congr' fun flag => ⟨?_, ?_⟩
  · rintro once later ⟨claimed, earlier, before, first⟩
    exact once earlier later before ⟨first, claimed⟩
  · rintro once earlier later before ⟨first, claimed⟩
    exact once later ⟨claimed, earlier, before, first⟩

theorem ofPairs_succeeds_iff :
    (∃ delta, ofPairs pairs = .ok delta) ↔ ∀ flag place, ¬ RepeatsAt pairs flag place := by
  simp only [ofPairs_eq_ok_iff, exists_unites_iff, map_ofPair_apart_iff]

/-- What the pairs say of a flag is what the delta says of it. -/
theorem get_of_ofPairs (accepted : ofPairs pairs = .ok delta) (flag : Flag) :
    (∀ state, (flag, state) ∈ pairs → state ≠ .unchanged → delta.get flag = state) ∧
    ((∀ state, (flag, state) ∈ pairs → state = .unchanged) → delta.get flag = .unchanged) := by
  have united := ofPairs_eq_ok_iff.mp accepted
  constructor
  · intro state member claimed
    have claims : (ofPair (flag, state)).claims flag := claims_ofPair.mpr ⟨rfl, claimed⟩
    rw [united.get_claimed _ (List.mem_map_of_mem member) flag claims, get_ofPair, if_pos rfl]
  · intro unclaimed
    refine united.get_unclaimed flag (List.forall_mem_map.mpr fun pair member => ?_)
    refine Bool.eq_false_iff.mpr fun claims => ?_
    obtain ⟨rfl, claimed⟩ := claims_ofPair.mp claims
    exact claimed (unclaimed pair.2 member)

theorem ofPairs_eq_ok_iff_of_perm (same : others.Perm pairs) :
    ofPairs others = .ok delta ↔ ofPairs pairs = .ok delta := by
  rw [ofPairs_eq_ok_iff, ofPairs_eq_ok_iff, unites_iff_of_perm (same.map ofPair)]

/-- The pairs of a delta have different flags, so they unite to the delta. -/
theorem ofPairs_pairs (delta : FlagDelta) : ofPairs delta.pairs = .ok delta := by
  rw [ofPairs_eq_ok_iff, pairs, List.map_map]
  refine ⟨?_, ?_, ?_⟩
  · refine List.pairwise_map.mpr (LawfulEnumerated.nodup_all.imp fun {left right} distinct => ?_)
    have different : (left, delta.get left).1 ≠ (right, delta.get right).1 := distinct
    exact apart_ofPair different
  · refine List.forall_mem_map.mpr fun own _ flag claims => ?_
    obtain ⟨rfl, -⟩ := claims_ofPair.mp claims
    rw [Function.comp_apply, get_ofPair, if_pos rfl]
  · intro flag unclaimed
    have silent := unclaimed _ (List.mem_map_of_mem (LawfulEnumerated.mem_all flag))
    rwa [claims_eq_false_iff, Function.comp_apply, get_ofPair, if_pos rfl] at silent

/-! ### Descriptions that are refused -/

/-- Whether a pair speaks for a flag does not depend on the pairs after it. -/
theorem speaksAt_append_iff (inside : place < front.length) :
    SpeaksAt (front ++ rest) flag place ↔ SpeaksAt front flag place := by
  rw [SpeaksAt, SpeaksAt, List.getElem?_append_left inside]

theorem repeatsAt_append_iff (inside : place < front.length) :
    RepeatsAt (front ++ rest) flag place ↔ RepeatsAt front flag place := by
  rw [RepeatsAt, RepeatsAt, speaksAt_append_iff inside]
  refine and_congr_right fun _ => exists_congr fun earlier => and_congr_right fun before => ?_
  rw [speaksAt_append_iff (Nat.lt_trans before inside)]

/-- A pair that claims a flag stands at some place. -/
theorem speaksAt_of_mem (member : pair ∈ front) (claimed : (ofPair pair).claims flag) :
    ∃ place < front.length, SpeaksAt front flag place := by
  obtain ⟨rfl, state⟩ := claims_ofPair.mp claimed
  obtain ⟨place, inside, rfl⟩ := List.getElem_of_mem member
  exact ⟨place, inside, _, List.getElem?_eq_getElem inside, state⟩

/-- The blame falls on the first pair that repeats an earlier one. -/
theorem blamed_of_ofPairs {fault : Fault} (refused : ofPairs pairs = .error fault) :
    ∃ flag place, RepeatsAt pairs flag place ∧
      (∀ before < place, ∀ other, ¬ RepeatsAt pairs other before) ∧
      fault = .flagMerge ⟨flag⟩ := by
  obtain ⟨clash, merged, rfl⟩ := mapError_eq_error_iff.mp refused
  obtain ⟨earlier, _, later, cut, apart, ⟨⟨_, before, claimed⟩, again⟩, -⟩ :=
    mergeAll_eq_error merged
  -- The cut of the list of deltas is a cut of the list of pairs.
  obtain ⟨front, back, rfl, rfl, rest_eq⟩ := List.map_eq_append_iff.mp cut
  obtain ⟨pair, rest, rfl, rfl, rfl⟩ := List.map_eq_cons_iff.mp rest_eq
  obtain ⟨other, member, rfl⟩ := List.mem_map.mp before
  obtain ⟨place, inside, first⟩ := speaksAt_of_mem member claimed
  obtain ⟨same, state⟩ := claims_ofPair.mp again
  have once := map_ofPair_apart_iff.mp apart
  have here : (front ++ pair :: rest)[front.length]? = some (clash.flag, pair.2) := by
    rw [List.getElem?_append_right (Nat.le_refl _), Nat.sub_self, same]
    rfl
  have repeats : RepeatsAt (front ++ pair :: rest) clash.flag front.length :=
    ⟨⟨pair.2, here, state⟩, place, inside, (speaksAt_append_iff inside).mpr first⟩
  refine ⟨clash.flag, front.length, repeats, ?_, rfl⟩
  intro earlier within flag again
  exact once flag earlier ((repeatsAt_append_iff within).mp again)

/-- **A delta is described by its pairs, in any order, and by no list that speaks
for a flag twice.** A list of flags and states is refused if and only if the pairs
at two places give the same flag a state other than unchanged, be it the same one.
Then the fault names the flag of the first pair that repeats an earlier one.
Otherwise each flag has the state that its pair gives it, or is left alone if
there is none, and the order of the list makes no difference. The pairs of a
delta, in any order, describe just that delta. -/
theorem ofPairs_inverts_pairs (pairs : List (Flag × FlagState)) :
    ((∃ fault, ofPairs pairs = .error fault) ↔
      ∃ flag, ∃ earlier later : Nat, earlier < later ∧ SpeaksAt pairs flag earlier ∧
        SpeaksAt pairs flag later) ∧
    (∀ fault, ofPairs pairs = .error fault →
      ∃ flag place, RepeatsAt pairs flag place ∧
        (∀ before < place, ∀ other, ¬ RepeatsAt pairs other before) ∧
        fault = .flagMerge ⟨flag⟩ ∧
        fault.message =
          "invalid flag merge: conflicting states for flag " ++ Enumerated.name flag) ∧
    (∀ delta, ofPairs pairs = .ok delta → ∀ flag,
      (∀ state, (flag, state) ∈ pairs → state ≠ .unchanged → delta.get flag = state) ∧
      ((∀ state, (flag, state) ∈ pairs → state = .unchanged) → delta.get flag = .unchanged)) ∧
    (∀ others, others.Perm pairs →
      ∀ delta, ofPairs others = .ok delta ↔ ofPairs pairs = .ok delta) ∧
    ∀ (delta : FlagDelta) (others : List (Flag × FlagState)),
      others.Perm delta.pairs → ofPairs others = .ok delta := by
  refine ⟨?_, ?_, ?_, ?_, ?_⟩
  · constructor
    · rintro ⟨fault, refused⟩
      obtain ⟨flag, later, ⟨claimed, earlier, before, first⟩, -⟩ := blamed_of_ofPairs refused
      exact ⟨flag, earlier, later, before, first, claimed⟩
    · rintro ⟨flag, earlier, later, before, first, claimed⟩
      cases outcome : ofPairs pairs with
      | error fault => exact ⟨fault, rfl⟩
      | ok delta =>
        have once := ofPairs_succeeds_iff.mp ⟨delta, outcome⟩
        exact absurd ⟨claimed, earlier, before, first⟩ (once flag later)
  · intro fault refused
    obtain ⟨flag, place, repeats, first, rfl⟩ := blamed_of_ofPairs refused
    exact ⟨flag, place, repeats, first, rfl, rfl⟩
  · intro delta accepted flag
    exact get_of_ofPairs accepted flag
  · intro others same delta
    exact ofPairs_eq_ok_iff_of_perm same
  · intro delta others same
    exact (ofPairs_eq_ok_iff_of_perm same).mpr (ofPairs_pairs delta)

/-- The carry is repeated before the zero flag is, and in the same words. -/
example : ofPairs [(.z, .set), (.c, .unchanged), (.c, .reset), (.c, .reset), (.z, .set)] =
    .error (.flagMerge ⟨.c⟩) := rfl

end Lr35902.Pairing
