import Lr35902.Event.Leaves
import Lr35902.Proofs.Merging

/-! The effect of an event that is made of many. It is the union of the effects
of the leaves, so whether there is one depends on the leaves alone, wherever in
the tree they are. If there is none, the compounds are looked through as they
are evaluated, and the first whose parts overlap is to blame. -/
namespace Lr35902.EventTree
open Event FlagDelta Merging Enumerated

variable {event first second : Event} {delta firstFlags secondFlags : FlagDelta} {flag : Flag}

/-- The effect of an event unites the effects of its leaves. -/
theorem flags_eq_ok_iff : event.flags = .ok delta ↔ Unites (event.leaves.map ownFlags) delta := by
  induction event generalizing delta with
  | compound first second ihFirst ihSecond =>
    simp only [flags, bind_eq_ok_iff, ihFirst, ihSecond, join_eq_ok_iff, leaves, List.map_append,
      unites_append_iff, exists_and_left]
  | _ => exact ok_eq_ok_iff

/-- An effect claims a flag if and only if some leaf does. -/
theorem claims_of_flags (known : event.flags = .ok delta) (flag : Flag) :
    delta.claims flag = event.claims flag := by
  have united := flags_eq_ok_iff.mp known
  rw [Bool.eq_iff_iff, united.claims_iff, Event.claims, List.any_eq_true]
  constructor
  · rintro ⟨part, member, claimed⟩
    obtain ⟨leaf, inTree, rfl⟩ := List.mem_map.mp member
    exact ⟨leaf, inTree, claimed⟩
  · rintro ⟨leaf, inTree, claimed⟩
    exact ⟨leaf.ownFlags, List.mem_map_of_mem inTree, claimed⟩

/-- The parts of a compound clash where their leaves overlap. -/
theorem clash_of_flags (knownFirst : first.flags = .ok firstFlags)
    (knownSecond : second.flags = .ok secondFlags) :
    clash? firstFlags secondFlags =
      all.find? fun flag => first.claims flag && second.claims flag := by
  simp only [clash?, claims_of_flags knownFirst, claims_of_flags knownSecond]

/-- Either no compound is to blame and the event has an effect, or some flag is
blamed and the event has none. -/
theorem blame_spec (event : Event) :
    (event.blame = none ∧ ∃ delta, event.flags = .ok delta) ∨
      ∃ flag, event.blame = some flag ∧ event.flags = .error (.flagMerge ⟨flag⟩) := by
  induction event with
  | compound first second ihFirst ihSecond =>
    rcases ihFirst with ⟨unblamed, firstFlags, knownFirst⟩ | ⟨flag, blamed, failed⟩
    · rcases ihSecond with ⟨unblamedToo, secondFlags, knownSecond⟩ | ⟨flag, blamed, failed⟩
      · have searched : (Event.compound first second).blame = clash? firstFlags secondFlags := by
          rw [blame, unblamed, unblamedToo, clash_of_flags knownFirst knownSecond]
          rfl
        have joined : (Event.compound first second).flags = firstFlags.join secondFlags := by
          rw [flags, knownFirst, knownSecond]
          rfl
        rw [searched, joined, join_eq]
        cases clash? firstFlags secondFlags with
        | none => exact .inl ⟨rfl, _, rfl⟩
        | some flag => exact .inr ⟨flag, rfl, rfl⟩
      · refine .inr ⟨flag, ?_, ?_⟩
        · rw [blame, unblamed, blamed]
          rfl
        · rw [flags, knownFirst, failed]
          rfl
    · refine .inr ⟨flag, ?_, ?_⟩
      · rw [blame, blamed]
        rfl
      · rw [flags, failed]
        rfl
  | _ => exact .inl ⟨rfl, _, rfl⟩

theorem flags_eq_error_iff {fault : Fault} :
    event.flags = .error fault ↔ ∃ flag, event.blame = some flag ∧ fault = .flagMerge ⟨flag⟩ := by
  rcases blame_spec event with ⟨unblamed, delta, known⟩ | ⟨flag, blamed, failed⟩
  · simp [unblamed, known]
  · simp [blamed, failed, eq_comm]

/-- Blame falls on the first compound, in the order of evaluation, whose parts
overlap. -/
theorem blame_eq_findSome (event : Event) :
    event.blame = event.compounds.findSome? fun parts =>
      all.find? fun flag => parts.1.claims flag && parts.2.claims flag := by
  induction event with
  | compound first second ihFirst ihSecond =>
    simp only [blame, compounds, List.findSome?_append, List.findSome?_singleton, ihFirst, ihSecond,
      Option.orElse_eq_orElse, Option.orElse_eq_or, Option.or_assoc]
  | _ => rfl

/-- The effects of the leaves are pairwise apart if and only if no flag is
claimed at two places. -/
theorem leaves_apart_iff :
    (event.leaves.map ownFlags).Pairwise Apart ↔ ∀ flag, ¬ event.ClaimsTwice flag := by
  simp only [pairwise_apart_iff, claimedAt_map_iff]
  refine forall_congr' fun flag => ⟨?_, ?_⟩
  · rintro once ⟨earlier, later, first, second, before, atEarlier, atLater, claimed, again⟩
    exact once earlier later before ⟨⟨first, atEarlier, claimed⟩, second, atLater, again⟩
  · rintro once earlier later before ⟨⟨first, atEarlier, claimed⟩, second, atLater, again⟩
    exact once ⟨earlier, later, first, second, before, atEarlier, atLater, claimed, again⟩

/-- An event has no effect if and only if some flag is claimed at two places. -/
theorem flags_fails_iff :
    (∃ fault, event.flags = .error fault) ↔ ∃ flag, event.ClaimsTwice flag := by
  have known_iff : (∃ delta, event.flags = .ok delta) ↔ ∀ flag, ¬ event.ClaimsTwice flag := by
    simp only [flags_eq_ok_iff, exists_unites_iff, leaves_apart_iff]
  cases outcome : event.flags with
  | ok delta =>
    have once := known_iff.mp ⟨delta, outcome⟩
    simpa using once
  | error fault =>
    have twice : ¬ ∀ flag, ¬ event.ClaimsTwice flag := by
      rw [← known_iff, outcome]
      rintro ⟨delta, known⟩
      cases known
    simpa using twice

/-- The compound to blame, and the flag. -/
theorem exists_blamed {fault : Fault} (failed : event.flags = .error fault) :
    ∃ before first second after flag, event.compounds = before ++ (first, second) :: after ∧
      (∀ parts ∈ before, ∀ other, ¬ (parts.1.claims other ∧ parts.2.claims other)) ∧
      IsFirst (fun other => first.claims other ∧ second.claims other) flag ∧
      fault = .flagMerge ⟨flag⟩ := by
  obtain ⟨flag, blamed, rfl⟩ := flags_eq_error_iff.mp failed
  rw [blame_eq_findSome, List.findSome?_eq_some_iff] at blamed
  obtain ⟨before, ⟨first, second⟩, after, cut, found, clear⟩ := blamed
  refine ⟨before, first, second, after, flag, cut, ?_, ?_, rfl⟩
  · intro parts member other shared
    have unshared := List.find?_eq_none.mp (clear parts member) other
      (LawfulEnumerated.mem_all other)
    exact unshared (Bool.and_eq_true_iff.mpr shared)
  · simpa only [Bool.and_eq_true] using find_all_eq_some_iff.mp found

/-- **The effect of an event is the union of the effects of its leaves.** Each leaf
is a simple event with an effect of its own. An event has no effect if and only
if some flag is claimed by leaves at two places, whatever they say of it. Otherwise
each flag has the state that the one leaf gives it that claims it, or is left
alone. And where there is no effect, the fault names a flag: of the compounds,
parts before wholes and left before right, the first one with overlapping parts
is to blame, and of the flags that both parts claim the first in slot order. -/
theorem flags_unites_leaves (event : Event) :
    (∀ leaf ∈ event.leaves, leaf.IsSimple ∧ leaf.flags = .ok leaf.ownFlags) ∧
    ((∃ fault, event.flags = .error fault) ↔ ∃ flag, event.ClaimsTwice flag) ∧
    (∀ delta, event.flags = .ok delta → ∀ flag,
      (∀ leaf ∈ event.leaves, leaf.ownFlags.claims flag →
        delta.get flag = leaf.ownFlags.get flag) ∧
      ((∀ leaf ∈ event.leaves, leaf.ownFlags.claims flag = false) →
        delta.get flag = .unchanged)) ∧
    ∀ fault, event.flags = .error fault →
      ∃ before first second after flag,
        event.compounds = before ++ (first, second) :: after ∧
        (∀ parts ∈ before, ∀ other, ¬ (parts.1.claims other ∧ parts.2.claims other)) ∧
        IsFirst (fun other => first.claims other ∧ second.claims other) flag ∧
        fault = .flagMerge ⟨flag⟩ ∧
        fault.message = "invalid flag merge: conflicting states for flag " ++ name flag := by
  refine ⟨?_, flags_fails_iff, ?_, ?_⟩
  · intro leaf inTree
    have simple := isSimple_of_mem_leaves inTree
    exact ⟨simple, flags_of_isSimple simple⟩
  · intro delta known flag
    have united := flags_eq_ok_iff.mp known
    refine ⟨fun leaf inTree => ?_, fun unclaimed => united.get_unclaimed flag ?_⟩
    · exact united.get_claimed leaf.ownFlags (List.mem_map_of_mem inTree) flag
    · exact List.forall_mem_map.mpr unclaimed
  · intro fault failed
    obtain ⟨before, first, second, after, flag, cut, clear, blamed, rfl⟩ := exists_blamed failed
    exact ⟨before, first, second, after, flag, cut, clear, blamed, rfl, rfl⟩

end Lr35902.EventTree
