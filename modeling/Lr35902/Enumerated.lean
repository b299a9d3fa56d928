/-! Finite types whose values come in a fixed order and carry a written name:
registers, flags, conditions and the like. A value's place in the order and
its name are both unambiguous, so either one identifies the value. -/
namespace Lr35902

/-- A type with finitely many values, listed once each in order, and a name
for every value. -/
class Enumerated (α : Type) where
  all : List α
  name : α → String

namespace Enumerated

variable {α : Type} [Enumerated α]

/-- The place of a value in the order, counted from zero. -/
def index [BEq α] (value : α) : Nat := (all : List α).idxOf value

/-- The value at a place in the order, if the order reaches that far. -/
def ofIndex? (place : Nat) : Option α := (all : List α)[place]?

/-- The value that bears a name, if there is one. -/
def ofName? (written : String) : Option α := (all : List α).find? (name · == written)

/-- Of all values with a property, this one comes first in the order. -/
def IsFirst [BEq α] (holds : α → Prop) (value : α) : Prop :=
  holds value ∧ ∀ other, index other < index value → ¬ holds other

end Enumerated

/-- Every value is listed, none twice, and no two share a name. -/
class LawfulEnumerated (α : Type) [Enumerated α] : Prop where
  mem_all (value : α) : value ∈ (Enumerated.all : List α)
  nodup_all : (Enumerated.all : List α).Nodup
  name_injective (left right : α) :
    Enumerated.name left = Enumerated.name right → left = right

namespace Enumerated

variable {α : Type} [Enumerated α] [LawfulEnumerated α]

theorem index_lt [BEq α] [LawfulBEq α] (value : α) :
    index value < (all : List α).length :=
  List.idxOf_lt_length_of_mem (LawfulEnumerated.mem_all value)

theorem ofIndex_index [BEq α] [LawfulBEq α] (value : α) :
    ofIndex? (index value) = some value := by
  rw [ofIndex?, List.getElem?_eq_getElem (index_lt value)]
  exact congrArg some (List.getElem_idxOf (index_lt value))

theorem index_of_ofIndex [BEq α] [LawfulBEq α] {place : Nat} {value : α}
    (found : ofIndex? place = some value) : index value = place := by
  obtain ⟨inside, rfl⟩ := List.getElem?_eq_some_iff.mp found
  exact LawfulEnumerated.nodup_all.idxOf_getElem place inside

/-- A search through all values in order finds the first one. -/
theorem find_all_eq_some_iff [BEq α] [LawfulBEq α] {holds : α → Bool} {value : α} :
    (all : List α).find? holds = some value ↔ IsFirst (fun other => holds other = true) value := by
  have placed (place : Nat) (inside : place < (all : List α).length) :
      index (all : List α)[place] = place :=
    LawfulEnumerated.nodup_all.idxOf_getElem place inside
  rw [List.find?_eq_some_iff_getElem]
  constructor
  · rintro ⟨found, place, inside, rfl, before⟩
    refine ⟨found, fun other earlier => ?_⟩
    rw [placed place inside] at earlier
    have listed : (all : List α)[index other]? = some other := ofIndex_index other
    obtain ⟨_, same⟩ := List.getElem?_eq_some_iff.mp listed
    have refused := before (index other) earlier
    rw [same] at refused
    simpa using refused
  · rintro ⟨found, first⟩
    refine ⟨found, index value, index_lt value, List.getElem_idxOf (index_lt value), ?_⟩
    intro place earlier
    have inside := Nat.lt_trans earlier (index_lt value)
    have refused := first (all : List α)[place] (by rwa [placed place inside])
    simpa using refused

theorem ofName_name (value : α) : ofName? (name value) = some value := by
  cases found : (ofName? (name value) : Option α) with
  | none =>
    have unnamed := List.find?_eq_none.mp found value (LawfulEnumerated.mem_all value)
    simp at unnamed
  | some other =>
    have same := List.find?_some found
    rw [LawfulEnumerated.name_injective other value (by simpa using same)]

end Enumerated

end Lr35902
