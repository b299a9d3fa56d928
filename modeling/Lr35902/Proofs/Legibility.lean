import Lr35902.Event.Text

/-! A one-line text tells which value it is the text of. The text of a layout is
read back whole, whatever ends it, if its names can be told from numbers and from
the words that have a meaning of their own. A word ends where no further letter
follows; behind it a bracket, or none, tells what the word is; and the run of
items in a bracket ends where no comma follows. -/
namespace Lr35902.Datum

/-- What ends the items of a bracket. -/
inductive Closing : List Char → Prop where
  | parenthesis (rest : List Char) : Closing (')' :: rest)
  | bracket (rest : List Char) : Closing (']' :: rest)
  | brace (rest : List Char) : Closing (' ' :: '\x7d' :: rest)

/-- What ends a value: the end of the text, a comma or the end of its bracket. -/
inductive Ending : List Char → Prop where
  | whole : Ending []
  | comma (rest : List Char) : Ending (',' :: ' ' :: rest)
  | closing {rest : List Char} : Closing rest → Ending rest

variable {rest word : List Char} {layout : Datum} {name : String}

/-! ### Words -/

theorem Ending.takeWhile_eq_nil (ending : Ending rest) : rest.takeWhile isWordChar = [] := by
  rcases ending with _ | _ | (_ | _ | _) <;> rfl

theorem isName_iff : isName name = true ↔
    (∃ first later, name.toList = first :: later ∧ first.isDigit = false) ∧
      (∀ char ∈ name.toList, char.isAlphanum = true) ∧ name ∉ reservedNames := by
  unfold isName
  split
  · next empty => simp [empty]
  · next first later spelled => simp [spelled, and_assoc]

theorem isWordChar_of_isName (named : isName name = true) :
    ∀ char ∈ name.toList, isWordChar char = true := by
  intro char member
  rw [isWordChar, (isName_iff.mp named).2.1 char member, Bool.true_or]

/-- No name is a number. -/
theorem ofDecimal_name (named : isName name = true) : ofDecimal? name.toList = none := by
  obtain ⟨⟨first, later, spelled, noDigit⟩, alphanum, -⟩ := isName_iff.mp named
  unfold ofDecimal?
  split
  · next digits signed =>
    have sign := alphanum '-' (signed ▸ List.mem_cons_self)
    cases sign
  · have mixed : ¬ (first :: later).all Char.isDigit = true := by
      simp [noDigit]
    rw [spelled, ofDigits?, if_neg fun digits => mixed digits.2]
    rfl

/-- A name standing alone is a constructor without fields. -/
theorem ofWord_name (named : isName name = true) : ofWord? name.toList = some (.tag name) := by
  have ordinary : name ≠ "None" := by
    rintro rfl
    cases named
  simp only [ofWord?, ofDecimal_name named, String.ofList_toList, if_neg ordinary, named, if_true]

theorem isDigit_of_mem_digits {number : Nat} {char : Char}
    (member : char ∈ Nat.toDigits 10 number) : char.isDigit = true :=
  Nat.isDigit_of_mem_toDigits (by omega) (by omega) member

theorem ofDigits_digits (number : Nat) : ofDigits? (Nat.toDigits 10 number) = some number := by
  have digits : (Nat.toDigits 10 number).all Char.isDigit = true :=
    List.all_eq_true.mpr fun _ => isDigit_of_mem_digits
  rw [ofDigits?, if_pos ⟨Nat.toDigits_ne_nil, digits⟩, Nat.ofDigitChars_ten_toDigits]

theorem toList_toString (value : Int) :
    (toString value).toList =
      if 0 ≤ value then Nat.toDigits 10 value.toNat else '-' :: Nat.toDigits 10 (-value).toNat := by
  rw [Int.toString_eq_repr, Int.repr_eq_if]
  split
  · exact Nat.toList_repr
  · rw [String.toList_append, Nat.toList_repr]
    rfl

theorem ofDecimal_toString (value : Int) : ofDecimal? (toString value).toList = some value := by
  rw [toList_toString]
  split
  · next nonneg =>
    unfold ofDecimal?
    split
    -- No digit is a sign.
    · next digits signed =>
      have sign : '-' ∈ Nat.toDigits 10 value.toNat := signed ▸ List.mem_cons_self
      cases isDigit_of_mem_digits sign
    · rw [ofDigits_digits]
      exact congrArg some (Int.toNat_of_nonneg nonneg)
  · rw [ofDecimal?, ofDigits_digits, Option.map_some, Option.some.injEq]
    omega

/-- A number standing alone is this number. -/
theorem ofWord_number (value : Int) : ofWord? (toString value).toList = some (.number value) := by
  rw [ofWord?, ofDecimal_toString]

theorem isWordChar_of_number (value : Int) :
    ∀ char ∈ (toString value).toList, isWordChar char = true := by
  have digit (number : Nat) : ∀ char ∈ Nat.toDigits 10 number, isWordChar char = true := by
    intro char member
    simp [isWordChar, Char.isAlphanum, isDigit_of_mem_digits member]
  rw [toList_toString]
  split
  · exact digit value.toNat
  · exact List.forall_mem_cons.mpr ⟨rfl, digit (-value).toNat⟩

/-! ### Runs of items -/

theorem itemsText_eq (items : List Datum) :
    itemsText items = ", ".intercalate (items.map text) := by
  induction items with
  | nil => rfl
  | cons first later ih =>
    cases later with
    | nil => rw [itemsText, List.map_singleton, String.intercalate_singleton]
    | cons second more =>
      rw [itemsText, ih]
      · exact String.intercalate_cons_cons.symm
      · exact nofun

/-- A named field. -/
def fieldText (field : String × Datum) : String := field.1 ++ ": " ++ field.2.text

theorem fieldsText_eq (fields : List (String × Datum)) :
    fieldsText fields = ", ".intercalate (fields.map fieldText) := by
  induction fields with
  | nil => rfl
  | cons first later ih =>
    cases later with
    | nil => rw [fieldsText, List.map_singleton, String.intercalate_singleton, fieldText]
    | cons second more =>
      rw [fieldsText, ih]
      · exact String.intercalate_cons_cons.symm
      · exact nofun

/-- The characters of a run of items. -/
theorem toList_intercalate_cons_cons (first second : String) (later : List String) :
    (", ".intercalate (first :: second :: later)).toList =
      first.toList ++ ',' :: ' ' :: (", ".intercalate (second :: later)).toList := by
  rw [String.intercalate_cons_cons, String.toList_append, String.toList_append, List.append_assoc]
  rfl

theorem length_le_of_mem_intercalate {piece : String} {pieces : List String}
    (member : piece ∈ pieces) :
    piece.toList.length ≤ (", ".intercalate pieces).toList.length := by
  induction pieces with
  | nil => cases member
  | cons first later ih =>
    cases later with
    | nil =>
      exact Nat.le_of_eq (by rw [String.intercalate_singleton, List.mem_singleton.mp member])
    | cons second more =>
      rw [toList_intercalate_cons_cons]
      simp only [List.length_append, List.length_cons]
      rcases List.mem_cons.mp member with rfl | member
      · omega
      · have := ih member
        omega

/-- A run with a bracket behind it has at least as many characters as items. -/
theorem length_le_length_intercalate (pieces : List String) :
    pieces.length ≤ (", ".intercalate pieces).toList.length + 1 := by
  induction pieces with
  | nil => exact Nat.zero_le _
  | cons first later ih =>
    cases later with
    | nil => exact Nat.le_add_left _ _
    | cons second more =>
      rw [toList_intercalate_cons_cons]
      simp only [List.length_append, List.length_cons] at ih ⊢
      omega

/-- Items are read up to the end of their bracket if each of them is read back,
whatever ends it, and the end of the bracket is not read as an item. -/
theorem readSeparated_append {α : Type} {read : TextReader α} {write : α → String}
    {values : List α} {bound : Nat}
    (each : ∀ value ∈ values, ∀ rest, Ending rest →
      read ((write value).toList ++ rest) = some (value, rest))
    (closing : Closing rest) (refused : read rest = none) (enough : values.length ≤ bound) :
    readSeparated read bound ((", ".intercalate (values.map write)).toList ++ rest) =
      (values, rest) := by
  induction values generalizing bound with
  | nil =>
    cases bound with
    | zero => rfl
    | succ bound =>
      change readSeparated read (bound + 1) rest = ([], rest)
      rw [readSeparated, refused]
  | cons first later ih =>
    cases bound with
    | zero => cases enough
    | succ bound =>
      have others := fun value member => each value (List.mem_cons_of_mem first member)
      have tail := ih others (Nat.le_of_succ_le_succ enough)
      -- The first item is ended by the bracket if it is the only one, else by a comma.
      cases later with
      | nil =>
        have head := each first List.mem_cons_self rest (.closing closing)
        rw [List.map_singleton, String.intercalate_singleton, readSeparated, head]
        cases closing <;> rfl
      | cons second more =>
        have head := each first List.mem_cons_self _ (.comma
          ((", ".intercalate ((second :: more).map write)).toList ++ rest))
        rw [List.map_cons, List.map_cons, toList_intercalate_cons_cons, ← List.map_cons,
          List.append_assoc, readSeparated, List.cons_append, List.cons_append, head]
        simp only [tail]

/-- The length of the text is room enough for its items. -/
theorem readSeparated_run {α : Type} {read : TextReader α} {write : α → String}
    {values : List α} (each : ∀ value ∈ values, ∀ rest, Ending rest →
      read ((write value).toList ++ rest) = some (value, rest))
    (closing : Closing rest) (refused : read rest = none) :
    readSeparated read ((", ".intercalate (values.map write)).toList ++ rest).length
      ((", ".intercalate (values.map write)).toList ++ rest) = (values, rest) := by
  refine readSeparated_append each closing refused ?_
  have many := length_le_length_intercalate (values.map write)
  have behind : 0 < rest.length := by
    cases closing <;> exact Nat.succ_pos _
  rw [List.length_map] at many
  rw [List.length_append]
  omega

/-! ### Values -/

theorem readBehind_ending {read : TextReader Datum} (ending : Ending rest) :
    readBehind read word rest = (ofWord? word).map (·, rest) := by
  rcases ending with _ | _ | (_ | _ | _) <;> rfl

/-- A word is taken whole if something else stands behind it. -/
theorem readNested_append {depth : Nat} (written : ∀ char ∈ word, isWordChar char = true)
    (behind : rest.takeWhile isWordChar = []) :
    readNested (depth + 1) (word ++ rest) = readBehind (readNested depth) word rest := by
  have kept : rest.dropWhile isWordChar = rest := by
    simpa [behind] using List.takeWhile_append_dropWhile (p := isWordChar) (l := rest)
  rw [readNested, List.takeWhile_append_of_pos written, List.dropWhile_append_of_pos written,
    behind, kept, List.append_nil]

theorem readNested_word {depth : Nat} (written : ∀ char ∈ word, isWordChar char = true)
    (meant : ofWord? word = some layout) (ending : Ending rest) :
    readNested (depth + 1) (word ++ rest) = some (layout, rest) := by
  rw [readNested_append written ending.takeWhile_eq_nil, readBehind_ending ending, meant]
  rfl

theorem readNested_closing (depth : Nat) (closing : Closing rest) :
    readNested depth rest = none := by
  cases depth with
  | zero => rfl
  | succ depth => cases closing <;> rfl

/-- The text of the layout can be told from every other text: its names are names,
and only a type name is wrapped around a value. -/
inductive Legible : Datum → Prop where
  | number (value : Int) : Legible (.number value)
  | missing : Legible .missing
  | present {value : Datum} : Legible value → Legible (.present value)
  | list {items : List Datum} : (∀ item ∈ items, Legible item) → Legible (.list items)
  | wrapped {name : String} {value : Datum} :
    name ∈ typeNames → Legible value → Legible (.wrapped name value)
  | tag {name : String} : isName name = true → Legible (.tag name)
  | tuple {name : String} {items : List Datum} :
    isName name = true → (∀ item ∈ items, Legible item) → Legible (.tuple name items)
  | record {name : String} {fields : List (String × Datum)} :
    isName name = true → (∀ field ∈ fields, isName field.1 = true) →
      (∀ field ∈ fields, Legible field.2) → Legible (.record name fields)

theorem ofItems_of_isName (named : isName name = true) (items : List Datum) :
    ofItems name items = .tuple name items := by
  have ordinary := (isName_iff.mp named).2.2
  simp only [reservedNames, List.mem_cons, not_or] at ordinary
  have noType : typeNames.contains name = false := by simpa using ordinary.2.2
  unfold ofItems
  split
  · rw [if_neg ordinary.2.1, noType, if_neg Bool.false_ne_true]
  · rfl

/-- Reading gives the layout back from its text, whatever ends it. -/
def ReadBack (depth : Nat) (layout : Datum) : Prop :=
  ∀ rest, Ending rest → readNested depth (layout.text.toList ++ rest) = some (layout, rest)

section
variable {depth : Nat} {items : List Datum} {fields : List (String × Datum)}

/-- No item is longer than the bracket it stands in, so the depth is enough for each
item if it is enough for all of them together. -/
theorem readItems_append (enough : (itemsText items).toList.length < depth)
    (each : ∀ item ∈ items, item.text.toList.length < depth → ReadBack depth item)
    (closing : Closing rest) :
    readSeparated (readNested depth) ((itemsText items).toList ++ rest).length
      ((itemsText items).toList ++ rest) = (items, rest) := by
  rw [itemsText_eq] at enough ⊢
  refine readSeparated_run ?_ closing (readNested_closing depth closing)
  intro item member
  have short : item.text.toList.length ≤ (", ".intercalate (items.map text)).toList.length :=
    length_le_of_mem_intercalate (List.mem_map_of_mem member)
  exact each item member (Nat.lt_of_le_of_lt short enough)

theorem readField_closing (closing : Closing rest) : readField (readNested depth) rest = none := by
  cases closing <;> rfl

theorem readField_append {field : String × Datum} (named : isName field.1 = true)
    (value : ReadBack depth field.2) (ending : Ending rest) :
    readField (readNested depth) ((fieldText field).toList ++ rest) = some (field, rest) := by
  have spelled : (fieldText field).toList ++ rest =
      field.1.toList ++ ':' :: ' ' :: (field.2.text.toList ++ rest) := by
    simp [fieldText]
  have written := isWordChar_of_isName named
  rw [spelled, readField, List.dropWhile_append_of_pos written,
    List.takeWhile_append_of_pos written]
  change ((readNested depth (field.2.text.toList ++ rest)).bind fun result =>
    some ((String.ofList (field.1.toList ++ []), result.1), result.2)) = _
  rw [value rest ending, List.append_nil, String.ofList_toList]
  rfl

theorem readFields_append (named : ∀ field ∈ fields, isName field.1 = true)
    (enough : (fieldsText fields).toList.length < depth)
    (each : ∀ field ∈ fields, field.2.text.toList.length < depth → ReadBack depth field.2)
    (closing : Closing rest) :
    readSeparated (readField (readNested depth)) ((fieldsText fields).toList ++ rest).length
      ((fieldsText fields).toList ++ rest) = (fields, rest) := by
  rw [fieldsText_eq] at enough ⊢
  refine readSeparated_run ?_ closing (readField_closing closing)
  intro field member later ending
  have short : (fieldText field).toList.length ≤
      (", ".intercalate (fields.map fieldText)).toList.length :=
    length_le_of_mem_intercalate (List.mem_map_of_mem member)
  simp only [fieldText, String.toList_append, List.length_append] at short
  exact readField_append (named field member) (each field member (by omega)) ending

/-- A name with items in parentheses, whatever the name means. -/
theorem readNested_items (written : ∀ char ∈ name.toList, isWordChar char = true)
    (enough : (name ++ "(" ++ itemsText items ++ ")").toList.length < depth + 1)
    (each : ∀ item ∈ items, item.text.toList.length < depth → ReadBack depth item)
    (rest : List Char) :
    readNested (depth + 1) ((name ++ "(" ++ itemsText items ++ ")").toList ++ rest) =
      some (ofItems name items, rest) := by
  have spelled : (name ++ "(" ++ itemsText items ++ ")").toList =
      name.toList ++ '(' :: ((itemsText items).toList ++ [')']) := by
    simp
  have shorter : (itemsText items).toList.length < depth := by
    rw [spelled] at enough
    simp only [List.length_append, List.length_cons] at enough
    omega
  rw [spelled, List.append_assoc, readNested_append written rfl, List.cons_append,
    List.append_assoc, List.singleton_append, readBehind,
    readItems_append shorter each (.parenthesis rest), String.ofList_toList]
  rfl

/-- The same for a single item, whose text is the whole run. -/
theorem readNested_item {value : Datum} (written : ∀ char ∈ name.toList, isWordChar char = true)
    (enough : (name ++ "(" ++ value.text ++ ")").toList.length < depth + 1)
    (inner : value.text.toList.length < depth → ReadBack depth value) (rest : List Char) :
    readNested (depth + 1) ((name ++ "(" ++ value.text ++ ")").toList ++ rest) =
      some (ofItems name [value], rest) := by
  have run : value.text = itemsText [value] := rfl
  rw [run] at enough ⊢
  refine readNested_items written enough ?_ rest
  intro item member
  rw [List.mem_singleton.mp member]
  exact inner

theorem readNested_list (enough : (Datum.list items).text.toList.length < depth + 1)
    (each : ∀ item ∈ items, item.text.toList.length < depth → ReadBack depth item)
    (rest : List Char) :
    readNested (depth + 1) ((Datum.list items).text.toList ++ rest) = some (.list items, rest) := by
  have spelled : (Datum.list items).text.toList = '[' :: ((itemsText items).toList ++ [']']) := by
    simp [text]
  have shorter : (itemsText items).toList.length < depth := by
    rw [spelled] at enough
    simp only [List.length_append, List.length_cons] at enough
    omega
  rw [spelled, ← List.nil_append ('[' :: _), List.append_assoc,
    readNested_append (List.forall_mem_nil _) rfl, List.cons_append, List.append_assoc,
    List.singleton_append, readBehind, readItems_append shorter each (.bracket rest)]
  rfl

theorem readNested_record (written : ∀ char ∈ name.toList, isWordChar char = true)
    (named : ∀ field ∈ fields, isName field.1 = true)
    (enough : (Datum.record name fields).text.toList.length < depth + 1)
    (each : ∀ field ∈ fields, field.2.text.toList.length < depth → ReadBack depth field.2)
    (rest : List Char) :
    readNested (depth + 1) ((Datum.record name fields).text.toList ++ rest) =
      some (.record name fields, rest) := by
  have spelled : (Datum.record name fields).text.toList =
      name.toList ++ ' ' :: '\x7b' :: ' ' :: ((fieldsText fields).toList ++ [' ', '\x7d']) := by
    simp [text]
  have shorter : (fieldsText fields).toList.length < depth := by
    rw [spelled] at enough
    simp only [List.length_append, List.length_cons] at enough
    omega
  rw [spelled, List.append_assoc, readNested_append written rfl]
  simp only [List.cons_append, List.append_assoc, List.nil_append]
  rw [readBehind, readFields_append named shorter each (.brace rest), String.ofList_toList]
  rfl

end

theorem isWordChar_of_typeName (listed : name ∈ typeNames) :
    ∀ char ∈ name.toList, isWordChar char = true := by
  obtain rfl := List.mem_singleton.mp listed
  exact List.all_eq_true.mp rfl

theorem ofItems_of_typeName (listed : name ∈ typeNames) (value : Datum) :
    ofItems name [value] = .wrapped name value := by
  obtain rfl := List.mem_singleton.mp listed
  rfl

/-- A legible layout is read back from its text, whatever ends it. The induction
is on the depth: every bracket takes one level and at least one character. -/
theorem readBack_of_legible {depth : Nat} (legible : Legible layout)
    (enough : layout.text.toList.length < depth) : ReadBack depth layout := by
  induction depth generalizing layout with
  | zero => exact absurd enough (Nat.not_lt_zero _)
  | succ depth ih =>
    intro rest ending
    cases legible with
    | number value =>
      exact readNested_word (isWordChar_of_number value) (ofWord_number value) ending
    | missing => exact readNested_word (List.all_eq_true.mp rfl) rfl ending
    | tag named => exact readNested_word (isWordChar_of_isName named) (ofWord_name named) ending
    | @present value inner =>
      have spelled : (Datum.present value).text = "Some" ++ "(" ++ value.text ++ ")" := rfl
      rw [spelled] at enough ⊢
      -- "Some" is reserved, and so means the presence of the one item behind it.
      exact readNested_item (List.all_eq_true.mp rfl) enough (ih inner) rest
    | @wrapped name value listed inner =>
      have read := readNested_item (isWordChar_of_typeName listed) enough (ih inner) rest
      rwa [ofItems_of_typeName listed value] at read
    | @tuple name items named each =>
      have read := readNested_items (isWordChar_of_isName named) enough
        (fun item member => ih (each item member)) rest
      rwa [ofItems_of_isName named items] at read
    | list each => exact readNested_list enough (fun item member => ih (each item member)) rest
    | record named fieldsNamed each =>
      exact readNested_record (isWordChar_of_isName named) fieldsNamed enough
        (fun field member => ih (each field member)) rest

/-- **The text of a legible layout tells the layout.** -/
theorem ofText_text (legible : Legible layout) : ofText? layout.text = some layout := by
  have read := readBack_of_legible legible (Nat.lt_succ_self _) [] .whole
  rw [List.append_nil] at read
  rw [ofText?, read]

end Lr35902.Datum
