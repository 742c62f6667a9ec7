import CoChange.Proofs.Json.Readers

/-!
# Written documents

A reader takes a written list or record off a text if it takes its items off (`Recovers.list`,
`Recovers.map`), in either layout and at any level. So a document is read back whose numbers are words
and which nests no deeper than a document may (`ofText?_text`).
-/

namespace CoChange.Json

section

variable {layout : Layout} {level : Nat} {text rest : List Char}

/-! ## Texts in parts -/

theorem stringText_append (s : String) (rest : List Char) :
    stringText s ++ rest = '"' :: (s.toList.flatMap escaped ++ '"' :: rest) := by
  simp only [stringText, List.cons_append, List.append_assoc, List.nil_append]

theorem write_list_append (items : List Json) (rest : List Char) :
    write layout level (.list items) ++ rest =
      '[' :: (writeItems layout level true items ++ ']' :: rest) := by
  simp only [write, List.cons_append, List.append_assoc, List.nil_append]

theorem write_record_append (members : List (String × Json)) (rest : List Char) :
    write layout level (.record members) ++ rest =
      '\x7b' :: (writeMembers layout level true members ++ '\x7d' :: rest) := by
  simp only [write, List.cons_append, List.append_assoc, List.nil_append]

theorem writeItems_append (start : Bool) (item : Json) (items : List Json) (rest : List Char) :
    writeItems layout level start (item :: items) ++ rest =
      (if start then [] else [',']) ++ (lineBreak layout (level + 1) ++
        (write layout (level + 1) item ++ (writeItems layout level false items ++ rest))) := by
  simp only [writeItems, List.append_assoc]

theorem writeMembers_append (start : Bool) (key : String) (value : Json)
    (members : List (String × Json)) (rest : List Char) :
    writeMembers layout level start ((key, value) :: members) ++ rest =
      (if start then [] else [',']) ++ (lineBreak layout (level + 1) ++ (stringText key ++
        (colon layout ++ (write layout (level + 1) value ++
          (writeMembers layout level false members ++ rest))))) := by
  simp only [writeMembers, List.append_assoc]

/-! ## White space -/

theorem skipSpace_cons {c : Char} (visible : Reader.isSpace c = false) :
    Reader.skipSpace (c :: rest) = c :: rest :=
  List.dropWhile_cons_of_neg (by simp [visible])

theorem skipSpace_lineBreak (layout : Layout) (level : Nat) (text : List Char) :
    Reader.skipSpace (lineBreak layout level ++ text) = Reader.skipSpace text := by
  refine List.dropWhile_append_of_pos fun c mem => ?_
  cases layout with
  | compact => exact absurd mem List.not_mem_nil
  | pretty =>
    obtain rfl | mem := List.mem_cons.1 mem
    · rfl
    · rw [List.eq_of_mem_replicate mem]
      rfl

theorem skipSpace_colon (layout : Layout) (text : List Char) :
    ∃ value, colon layout ++ text = ':' :: value ∧
      Reader.skipSpace value = Reader.skipSpace text := by
  cases layout with
  | compact => exact ⟨text, rfl, rfl⟩
  | pretty => exact ⟨' ' :: text, rfl, rfl⟩

/-- A written value starts with no white space and closes nothing. -/
theorem exists_write_eq_cons (layout : Layout) (level : Nat) (value : Json) :
    ∃ c tail, write layout level value = c :: tail ∧ Reader.isSpace c = false ∧
      c ≠ ']' ∧ c ≠ '\x7d' := by
  cases value with
  | null => exact ⟨'n', _, rfl, by decide⟩
  | bool value => cases value <;> exact ⟨_, _, rfl, by decide⟩
  | number value =>
    obtain ⟨c, tail, eq⟩ := List.exists_cons_of_ne_nil (Nat.toDigits_ne_nil (n := value) (b := 10))
    have digit : c.isDigit = true :=
      Nat.isDigit_of_mem_toDigits (by decide) (by decide) (eq ▸ List.mem_cons_self)
    refine ⟨c, tail, eq, ?_, ?_, ?_⟩
    · unfold Reader.isSpace
      simp only [Bool.or_eq_false_iff, beq_eq_false_iff_ne]
      refine ⟨⟨⟨?_, ?_⟩, ?_⟩, ?_⟩ <;> rintro rfl <;> cases digit
    all_goals rintro rfl; cases digit
  | string value => exact ⟨'"', _, rfl, by decide⟩
  | list items => exact ⟨'[', _, rfl, by decide⟩
  | record members => exact ⟨'\x7b', _, rfl, by decide⟩

theorem skipSpace_write (layout : Layout) (level : Nat) (value : Json) (rest : List Char) :
    Reader.skipSpace (write layout level value ++ rest) = write layout level value ++ rest := by
  obtain ⟨c, tail, eq, visible, -⟩ := exists_write_eq_cons layout level value
  rw [eq, List.cons_append, skipSpace_cons visible]

theorem skipSpace_line (layout : Layout) (level : Nat) (value : Json) (rest : List Char) :
    ∃ c tail, Reader.skipSpace (lineBreak layout level ++ (write layout level value ++ rest)) =
      c :: tail ∧ c ≠ ']' ∧ c ≠ '\x7d' := by
  obtain ⟨c, tail, eq, visible, others⟩ := exists_write_eq_cons layout level value
  refine ⟨c, tail ++ rest, ?_, others⟩
  rw [skipSpace_lineBreak, eq, List.cons_append, skipSpace_cons visible]

theorem skipSpace_memberLine (layout : Layout) (level : Nat) (key : String) (rest : List Char) :
    Reader.skipSpace (lineBreak layout level ++ (stringText key ++ rest)) =
      '"' :: (key.toList.flatMap escaped ++ '"' :: rest) := by
  rw [skipSpace_lineBreak, stringText_append, skipSpace_cons (by decide)]

/-! ## What follows a value -/

theorem ends_lineBreak (layout : Layout) (level : Nat) (h : Ends rest) :
    Ends (lineBreak layout level ++ rest) := by
  cases layout with
  | compact => exact h
  | pretty => exact ends_cons (by simp) _

theorem ends_writeItems (layout : Layout) (level : Nat) (items : List Json) (rest : List Char) :
    Ends (writeItems layout level false items ++ ']' :: rest) := by
  cases items with
  | nil => exact ends_lineBreak layout level (ends_cons (by simp) rest)
  | cons item items => exact ends_cons (by simp) _

theorem ends_writeMembers (layout : Layout) (level : Nat) (members : List (String × Json))
    (rest : List Char) : Ends (writeMembers layout level false members ++ '\x7d' :: rest) := by
  cases members with
  | nil => exact ends_lineBreak layout level (ends_cons (by simp) rest)
  | cons member members => exact ends_cons (by simp) _

end

/-! ## Written values -/

namespace Reader

variable {α : Type} {item : Reader α} {text rest : List Char}

/-- A reader takes a value off the front of every text that it is written in, at any place of a
document. -/
def Recovers (reader : Reader α) (value : α) (written : Json) : Prop :=
  ∀ layout level text rest, skipSpace text = write layout level written ++ rest → Ends rest →
    (reader text).Gives value rest

theorem recovers_string (value : String) : string.Recovers value (.string value) := by
  intro layout level text rest h ends
  have read := gives_string (h.trans (stringText_append value rest))
    (gives_stringText value.toList rest)
  rwa [String.ofList_toList] at read

section

variable {layout : Layout} {level : Nat} {value : α} {written : Json} {toJson : α → Json}

theorem Recovers.gives (h : item.Recovers value written) (ends : Ends rest) :
    (item (lineBreak layout level ++ (write layout level written ++ rest))).Gives value rest := by
  refine h layout level _ rest ?_ ends
  rw [skipSpace_lineBreak, skipSpace_write]

theorem Recovers.gives_member (h : item.Recovers value written) (key : String) (ends : Ends rest) :
    (member item (lineBreak layout level ++ (stringText key ++ (colon layout ++
      (write layout level written ++ rest))))).Gives (key, value) rest := by
  have opened := skipSpace_lineBreak layout level
    (stringText key ++ (colon layout ++ (write layout level written ++ rest)))
  rw [stringText_append key, skipSpace_cons (by decide), ← stringText_append] at opened
  obtain ⟨behind, eq, spaces⟩ :=
    skipSpace_colon layout (write layout level written ++ rest)
  have colon : skipSpace (colon layout ++ (write layout level written ++ rest)) = ':' :: behind := by
    rw [eq, skipSpace_cons (by decide)]
  have read := Reader.gives_member (opened.trans (stringText_append key _))
    (gives_stringText key.toList _) colon
    (h layout level behind rest (spaces.trans (skipSpace_write layout level written rest)) ends)
  rwa [String.ofList_toList] at read

theorem gives_writeItems {values : List α}
    (each : ∀ value ∈ values, item.Recovers value (toJson value)) (rest : List Char) :
    (moreItems item (writeItems layout level false (values.map toJson) ++ ']' :: rest)).Gives
      values rest := by
  induction values with
  | nil => exact gives_moreItems_nil (skipSpace_lineBreak layout level (']' :: rest))
  | cons value values ih =>
    obtain ⟨here, each⟩ := List.forall_mem_cons.1 each
    obtain ⟨c, tail, filled, ne, -⟩ := skipSpace_line layout (level + 1) (toJson value)
      (writeItems layout level false (values.map toJson) ++ ']' :: rest)
    rw [List.map_cons, writeItems_append]
    exact gives_moreItems_cons rfl filled ne (here.gives (ends_writeItems layout level _ rest))
      (ih each)

theorem gives_writeMembers {members : List (String × α)}
    (each : ∀ member ∈ members, item.Recovers member.2 (toJson member.2)) (rest : List Char) :
    (moreMembers item (writeMembers layout level false
      (members.map fun member => (member.1, toJson member.2)) ++ '\x7d' :: rest)).Gives
        members rest := by
  induction members with
  | nil => exact gives_moreMembers_nil (skipSpace_lineBreak layout level ('\x7d' :: rest))
  | cons member members ih =>
    obtain ⟨here, each⟩ := List.forall_mem_cons.1 each
    rw [List.map_cons, writeMembers_append]
    exact gives_moreMembers_cons rfl (skipSpace_memberLine layout (level + 1) member.1 _)
      (by decide) (here.gives_member member.1 (ends_writeMembers layout level _ rest)) (ih each)

/-- A reader takes a written list off when it takes the items off. -/
theorem Recovers.list {values : List α}
    (each : ∀ value ∈ values, item.Recovers value (toJson value)) :
    (list item).Recovers values (.list (values.map toJson)) := by
  intro layout level text rest h _
  rw [write_list_append] at h
  cases values with
  | nil => exact gives_list_nil h (skipSpace_cons (by decide))
  | cons value values =>
    obtain ⟨here, each⟩ := List.forall_mem_cons.1 each
    obtain ⟨c, tail, filled, ne, -⟩ := skipSpace_line layout (level + 1) (toJson value)
      (writeItems layout level false (values.map toJson) ++ ']' :: rest)
    rw [List.map_cons, writeItems_append] at h
    exact gives_list_cons h filled ne (here.gives (ends_writeItems layout level _ rest))
      (gives_writeItems each rest)

theorem Recovers.map {members : List (String × α)}
    (each : ∀ member ∈ members, item.Recovers member.2 (toJson member.2)) :
    (map item).Recovers members
      (.record (members.map fun member => (member.1, toJson member.2))) := by
  intro layout level text rest h _
  rw [write_record_append] at h
  cases members with
  | nil => exact gives_map_nil h (skipSpace_cons (by decide))
  | cons member members =>
    obtain ⟨here, each⟩ := List.forall_mem_cons.1 each
    rw [List.map_cons, writeMembers_append] at h
    exact gives_map_cons h (skipSpace_memberLine layout (level + 1) member.1 _) (by decide)
      (here.gives_member member.1 (ends_writeMembers layout level _ rest))
      (gives_writeMembers each rest)

/-- A whole text is read that writes a value in either layout. -/
theorem Recovers.run (h : item.Recovers value written) (layout : Layout) :
    item.run (written.text layout).toList = .ok value := by
  have start := skipSpace_write layout 0 written []
  rw [List.append_nil] at start
  obtain ⟨shorter, read⟩ := h layout 0 _ [] (start.trans (List.append_nil _).symm) ends_nil
  unfold Json.text Reader.run
  rw [String.toList_ofList, read]
  rfl

end

end Reader

/-! ## Values of any shape -/

/-- The values that a document may have up to a nesting depth: its numbers are words. -/
inductive FitsWithin : Nat → Json → Prop
  | null (depth : Nat) : FitsWithin depth null
  | bool (depth : Nat) (value : Bool) : FitsWithin depth (bool value)
  | number (depth : Nat) {value : Nat} (fits : value ≤ Number.maxWord) :
    FitsWithin depth (number value)
  | string (depth : Nat) (value : String) : FitsWithin depth (string value)
  | list {depth : Nat} {items : List Json} (each : ∀ item ∈ items, FitsWithin depth item) :
    FitsWithin (depth + 1) (list items)
  | record {depth : Nat} {members : List (String × Json)}
    (each : ∀ member ∈ members, FitsWithin depth member.2) : FitsWithin (depth + 1) (record members)

namespace FitsWithin

variable {depth : Nat}

theorem list_map {α : Type} {toJson : α → Json} {values : List α}
    (each : ∀ value ∈ values, FitsWithin depth (toJson value)) :
    FitsWithin (depth + 1) (.list (values.map toJson)) :=
  .list (List.forall_mem_map.2 each)

theorem nil (depth : Nat) : FitsWithin (depth + 1) (.record []) :=
  .record fun _ mem => absurd mem List.not_mem_nil

theorem cons {name : String} {value : Json} {members : List (String × Json)}
    (here : FitsWithin depth value) (others : FitsWithin (depth + 1) (.record members)) :
    FitsWithin (depth + 1) (.record ((name, value) :: members)) := by
  cases others with
  | record each => exact .record (List.forall_mem_cons.2 ⟨here, each⟩)

end FitsWithin

theorem found_of_isDigit {c : Char} {tail : List Char} (digit : c.isDigit = true) :
    Reader.found (c :: tail) = Number.read true (c :: tail) := by
  have ne (d : Char) (other : d.isDigit = false) : c ≠ d := by
    rintro rfl
    cases other.symm.trans digit
  rw [Reader.found.eq_8 c tail (ne _ rfl) (ne _ rfl) (ne _ rfl) (ne _ rfl) (ne _ rfl) (ne _ rfl)
    (ne _ rfl), if_pos digit]

theorem scalar_toDigits {value : Nat} (fits : value ≤ Number.maxWord) {rest : List Char}
    (ends : Ends rest) :
    Reader.scalar (Nat.toDigits 10 value ++ rest) = .ok (.number value, rest) := by
  have read := Number.read_toDigits fits ends
  obtain ⟨c, tail, eq⟩ := List.exists_cons_of_ne_nil (Nat.toDigits_ne_nil (n := value) (b := 10))
  have digit : c.isDigit = true :=
    Nat.isDigit_of_mem_toDigits (by decide) (by decide) (eq ▸ List.mem_cons_self)
  rw [eq, List.cons_append] at read ⊢
  unfold Reader.scalar
  rw [found_of_isDigit digit, read]

theorem scalar_stringText (value : String) (rest : List Char) :
    Reader.scalar (stringText value ++ rest) = .ok (.string value, rest) := by
  obtain ⟨shorter, read⟩ := Reader.gives_stringText value.toList rest
  rw [stringText_append]
  unfold Reader.scalar
  rw [Reader.found, read]
  simp only [Except.map, String.ofList_toList]

theorem recovers_scalar {depth : Nat} {value : Json}
    (read : ∀ layout level rest, Ends rest →
      Reader.scalar (write layout level value ++ rest) = .ok (value, rest))
    (plain : ∀ layout level, ∀ c ∈ (write layout level value).head?, c ≠ '[' ∧ c ≠ '\x7b') :
    (Reader.value depth).Recovers value value := by
  intro layout level text rest h ends
  obtain ⟨c, tail, eq, -⟩ := exists_write_eq_cons layout level value
  have read := read layout level rest ends
  have plain := plain layout level
  rw [eq] at plain
  rw [eq, List.cons_append] at h read
  obtain ⟨noList, noRecord⟩ := plain c rfl
  refine Reader.gives_scalar h noList noRecord read ?_
  rw [List.length_cons, List.length_append]
  omega

/-- A value that fits is taken off every text that it is written in. -/
theorem FitsWithin.recovers {depth : Nat} {value : Json} (h : FitsWithin depth value) :
    (Reader.value depth).Recovers value value := by
  induction h with
  | null depth =>
    refine recovers_scalar (fun _ _ _ _ => rfl) fun _ _ c mem => ?_
    cases mem
    decide
  | bool depth value =>
    refine recovers_scalar (fun _ _ _ _ => ?_) fun _ _ c mem => ?_
    · cases value <;> rfl
    · cases value <;> cases mem <;> decide
  | number depth fits =>
    refine recovers_scalar (fun layout level rest ends => ?_) fun layout level c mem => ?_
    · rw [write]
      exact scalar_toDigits fits ends
    · rw [write] at mem
      have digit := Nat.isDigit_of_mem_toDigits (by decide) (by decide) (List.mem_of_mem_head? mem)
      constructor <;> rintro rfl <;> cases digit
  | string depth value =>
    refine recovers_scalar (fun layout level rest _ => ?_) fun layout level c mem => ?_
    · rw [write]
      exact scalar_stringText value rest
    · cases mem
      decide
  -- One level of nesting is used up for the items, which are read by the reader one level down.
  | @list depth items each ih =>
    have taken : (Reader.list (Reader.value depth)).Recovers items
        (Json.list (items.map id)) :=
      Reader.Recovers.list ih
    rw [List.map_id] at taken
    intro layout level text rest h ends
    rw [write_list_append] at h
    refine Reader.gives_value_list h (taken layout level _ rest ?_ ends)
    rw [write_list_append, skipSpace_cons (by decide)]
  | @record depth members each ih =>
    have same : (members.map fun member => (member.1, id member.2)) = members := List.map_id _
    have taken : (Reader.map (Reader.value depth)).Recovers members
        (Json.record (members.map fun member => (member.1, id member.2))) :=
      Reader.Recovers.map ih
    rw [same] at taken
    intro layout level text rest h ends
    rw [write_record_append] at h
    refine Reader.gives_value_record h (taken layout level _ rest ?_ ends)
    rw [write_record_append, skipSpace_cons (by decide)]

/-- A document is read back, in either layout. -/
theorem ofText?_text {value : Json} (fits : FitsWithin maxDepth value) (layout : Layout) :
    ofText? (value.text layout) = some value := by
  unfold ofText?
  rw [fits.recovers.run layout]
  rfl

end CoChange.Json
