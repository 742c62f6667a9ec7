import CoChange.Rule
import Mathlib.Data.List.Basic

/-!
# Keys

Keys of one file are equal exactly when their identifiers are. Keys of different files can be
spelled alike, but only when the name of one file is that of the other with a colon and more
behind it (`keyOf_eq_of_ne`).
-/

namespace CoChange

theorem toList_keyOf_some (file id : String) :
    (keyOf file (some id)).toList = file.toList ++ ':' :: id.toList := by
  simp [keyOf]

/-- In one file, keys tell identifiers apart. -/
@[simp] theorem keyOf_inj {file : String} {a b : Option String} :
    keyOf file a = keyOf file b ↔ a = b := by
  refine ⟨fun eq => ?_, fun eq => eq ▸ rfl⟩
  have chars := congrArg String.toList eq
  cases a with
  | none =>
    cases b with
    | none => rfl
    | some id => rw [toList_keyOf_some] at chars; simp [keyOf] at chars
  | some id =>
    cases b with
    | none => rw [toList_keyOf_some] at chars; simp [keyOf] at chars
    | some other =>
      rw [toList_keyOf_some, toList_keyOf_some, List.append_cancel_left_eq] at chars
      rw [String.toList_inj.1 (List.cons.inj chars).2]

/-- The name of a file with a colon and more behind it. -/
def Continues (file longer : String) : Prop := ∃ rest, longer = file ++ ":" ++ rest

theorem Continues.colon {file longer : String} (h : Continues file longer) :
    ':' ∈ longer.toList := by
  obtain ⟨rest, rfl⟩ := h
  simp

theorem continues_of_toList {file longer : String} {rest : List Char}
    (h : longer.toList = file.toList ++ ':' :: rest) : Continues file longer := by
  refine ⟨String.ofList rest, String.toList_inj.1 ?_⟩
  rw [h]
  simp

/-- Different files have equal keys only when the name of one continues that of the other behind
a colon. -/
theorem keyOf_eq_of_ne {f g : String} {a b : Option String} (ne : f ≠ g)
    (h : keyOf f a = keyOf g b) : Continues f g ∨ Continues g f := by
  have chars := congrArg String.toList h
  cases a with
  | none =>
    cases b with
    | none => exact absurd h ne
    | some id =>
      rw [toList_keyOf_some] at chars
      exact .inr (continues_of_toList chars)
  | some id =>
    cases b with
    | none =>
      rw [toList_keyOf_some] at chars
      exact .inl (continues_of_toList chars.symm)
    | some other =>
      -- the shorter name ends at a colon inside the longer one
      rw [toList_keyOf_some, toList_keyOf_some, List.append_eq_append_iff] at chars
      rcases chars with ⟨middle, long, short⟩ | ⟨middle, long, short⟩
      · cases middle with
        | nil => exact absurd (String.toList_inj.1 (by simpa using long.symm)) ne
        | cons c middle =>
          obtain ⟨rfl, -⟩ := List.cons.inj short
          exact .inl (continues_of_toList long)
      · cases middle with
        | nil => exact absurd (String.toList_inj.1 (by simpa using long)) ne
        | cons c middle =>
          obtain ⟨rfl, -⟩ := List.cons.inj short
          exact .inr (continues_of_toList long)

end CoChange
