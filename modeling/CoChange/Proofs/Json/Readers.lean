import CoChange.Json.Document
import CoChange.Proofs.Json.Scalars

/-!
# What the readers take

A reader is decided by the first visible character. For each reader and each shape of text that it
takes, what it gives is put together from what the readers give that it calls.
-/

namespace CoChange.Json.Reader

variable {α : Type} {item : Reader α} {text start after rest : List Char}

theorem gives_string {body : List Char} (h : skipSpace text = '"' :: start)
    (read : (stringBody start).Gives body rest) : (string text).Gives (String.ofList body) rest := by
  unfold string
  split
  · next eq => cases h.symm.trans eq
  · next eq =>
    cases h.symm.trans eq
    exact read.within _ _
  · next other => exact absurd h (other _)

/-! ## Lists -/

section

variable {value : α} {values : List α} {c : Char} {tail : List Char}

theorem gives_moreItems_nil (h : skipSpace text = ']' :: rest) :
    (moreItems item text).Gives [] rest := by
  rw [moreItems.eq_def]
  split
  · next eq => cases h.symm.trans eq
  · next eq =>
    cases h.symm.trans eq
    exact ⟨_, rfl⟩
  · next eq => cases h.symm.trans eq
  · next other _ => exact absurd h (other _)

theorem gives_moreItems_cons (h : skipSpace text = ',' :: start)
    (filled : skipSpace start = c :: tail) (ne : c ≠ ']') (first : (item start).Gives value after)
    (more : (moreItems item after).Gives values rest) :
    (moreItems item text).Gives (value :: values) rest := by
  obtain ⟨shorter, first⟩ := first
  rw [moreItems.eq_def]
  split
  · next eq => cases h.symm.trans eq
  · next eq => cases h.symm.trans eq
  · next eq =>
    cases h.symm.trans eq
    split
    · next eq => cases filled.symm.trans eq
    · next eq =>
      cases filled.symm.trans eq
      exact absurd rfl ne
    · rw [first]
      exact more.within _ _
  · next _ other => exact absurd h (other _)

theorem gives_list_nil (h : skipSpace text = '[' :: start) (closed : skipSpace start = ']' :: rest) :
    (list item text).Gives [] rest := by
  unfold list
  split
  · next eq => cases h.symm.trans eq
  · next eq =>
    cases h.symm.trans eq
    dsimp only
    split
    · next eq _ => cases closed.symm.trans eq
    · next eq _ =>
      cases closed.symm.trans eq
      exact ⟨_, rfl⟩
    · next other =>
      exact (other _ (closed ▸ length_skipSpace_le start) closed (proof_irrel_heq _ _)).elim
  · next other => exact absurd h (other _)

theorem gives_list_cons (h : skipSpace text = '[' :: start) (filled : skipSpace start = c :: tail)
    (ne : c ≠ ']') (first : (item start).Gives value after)
    (more : (moreItems item after).Gives values rest) :
    (list item text).Gives (value :: values) rest := by
  obtain ⟨shorter, first⟩ := first
  unfold list
  split
  · next eq => cases h.symm.trans eq
  · next eq =>
    cases h.symm.trans eq
    dsimp only
    split
    · next eq _ => cases filled.symm.trans eq
    · next eq _ =>
      cases filled.symm.trans eq
      exact absurd rfl ne
    · rw [first]
      exact more.within _ _
  · next other => exact absurd h (other _)

/-! ## Records -/

theorem gives_member {key : List Char} {behind written : List Char}
    (h : skipSpace text = '"' :: start) (read : (stringBody start).Gives key behind)
    (colon : skipSpace behind = ':' :: written) (held : (item written).Gives value rest) :
    (member item text).Gives (String.ofList key, value) rest := by
  obtain ⟨shorter, read⟩ := read
  unfold member
  split
  · next eq =>
    cases h.symm.trans eq
    rw [read]
    dsimp only
    split
    · next eq => cases colon.symm.trans eq
    · next eq =>
      cases colon.symm.trans eq
      exact held.within _ _
    · next other => exact absurd colon (other _)
  · next other => exact absurd h (other _)

variable {entry : String × α} {entries : List (String × α)}

theorem gives_moreMembers_nil (h : skipSpace text = '\x7d' :: rest) :
    (moreMembers item text).Gives [] rest := by
  rw [moreMembers.eq_def]
  split
  · next eq => cases h.symm.trans eq
  · next eq =>
    cases h.symm.trans eq
    exact ⟨_, rfl⟩
  · next eq => cases h.symm.trans eq
  · next other _ => exact absurd h (other _)

theorem gives_moreMembers_cons (h : skipSpace text = ',' :: start)
    (filled : skipSpace start = c :: tail) (ne : c ≠ '\x7d')
    (first : (member item start).Gives entry after)
    (more : (moreMembers item after).Gives entries rest) :
    (moreMembers item text).Gives (entry :: entries) rest := by
  obtain ⟨shorter, first⟩ := first
  rw [moreMembers.eq_def]
  split
  · next eq => cases h.symm.trans eq
  · next eq => cases h.symm.trans eq
  · next eq =>
    cases h.symm.trans eq
    split
    · next eq => cases filled.symm.trans eq
    · next eq =>
      cases filled.symm.trans eq
      exact absurd rfl ne
    · rw [first]
      exact more.within _ _
  · next _ other => exact absurd h (other _)

theorem gives_map_nil (h : skipSpace text = '\x7b' :: start)
    (closed : skipSpace start = '\x7d' :: rest) : (map item text).Gives [] rest := by
  unfold map
  split
  · next eq => cases h.symm.trans eq
  · next eq =>
    cases h.symm.trans eq
    dsimp only
    split
    · next eq _ => cases closed.symm.trans eq
    · next eq _ =>
      cases closed.symm.trans eq
      exact ⟨_, rfl⟩
    · next other =>
      exact (other _ (closed ▸ length_skipSpace_le start) closed (proof_irrel_heq _ _)).elim
  · next other => exact absurd h (other _)

theorem gives_map_cons (h : skipSpace text = '\x7b' :: start)
    (filled : skipSpace start = c :: tail) (ne : c ≠ '\x7d')
    (first : (member item start).Gives entry after)
    (more : (moreMembers item after).Gives entries rest) :
    (map item text).Gives (entry :: entries) rest := by
  obtain ⟨shorter, first⟩ := first
  unfold map
  split
  · next eq => cases h.symm.trans eq
  · next eq =>
    cases h.symm.trans eq
    dsimp only
    split
    · next eq _ => cases filled.symm.trans eq
    · next eq _ =>
      cases filled.symm.trans eq
      exact absurd rfl ne
    · rw [first]
      exact more.within _ _
  · next other => exact absurd h (other _)

end

/-! ## Values of any shape -/

theorem gives_scalar {depth : Nat} {c : Char} {value : Json} (h : skipSpace text = c :: start)
    (noList : c ≠ '[') (noRecord : c ≠ '\x7b') (read : scalar (c :: start) = .ok (value, rest))
    (shorter : rest.length < (c :: start).length) : (Reader.value depth text).Gives value rest := by
  rw [Reader.value.eq_def]
  dsimp only
  split
  · next eq _ => cases h.symm.trans eq
  · next eq _ =>
    cases h.symm.trans eq
    exact absurd rfl noList
  · next eq _ =>
    cases h.symm.trans eq
    exact absurd rfl noRecord
  · have taken : (Read.ofScalar (skipSpace text) (scalar (skipSpace text))).Gives value rest := by
      unfold Read.ofScalar
      rw [h, read]
      dsimp only
      rw [dif_pos shorter]
      exact ⟨_, rfl⟩
    exact taken.within _ _

theorem gives_value_list {depth : Nat} {values : List Json} (h : skipSpace text = '[' :: start)
    (read : (list (Reader.value depth) ('[' :: start)).Gives values rest) :
    (Reader.value (depth + 1) text).Gives (.list values) rest := by
  rw [Reader.value.eq_def]
  dsimp only
  split
  · next eq _ => cases h.symm.trans eq
  · next eq _ =>
    cases h.symm.trans eq
    exact read.within _ _
  · next eq _ => cases h.symm.trans eq
  · next other _ => exact (other _ (h ▸ length_skipSpace_le text) h (proof_irrel_heq _ _)).elim

theorem gives_value_record {depth : Nat} {members : List (String × Json)}
    (h : skipSpace text = '\x7b' :: start)
    (read : (map (Reader.value depth) ('\x7b' :: start)).Gives members rest) :
    (Reader.value (depth + 1) text).Gives (.record members) rest := by
  rw [Reader.value.eq_def]
  dsimp only
  split
  · next eq _ => cases h.symm.trans eq
  · next eq _ => cases h.symm.trans eq
  · next eq _ =>
    cases h.symm.trans eq
    exact read.within _ _
  · next _ other => exact (other _ (h ▸ length_skipSpace_le text) h (proof_irrel_heq _ _)).elim

end CoChange.Json.Reader
