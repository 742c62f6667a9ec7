import CoChange.Proofs.Rule.Transcript

/-!
# Directives that do not pair

Reading the rules of a file takes as many pairs of an IF and an END off its directives as it can.
What is left is nothing, or starts with directives that fit no pair (`Stops`). These decide the
fault and the line that it names (`ofDirectives_eq_error_iff`).
-/

namespace CoChange

/-! ## Arguments without an identifier -/

namespace Target

/-- A text with its first colon at its end, where the identifier should be. -/
def IsDangling (text : List Char) : Prop := ∃ name, text = name ++ [':'] ∧ ':' ∉ name

theorem isDangling_iff_cut {text : List Char} :
    IsDangling text ↔ ∃ name, Text.cutFirst? ':' text = some (name, []) := by
  simp only [Text.cutFirst?_eq_some_iff]
  rfl

/-- Unless it is empty, only a text that dangles names no target. -/
theorem isDangling_iff_not_isArgument {text : List Char} (filled : text ≠ []) :
    IsDangling text ↔ ¬ IsArgument text := by
  rw [isDangling_iff_cut]
  constructor
  · rintro ⟨name, cut⟩ named
    obtain ⟨eq, colonless⟩ := Text.cutFirst?_eq_some_iff.1 cut
    cases named with
    | file _ plain => exact plain (eq ▸ by simp)
    | @id id filled' =>
      have whole : Text.cutFirst? ':' (':' :: id) = some ([], id) :=
        Text.cutFirst?_eq_some_iff.2 ⟨rfl, List.not_mem_nil⟩
      exact filled' (Prod.mk.inj (Option.some.inj (whole.symm.trans cut))).2
    | @both file id _ plain named =>
      have whole : Text.cutFirst? ':' (file ++ ':' :: id) = some (file, id) :=
        Text.cutFirst?_eq_some_iff.2 ⟨rfl, plain⟩
      exact named (Prod.mk.inj (Option.some.inj (whole.symm.trans cut))).2
  · intro unnamed
    cases cut : Text.cutFirst? ':' text with
    | none => exact absurd (.file filled (Text.cutFirst?_eq_none_iff.1 cut)) unnamed
    | some parts =>
      obtain ⟨name, id⟩ := parts
      obtain ⟨rfl, plain⟩ := Text.cutFirst?_eq_some_iff.1 cut
      by_cases vacant : id = []
      · exact ⟨name, by rw [vacant]⟩
      · cases name with
        | nil => exact absurd (.id vacant) unnamed
        | cons first rest => exact absurd (.both (List.cons_ne_nil _ _) plain vacant) unnamed

end Target

/-! ## The directives that fit no pair -/

/-- Directives that start with no pair, the line at which this shows, and what is wrong there. -/
inductive Directive.Stops : List Directive → Nat → DirectiveFlaw → Prop
  | strayEnd {ids : List String} {line : Nat} {rest : List Directive} :
      Stops (⟨.endWord, ids, line⟩ :: rest) line .strayEnd
  | badTarget {before after : List String} {argument : String} {line : Nat} {rest : List Directive}
      (sound : ∀ other ∈ before, ¬ Target.IsDangling other.toList)
      (dangling : Target.IsDangling argument.toList) :
      Stops (⟨.ifWord, before ++ argument :: after, line⟩ :: rest) line (.badTarget argument)
  | unclosedIf {arguments : List String} {line : Nat}
      (named : ∀ argument ∈ arguments, Target.IsArgument argument.toList) :
      Stops [⟨.ifWord, arguments, line⟩] line .unclosedIf
  | nestedIf {arguments others : List String} {openLine line : Nat} {rest : List Directive}
      (named : ∀ argument ∈ arguments, Target.IsArgument argument.toList) :
      Stops (⟨.ifWord, arguments, openLine⟩ :: ⟨.ifWord, others, line⟩ :: rest) line
        (.nestedIf openLine)
  | surplusArguments {arguments ids : List String} {openLine line : Nat} {rest : List Directive}
      (named : ∀ argument ∈ arguments, Target.IsArgument argument.toList)
      (surplus : 2 ≤ ids.length) :
      Stops (⟨.ifWord, arguments, openLine⟩ :: ⟨.endWord, ids, line⟩ :: rest) line
        (.surplusArguments ids)

/-- The arguments of directives are words, so none of them is empty. -/
def Directive.Filled (directives : List Directive) : Prop :=
  ∀ directive ∈ directives, ∀ argument ∈ directive.arguments, argument.toList ≠ []

namespace Rule

variable {file : String} {changed : List Span} {line : Nat} {arguments ids : List String}
  {directives tail : List Directive} {pairs : List (Directive × Directive)} {flaw : DirectiveFlaw}
  {fault : Fault}

/-- The first argument that dangles is told. -/
theorem readTargets_eq_error_iff (filled : ∀ argument ∈ arguments, argument.toList ≠ []) :
    readTargets file line arguments = .error fault ↔
      ∃ before argument after, arguments = before ++ argument :: after ∧
        (∀ other ∈ before, ¬ Target.IsDangling other.toList) ∧
          Target.IsDangling argument.toList ∧
            fault = .badDirective file line (.badTarget argument) := by
  induction arguments with
  | nil => simp [readTargets]
  | cons argument rest ih =>
    rw [List.forall_mem_cons] at filled
    have known : Target.IsDangling argument.toList ↔ Target.read? argument = none := by
      rw [Target.isDangling_iff_not_isArgument filled.1, ← Target.exists_read?_iff,
        Option.eq_none_iff_forall_ne_some, not_exists]
    unfold readTargets
    cases read : Target.read? argument with
    | none =>
      constructor
      · intro h
        cases h
        exact ⟨[], argument, rest, rfl, by simp, known.2 read, rfl⟩
      · rintro ⟨before, other, after, eq, sound, -, rfl⟩
        cases before with
        | nil =>
          obtain ⟨rfl, -⟩ := List.cons.inj eq
          rfl
        | cons first others =>
          obtain ⟨rfl, -⟩ := List.cons.inj eq
          exact absurd (known.2 read) (sound _ List.mem_cons_self)
    | some target =>
      have whole : ¬ Target.IsDangling argument.toList := by simp [known, read]
      rw [Outcome.map_eq_error_iff, ih filled.2]
      constructor
      · rintro ⟨before, other, after, rfl, sound, dangling, eq⟩
        exact ⟨argument :: before, other, after, rfl, List.forall_mem_cons.2 ⟨whole, sound⟩,
          dangling, eq⟩
      · rintro ⟨before, other, after, eq, sound, dangling, told⟩
        cases before with
        | nil =>
          obtain ⟨rfl, -⟩ := List.cons.inj eq
          exact absurd dangling whole
        | cons first others =>
          obtain ⟨-, rfl⟩ := List.cons.inj eq
          exact ⟨others, other, after, rfl, (List.forall_mem_cons.1 sound).2, dangling, told⟩

theorem readId_eq_error_iff :
    readId file line ids = .error fault ↔
      2 ≤ ids.length ∧ fault = .badDirective file line (.surplusArguments ids) := by
  match ids with
  | [] => simp [readId]
  | [id] => simp [readId]
  | first :: second :: rest => simp [readId, eq_comm]

theorem ofDirectives_of_stops (filled : Directive.Filled tail) (h : Directive.Stops tail line flaw) :
    ofDirectives file changed tail = .error (.badDirective file line flaw) := by
  unfold ofDirectives
  cases h with
  | strayEnd => rfl
  | badTarget sound dangling =>
    have words := filled _ List.mem_cons_self
    refine Outcome.bind_eq_error_iff.2 (.inl ?_)
    exact (readTargets_eq_error_iff words).2 ⟨_, _, _, rfl, sound, dangling, rfl⟩
  | unclosedIf named =>
    obtain ⟨targets, read⟩ := exists_readTargets_iff.2 named
    exact Outcome.bind_eq_error_iff.2 (.inr ⟨targets, read, rfl⟩)
  | nestedIf named =>
    obtain ⟨targets, read⟩ := exists_readTargets_iff.2 named
    exact Outcome.bind_eq_error_iff.2 (.inr ⟨targets, read, rfl⟩)
  | surplusArguments named surplus =>
    obtain ⟨targets, read⟩ := exists_readTargets_iff.2 named
    refine Outcome.bind_eq_error_iff.2 (.inr ⟨targets, read, ?_⟩)
    exact Outcome.bind_eq_error_iff.2 (.inl (readId_eq_error_iff.2 ⟨surplus, rfl⟩))

/-- Directives that make no rules fit no pair, or the fault lies behind the first pair. -/
theorem stops_or_pair (filled : Directive.Filled directives)
    (h : ofDirectives file changed directives = .error fault) :
    (∃ line flaw, Directive.Stops directives line flaw ∧ fault = .badDirective file line flaw) ∨
      ∃ pair rest, directives = Directive.inRow [pair] ++ rest ∧ Directive.IsPair pair ∧
        ofDirectives file changed rest = .error fault := by
  -- An IF is judged by its arguments first, and then by the directive behind it.
  match directives, filled, h with
  | [], _, h => cases h
  | ⟨.endWord, ids, line⟩ :: rest, _, h =>
    cases h
    exact .inl ⟨line, _, .strayEnd, rfl⟩
  | ⟨.ifWord, arguments, first⟩ :: rest, filled, h =>
    rcases Outcome.bind_eq_error_iff.1 h with bad | ⟨targets, read, h⟩
    · have words := filled _ List.mem_cons_self
      obtain ⟨before, argument, after, rfl, sound, dangling, rfl⟩ :=
        (readTargets_eq_error_iff words).1 bad
      exact .inl ⟨first, _, .badTarget sound dangling, rfl⟩
    · have named := exists_readTargets_iff.1 ⟨targets, read⟩
      match rest, h with
      | [], h =>
        cases h
        exact .inl ⟨first, _, .unclosedIf named, rfl⟩
      | ⟨.ifWord, others, line⟩ :: rest, h =>
        cases h
        exact .inl ⟨line, _, .nestedIf named, rfl⟩
      | ⟨.endWord, ids, last⟩ :: rest, h =>
        rcases Outcome.bind_eq_error_iff.1 h with bad | ⟨id, closed, h⟩
        · obtain ⟨surplus, rfl⟩ := readId_eq_error_iff.1 bad
          exact .inl ⟨last, _, .surplusArguments named surplus, rfl⟩
        · have short := exists_readId_iff.1 ⟨id, closed⟩
          rcases Outcome.bind_eq_error_iff.1 h with later | ⟨rules, -, h⟩
          · exact .inr ⟨(⟨.ifWord, arguments, first⟩, ⟨.endWord, ids, last⟩), rest, rfl,
              ⟨rfl, named, rfl, short⟩, later⟩
          · cases h

theorem exists_stops {directives : List Directive} (filled : Directive.Filled directives)
    (h : ofDirectives file changed directives = .error fault) :
    ∃ pairs tail line flaw, directives = Directive.inRow pairs ++ tail ∧
      (∀ pair ∈ pairs, Directive.IsPair pair) ∧ Directive.Stops tail line flaw ∧
        fault = .badDirective file line flaw := by
  rcases stops_or_pair filled h with ⟨line, flaw, stops, eq⟩ | ⟨pair, rest, eq, isPair, later⟩
  · exact ⟨[], directives, line, flaw, rfl, by simp, stops, eq⟩
  · have filledRest : Directive.Filled rest := fun directive mem =>
      filled directive (eq ▸ List.mem_append_right _ mem)
    obtain ⟨pairs, tail, line, flaw, rfl, each, stops, told⟩ := exists_stops filledRest later
    exact ⟨pair :: pairs, tail, line, flaw, eq, List.forall_mem_cons.2 ⟨isPair, each⟩, stops, told⟩
termination_by directives.length
decreasing_by
  rw [eq, List.length_append, Directive.length_inRow, List.length_singleton]
  omega

/-- Directives make no rules exactly when they stop behind a row of pairs. The fault names the line
and the flaw at which they do. -/
theorem ofDirectives_eq_error_iff (filled : Directive.Filled directives) :
    ofDirectives file changed directives = .error fault ↔
      ∃ pairs tail line flaw, directives = Directive.inRow pairs ++ tail ∧
        (∀ pair ∈ pairs, Directive.IsPair pair) ∧ Directive.Stops tail line flaw ∧
          fault = .badDirective file line flaw := by
  constructor
  · exact exists_stops filled
  · rintro ⟨pairs, tail, line, flaw, rfl, each, stops, rfl⟩
    obtain ⟨rules, made⟩ := @exists_rules_inRow file changed pairs each
    have filledTail : Directive.Filled tail := fun directive mem =>
      filled directive (List.mem_append_right _ mem)
    rw [ofDirectives_append (ofDirectives_of_pairs made), ofDirectives_of_stops filledTail stops]
    rfl

end Rule

end CoChange
