import CoChange.CommandLine.Arguments
import Mathlib.Data.List.Basic

/-!
# Spellings of options

The same options can be spelled in many ways: by long names or letters, with a value in the same
argument or in the next one, drawn together or apart (`Spells`). However they are spelled, they are
taken in order (`readFrom_of_spells`), and everything that is understood as a request to lint spells
some options (`exists_spells`).
-/

namespace CoChange

/-- An option as it is given, with its value if it has one. -/
inductive Given where
  | setting (setting : Setting) (value : String)
  | verbose
deriving DecidableEq, Repr

namespace Given

/-- The value that is given to a setting. -/
def valueOf? (setting : Setting) : Given → Option String
  | .setting other value => if other = setting then some value else none
  | .verbose => none

def valuesOf (setting : Setting) (given : List Given) : List String :=
  given.filterMap (valueOf? setting)

theorem valuesOf_append (setting : Setting) (given rest : List Given) :
    valuesOf setting (given ++ rest) = valuesOf setting given ++ valuesOf setting rest :=
  List.filterMap_append

theorem valuesOf_singleton (setting other : Setting) (value : String) :
    valuesOf other [.setting setting value] = if setting = other then [value] else [] := by
  unfold valuesOf
  rw [List.filterMap_cons, valueOf?]
  split <;> simp_all

theorem valuesOf_cons_self (setting : Setting) (value : String) (rest : List Given) :
    valuesOf setting (.setting setting value :: rest) = value :: valuesOf setting rest := by
  rw [← List.singleton_append, valuesOf_append, valuesOf_singleton, if_pos rfl,
    List.singleton_append]

end Given

/-! ## Spellings -/

/-- What letters drawn together give, and the setting whose value has to follow. -/
inductive Draws : List Char → List Given → Option Setting → Prop
  | nothing : Draws [] [] none
  | verbose {letter : Char} {rest : List Char} {given : List Given} {pending : Option Setting}
    (named : CommandOption.letters.lookup letter = some (.switch .verbose))
    (more : Draws rest given pending) : Draws (letter :: rest) (.verbose :: given) pending
  | pending {letter : Char} {setting : Setting}
    (named : CommandOption.letters.lookup letter = some (.setting setting)) :
    Draws [letter] [] (some setting)
  | equals {letter : Char} {setting : Setting}
    (named : CommandOption.letters.lookup letter = some (.setting setting)) (value : List Char) :
    Draws (letter :: '=' :: value) [.setting setting (String.ofList value)] none
  | value {letter : Char} {setting : Setting}
    (named : CommandOption.letters.lookup letter = some (.setting setting)) {c : Char}
    (plain : c ≠ '=') (value : List Char) :
    Draws (letter :: c :: value) [.setting setting (String.ofList (c :: value))] none

/-- What an argument with options gives, and the setting whose value has to follow. -/
inductive Opens : String → List Given → Option Setting → Prop
  | long {name : String} {setting : Setting}
    (named : CommandOption.longNames.lookup name = some (.setting setting)) :
    Opens ("--" ++ name) [] (some setting)
  | longValue {name : String} {setting : Setting}
    (named : CommandOption.longNames.lookup name = some (.setting setting)) (value : String) :
    Opens ("--" ++ name ++ "=" ++ value) [.setting setting value] none
  | longVerbose {name : String}
    (named : CommandOption.longNames.lookup name = some (.switch .verbose)) :
    Opens ("--" ++ name) [.verbose] none
  | letters {letters : List Char} {given : List Given} {pending : Option Setting}
    (filled : letters ≠ []) (drawn : Draws letters given pending) :
    Opens ("-" ++ String.ofList letters) given pending

/-- Options in order, and the arguments that spell them. -/
inductive Spells : List Given → List String → Prop
  | nothing : Spells [] []
  | dashes : Spells [] ["--"]
  | whole {argument : String} {given rest : List Given} {arguments : List String}
    (opens : Opens argument given none) (more : Spells rest arguments) :
    Spells (given ++ rest) (argument :: arguments)
  | apart {argument value : String} {given rest : List Given} {setting : Setting}
    {arguments : List String} (opens : Opens argument given (some setting))
    (plain : Arguments.isValue value = true) (more : Spells rest arguments) :
    Spells (given ++ .setting setting value :: rest) (argument :: value :: arguments)

namespace Arguments

/-! ## Reading a spelling -/

def give (arguments : Arguments) : Given → Option Arguments
  | .setting setting value => arguments.set setting value
  | .verbose => if arguments.verbose then none else some { arguments with verbose := true }

def giveAll (arguments : Arguments) (given : List Given) : Option Arguments :=
  given.foldlM give arguments

/-- What is left to do when the value of a setting may have to follow. -/
def Progress.waiting : Option Setting → Arguments → Progress
  | none => .more
  | some setting => .value setting

theorem giveAll_nil (arguments : Arguments) : arguments.giveAll [] = some arguments := rfl

theorem giveAll_cons (arguments : Arguments) (option : Given) (rest : List Given) :
    arguments.giveAll (option :: rest) = (arguments.give option).bind (·.giveAll rest) := rfl

theorem giveAll_append (arguments : Arguments) (given rest : List Given) :
    arguments.giveAll (given ++ rest) = (arguments.giveAll given).bind (·.giveAll rest) :=
  List.foldlM_append

theorem giveAll_singleton (arguments : Arguments) (option : Given) :
    arguments.giveAll [option] = arguments.give option := by
  rw [giveAll_cons]
  cases arguments.give option <;> rfl

theorem takeLetters_of_draws {letters : List Char} {given : List Given} {pending : Option Setting}
    (h : Draws letters given pending) (arguments : Arguments) :
    arguments.takeLetters letters = (arguments.giveAll given).map (Progress.waiting pending) := by
  induction h generalizing arguments with
  | nothing => rfl
  | verbose named more ih =>
    rw [takeLetters, named, giveAll_cons, give]
    dsimp only [turnOn]
    by_cases on : arguments.verbose
    · rw [if_pos on, if_pos on]
      rfl
    · rw [if_neg on, if_neg on]
      exact ih _
  | pending named =>
    rw [takeLetters, named]
    rfl
  | equals named value =>
    rw [takeLetters, named, giveAll_singleton]
    rfl
  | value named plain value =>
    rw [takeLetters, named, giveAll_singleton]
    dsimp only
    split
    · next eq => cases eq
    · next eq =>
      cases eq
      exact absurd rfl plain
    · rfl

theorem exists_draws {arguments : Arguments} {letters : List Char} {progress : Progress}
    (h : arguments.takeLetters letters = some progress) (ne : progress ≠ .version) :
    ∃ given pending, Draws letters given pending := by
  induction letters generalizing arguments with
  | nil => exact ⟨_, _, .nothing⟩
  | cons letter rest ih =>
    rw [takeLetters] at h
    cases named : CommandOption.letters.lookup letter with
    | none => rw [named] at h; cases h
    | some option =>
      rw [named] at h
      cases option with
      | setting setting =>
        cases rest with
        | nil => exact ⟨_, _, .pending named⟩
        | cons c value =>
          by_cases equals : c = '='
          · subst equals
            exact ⟨_, _, .equals named value⟩
          · exact ⟨_, _, .value named equals value⟩
      | switch switch =>
        cases switch with
        | version =>
          cases h
          exact absurd rfl ne
        | verbose =>
          dsimp only [turnOn] at h
          by_cases on : arguments.verbose
          · rw [if_pos on] at h
            cases h
          · rw [if_neg on] at h
            obtain ⟨given, pending, drawn⟩ := ih h
            exact ⟨_, _, .verbose named drawn⟩

theorem ne_dash_of_draws {letter : Char} {rest : List Char} {given : List Given}
    {pending : Option Setting} (h : Draws (letter :: rest) given pending) : letter ≠ '-' := by
  rintro rfl
  cases h with
  | verbose named => cases named
  | pending named => cases named
  | equals named => cases named
  | value named => cases named

theorem name_of_lookup {name : String} {option : CommandOption}
    (named : CommandOption.longNames.lookup name = some option) :
    name.toList ≠ [] ∧ '=' ∉ name.toList := by
  have names : ∀ entry ∈ CommandOption.longNames, entry.1.toList ≠ [] ∧ '=' ∉ entry.1.toList := by
    decide
  obtain ⟨before, after, eq, -⟩ := List.lookup_eq_some_iff.1 named
  exact names (name, option) (by rw [eq]; simp)

theorem take_long {name : String} {option : CommandOption}
    (named : CommandOption.longNames.lookup name = some option) (arguments : Arguments) :
    ("--" ++ name) ≠ "--" ∧ arguments.take ("--" ++ name) = arguments.takeLong name none := by
  obtain ⟨filled, plain⟩ := name_of_lookup named
  have chars : ("--" ++ name).toList = '-' :: '-' :: name.toList := String.toList_append
  refine ⟨fun eq => ?_, ?_⟩
  · rw [eq] at chars
    exact filled (List.cons.inj (List.cons.inj chars).2).2.symm
  · unfold take
    rw [chars]
    simp only [Text.cutFirst?_eq_none_iff.2 plain]
    rw [String.ofList_toList]

theorem take_longValue {name : String} {option : CommandOption}
    (named : CommandOption.longNames.lookup name = some option) (value : String)
    (arguments : Arguments) :
    ("--" ++ name ++ "=" ++ value) ≠ "--" ∧
      arguments.take ("--" ++ name ++ "=" ++ value) = arguments.takeLong name (some value) := by
  obtain ⟨filled, plain⟩ := name_of_lookup named
  have chars : ("--" ++ name ++ "=" ++ value).toList =
      '-' :: '-' :: (name.toList ++ '=' :: value.toList) := by
    simp [String.toList_append]
  refine ⟨fun eq => ?_, ?_⟩
  · rw [eq] at chars
    simp at chars
  · unfold take
    rw [chars]
    simp only [Text.cutFirst?_eq_some_iff.2 ⟨rfl, plain⟩]
    rw [String.ofList_toList, String.ofList_toList]

theorem take_of_opens {argument : String} {given : List Given} {pending : Option Setting}
    (h : Opens argument given pending) (arguments : Arguments) :
    argument ≠ "--" ∧
      arguments.take argument = (arguments.giveAll given).map (Progress.waiting pending) := by
  cases h with
  | long named =>
    obtain ⟨ne, eq⟩ := take_long named arguments
    refine ⟨ne, eq.trans ?_⟩
    unfold takeLong
    rw [named]
    rfl
  | longValue named value =>
    obtain ⟨ne, eq⟩ := take_longValue named value arguments
    refine ⟨ne, eq.trans ?_⟩
    unfold takeLong
    rw [named, giveAll_singleton]
    rfl
  | longVerbose named =>
    obtain ⟨ne, eq⟩ := take_long named arguments
    refine ⟨ne, eq.trans ?_⟩
    unfold takeLong
    rw [named, giveAll_singleton, give]
    dsimp only [turnOn]
    split <;> rfl
  | @letters letters _ _ filled drawn =>
    obtain ⟨letter, rest, rfl⟩ := List.exists_cons_of_ne_nil filled
    -- No letter is a dash, so the argument is neither two dashes nor a long name.
    have noDash := ne_dash_of_draws drawn
    have chars : ("-" ++ String.ofList (letter :: rest)).toList = '-' :: letter :: rest := by
      simp [String.toList_append]
    refine ⟨fun eq => ?_, ?_⟩
    · rw [eq] at chars
      exact noDash (List.cons.inj (List.cons.inj chars).2).1.symm
    · rw [← takeLetters_of_draws drawn arguments]
      unfold take
      rw [chars]
      split
      · next eq =>
        cases eq
        exact absurd rfl noDash
      · next eq => cases eq; rfl
      · next other => exact absurd rfl (other _ _)

/-- An argument that is taken spells options, unless it asks for the version. -/
theorem exists_opens {arguments : Arguments} {argument : String} {progress : Progress}
    (h : arguments.take argument = some progress) (ne : progress ≠ .version) :
    ∃ given pending, Opens argument given pending := by
  unfold take at h
  split at h
  · next option chars =>
    split at h
    · next name value cut =>
      obtain ⟨rfl, -⟩ := Text.cutFirst?_eq_some_iff.1 cut
      have spelled : argument = "--" ++ String.ofList name ++ "=" ++ String.ofList value :=
        String.toList_inj.1 (by rw [chars]; simp [String.toList_append])
      rw [spelled]
      unfold takeLong at h
      split at h
      · next named _ => exact ⟨_, _, .longValue named _⟩
      · next eq => cases eq
      · next eq => cases eq
      · cases h
    · have spelled : argument = "--" ++ String.ofList option :=
        String.toList_inj.1 (by rw [chars]; simp [String.toList_append])
      rw [spelled]
      unfold takeLong at h
      split at h
      · next eq => cases eq
      · next named _ => exact ⟨_, _, .long named⟩
      · next switch named _ =>
        cases switch with
        | verbose => exact ⟨_, _, .longVerbose named⟩
        | version =>
          cases h
          exact absurd rfl ne
      · cases h
  · next letter letters _ chars =>
    have spelled : argument = "-" ++ String.ofList (letter :: letters) :=
      String.toList_inj.1 (by rw [chars]; simp [String.toList_append])
    obtain ⟨given, pending, drawn⟩ := exists_draws h ne
    rw [spelled]
    exact ⟨_, _, .letters (List.cons_ne_nil _ _) drawn⟩
  · cases h

/-- Arguments are read as the options that they spell. -/
theorem readFrom_of_spells {given : List Given} {spelled : List String} (h : Spells given spelled)
    (arguments : Arguments) :
    readFrom (.more arguments) spelled = (arguments.giveAll given).map .lint := by
  induction h generalizing arguments with
  | nothing => rfl
  | dashes => rfl
  | whole opens more ih =>
    obtain ⟨ne, taken⟩ := take_of_opens opens arguments
    rw [readFrom, if_neg ne, taken, giveAll_append]
    cases arguments.giveAll _ with
    | none => rfl
    | some next => exact ih next
  | apart opens plain more ih =>
    obtain ⟨ne, taken⟩ := take_of_opens opens arguments
    rw [readFrom, if_neg ne, taken, giveAll_append]
    cases arguments.giveAll _ with
    | none => rfl
    | some next =>
      show readFrom (.value _ next) _ = ((next.set _ _).bind (·.giveAll _)).map .lint
      rw [readFrom, if_pos plain]
      cases next.set _ _ with
      | none => rfl
      | some last => exact ih last

/-- What is read as a request to lint spells options, and so does what is left behind an option whose
value has to follow. -/
theorem exists_spells_of_readFrom {spelled : List String} {read : Arguments} :
    (∀ arguments, readFrom (.more arguments) spelled = some (.lint read) →
      ∃ given, Spells given spelled) ∧
    ∀ setting arguments, readFrom (.value setting arguments) spelled = some (.lint read) →
      ∃ value rest given, spelled = value :: rest ∧ isValue value = true ∧ Spells given rest := by
  -- The reader takes one argument at a time, and an option apart from its value is two: what it
  -- waits for in between is carried through the same induction.
  induction spelled with
  | nil => exact ⟨fun _ _ => ⟨[], .nothing⟩, fun _ _ h => nomatch h⟩
  | cons argument rest ih =>
    refine ⟨fun arguments h => ?_, fun setting arguments h => ?_⟩
    · rw [readFrom] at h
      by_cases dashes : argument = "--"
      · rw [if_pos dashes] at h
        by_cases last : rest.isEmpty
        · rw [dashes, List.isEmpty_iff.1 last]
          exact ⟨[], .dashes⟩
        · rw [if_neg last] at h
          cases h
      · rw [if_neg dashes] at h
        obtain ⟨progress, taken, h⟩ := Option.bind_eq_some_iff.1 h
        have ne : progress ≠ .version := by
          rintro rfl
          cases rest <;> cases h
        obtain ⟨given, pending, opens⟩ := exists_opens taken ne
        obtain ⟨next, -, rfl⟩ :=
          Option.map_eq_some_iff.1 ((take_of_opens opens arguments).2.symm.trans taken)
        cases pending with
        | none =>
          obtain ⟨more, spells⟩ := ih.1 next h
          exact ⟨_, .whole opens spells⟩
        | some setting =>
          obtain ⟨value, rest, more, rfl, plain, spells⟩ := ih.2 setting next h
          exact ⟨_, .apart opens plain spells⟩
    · rw [readFrom] at h
      by_cases plain : isValue argument
      · rw [if_pos plain] at h
        obtain ⟨next, -, h⟩ := Option.bind_eq_some_iff.1 h
        obtain ⟨given, spells⟩ := ih.1 next h
        exact ⟨argument, rest, given, rfl, plain, spells⟩
      · rw [if_neg plain] at h
        cases h

theorem exists_spells {spelled : List String} {arguments : Arguments}
    (h : read spelled = some (.lint arguments)) : ∃ given, Spells given spelled :=
  exists_spells_of_readFrom.1 _ h

end Arguments

end CoChange
