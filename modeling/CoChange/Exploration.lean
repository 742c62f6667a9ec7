import CoChange.Source

/-!
# Exploration

The targets of rules lead from file to file. Starting from the changed files, the files are read
in waves: a wave holds the files that the wave before it names for the first time. A run ends when
a wave is empty or has a file without rules to read. As a source holds finitely many texts and no
file is read twice, every run ends.
-/

namespace CoChange

/-- The rules of every file that was read. -/
abbrev RuleMap := Catalog (List Rule)

/-- A file named by a target of another one. -/
structure Link where
  origin : String
  file : String
deriving DecidableEq, Repr

/-- The course and the outcome of a run. -/
structure Exploration where
  /-- The files of all waves, in order. -/
  asked : List String
  events : List Event
  outcome : Except Fault RuleMap

namespace Exploration

/-! ## New names -/

section Fresh

variable {α : Type} (name : α → String)

/-- The items whose names are neither among `seen` nor those of an earlier item. -/
def freshBy (seen : List String) : List α → List α
  | [] => []
  | item :: rest =>
    if name item ∈ seen then freshBy seen rest
    else item :: freshBy (name item :: seen) rest

theorem mem_map_freshBy {seen : List String} {items : List α} {x : String} :
    x ∈ (freshBy name seen items).map name ↔ x ∈ items.map name ∧ x ∉ seen := by
  induction items generalizing seen with
  | nil => simp [freshBy]
  | cons item rest ih =>
    unfold freshBy
    split
    · rw [ih]
      simp only [List.map_cons, List.mem_cons]
      grind
    · simp only [List.map_cons, List.mem_cons, ih]
      grind

theorem nodup_map_freshBy (seen : List String) (items : List α) :
    ((freshBy name seen items).map name).Nodup := by
  induction items generalizing seen with
  | nil => simp [freshBy]
  | cons item rest ih =>
    unfold freshBy
    split
    · exact ih seen
    · rw [List.map_cons, List.nodup_cons, mem_map_freshBy]
      exact ⟨fun h => h.2 List.mem_cons_self, ih _⟩

end Fresh

/-! ## Waves -/

/-- Files with their rules, in the order of reading. -/
abbrev Parsed := List (String × List Rule)

def Parsed.files (parsed : Parsed) : List String := parsed.map (·.1)

def Parsed.links (parsed : Parsed) : List Link :=
  parsed.flatMap fun (file, rules) =>
    (rules.flatMap (·.namedFiles)).map fun named => ⟨file, named⟩

variable (source : Source) (table : TemplateTable) (changes : Changes)

def readWave : List String → Except Fault Parsed
  | [] => .ok []
  | file :: rest => do
    let rules ← source.rulesIn table (changes.spansOf file) file
    let more ← readWave rest
    return (file, rules) :: more

variable {source table changes}

theorem readWave_cons_ok {file : String} {rest : List String} {parsed : Parsed}
    (h : readWave source table changes (file :: rest) = .ok parsed) :
    ∃ rules more, source.rulesIn table (changes.spansOf file) file = .ok rules ∧
      readWave source table changes rest = .ok more ∧ parsed = (file, rules) :: more := by
  unfold readWave at h
  cases rules : source.rulesIn table (changes.spansOf file) file with
  | error fault => rw [rules] at h; cases h
  | ok rules' =>
    cases more : readWave source table changes rest with
    | error fault => rw [rules, more] at h; cases h
    | ok more' =>
      rw [rules, more] at h
      cases h
      exact ⟨rules', more', rfl, rfl, rfl⟩

theorem files_of_readWave_ok {wave : List String} {parsed : Parsed}
    (h : readWave source table changes wave = .ok parsed) : parsed.files = wave := by
  induction wave generalizing parsed with
  | nil => cases h; rfl
  | cons file rest ih =>
    obtain ⟨rules, more, -, hmore, rfl⟩ := readWave_cons_ok h
    exact congrArg (file :: ·) (ih hmore)

variable (source table changes)

/-- The names of a source that are not among the files read so far. -/
def unread (done : Parsed) : List String :=
  source.texts.names.filter fun name => name ∉ done.files

/-- Reading a file for the first time leaves fewer names unread. -/
theorem length_unread_lt {done parsed : Parsed} {file : String}
    (known : file ∈ source.texts.names) (new : file ∉ done.files) (read : file ∈ parsed.files) :
    (unread source (done ++ parsed)).length < (unread source done).length := by
  have sub : unread source (done ++ parsed) =
      (unread source done).filter fun name => name ∉ parsed.files := by
    simp only [unread, Parsed.files, List.filter_filter, List.map_append, List.mem_append, not_or]
    congr 1
    funext name
    grind
  rw [sub]
  refine Nat.lt_of_le_of_ne (List.length_filter_le _ _) fun eq => ?_
  have all := List.length_filter_eq_length_iff.1 eq file
    (List.mem_filter.2 ⟨known, by simpa using new⟩)
  simp [read] at all

/-- Reads the wave `pending` and all waves behind it. -/
def waves (done : Parsed) (pending : List String)
    (fresh : ∀ file ∈ pending, file ∉ done.files) (number : Nat) : Exploration :=
  match pending with
  | [] => ⟨[], [], .ok (.ofList done)⟩
  | first :: rest =>
    let started := Event.startedWave number (rest.length + 1)
    match h : readWave source table changes (first :: rest) with
    | .error fault => ⟨first :: rest, [started], .error fault⟩
    | .ok parsed =>
      let found := freshBy Link.file (done ++ parsed).files parsed.links
      let behind := waves (done ++ parsed) (found.map Link.file)
        (fun _ hf => ((mem_map_freshBy Link.file).1 hf).2) (number + 1)
      { asked := first :: rest ++ behind.asked
        events :=
          started :: found.map (fun link => .discoveredFile link.origin link.file) ++ behind.events
        outcome := behind.outcome }
termination_by (unread source done).length
decreasing_by
  obtain ⟨rules, more, hrules, -, rfl⟩ := readWave_cons_ok h
  exact length_unread_lt source (Source.mem_names_of_rulesIn_ok hrules) (fresh first (by simp))
    (by simp [Parsed.files])

/-- Reads the files that `seeds` name and all files that their targets lead to. -/
def explore (seeds : List String) : Exploration :=
  waves source table changes [] (freshBy id [] (seeds.map Path.normalize))
    (fun _ _ => by simp [Parsed.files]) 1

end Exploration

end CoChange
