import CoChange.Proofs.Exploration.Closure
import Mathlib.Algebra.GroupWithZero.Nat

/-!
# The course of an exploration

An exploration goes on from wave to wave. It is over when nothing is pending or a wave cannot be
read; otherwise the files that a wave names for the first time are the next wave (`Course`). What a
run asks for and reports is then an induction on its course: every file is asked for once
(`Course.nodup_asked`), and those behind the first wave are the ones reported as discovered
(`Course.asked_eq`). A wave that can be read uses up a name of the source, so no run has more than
one wave beyond their number (`explore_ends`).
-/

namespace CoChange

namespace Event

/-- The number and the size of the wave that an event starts. -/
def wave? : Event → Option (Nat × Nat)
  | startedWave wave files => some (wave, files)
  | _ => none

/-- The link that an event reports as the first to name a file. -/
def discovery? : Event → Option Link
  | discoveredFile origin file => some ⟨origin, file⟩
  | _ => none

/-- The event that reports a link as the first to name a file. -/
def ofLink (link : Link) : Event := .discoveredFile link.origin link.file

theorem filterMap_wave?_ofLink (links : List Link) : (links.map ofLink).filterMap wave? = [] := by
  rw [List.filterMap_map]
  exact List.filterMap_eq_nil_iff.2 fun _ _ => rfl

theorem filterMap_discovery?_ofLink (links : List Link) :
    (links.map ofLink).filterMap discovery? = links := by
  rw [List.filterMap_map]
  exact List.filterMap_some

end Event

namespace Exploration

/-- The number and the size of each wave that a run reports. -/
def startedWaves (run : Exploration) : List (Nat × Nat) := run.events.filterMap Event.wave?

/-- The links along which a run reports files as discovered. -/
def discoveries (run : Exploration) : List Link := run.events.filterMap Event.discovery?

/-- The files that seeds name, each once. -/
def firstWave (seeds : List String) : List String := freshBy id [] (seeds.map Path.normalize)

/-- The links of a wave that are the first to name their files. -/
def newLinks (done parsed : Parsed) : List Link :=
  freshBy Link.file (done ++ parsed).files parsed.links

theorem freshBy_subset {α : Type} (name : α → String) (seen : List String) (items : List α) :
    freshBy name seen items ⊆ items := by
  induction items generalizing seen with
  | nil => exact List.Subset.refl _
  | cons item rest ih =>
    unfold freshBy
    split
    · exact List.subset_cons_of_subset item (ih seen)
    · exact List.cons_subset_cons item (ih _)

/-- A wave that cannot be read ends a run. -/
def stopped (pending : List String) (number : Nat) (fault : Fault) : Exploration :=
  ⟨pending, [.startedWave number pending.length], .error fault⟩

/-- A run that starts with a wave, finds some links in it and goes on. -/
def after (pending : List String) (number : Nat) (links : List Link) (behind : Exploration) :
    Exploration where
  asked := pending ++ behind.asked
  events := .startedWave number pending.length :: links.map Event.ofLink ++ behind.events
  outcome := behind.outcome

@[simp] theorem startedWaves_stopped (pending : List String) (number : Nat) (fault : Fault) :
    (stopped pending number fault).startedWaves = [(number, pending.length)] := rfl

@[simp] theorem discoveries_stopped (pending : List String) (number : Nat) (fault : Fault) :
    (stopped pending number fault).discoveries = [] := rfl

@[simp] theorem startedWaves_after (pending : List String) (number : Nat) (links : List Link)
    (behind : Exploration) :
    (after pending number links behind).startedWaves =
      (number, pending.length) :: behind.startedWaves := by
  unfold startedWaves after
  rw [List.filterMap_append, List.filterMap_cons, Event.filterMap_wave?_ofLink]
  rfl

@[simp] theorem discoveries_after (pending : List String) (number : Nat) (links : List Link)
    (behind : Exploration) :
    (after pending number links behind).discoveries = links ++ behind.discoveries := by
  unfold discoveries after
  rw [List.filterMap_append, List.filterMap_cons, Event.filterMap_discovery?_ofLink]
  rfl

variable (source : Source) (table : TemplateTable) (changes : Changes)

/-- The runs from a place between two waves on. -/
inductive Course : Parsed → List String → Nat → Exploration → Prop
  | finished {done : Parsed} {number : Nat} : Course done [] number ⟨[], [], .ok (.ofList done)⟩
  | failed {done : Parsed} {pending : List String} {number : Nat} {fault : Fault}
      (read : readWave source table changes pending = .error fault) :
      Course done pending number (stopped pending number fault)
  | wave {done parsed : Parsed} {pending : List String} {number : Nat} {behind : Exploration}
      (filled : pending ≠ []) (read : readWave source table changes pending = .ok parsed)
      (more : Course (done ++ parsed) ((newLinks done parsed).map Link.file) (number + 1) behind) :
      Course done pending number (after pending number (newLinks done parsed) behind)

/-- The outcome after at most `limit` further waves, if they are enough. -/
def outcomeWithin : Nat → Parsed → List String → Option (Except Fault RuleMap)
  | _, done, [] => some (.ok (.ofList done))
  | 0, _, _ :: _ => none
  | limit + 1, done, first :: rest =>
    match readWave source table changes (first :: rest) with
    | .error fault => some (.error fault)
    | .ok parsed =>
      outcomeWithin limit (done ++ parsed) ((newLinks done parsed).map Link.file)

variable {source table changes} {seeds : List String} {done : Parsed} {pending : List String}
  {number : Nat} {run : Exploration}

theorem mem_firstWave {file : String} :
    file ∈ firstWave seeds ↔ file ∈ seeds.map Path.normalize := by
  simpa [firstWave] using @mem_map_freshBy _ id [] (seeds.map Path.normalize) file

theorem course_waves {fresh : ∀ file ∈ pending, file ∉ done.files} :
    Course source table changes done pending number
      (waves source table changes done pending fresh number) := by
  fun_induction waves source table changes done pending fresh number with
  | case1 done => exact .finished
  | case2 done _ first rest _ _ fault failed => exact .failed failed
  | case3 done _ first rest _ _ parsed read _ _ _ ih =>
    exact .wave (List.cons_ne_nil first rest) read ih

theorem course_explore (source : Source) (table : TemplateTable) (changes : Changes)
    (seeds : List String) :
    Course source table changes [] (firstWave seeds) 1 (explore source table changes seeds) :=
  course_waves

theorem readWave_congr {origin : Source} {other : Changes}
    (same : ∀ file, source.rulesIn table (changes.spansOf file) file =
      origin.rulesIn table (other.spansOf file) file) (wave : List String) :
    readWave source table changes wave = readWave origin table other wave := by
  induction wave with
  | nil => rfl
  | cons first rest ih => rw [readWave, readWave, same first, ih]

namespace Course

theorem unique {origin : Source} {other : Changes} {run' : Exploration}
    (h : Course source table changes done pending number run)
    (h' : Course origin table other done pending number run')
    (same : ∀ wave, readWave source table changes wave = readWave origin table other wave) :
    run = run' := by
  induction h generalizing run' with
  | finished =>
    cases h' with
    | finished => rfl
    | failed read => cases read
    | wave filled => exact absurd rfl filled
  | failed read =>
    rw [same] at read
    cases h' with
    | finished => cases read
    | failed read' => rw [Except.error.inj (read.symm.trans read')]
    | wave _ read' => cases read.symm.trans read'
  | wave filled read more ih =>
    rw [same] at read
    cases h' with
    | finished => exact absurd rfl filled
    | failed read' => cases read.symm.trans read'
    | wave _ read' more' =>
      obtain rfl := Except.ok.inj (read.symm.trans read')
      rw [ih more']

/-! ## What a run asks for -/

theorem asked_eq (h : Course source table changes done pending number run) :
    run.asked = pending ++ run.discoveries.map Link.file := by
  induction h with
  | finished => rfl
  | @failed done pending number fault read =>
    rw [discoveries_stopped, List.map_nil, List.append_nil]
    rfl
  | @wave done parsed pending number behind filled read more ih =>
    rw [discoveries_after, List.map_append, ← ih]
    rfl

theorem nodup_asked (h : Course source table changes done pending number run)
    (frontier : Frontier source table changes seeds done pending) :
    (done.files ++ run.asked).Nodup := by
  induction h with
  | finished => exact frontier.once
  | failed read => exact frontier.once
  | @wave done parsed pending number behind filled read more ih =>
    have later := ih (frontier.wave read)
    rw [files_append, files_of_readWave_ok read, List.append_assoc] at later
    exact later

/-- The waves that a run reports hold what it asks for. -/
theorem sum_startedWaves (h : Course source table changes done pending number run) :
    (run.startedWaves.map (·.2)).sum = run.asked.length := by
  induction h with
  | finished => rfl
  | failed read => exact Nat.add_zero _
  | @wave done parsed pending number behind filled read more ih =>
    rw [startedWaves_after, List.map_cons, List.sum_cons, ih]
    exact List.length_append.symm

/-- A map holds the files that were read before and those that the run asked for. -/
theorem exists_parsed (h : Course source table changes done pending number run) {map : RuleMap}
    (ok : run.outcome = .ok map) :
    ∃ parsed : Parsed, map = .ofList parsed ∧ parsed.files = done.files ++ run.asked := by
  induction h with
  | @finished done number =>
    cases ok
    exact ⟨done, rfl, (List.append_nil _).symm⟩
  | failed => cases ok
  | @wave done parsed pending number behind filled read more ih =>
    obtain ⟨all, eq, files⟩ := ih ok
    rw [files_append, files_of_readWave_ok read, List.append_assoc] at files
    exact ⟨all, eq, files⟩

/-! ## How long a run is -/

/-- Each wave but one that fails uses up a name of the source. -/
theorem length_startedWaves_le (h : Course source table changes done pending number run)
    (fresh : ∀ file ∈ pending, file ∉ done.files) :
    run.startedWaves.length ≤ (unread source done).length + 1 ∧
      ∀ map, run.outcome = .ok map → run.startedWaves.length ≤ (unread source done).length := by
  induction h with
  | finished => exact ⟨Nat.zero_le _, fun _ _ => Nat.zero_le _⟩
  | failed read =>
    refine ⟨?_, fun map ok => nomatch ok⟩
    rw [startedWaves_stopped, List.length_singleton]
    exact Nat.le_add_left 1 _
  | @wave done parsed pending number behind filled read more ih =>
    obtain ⟨first, rest, rfl⟩ := List.exists_cons_of_ne_nil filled
    have known : first ∈ source.texts.names := by
      obtain ⟨rules, _, found, -, -⟩ := readWave_cons_ok read
      exact Source.mem_names_of_rulesIn_ok found
    have less : (unread source (done ++ parsed)).length < (unread source done).length := by
      refine length_unread_lt source known (fresh first List.mem_cons_self) ?_
      rw [files_of_readWave_ok read]
      exact List.mem_cons_self
    obtain ⟨within, withinOk⟩ := ih fun file mem => ((mem_map_freshBy Link.file).1 mem).2
    rw [startedWaves_after, List.length_cons]
    refine ⟨by omega, fun map ok => ?_⟩
    have := withinOk map ok
    omega

/-- Cutting a run off leaves its outcome if it has no more waves than the limit, and else none. -/
theorem outcomeWithin_eq (h : Course source table changes done pending number run) (limit : Nat) :
    outcomeWithin source table changes limit done pending =
      if run.startedWaves.length ≤ limit then some run.outcome else none := by
  induction h generalizing limit with
  | finished => cases limit <;> rfl
  | @failed done pending number fault read =>
    cases pending with
    | nil => cases read
    | cons first rest =>
      cases limit with
      | zero => rfl
      | succ limit =>
        rw [outcomeWithin, read]
        rfl
  | @wave done parsed pending number behind filled read more ih =>
    obtain ⟨first, rest, rfl⟩ := List.exists_cons_of_ne_nil filled
    rw [startedWaves_after, List.length_cons]
    cases limit with
    | zero => rfl
    | succ limit =>
      rw [outcomeWithin, read]
      exact (ih limit).trans (if_congr Nat.add_le_add_iff_right.symm rfl rfl)

end Course

/-! ## Whole runs -/

theorem nodup_asked_explore (source : Source) (table : TemplateTable) (changes : Changes)
    (seeds : List String) : (explore source table changes seeds).asked.Nodup :=
  (course_explore source table changes seeds).nodup_asked (Frontier.start seeds)

theorem sum_startedWaves_explore {map : RuleMap}
    (ok : (explore source table changes seeds).outcome = .ok map) :
    ((explore source table changes seeds).startedWaves.map (·.2)).sum = map.size := by
  have course := course_explore source table changes seeds
  obtain ⟨parsed, rfl, files⟩ := course.exists_parsed ok
  replace files : parsed.files = (explore source table changes seeds).asked := files
  have once : parsed.files.Nodup := files ▸ nodup_asked_explore source table changes seeds
  rw [course.sum_startedWaves, Catalog.size_ofList once, ← files]
  exact List.length_map _

theorem count_discoveries {map : RuleMap}
    (ok : (explore source table changes seeds).outcome = .ok map) (file : String) :
    ((explore source table changes seeds).discoveries.map Link.file).count file =
      if file ∈ map.names ∧ file ∉ seeds.map Path.normalize then 1 else 0 := by
  have course := course_explore source table changes seeds
  obtain ⟨parsed, rfl, files⟩ := course.exists_parsed ok
  replace files : parsed.files = (explore source table changes seeds).asked := files
  have once := nodup_asked_explore source table changes seeds
  rw [course.asked_eq] at files once
  obtain ⟨-, onceFound, apart⟩ := List.nodup_append.1 once
  have known : file ∈ (Catalog.ofList parsed).names ↔ file ∈ seeds.map Path.normalize ∨
      file ∈ (explore source table changes seeds).discoveries.map Link.file := by
    rw [Catalog.mem_names_ofList, ← mem_firstWave, ← List.mem_append, ← files]
    rfl
  rw [onceFound.count]
  refine if_congr ⟨fun found => ?_, fun ⟨inMap, noSeed⟩ => ?_⟩ rfl rfl
  · exact ⟨known.2 (.inr found), fun seed => apart file (mem_firstWave.2 seed) file found rfl⟩
  · exact (known.1 inMap).resolve_left noSeed

/-- Sources and changes that give every file the same rules, or the same fault, give the same
run. -/
theorem explore_congr {origin : Source} {other : Changes}
    (same : ∀ file, source.rulesIn table (changes.spansOf file) file =
      origin.rulesIn table (other.spansOf file) file) (seeds : List String) :
    explore source table changes seeds = explore origin table other seeds :=
  (course_explore source table changes seeds).unique (course_explore origin table other seeds)
    (readWave_congr same)

/-- **End of a run.** An exploration of a source has at most one wave more than the source has
texts, and at most as many if it succeeds: cut off after so many waves, it has reached its outcome
already. -/
theorem explore_ends (source : Source) (table : TemplateTable) (changes : Changes)
    (seeds : List String) :
    let run := explore source table changes seeds
    let within := fun limit => outcomeWithin source table changes limit [] (firstWave seeds)
    (run.startedWaves.length ≤ source.texts.size + 1 ∧
      within (source.texts.size + 1) = some run.outcome) ∧
    ∀ map, run.outcome = .ok map →
      run.startedWaves.length ≤ source.texts.size ∧ within source.texts.size = some (.ok map) := by
  intro run within
  have course : Course source table changes [] (firstWave seeds) 1 run := course_explore ..
  have all : (unread source []).length = source.texts.size := by
    have names : unread source [] = source.texts.names :=
      List.filter_eq_self.2 fun name _ => by simp [Parsed.files]
    rw [names]
    exact List.length_map _
  obtain ⟨bound, boundOk⟩ := course.length_startedWaves_le fun _ _ => List.not_mem_nil
  rw [all] at bound boundOk
  refine ⟨⟨bound, ?_⟩, fun map ok => ⟨boundOk map ok, ?_⟩⟩
  · exact (course.outcomeWithin_eq _).trans (if_pos bound)
  · rw [← ok]
    exact (course.outcomeWithin_eq _).trans (if_pos (boundOk map ok))

end Exploration

end CoChange
