import CoChange.Exploration
import CoChange.Proofs.Catalog
import CoChange.Proofs.Rule.Origin
import CoChange.Proofs.Source.Rules

/-!
# What an exploration reads

The files that seeds lead to are the seeds themselves and every file that a target in one of them
names (`Reachable`). An exploration keeps a frontier: what it has read and what it is about to read
are reachable files, each once, and no target leads out of them (`Frontier`). A wave keeps it
(`Frontier.wave`), and when no wave is left the files read are all that can be reached. So an
exploration succeeds exactly when every reachable file has rules to read, and then holds the rules
of exactly these files (`explore_eq_ok_iff`).
-/

namespace CoChange

theorem Rule.mem_namedFiles {rule : Rule} {name : String} :
    name ∈ rule.namedFiles ↔
      ∃ target ∈ rule.targets, target.file.isSome ∧ target.fileKey rule.file = name := by
  simp only [Rule.namedFiles, List.mem_filterMap, Option.map_eq_some_iff]
  constructor
  · rintro ⟨⟨file, id⟩, mem, spec, rfl, rfl⟩
    exact ⟨_, mem, rfl, rfl⟩
  · rintro ⟨⟨file, id⟩, mem, named, rfl⟩
    obtain ⟨spec, rfl⟩ := Option.isSome_iff_exists.1 named
    exact ⟨_, mem, spec, rfl, rfl⟩

namespace Exploration

variable (source : Source) (table : TemplateTable) (changes : Changes)

/-- The files that seeds lead to: the seeds in normal form, and each file that a target in a rule
of such a file names. -/
inductive Reachable (seeds : List String) : String → Prop
  | seed {name : String} (mem : name ∈ seeds) : Reachable seeds (Path.normalize name)
  | target {file : String} {rules : List Rule} {rule : Rule} {target : Target}
      (reached : Reachable seeds file)
      (read : source.rulesIn table (changes.spansOf file) file = .ok rules)
      (mem : rule ∈ rules) (listed : target ∈ rule.targets) (named : target.file.isSome) :
      Reachable seeds (target.fileKey file)

/-- A map with the rules of exactly the files that seeds lead to. -/
structure IsClosure (seeds : List String) (map : RuleMap) : Prop where
  readable : ∀ file, Reachable source table changes seeds file →
    ∃ rules, source.rulesIn table (changes.spansOf file) file = .ok rules
  get?_iff : ∀ file rules, map.get? file = some rules ↔
    Reachable source table changes seeds file ∧
      source.rulesIn table (changes.spansOf file) file = .ok rules

/-- Where an exploration stands between two waves. -/
structure Frontier (seeds : List String) (done : Parsed) (pending : List String) : Prop where
  reachable : ∀ file ∈ done.files ++ pending, Reachable source table changes seeds file
  read : ∀ file rules, (file, rules) ∈ done →
    source.rulesIn table (changes.spansOf file) file = .ok rules
  closed : ∀ link ∈ done.links, link.file ∈ done.files ++ pending
  seeded : ∀ name ∈ seeds, Path.normalize name ∈ done.files ++ pending
  once : (done.files ++ pending).Nodup

variable {source table changes} {seeds : List String}

theorem Reachable.normalize_eq {file : String} (h : Reachable source table changes seeds file) :
    Path.normalize file = file := by
  cases h with
  | seed => simp
  | target => simp

theorem Reachable.of_seeds {others : List String}
    (same : ∀ name ∈ seeds, Path.normalize name ∈ others.map Path.normalize) {file : String}
    (h : Reachable source table changes seeds file) :
    Reachable source table changes others file := by
  induction h with
  | seed mem =>
    obtain ⟨other, hother, eq⟩ := List.mem_map.1 (same _ mem)
    exact eq ▸ .seed hother
  | target _ read mem listed named ih => exact .target ih read mem listed named

/-! ## Waves and their links -/

theorem mem_links {parsed : Parsed} {link : Link} :
    link ∈ parsed.links ↔
      ∃ rules, (link.origin, rules) ∈ parsed ∧ ∃ rule ∈ rules, link.file ∈ rule.namedFiles := by
  obtain ⟨origin, file⟩ := link
  simp only [Parsed.links, List.mem_flatMap, List.mem_map]
  constructor
  · rintro ⟨⟨origin', rules⟩, mem, named, ⟨rule, hrule, hnamed⟩, eq⟩
    cases eq
    exact ⟨rules, mem, rule, hrule, hnamed⟩
  · rintro ⟨rules, mem, rule, hrule, hnamed⟩
    exact ⟨(origin, rules), mem, file, ⟨rule, hrule, hnamed⟩, rfl⟩

@[simp] theorem files_append (done parsed : Parsed) :
    (done ++ parsed).files = done.files ++ parsed.files := by
  simp [Parsed.files]

theorem links_append (done parsed : Parsed) :
    (done ++ parsed).links = done.links ++ parsed.links := by
  simp [Parsed.links]

theorem mem_files {parsed : Parsed} {file : String} :
    file ∈ parsed.files ↔ ∃ rules, (file, rules) ∈ parsed := by
  simp [Parsed.files]

theorem rulesIn_of_readWave {wave : List String} {parsed : Parsed}
    (h : readWave source table changes wave = .ok parsed) {file : String} {rules : List Rule}
    (mem : (file, rules) ∈ parsed) :
    source.rulesIn table (changes.spansOf file) file = .ok rules := by
  induction wave generalizing parsed with
  | nil => cases h; cases mem
  | cons first rest ih =>
    obtain ⟨found, more, hfound, hmore, rfl⟩ := readWave_cons_ok h
    rcases List.mem_cons.1 mem with eq | mem
    · cases eq
      exact hfound
    · exact ih hmore mem

theorem exists_error_of_readWave {wave : List String} {fault : Fault}
    (h : readWave source table changes wave = .error fault) :
    ∃ file ∈ wave, source.rulesIn table (changes.spansOf file) file = .error fault := by
  induction wave with
  | nil => cases h
  | cons first rest ih =>
    unfold readWave at h
    cases rules : source.rulesIn table (changes.spansOf first) first with
    | error cause =>
      rw [rules] at h
      cases h
      exact ⟨first, List.mem_cons_self, rules⟩
    | ok found =>
      rw [rules] at h
      cases more : readWave source table changes rest with
      | error cause =>
        rw [more] at h
        cases h
        obtain ⟨file, mem, failed⟩ := ih more
        exact ⟨file, List.mem_cons_of_mem _ mem, failed⟩
      | ok parsed =>
        rw [more] at h
        cases h

theorem Reachable.of_link {parsed : Parsed}
    (reached : ∀ file ∈ parsed.files, Reachable source table changes seeds file)
    (read : ∀ file rules, (file, rules) ∈ parsed →
      source.rulesIn table (changes.spansOf file) file = .ok rules)
    {link : Link} (mem : link ∈ parsed.links) :
    Reachable source table changes seeds link.file := by
  obtain ⟨rules, hread, rule, hrule, named⟩ := mem_links.1 mem
  obtain ⟨target, listed, some, eq⟩ := Rule.mem_namedFiles.1 named
  have rules_eq := read _ _ hread
  rw [Source.file_of_rulesIn rules_eq hrule] at eq
  rw [← eq]
  exact .target (reached _ (mem_files.2 ⟨rules, hread⟩)) rules_eq hrule listed some

/-! ## The frontier -/

namespace Frontier

/-- At the start the seeds are pending, each once. -/
theorem start (seeds : List String) :
    Frontier source table changes seeds [] (freshBy id [] (seeds.map Path.normalize)) := by
  have mem (name : String) : name ∈ freshBy id [] (seeds.map Path.normalize) ↔
      name ∈ seeds.map Path.normalize := by
    simpa using @mem_map_freshBy _ id [] (seeds.map Path.normalize) name
  refine ⟨fun file h => ?_, fun _ _ h => (nomatch h), fun _ h => (nomatch h), fun name h => ?_, ?_⟩
  · obtain ⟨name, hname, rfl⟩ := List.mem_map.1 ((mem file).1 h)
    exact .seed hname
  · exact (mem _).2 (List.mem_map_of_mem h)
  · simpa [Parsed.files] using nodup_map_freshBy id [] (seeds.map Path.normalize)

/-- A wave that can be read moves to the files read, and the files that its links name for the
first time become the next one. -/
theorem wave {done parsed : Parsed} {pending : List String}
    (h : Frontier source table changes seeds done pending)
    (read : readWave source table changes pending = .ok parsed) :
    Frontier source table changes seeds (done ++ parsed)
      ((freshBy Link.file (done ++ parsed).files parsed.links).map Link.file) := by
  have files : parsed.files = pending := files_of_readWave_ok read
  have old {name : String} (mem : name ∈ done.files ++ pending) :
      name ∈ (done ++ parsed).files := by rwa [files_append, files]
  have reached (file : String) (mem : file ∈ (done ++ parsed).files) :
      Reachable source table changes seeds file := by
    rw [files_append, files] at mem
    exact h.reachable file mem
  refine ⟨fun file mem => ?_, fun file rules mem => ?_, fun link mem => ?_, fun name mem => ?_, ?_⟩
  · rcases List.mem_append.1 mem with mem | mem
    · exact reached file mem
    · obtain ⟨link, hlink, rfl⟩ := List.mem_map.1 ((mem_map_freshBy _).1 mem).1
      refine Reachable.of_link (fun file mem => reached file ?_)
        (fun _ _ => rulesIn_of_readWave read) hlink
      rw [files_append]
      exact List.mem_append_right _ mem
  · rcases List.mem_append.1 mem with mem | mem
    · exact h.read file rules mem
    · exact rulesIn_of_readWave read mem
  · -- A link of an earlier wave leads to what was known then, so a new name comes from this wave.
    by_cases seen : link.file ∈ (done ++ parsed).files
    · exact List.mem_append_left _ seen
    · rw [links_append] at mem
      rcases List.mem_append.1 mem with mem | mem
      · exact absurd (old (h.closed link mem)) seen
      · refine List.mem_append_right _ ((mem_map_freshBy _).2 ⟨?_, seen⟩)
        exact List.mem_map_of_mem mem
  · exact List.mem_append_left _ (old (h.seeded name mem))
  · refine List.nodup_append.2 ⟨?_, nodup_map_freshBy _ _ _, ?_⟩
    · rw [files_append, files]
      exact h.once
    · rintro a ha b hb rfl
      exact ((mem_map_freshBy _).1 hb).2 ha

theorem mem_files_of_reachable {done : Parsed} (h : Frontier source table changes seeds done [])
    {file : String} (reached : Reachable source table changes seeds file) : file ∈ done.files := by
  have closed := h.closed
  have seeded := h.seeded
  rw [List.append_nil] at closed seeded
  induction reached with
  | seed mem => exact seeded _ mem
  | @target file rules rule target _ read mem listed named ih =>
    obtain ⟨rules', hread⟩ := mem_files.1 ih
    obtain rfl : rules' = rules := Except.ok.inj ((h.read _ _ hread).symm.trans read)
    refine closed ⟨file, target.fileKey file⟩ (mem_links.2 ⟨_, hread, rule, mem, ?_⟩)
    refine Rule.mem_namedFiles.2 ⟨target, listed, named, ?_⟩
    rw [Source.file_of_rulesIn read mem]

theorem isClosure {done : Parsed} (h : Frontier source table changes seeds done []) :
    IsClosure source table changes seeds (.ofList done) := by
  have once := h.once
  have reachable := h.reachable
  rw [List.append_nil] at once reachable
  refine ⟨fun file reached => ?_, fun file rules => ?_⟩
  · obtain ⟨rules, mem⟩ := mem_files.1 (h.mem_files_of_reachable reached)
    exact ⟨rules, h.read file rules mem⟩
  · rw [Catalog.get?_ofList once, ← Entries.mem_iff_lookup once]
    constructor
    · intro mem
      exact ⟨reachable file (mem_files.2 ⟨rules, mem⟩), h.read file rules mem⟩
    · rintro ⟨reached, read⟩
      obtain ⟨rules', mem⟩ := mem_files.1 (h.mem_files_of_reachable reached)
      obtain rfl := Except.ok.inj ((h.read file rules' mem).symm.trans read)
      exact mem

end Frontier

/-! ## Whole runs -/

/-- From a frontier on, a run ends with everything that can be reached, or with the fault of a
reachable file. -/
theorem waves_outcome {done : Parsed} {pending : List String}
    {fresh : ∀ file ∈ pending, file ∉ done.files} {number : Nat}
    (h : Frontier source table changes seeds done pending) :
    (∃ map, (waves source table changes done pending fresh number).outcome = .ok map ∧
      IsClosure source table changes seeds map) ∨
    ∃ fault file, (waves source table changes done pending fresh number).outcome = .error fault ∧
      Reachable source table changes seeds file ∧
        source.rulesIn table (changes.spansOf file) file = .error fault := by
  fun_induction waves source table changes done pending fresh number with
  | case1 done => exact .inl ⟨_, rfl, h.isClosure⟩
  | case2 done _ first rest _ _ fault failed =>
    obtain ⟨file, mem, cause⟩ := exists_error_of_readWave failed
    exact .inr ⟨fault, file, rfl, h.reachable file (List.mem_append_right _ mem), cause⟩
  | case3 done _ first rest _ _ parsed read _ _ _ ih => exact ih (h.wave read)

theorem IsClosure.unique {a b : RuleMap} (ha : IsClosure source table changes seeds a)
    (hb : IsClosure source table changes seeds b) : a = b := by
  refine Catalog.ext_get? fun file => Option.ext fun rules => ?_
  rw [ha.get?_iff, hb.get?_iff]

theorem explore_outcome (source : Source) (table : TemplateTable) (changes : Changes)
    (seeds : List String) :
    (∃ map, (explore source table changes seeds).outcome = .ok map ∧
      IsClosure source table changes seeds map) ∨
    ∃ fault file, (explore source table changes seeds).outcome = .error fault ∧
      Reachable source table changes seeds file ∧
        source.rulesIn table (changes.spansOf file) file = .error fault :=
  waves_outcome (Frontier.start seeds)

/-- An exploration succeeds with the map of everything that can be reached, and with no other. -/
theorem explore_eq_ok_iff {map : RuleMap} :
    (explore source table changes seeds).outcome = .ok map ↔
      IsClosure source table changes seeds map := by
  rcases explore_outcome source table changes seeds with
    ⟨found, eq, closure⟩ | ⟨fault, file, eq, reached, failed⟩
  · rw [eq]
    exact ⟨fun same => Except.ok.inj same ▸ closure, fun other => congrArg _ (closure.unique other)⟩
  · rw [eq]
    refine ⟨fun same => (nomatch same), fun closure => ?_⟩
    obtain ⟨rules, read⟩ := closure.readable file reached
    rw [failed] at read
    cases read

/-! ## What a closure holds -/

theorem isClosure_congr {others : List String} {map : RuleMap}
    (same : ∀ name, name ∈ seeds.map Path.normalize ↔ name ∈ others.map Path.normalize) :
    IsClosure source table changes seeds map ↔ IsClosure source table changes others map := by
  have reached (file : String) : Reachable source table changes seeds file ↔
      Reachable source table changes others file := by
    constructor
    · exact Reachable.of_seeds fun name mem => (same _).1 (List.mem_map_of_mem mem)
    · exact Reachable.of_seeds fun name mem => (same _).2 (List.mem_map_of_mem mem)
  constructor
  · intro h
    refine ⟨fun file hfile => h.readable file ((reached file).2 hfile), fun file rules => ?_⟩
    rw [h.get?_iff, reached]
  · intro h
    refine ⟨fun file hfile => h.readable file ((reached file).1 hfile), fun file rules => ?_⟩
    rw [h.get?_iff, reached]

namespace IsClosure

variable {map : RuleMap}

theorem mem_names_iff (h : IsClosure source table changes seeds map) {file : String} :
    file ∈ map.names ↔ Reachable source table changes seeds file := by
  rw [Catalog.mem_names_iff]
  constructor
  · rintro ⟨rules, found⟩
    exact ((h.get?_iff file rules).1 found).1
  · intro reached
    obtain ⟨rules, read⟩ := h.readable file reached
    exact ⟨rules, (h.get?_iff file rules).2 ⟨reached, read⟩⟩

theorem fileKey_mem_names (h : IsClosure source table changes seeds map) {file : String}
    {rules : List Rule} (found : map.get? file = some rules) {rule : Rule} (mem : rule ∈ rules)
    {target : Target} (listed : target ∈ rule.targets) :
    target.fileKey rule.file ∈ map.names := by
  obtain ⟨reached, read⟩ := (h.get?_iff file rules).1 found
  rw [h.mem_names_iff, Source.file_of_rulesIn read mem]
  by_cases named : target.file.isSome
  · exact .target reached read mem listed named
  · -- Without a file part the target points into the file of its own rule.
    have own : target.fileKey file = Path.normalize file := by
      rw [Option.not_isSome_iff_eq_none] at named
      unfold Target.fileKey
      rw [named]
    rw [own, reached.normalize_eq]
    exact reached

end IsClosure

/-- **Closure.** An exploration succeeds exactly when every reachable file has rules to read. It
then holds the rules of exactly the reachable files, each under its normal form and with the spans
that changed in it, and every target points at one of these files. Neither the order of the seeds
nor how often or how they are written makes a difference. -/
theorem explore_closes (source : Source) (table : TemplateTable) (changes : Changes)
    (seeds : List String) :
    ((∃ map, (explore source table changes seeds).outcome = .ok map) ↔
      ∀ file, Reachable source table changes seeds file →
        ∃ rules, source.rulesIn table (changes.spansOf file) file = .ok rules) ∧
    (∀ map, (explore source table changes seeds).outcome = .ok map →
      (∀ file, file ∈ map.names ↔ Reachable source table changes seeds file) ∧
      (∀ file ∈ map.names, Path.normalize file = file) ∧
      ∀ file rules, map.get? file = some rules →
        source.rulesIn table (changes.spansOf file) file = .ok rules ∧
        ∀ rule ∈ rules, rule.file = file ∧
          ∀ target ∈ rule.targets, target.fileKey rule.file ∈ map.names) ∧
    ∀ others : List String,
      (∀ name, name ∈ seeds.map Path.normalize ↔ name ∈ others.map Path.normalize) →
        ∀ map, (explore source table changes seeds).outcome = .ok map ↔
          (explore source table changes others).outcome = .ok map := by
  refine ⟨⟨?_, ?_⟩, ?_, ?_⟩
  · rintro ⟨map, done⟩
    exact (explore_eq_ok_iff.1 done).readable
  · intro readable
    rcases explore_outcome source table changes seeds with ⟨map, done, -⟩ | failure
    · exact ⟨map, done⟩
    · obtain ⟨fault, file, -, reached, failed⟩ := failure
      obtain ⟨rules, read⟩ := readable file reached
      rw [failed] at read
      cases read
  · intro map done
    have closure := explore_eq_ok_iff.1 done
    refine ⟨fun file => closure.mem_names_iff, fun file mem => ?_, fun file rules found => ?_⟩
    · exact (closure.mem_names_iff.1 mem).normalize_eq
    · have read := ((closure.get?_iff file rules).1 found).2
      refine ⟨read, fun rule mem => ⟨Source.file_of_rulesIn read mem, fun target listed => ?_⟩⟩
      exact closure.fileKey_mem_names found mem listed
  · intro others same map
    rw [explore_eq_ok_iff, explore_eq_ok_iff, isClosure_congr same]

end Exploration

end CoChange
