import CoChange.Proofs.Exploration.Course
import CoChange.Proofs.Exploration.Seeds

/-!
# Distances from the seeds

The distance of a file is the least number of links that lead to it from a seed (`IsDistance`).
Before each wave of an exploration the files read are those nearer than some distance, and the
pending ones are those at it (`Layer`). A wave that can be read brings this to the next distance
(`Layer.wave`). So the waves of a run are the files at distance 0, 1, 2 and so on, every link that a
run reports leads one step away from the seeds, and a run that fails does so at the least distance
of a file that cannot be read (`explore_by_distance`).
-/

namespace CoChange.Exploration

variable (source : Source) (table : TemplateTable) (changes : Changes)

/-- So many links in a row lead to a file from a seed. -/
inductive Steps (seeds : List String) : Nat → String → Prop
  | seed {name : String} (mem : name ∈ seeds) : Steps seeds 0 (Path.normalize name)
  | link {n : Nat} {file other : String} (chain : Steps seeds n file)
      (leads : Leads source table changes file other) : Steps seeds (n + 1) other

/-- The least number of links that lead to a file from a seed. -/
def IsDistance (seeds : List String) (n : Nat) (file : String) : Prop :=
  Steps source table changes seeds n file ∧ ∀ m < n, ¬ Steps source table changes seeds m file

/-- Between two waves the files nearer than some distance were read, and those at it are next. -/
structure Layer (seeds : List String) (n : Nat) (done : Parsed) (pending : List String) :
    Prop where
  nearer : ∀ file, file ∈ done.files ↔ ∃ m < n, Steps source table changes seeds m file
  next : ∀ file, file ∈ pending ↔ IsDistance source table changes seeds n file

/-- The files at each distance from some distance on, as far as the list goes. -/
def AreLayers (seeds : List String) (n : Nat) (layers : List (List String)) : Prop :=
  ∀ layer m, (layer, m) ∈ layers.zipIdx n →
    layer.Nodup ∧ ∀ file, file ∈ layer ↔ IsDistance source table changes seeds m file

variable {source table changes} {seeds : List String} {n number : Nat} {file : String}
  {done parsed : Parsed} {pending : List String} {run : Exploration}

/-! ## Distances -/

theorem Steps.exists_distance (h : Steps source table changes seeds n file) :
    ∃ m, IsDistance source table changes seeds m file := by
  classical
  have some : ∃ m, Steps source table changes seeds m file := ⟨n, h⟩
  exact ⟨Nat.find some, Nat.find_spec some, fun m less => Nat.find_min some less⟩

theorem Steps.reachable (h : Steps source table changes seeds n file) :
    Reachable source table changes seeds file := by
  induction h with
  | seed mem => exact .seed mem
  | link _ leads ih =>
    obtain ⟨rules, read, rule, mem, target, listed, named, rfl⟩ := leads
    exact .target ih read mem listed named

theorem reachable_iff_exists_distance :
    Reachable source table changes seeds file ↔
      ∃ n, IsDistance source table changes seeds n file := by
  constructor
  · intro reached
    have chain : ∃ n, Steps source table changes seeds n file := by
      induction reached with
      | seed mem => exact ⟨0, .seed mem⟩
      | target _ read mem listed named ih =>
        obtain ⟨n, chain⟩ := ih
        exact ⟨n + 1, chain.link ⟨_, read, _, mem, _, listed, named, rfl⟩⟩
    obtain ⟨n, chain⟩ := chain
    exact chain.exists_distance
  · rintro ⟨n, chain, -⟩
    exact chain.reachable

theorem isDistance_zero_iff :
    IsDistance source table changes seeds 0 file ↔ file ∈ seeds.map Path.normalize := by
  constructor
  · rintro ⟨chain, -⟩
    cases chain with
    | seed mem => exact List.mem_map_of_mem mem
  · intro mem
    obtain ⟨name, hname, rfl⟩ := List.mem_map.1 mem
    exact ⟨.seed hname, fun m less => absurd less (Nat.not_lt_zero m)⟩

/-! ## Layers -/

theorem mem_links_iff (read : readWave source table changes pending = .ok parsed) {link : Link} :
    link ∈ parsed.links ↔
      link.origin ∈ pending ∧ Leads source table changes link.origin link.file := by
  have files : parsed.files = pending := files_of_readWave_ok read
  rw [mem_links]
  constructor
  · rintro ⟨rules, mem, rule, hrule, named⟩
    have found := rulesIn_of_readWave read mem
    obtain ⟨target, listed, some, eq⟩ := Rule.mem_namedFiles.1 named
    rw [Source.file_of_rulesIn found hrule] at eq
    exact ⟨files ▸ mem_files.2 ⟨rules, mem⟩, rules, found, rule, hrule, target, listed, some, eq⟩
  · rintro ⟨inWave, rules, found, rule, hrule, target, listed, some, eq⟩
    obtain ⟨rules', mem⟩ := mem_files.1 (files.symm ▸ inWave)
    obtain rfl := Except.ok.inj ((rulesIn_of_readWave read mem).symm.trans found)
    refine ⟨rules', mem, rule, hrule, Rule.mem_namedFiles.2 ⟨target, listed, some, ?_⟩⟩
    rw [Source.file_of_rulesIn found hrule]
    exact eq

namespace Layer

theorem start (seeds : List String) :
    Layer source table changes seeds 0 [] (firstWave seeds) := by
  refine ⟨fun file => ?_, fun file => ?_⟩
  · simp [Parsed.files]
  · rw [mem_firstWave, isDistance_zero_iff]

theorem nearer_wave (h : Layer source table changes seeds n done pending)
    (read : readWave source table changes pending = .ok parsed) (file : String) :
    file ∈ (done ++ parsed).files ↔ ∃ m < n + 1, Steps source table changes seeds m file := by
  rw [files_append, files_of_readWave_ok read, List.mem_append, h.nearer, h.next]
  constructor
  · rintro (⟨m, less, chain⟩ | ⟨chain, -⟩)
    · exact ⟨m, Nat.lt_succ_of_lt less, chain⟩
    · exact ⟨n, Nat.lt_succ_self n, chain⟩
  · rintro ⟨m, less, chain⟩
    by_cases near : ∃ m < n, Steps source table changes seeds m file
    · exact .inl near
    · have here : m = n := by
        refine Nat.le_antisymm (Nat.le_of_lt_succ less) (Nat.le_of_not_lt fun lower => ?_)
        exact near ⟨m, lower, chain⟩
      subst here
      exact .inr ⟨chain, fun k lower closer => near ⟨k, lower, closer⟩⟩

/-- A file that was not read is one step further away when a file of the wave leads to it. -/
theorem steps_succ_iff (h : Layer source table changes seeds n done pending)
    (far : ¬ ∃ m < n + 1, Steps source table changes seeds m file) :
    Steps source table changes seeds (n + 1) file ↔
      ∃ origin ∈ pending, Leads source table changes origin file := by
  constructor
  · intro chain
    cases chain with
    | @link _ origin _ chain leads =>
      -- An origin nearer than the wave would bring the file within its distance.
      have first : ∀ m < n, ¬ Steps source table changes seeds m origin :=
        fun m less closer => far ⟨m + 1, Nat.succ_lt_succ less, closer.link leads⟩
      exact ⟨origin, (h.next origin).2 ⟨chain, first⟩, leads⟩
  · rintro ⟨origin, mem, leads⟩
    exact ((h.next origin).1 mem).1.link leads

/-- A wave that can be read brings the layer to the next distance. -/
theorem wave (h : Layer source table changes seeds n done pending)
    (read : readWave source table changes pending = .ok parsed) :
    Layer source table changes seeds (n + 1) (done ++ parsed)
      ((newLinks done parsed).map Link.file) := by
  refine ⟨h.nearer_wave read, fun file => ?_⟩
  rw [newLinks, mem_map_freshBy, h.nearer_wave read]
  constructor
  · rintro ⟨named, far⟩
    obtain ⟨link, hlink, rfl⟩ := List.mem_map.1 named
    obtain ⟨inWave, leads⟩ := (mem_links_iff read).1 hlink
    have chain := (h.steps_succ_iff far).2 ⟨_, inWave, leads⟩
    exact ⟨chain, fun m less closer => far ⟨m, less, closer⟩⟩
  · rintro ⟨chain, least⟩
    have far : ¬ ∃ m < n + 1, Steps source table changes seeds m file :=
      fun ⟨m, less, closer⟩ => least m less closer
    obtain ⟨origin, inWave, leads⟩ := (h.steps_succ_iff far).1 chain
    exact ⟨List.mem_map.2 ⟨⟨origin, file⟩, (mem_links_iff read).2 ⟨inWave, leads⟩, rfl⟩, far⟩

theorem leads_of_newLink (h : Layer source table changes seeds n done pending)
    (read : readWave source table changes pending = .ok parsed) {link : Link}
    (mem : link ∈ newLinks done parsed) :
    Leads source table changes link.origin link.file ∧
      IsDistance source table changes seeds n link.origin ∧
      IsDistance source table changes seeds (n + 1) link.file := by
  obtain ⟨inWave, leads⟩ := (mem_links_iff read).1 (freshBy_subset _ _ _ mem)
  exact ⟨leads, (h.next _).1 inWave, ((h.wave read).next _).1 (List.mem_map_of_mem mem)⟩

end Layer

/-! ## Waves by distance -/

theorem areLayers_nil : AreLayers source table changes seeds n [] := fun _ _ mem => nomatch mem

theorem areLayers_cons {layer : List String} {layers : List (List String)} :
    AreLayers source table changes seeds n (layer :: layers) ↔
      (layer.Nodup ∧ ∀ file, file ∈ layer ↔ IsDistance source table changes seeds n file) ∧
        AreLayers source table changes seeds (n + 1) layers := by
  unfold AreLayers
  rw [List.zipIdx_cons]
  constructor
  · intro all
    exact ⟨all _ _ List.mem_cons_self, fun layer m mem => all layer m (List.mem_cons_of_mem _ mem)⟩
  · rintro ⟨head, tail⟩ other m mem
    rcases List.mem_cons.1 mem with eq | mem
    · cases eq
      exact head
    · exact tail other m mem

/-- The waves that a run reports are layers. -/
theorem Course.exists_layers (h : Course source table changes done pending number run)
    (frontier : Frontier source table changes seeds done pending)
    (layer : Layer source table changes seeds n done pending) :
    ∃ layers, AreLayers source table changes seeds n layers ∧
      run.startedWaves = (layers.zipIdx number).map fun (layer, index) => (index, layer.length) := by
  induction h generalizing n with
  | finished => exact ⟨[], areLayers_nil, rfl⟩
  | @failed done pending number fault read =>
    have here := List.nodup_append.1 frontier.once
    exact ⟨[pending], areLayers_cons.2 ⟨⟨here.2.1, layer.next⟩, areLayers_nil⟩, rfl⟩
  | @wave done parsed pending number behind filled read more ih =>
    have here := List.nodup_append.1 frontier.once
    obtain ⟨layers, areLayers, waves⟩ := ih (frontier.wave read) (layer.wave read)
    refine ⟨pending :: layers, areLayers_cons.2 ⟨⟨here.2.1, layer.next⟩, areLayers⟩, ?_⟩
    rw [startedWaves_after, waves]
    rfl

theorem Course.leads_of_discovery (h : Course source table changes done pending number run)
    (layer : Layer source table changes seeds n done pending) {link : Link}
    (mem : link ∈ run.discoveries) :
    Leads source table changes link.origin link.file ∧
      ∃ m, IsDistance source table changes seeds m link.origin ∧
        IsDistance source table changes seeds (m + 1) link.file := by
  induction h generalizing n with
  | finished => cases mem
  | failed => cases mem
  | @wave done parsed pending number behind filled read more ih =>
    rw [discoveries_after] at mem
    rcases List.mem_append.1 mem with mem | mem
    · obtain ⟨leads, distances⟩ := layer.leads_of_newLink read mem
      exact ⟨leads, n, distances⟩
    · exact ih (layer.wave read) mem

/-- A run that fails does so at the least distance of a file that cannot be read. -/
theorem Course.exists_failure (h : Course source table changes done pending number run)
    (frontier : Frontier source table changes seeds done pending)
    (layer : Layer source table changes seeds n done pending) {fault : Fault}
    (failed : run.outcome = .error fault) :
    ∃ m file, n + run.startedWaves.length = m + 1 ∧
      IsDistance source table changes seeds m file ∧
      source.rulesIn table (changes.spansOf file) file = .error fault ∧
      ∀ k other cause, IsDistance source table changes seeds k other →
        source.rulesIn table (changes.spansOf other) other = .error cause → m ≤ k := by
  induction h generalizing n with
  | finished => cases failed
  | @failed done pending number fault' read =>
    cases failed
    obtain ⟨file, mem, cause⟩ := exists_error_of_readWave read
    refine ⟨n, file, rfl, (layer.next file).1 mem, cause, fun k other cause' distance error => ?_⟩
    -- Whatever is nearer than the wave was read, without a fault.
    refine Nat.le_of_not_lt fun nearer => ?_
    obtain ⟨rules, kept⟩ := mem_files.1 ((layer.nearer other).2 ⟨k, nearer, distance.1⟩)
    rw [frontier.read other rules kept] at error
    cases error
  | @wave done parsed pending number behind filled read more ih =>
    obtain ⟨m, file, waves, rest⟩ := ih (frontier.wave read) (layer.wave read) failed
    refine ⟨m, file, ?_, rest⟩
    rw [startedWaves_after, List.length_cons]
    omega

/-- **Breadth first.** The waves that an exploration reports are numbered from one and count the
files at distance 0, 1, 2 and so on. If it succeeds, the counts add up to the size of the map, and
of the files of the map those that are no seeds are reported as discovered, each once, along a link
from a file that is one step nearer. If it fails, the last wave is at the least distance of a file
that cannot be read, and the fault is that of such a file. -/
theorem explore_by_distance (source : Source) (table : TemplateTable) (changes : Changes)
    (seeds : List String) :
    let run := explore source table changes seeds
    (∀ file, Reachable source table changes seeds file ↔
      ∃ n, IsDistance source table changes seeds n file) ∧
    (∃ layers, AreLayers source table changes seeds 0 layers ∧
      run.startedWaves = layers.zipIdx.map fun (layer, n) => (n + 1, layer.length)) ∧
    (∀ map, run.outcome = .ok map →
      (run.startedWaves.map (·.2)).sum = map.size ∧
      (∀ file, (run.discoveries.map Link.file).count file =
        if file ∈ map.names ∧ file ∉ seeds.map Path.normalize then 1 else 0) ∧
      ∀ link ∈ run.discoveries, Leads source table changes link.origin link.file ∧
        ∃ n, IsDistance source table changes seeds n link.origin ∧
          IsDistance source table changes seeds (n + 1) link.file) ∧
    ∀ fault, run.outcome = .error fault →
      ∃ n file, run.startedWaves.length = n + 1 ∧
        IsDistance source table changes seeds n file ∧
        source.rulesIn table (changes.spansOf file) file = .error fault ∧
        ∀ m other cause, IsDistance source table changes seeds m other →
          source.rulesIn table (changes.spansOf other) other = .error cause → n ≤ m := by
  intro run
  have course : Course source table changes [] (firstWave seeds) 1 run := course_explore ..
  have frontier : Frontier source table changes seeds [] (firstWave seeds) := Frontier.start seeds
  have layer : Layer source table changes seeds 0 [] (firstWave seeds) := Layer.start seeds
  obtain ⟨layers, areLayers, waves⟩ := course.exists_layers frontier layer
  refine ⟨fun file => reachable_iff_exists_distance, ⟨layers, areLayers, ?_⟩, ?_, ?_⟩
  · rw [waves, List.zipIdx_succ, List.map_map]
    rfl
  · intro map ok
    exact ⟨sum_startedWaves_explore ok, count_discoveries ok,
      fun link mem => course.leads_of_discovery layer mem⟩
  · intro fault failed
    obtain ⟨n, file, length, rest⟩ := course.exists_failure frontier layer failed
    exact ⟨n, file, (Nat.zero_add _).symm.trans length, rest⟩

/-- Two files named by one are a wave, also when one of them names the other. -/
example :
    let source : Source := .ofTexts [("a.py", "#LINT.IF b.py ./c.py\n#LINT.END\n"),
      ("b.py", "#LINT.IF c.py a.py\n#LINT.END\n"), ("c.py", "")]
    let run := explore source .builtIn .empty ["./a.py", "a.py"]
    run.startedWaves = [(1, 1), (2, 2)] ∧
      run.discoveries = [⟨"a.py", "b.py"⟩, ⟨"a.py", "c.py"⟩] := by
  decide +kernel

end CoChange.Exploration
