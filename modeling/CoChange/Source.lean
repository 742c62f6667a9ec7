import CoChange.Catalog
import CoChange.Event
import CoChange.Hunk
import CoChange.Rule.Reader
import CoChange.Template.Table

/-!
# Sources

A source holds finitely many texts under names, and for every other name the reason why it has no
text. The rules of a file are those that its directives make, found with the templates for its
name.
-/

namespace CoChange

structure Source where
  texts : Catalog String
  failure : String → Fault

namespace Source

/-- A source of given texts under the normal forms of their paths. -/
def ofTexts (texts : List (String × String)) : Source where
  texts := .ofList (texts.map fun (path, text) => (Path.normalize path, text))
  failure path := .unreadableFile path .unknownName

def read (source : Source) (name : String) : Except Fault String :=
  match source.texts.get? name with
  | some text => .ok text
  | none => .error (source.failure name)

theorem mem_names_of_read_ok {source : Source} {name text : String}
    (h : source.read name = .ok text) : name ∈ source.texts.names := by
  unfold read at h
  split at h
  · next found =>
    obtain ⟨before, after, eq, -⟩ := List.lookup_eq_some_iff.1 found
    simp [Catalog.names, eq]
  · cases h

/-- The rules of a file with the given changed spans. -/
def rulesIn (source : Source) (table : TemplateTable) (changed : List Span) (file : String) :
    Except Fault (List Rule) := do
  let templates ← table.forPath file
  let text ← source.read file
  let directives ← Directive.scan file templates text
  Rule.ofDirectives file changed directives

theorem mem_names_of_rulesIn_ok {source : Source} {table : TemplateTable} {changed : List Span}
    {file : String} {rules : List Rule} (h : source.rulesIn table changed file = .ok rules) :
    file ∈ source.texts.names := by
  unfold rulesIn at h
  cases templates : table.forPath file with
  | error fault => rw [templates] at h; cases h
  | ok found =>
    cases text : source.read file with
    | error fault => rw [templates, text] at h; cases h
    | ok text' => exact mem_names_of_read_ok text

/-- The event that tells of the rules of a file that is read on its own. An exploration reads the
files of a wave side by side, so the order of these events is open and it reports none of them. -/
def parsedEvent (file : String) (rules : List Rule) : Event :=
  .parsedRules file rules.length (rules.countP (·.present))

end Source

end CoChange
