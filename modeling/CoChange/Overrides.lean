import CoChange.Json.Reader
import CoChange.Json.Value
import CoChange.Template.Table

/-!
# Overrides

Overrides give extensions more templates. They are written as a JSON record that has a list of
templates under each extension; of an extension given twice the last list counts.
-/

namespace CoChange

/-- The texts of further templates, by extension. -/
abbrev Overrides := Catalog (List String)

namespace Overrides

/-- The overrides that a JSON text writes. -/
def read (text : String) : Except Fault Overrides :=
  match (Json.Reader.map (Json.Reader.list Json.Reader.string)).run text.toList with
  | .ok members => .ok (.ofList members)
  | .error fault => .error (.badOverrides fault)

/-- The overrides that the file `path` writes. -/
def readFile (path text : String) : Except Fault Overrides :=
  match (Json.Reader.map (Json.Reader.list Json.Reader.string)).run text.toList with
  | .ok members => .ok (.ofList members)
  | .error fault => .error (.badOverridesFile path fault)

def toJson (overrides : Overrides) : Json :=
  .record (overrides.entries.map fun (extension, templates) => (extension, .strings templates))

def registerAll (extension : String) : List String → TemplateTable → Except Fault TemplateTable
  | [], table => .ok table
  | text :: rest, table => do
    let table ← table.register extension text
    registerAll extension rest table

def registerEntries :
    List (String × List String) → TemplateTable → Except Fault TemplateTable
  | [], table => .ok table
  | (extension, texts) :: rest, table => do
    let table ← registerAll extension texts table
    registerEntries rest table

/-- Registers all overrides in a table, by extension. -/
def apply (overrides : Overrides) (table : TemplateTable) : Except Fault TemplateTable :=
  registerEntries overrides.entries table

end Overrides

end CoChange
