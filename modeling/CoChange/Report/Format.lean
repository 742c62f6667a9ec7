import CoChange.Report.Json
import CoChange.Report.Text

/-!
# Report formats
-/

namespace CoChange

inductive Format where
  | text
  | json
  | prettyJson
deriving DecidableEq, Repr

def Format.name : Format → String
  | text => "text"
  | json => "json"
  | prettyJson => "json-pretty"

def Format.ofName? (name : String) : Option Format :=
  [text, json, prettyJson].find? fun format => format.name == name

/-- A report in a format. Only text has colours. -/
def Report.render (report : Report) (format : Format) (colored : Bool) : String :=
  match format with
  | .text => report.text colored
  | .json => report.toJson.text .compact
  | .prettyJson => report.toJson.text .pretty

end CoChange
