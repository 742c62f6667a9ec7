import CoChange.Proofs.Directive.Held
import CoChange.Proofs.Template.Recognition

/-!
# Templates that lines can have

A template is registered as it is written, but looked for in trimmed lines. So a template with a
blank at one of its outer ends, or with a line feed in it, is taken into a table and then found on
no line (`Directive.scan_of_loose`), not even on one that is written with it. Every other template
is found where it is written (`Directive.scan_inscribe`).
-/

namespace CoChange

/-- A line with a keyword in the template's place, and a space before each argument. -/
def Template.inscribe (template : Template) (keyword : Keyword) (arguments : List String) :
    String :=
  template.opening ++ (keyword.text ++ String.join (arguments.map (" " ++ ·))) ++ template.closing

/-- Only a template without blanks at its outer ends has both ends on a line without any. -/
theorem Template.isTight_of_body? {template : Template} {line body : List Char}
    (tight : Text.IsTight line) (oneLine : '\n' ∉ line)
    (found : template.body? line = some body) : template.IsTight := by
  obtain rfl := Template.body?_eq_some_iff.1 found
  simp only [List.mem_append, not_or] at oneLine
  obtain ⟨⟨opening, -⟩, closing⟩ := oneLine
  refine ⟨fun c first => ?_, fun c last => ?_, opening, closing⟩
  · rw [List.append_assoc] at tight
    exact tight.starts c (List.mem_head?_append_of_mem_head? first)
  · exact tight.ends c (List.mem_getLast?_append_of_mem_getLast? last)

namespace Directive

variable {file : String} {templates : List Template} {template : Template} {keyword : Keyword}
  {arguments : List String}

/-- Templates with blanks at their outer ends are found on no line. -/
theorem scan_of_loose (loose : ∀ template ∈ templates, ¬ template.IsTight) (text : String) :
    scan file templates text = .ok [] := by
  have nothing : ∀ line ∈ Text.lines text.toList, body? templates line = none := by
    intro line mem
    have oneLine : '\n' ∉ Text.trim line :=
      fun feed => Text.oneLine_of_mem_lines mem (Text.mem_of_mem_trim feed)
    refine List.findSome?_eq_none_iff.2 fun template listed => ?_
    by_contra found
    obtain ⟨body, found⟩ := Option.ne_none_iff_exists'.1 found
    exact loose template listed (Template.isTight_of_body? (Text.isTight_trim line) oneLine found)
  unfold scan
  rw [ofLines_eq_ok_iff, List.map_nil]
  refine List.filterMap_eq_nil_iff.2 fun ⟨line, n⟩ mem => ?_
  dsimp only
  rw [nothing line (List.fst_mem_of_mem_zipIdx mem), Option.map_none]

theorem inscribed_inscribe (tight : template.IsTight) (keyword : Keyword)
    (arguments : List String) :
    Inscribed [template] keyword arguments (template.inscribe keyword arguments).toList := by
  have written : (template.inscribe keyword arguments).toList =
      [] ++ (template.opening.toList ++ (keyword.text.toList ++
        (arguments.map String.toList).flatMap (' ' :: ·)) ++ template.closing.toList) ++ [] := by
    simp [Template.inscribe, String.toList_join, List.flatMap_map]
  rw [written]
  have first : [template] = [] ++ template :: [] := rfl
  exact .intro first tight (by decide) (by decide) (Text.spread_spaced _ _)
    fun other mem => nomatch mem

theorem scan_inscribe (tight : template.IsTight)
    (each : ∀ argument ∈ arguments, Text.IsWord argument.toList) :
    scan file [template] (template.inscribe keyword arguments) = .ok [⟨keyword, arguments, 1⟩] := by
  have inscribed := inscribed_inscribe tight keyword arguments
  unfold scan
  rw [Text.lines_of_oneLine (inscribed.oneLine each), if_neg (inscribed.ne_nil each)]
  exact ofLines_cons_eq_ok_iff.2 ⟨_, _, inscribed.ofLine_eq each, rfl, rfl⟩

end Directive

open TemplateTable

/-- **A template is found where it is written, or nowhere.** Let a template be the only one that is
registered, and let a file have the extension for which it is. Without blanks at its outer ends
(and line feeds in it) the template is found on a line that is written with it, with the keyword
and the arguments of the line. Otherwise the template is registered all the same, and no file has
any directives. -/
theorem scan_inscribe_of_register {table : TemplateTable} {extension text path : String}
    (registered : TemplateTable.empty.register extension text = .ok table)
    (named : Path.extension? path = some (bareExtension extension)) :
    ∃ template : Template, template.source = text ∧ table.forPath path = .ok [template] ∧
      (template.IsTight → ∀ keyword arguments,
        (∀ argument ∈ arguments, Text.IsWord argument.toList) →
          Directive.scan path [template] (template.inscribe keyword arguments) =
            .ok [⟨keyword, arguments, 1⟩]) ∧
      (¬ template.IsTight → ∀ contents, Directive.scan path [template] contents = .ok []) := by
  obtain ⟨template, written, listed, -, -⟩ := forExtension_of_register isSound_empty registered
  have alone : table.forExtension (bareExtension extension) = [template] := listed
  refine ⟨template, written, ?_, fun tight keyword arguments each => ?_, fun loose => ?_⟩
  · rw [forPath_of_extension named, alone]
    rfl
  · exact Directive.scan_inscribe tight each
  · exact Directive.scan_of_loose (List.forall_mem_singleton.2 loose)

/-- A template with a second question mark, which is an ordinary character. -/
theorem scan_inscribe_of_register_marks :
    ∃ table, TemplateTable.empty.register ".md" "<!--?? -->" = .ok table ∧
      Path.extension? "a.md" = some (bareExtension ".md") ∧
      ∃ templates, table.forPath "a.md" = .ok templates ∧
        Directive.scan "a.md" templates "<!--IF b.md:x ?? -->" =
          .ok [⟨.ifWord, ["b.md:x", "?"], 1⟩] := by
  have succeeds : (TemplateTable.empty.register ".md" "<!--?? -->").toOption.isSome = true := by
    decide +kernel
  obtain ⟨table, registered⟩ := Option.isSome_iff_exists.1 succeeds
  replace registered := Outcome.eq_ok_of_toOption registered
  have named : Path.extension? "a.md" = some (bareExtension ".md") := by decide +kernel
  obtain ⟨template, written, found, live, -⟩ := scan_inscribe_of_register registered named
  let marked : Template := ⟨"<!--", "? -->", by decide⟩
  obtain rfl : template = marked := Template.source_injective written
  have line : marked.inscribe .ifWord ["b.md:x", "?"] = "<!--IF b.md:x ?? -->" := by decide +kernel
  have scanned := live (by decide) .ifWord ["b.md:x", "?"] (by decide)
  rw [line] at scanned
  exact ⟨table, registered, named, _, found, scanned⟩

/-- A template with a space in front is registered, and not found on the line that it makes. -/
theorem scan_indented_template :
    let indented : Template := ⟨" #LINT.", "", by decide⟩
    (TemplateTable.empty.register "py" indented.source).toOption.map (·.forPath "a.py") =
        some (.ok [indented]) ∧
      indented.inscribe .ifWord ["b"] = " #LINT.IF b" ∧
      Directive.scan "a.py" [indented] " #LINT.IF b" = .ok [] := by
  decide +kernel

end CoChange
