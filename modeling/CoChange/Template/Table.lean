import CoChange.Catalog
import CoChange.Path
import CoChange.Template

/-!
# Template tables

A table says which templates count in which files. It lists all its templates, each once, in the
order of first mention, and refers to them by their places in this list: every extension has the
places of its own templates, in the order in which they were registered, and an extension without
any may fall back on one default template.
-/

namespace CoChange

structure TemplateTable where
  all : List Template
  /-- The places of the templates of each extension. -/
  byExtension : Catalog (List Nat)
  /-- The place of the template for extensions without templates. -/
  fallback : Option Nat
deriving Inhabited

namespace TemplateTable

def empty : TemplateTable := ⟨[], .empty, none⟩

/-! ## Registration -/

/-- A list with an item at its end, unless it has the item already. -/
def addOnce {α : Type} [DecidableEq α] (items : List α) (item : α) : List α :=
  if item ∈ items then items else items ++ [item]

theorem mem_addOnce {α : Type} [DecidableEq α] {items : List α} {item x : α} :
    x ∈ addOnce items item ↔ x ∈ items ∨ x = item := by
  unfold addOnce
  split
  · exact ⟨.inl, fun h => h.elim id (· ▸ ‹_›)⟩
  · simp

theorem nodup_addOnce {α : Type} [DecidableEq α] {items : List α} (h : items.Nodup) (item : α) :
    (addOnce items item).Nodup := by
  unfold addOnce
  split
  · exact h
  · next absent =>
    refine List.nodup_append.2 ⟨h, by simp, fun a ha b hb => ?_⟩
    simp only [List.mem_singleton] at hb
    exact fun eq => absent (hb ▸ eq ▸ ha)

/-- An extension without its leading dots. -/
def bareExtension (extension : String) : String :=
  String.ofList (extension.toList.dropWhile (· == '.'))

/-- The place of the template that a text writes, in a table that lists it. -/
def intern (table : TemplateTable) (text : String) : Except Fault (Nat × TemplateTable) :=
  match table.all.findIdx? (·.source == text) with
  | some place => .ok (place, table)
  | none =>
    (Template.read text).map fun template =>
      (table.all.length, { table with all := table.all ++ [template] })

/-- Puts a place behind those of an extension, unless it is among them. -/
def refer (table : TemplateTable) (extension : String) (place : Nat) : TemplateTable :=
  { table with
    byExtension :=
      table.byExtension.update (bareExtension extension) fun known =>
        addOnce (known.getD []) place }

/-- Registers the template that a text writes for an extension, behind those that it has. -/
def register (table : TemplateTable) (extension text : String) : Except Fault TemplateTable :=
  (table.intern text).map fun (place, listing) => listing.refer extension place

/-- Makes the template that a text writes the one for extensions without templates. -/
def registerFallback (table : TemplateTable) (text : String) : Except Fault TemplateTable :=
  (table.intern text).map fun (place, listing) => { listing with fallback := some place }

/-! ## Look-up -/

def forExtension (table : TemplateTable) (extension : String) : List Template :=
  ((table.byExtension.get? extension).getD []).filterMap (table.all[·]?)

def default? (table : TemplateTable) : Option Template := table.fallback.bind (table.all[·]?)

/-- The templates that count in a file. -/
def forPath (table : TemplateTable) (path : String) : Except Fault (List Template) :=
  match Path.extension? path with
  | none => .error (.noTemplate path none)
  | some extension =>
    match table.forExtension extension with
    | [] =>
      match table.default? with
      | some template => .ok [template]
      | none => .error (.noTemplate path (some extension))
    | templates => .ok templates

/-! ## The built-in table -/

def hash : Template := ⟨"#LINT.", "", by decide⟩

def slashes : Template := ⟨"//LINT.", "", by decide⟩

def block : Template := ⟨"/*LINT.", "", by decide⟩

def markup : Template := ⟨"<!--LINT.", "", by decide⟩

def quote : Template := ⟨"'LINT.", "", by decide⟩

/-- The built-in templates, in the order that places refer to. -/
def builtInTemplates : List Template := [hash, slashes, block, markup, quote]

/-- The extensions that share each list of places of built-in templates. -/
def builtInExtensions : List (List String × List Nat) :=
  [(["py", "sh"], [0]),
   (["go", "java", "rs", "swift"], [1]),
   (["js", "jsx", "mjs", "ts", "tsx", "jsonc", "c", "cc", "cpp", "h", "hpp"], [1, 2]),
   (["svelte"], [1, 2, 3]),
   (["css"], [2]),
   (["html", "md", "markdown"], [3]),
   (["bas"], [4])]

/-- The table with the comments of common languages. -/
def builtIn : TemplateTable where
  all := builtInTemplates
  byExtension :=
    .ofList (builtInExtensions.flatMap fun (extensions, places) =>
      extensions.map fun extension => (extension, places))
  fallback := none

end TemplateTable

end CoChange
