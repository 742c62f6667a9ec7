import CoChange.Fault

/-!
# Path filters

A filter admits a path that matches one of the globs to be included, or any path if there are
none, unless it matches one of the globs to be excluded.
-/

namespace CoChange

structure PathFilter where
  included : List Glob
  excluded : List Glob

namespace PathFilter

/-- The filter that admits every path. -/
def all : PathFilter := ⟨[], []⟩

/-- The globs that patterns write. The first bad pattern counts. -/
def readEach : List String → Except Fault (List Glob)
  | [] => .ok []
  | pattern :: rest =>
    match Glob.read pattern with
    | .error flaw => .error (.badGlob pattern flaw)
    | .ok glob => (readEach rest).map (glob :: ·)

/-- The globs that patterns write, none of which may nest too deeply. -/
def readGlobs (patterns : List String) : Except Fault (List Glob) := do
  let globs ← readEach patterns
  match Glob.excess? globs with
  | none => return globs
  | some excess => throw (.deepGlob patterns excess)

/-- The filter of two lists of patterns. -/
def read (included excluded : List String) : Except Fault PathFilter := do
  let included ← readGlobs included
  let excluded ← readGlobs excluded
  return ⟨included, excluded⟩

def admits (filter : PathFilter) (path : String) : Bool :=
  (filter.included.isEmpty || filter.included.any (·.holds path)) &&
    !filter.excluded.any (·.holds path)

@[simp] theorem admits_all (path : String) : all.admits path = true := rfl

end PathFilter

end CoChange
