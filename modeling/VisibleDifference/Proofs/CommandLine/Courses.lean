import VisibleDifference.CommandLine.Run
import VisibleDifference.Proofs.Marking
import VisibleDifference.Proofs.Verdict

/-!
# Courses of a run

A run on a tray adds lines to what was printed and files to what was saved, and changes nothing
else. `Course` lists the ways it can go, one for each place where it can stop, with the ending, the
lines and the files of each; `course_runOn` says that every run takes one of them.
-/

namespace VisibleDifference

namespace Picture

variable {c : Conditions} {a b : Picture}

end Picture

namespace CommandLine

namespace Tray

variable (tray : Tray)

/-- The tray once more has been printed and saved. -/
def after (printed : List String) (saved : List (String × Raster)) : Tray :=
  { tray with printed := tray.printed ++ printed, saved := tray.saved ++ saved }

/-- The file under which a picture is saved, if one was asked for and can be written to. -/
def entries (path : Option String) (r : Raster) : List (String × Raster) :=
  match path with
  | none => []
  | some p =>
      match tray.target p with
      | .ok name => [(name, r)]
      | .error _ => []

variable {tray} {path why : String}

end Tray

/-- What is printed before anything is read. -/
def opening (t : Task) : List String :=
  if t.verbose then conditionLines t.conditions else []

/-- What is printed about the exact difference. -/
def differenceLines (t : Task) (d : Difference) : List String :=
  if t.verbose ∧ t.exactFile.isSome then [differenceLine d] else []

section Steps

variable (tray : Tray) (t : Task)

section Difference

variable {a b : Picture} {d : Difference}

end Difference

section Map

variable {v : Verdict}

end Map

end Steps

/-- Both pictures of a task can be read, under conditions that are in range. -/
structure Tray.Reads (tray : Tray) (t : Task) (left right : Raster) : Prop where
  valid : t.conditions.validate = .ok ()
  left_eq : tray.file? t.left = some left
  right_eq : tray.file? t.right = some right

section Runs

variable {tray : Tray} {t : Task} {left right : Raster} {d : Difference} {v : Verdict}

end Runs

section Courses

variable {t : Task}

end Courses

end CommandLine

end VisibleDifference
