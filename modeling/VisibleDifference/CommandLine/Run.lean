import VisibleDifference.CommandLine.Arguments
import VisibleDifference.CommandLine.FileName
import VisibleDifference.Comparison.Verdict
import VisibleDifference.Comparison.Difference
import VisibleDifference.Picture.Raster

/-!
# Running a task

A run prints lines, reads the two pictures and writes up to two more, and ends with a match, a
difference or a failure. It goes through a `Desk`, so that it means the same with files on disk as
with a `Tray`, which holds files, what was printed and what was written as a value.
-/

namespace VisibleDifference.CommandLine

/-- Where a run gets its pictures from and leaves its results. A failure comes with its reason. -/
structure Desk (m : Type → Type) where
  load : String → m (Except String Raster)
  save : String → Raster → m (Except String Unit)
  print : String → m Unit

inductive Ending where
  | alike
  | different
  | failed (message : String)
deriving DecidableEq, Repr

def Ending.exitCode : Ending → UInt32
  | .alike => 0
  | .different => 1
  | .failed _ => 2

/-- The conditions in effect, a line each. -/
def conditionLines (c : Conditions) : List String :=
  [s!"Field of view is {Decimal.text c.fieldOfView} degrees",
   s!"Threshold pixels is {c.threshold} pixels",
   s!"The gamma is {Decimal.text c.gamma}",
   s!"The display's luminance is {Decimal.text c.luminance} candela per meter squared"]

def verdictLines (v : Verdict) : List String :=
  if v.isIdentical then ["PASS: Images are binary identical"]
  else if v.isMatch then ["PASS: Images are perceptually indistinguishable"]
  else ["FAIL: Images are visibly different", s!"{v.finding.count} pixels are different"]

def differenceLine (d : Difference) : String :=
  s!"{d.changed} pixels changed, maximum channel difference {d.greatest}"

def sizesDifferLine : String := "FAIL: Image dimensions do not match"

/-- Differing pixels are red, the others black. -/
def mapRaster (m : DifferenceMap) : Raster :=
  ⟨m.width, m.height, m.flags.map fun marked => ⟨if marked then 255 else 0, 0, 0, 255⟩⟩

section

variable {m : Type → Type} [Monad m] (desk : Desk m)

def printAll (lines : List String) : m Unit := lines.forM desk.print

/-- Writes the exact difference if it was asked for. -/
def reportDifference (t : Task) (a b : Picture) : m (Except String Unit) :=
  match t.exactFile with
  | none => return .ok ()
  | some name =>
      match a.difference b with
      | .error fault => return .error fault.message
      | .ok d => do
          if t.verbose then desk.print (differenceLine d)
          match ← desk.save name (Raster.ofPicture d.picture) with
          | .ok () => return .ok ()
          | .error why => return .error s!"failed to save difference image to '{name}': {why}"

/-- Prints the verdict, then writes the map if it was asked for. -/
def reportVerdict (t : Task) (v : Verdict) : m Ending := do
  printAll desk (verdictLines v)
  let ending := if v.isMatch then Ending.alike else .different
  match t.mapFile, v.finding.map with
  | some name, some map =>
      match ← desk.save name (mapRaster map) with
      | .ok () => return ending
      | .error why => return .failed s!"failed to save map to '{name}': {why}"
  | _, _ => return ending

/-- Compares two pictures that have been read. -/
def judge (t : Task) (left right : Raster) : m Ending :=
  if left.SameSize right then do
    match ← reportDifference desk t left.picture right.picture with
    | .error message => return .failed message
    | .ok () =>
        match Picture.compare t.conditions left.picture right.picture with
        | .error fault => return .failed fault.message
        | .ok v => reportVerdict desk t v
  else do
    desk.print sizesDifferLine
    return .different

def run (t : Task) : m Ending :=
  match t.conditions.validate with
  | .error fault => return .failed fault.message
  | .ok () => do
      if t.verbose then printAll desk (conditionLines t.conditions)
      match ← desk.load t.left with
      | .error why => return .failed s!"failed to load '{t.left}': {why}"
      | .ok left =>
          match ← desk.load t.right with
          | .error why => return .failed s!"failed to load '{t.right}': {why}"
          | .ok right => judge desk t left right

end

/-- A directory without further directories: its files, the names that cannot be written to and
why, and what a run has done. -/
structure Tray where
  files : String → Option Raster
  refuses : String → Option String
  printed : List String := []
  saved : List (String × Raster) := []

namespace Tray

def noSuchFile : String := "No such file or directory (os error 2)"

def nameTooLong : String := "File name too long (os error 36)"

def file? (t : Tray) (path : String) : Option Raster := (localName path).bind t.files

/-- The file that a path leads to when it is written to, or why it cannot be. -/
def target (t : Tray) (path : String) : Except String String :=
  match formatFault path with
  | some why => .error why
  | none =>
      if isTooLong path then .error nameTooLong
      else match localName path with
        | none => .error noSuchFile
        | some name =>
            match t.refuses name with
            | some why => .error why
            | none => .ok name

def desk : Desk (StateM Tray) where
  load path := do
    match (← get).file? path with
    | some r => return .ok r
    | none => return .error noSuchFile
  save path r := do
    match (← get).target path with
    | .error why => return .error why
    | .ok name =>
        modify fun t => { t with saved := t.saved ++ [(name, r)] }
        return .ok ()
  print line := modify fun t => { t with printed := t.printed ++ [line] }

/-- What a file holds in the end, if anything was written to it. -/
def contents (t : Tray) (name : String) : Option Raster :=
  (t.saved.reverse.find? (·.1 = name)).map (·.2)

/-- All that was printed. -/
def output (t : Tray) : String := String.join (t.printed.map (· ++ "\n"))

end Tray

/-- A run on a tray: how it ends and what it leaves. -/
def runOn (tray : Tray) (t : Task) : Ending × Tray := (run Tray.desk t).run tray

end VisibleDifference.CommandLine
