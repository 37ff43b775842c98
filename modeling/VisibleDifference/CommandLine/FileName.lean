import VisibleDifference.Text.Quoted

/-!
# File names

A path is a list of components between slashes; empty components and single dots stand for nothing.
The extension of the last component tells in which format a picture is to be written. A picture is
written only if the extension is that of a picture format, whatever its case.
-/

namespace VisibleDifference.CommandLine

/-- The pieces of a text between the occurrences of a character. -/
def pieces (separator : Char) : List Char → List (List Char)
  | [] => [[]]
  | c :: cs =>
      match pieces separator cs with
      | p :: ps => if c = separator then [] :: p :: ps else (c :: p) :: ps
      | [] => [[c]]

theorem pieces_of_notMem {separator : Char} {cs : List Char} (hs : separator ∉ cs) :
    pieces separator cs = [cs] := by
  induction cs with
  | nil => rfl
  | cons c cs ih =>
    obtain ⟨hc, hcs⟩ := not_or.mp fun h => hs (List.mem_cons.mpr h)
    simp [pieces, ih hcs, Ne.symm hc]

def components (path : String) : List (List Char) :=
  (pieces '/' path.toList).filter fun p => p ≠ [] ∧ p ≠ ['.']

/-- The name of a file in the working directory, if the path leads to no other directory. -/
def localName (path : String) : Option String :=
  match path.toList, components path with
  | '/' :: _, _ => none
  | _, [name] => some (String.ofList name)
  | _, _ => none

/-- A name without a slash is a name in the working directory. -/
theorem localName_of_notMem {name : String} (hs : '/' ∉ name.toList) (hne : name ≠ "")
    (hdot : name.toList ≠ ['.']) : localName name = some name := by
  have hnil : name.toList ≠ [] := fun h => hne (String.toList_eq_nil_iff.mp h)
  have hc : components name = [name.toList] := by
    simp [components, pieces_of_notMem hs, hnil, hdot]
  unfold localName
  split
  · rename_i h
    simp [h] at hs
  · rename_i h _
    rw [← (List.cons.inj (hc.symm.trans h)).1, String.ofList_toList]
  · rename_i h
    exact absurd hc (h _)

/-- A path of 4096 bytes or more is not looked up, and a search for a name of 256 bytes or more
stops at it; in a directory without further directories a search gets no further than the first
name. -/
def isTooLong (path : String) : Bool :=
  4096 ≤ path.utf8ByteSize ||
    (components path).head?.any fun name => 256 ≤ (String.ofList name).utf8ByteSize

/-- What follows the last dot of a name that has characters before that dot. -/
def extensionOf (name : List Char) : Option String :=
  match name.reverse.span (· ≠ '.') with
  | ([], ['.', '.']) => none
  | (last, _ :: _ :: _) => some (String.ofList last.reverse)
  | _ => none

def pictureExtensions : List String :=
  ["png", "apng", "jpg", "jpeg", "jfif", "webp", "bmp", "gif", "tif", "tiff", "tga", "dds", "ico",
   "hdr", "exr", "pbm", "pam", "ppm", "pgm", "pnm", "ff", "qoi", "avif"]

def unknownExtension (e : String) : String :=
  s!"The file extension `.{Text.quoted e}` was not recognized as an image format"

/-- Why no picture can be written under this name, if its extension does not tell a format. -/
def formatFault (path : String) : Option String :=
  match (components path).getLast?.bind extensionOf with
  | none => some "The image format could not be determined"
  | some e =>
      if pictureExtensions.contains (String.ofList (e.toList.map Char.toLower)) then none
      else some (unknownExtension e)

end VisibleDifference.CommandLine
