/-!
# Plain text

Text without what a terminal would act on. Control characters are left out, and so are whole
control sequences, which start with an escape character and end as their kind tells. Tabs, line
ends and form feeds are kept. `plain_eq_self` says that text without other control characters is
left as it is, and `escape_notMem_plain` that no sequence can start in the result.
-/

namespace VisibleDifference.Terminal

def escapeCharacter : Char := '\x1b'

def isControl (c : Char) : Bool := c < ' ' || c == '\x7f'

/-- Control characters that are kept. -/
def isLayout (c : Char) : Bool := c == '\t' || c == '\n' || c == '\x0c' || c == '\r'

/-- Where a reader of text is. -/
inductive Place where
  /-- Outside of all sequences. -/
  | text
  /-- After an escape character. -/
  | escape
  /-- In an escape sequence of more than one character. -/
  | longEscape
  /-- In a control sequence with parameters. -/
  | control
  /-- Before the parameters of a device string, in them, and after them. -/
  | device
  | deviceParameters
  | deviceModifiers
  /-- In a string for a device or for an application. -/
  | data
  /-- In a command to the operating system. -/
  | command
deriving DecidableEq, Repr

namespace Place

/-- Strings take layout characters as a part of them; elsewhere they do not belong to the
sequence. -/
def showsLayout : Place → Bool
  | text | escape | longEscape | control => true
  | _ => false

/-- Whether `c` lies between two ASCII characters. -/
def within (low high c : Char) : Bool := low ≤ c && c ≤ high

def afterEscape (c : Char) : Place :=
  if within ' ' '/' c then longEscape
  else if c = '[' then control
  else if c = ']' then command
  else if c = 'P' then device
  else if c = 'X' ∨ c = '^' ∨ c = '_' then data
  else if within '0' '~' c then text
  else escape

/-- A string ends at the byte `0x9c`, also as a part of a longer character. -/
def hasTerminator (c : Char) : Bool := (String.utf8EncodeChar c).contains 0x9c

/-- The place after a character that belongs to a sequence or is left out. -/
def next (p : Place) (c : Char) : Place :=
  if c = escapeCharacter then escape
  else if c = '\x18' ∨ c = '\x1a' then text
  else match p with
    | text => text
    | escape => afterEscape c
    | longEscape => if within '0' '~' c then text else longEscape
    | control => if within '@' '~' c then text else control
    | device =>
        if within ' ' '/' c then deviceModifiers
        else if within '0' '?' c then deviceParameters
        else if within '@' '~' c then data
        else device
    | deviceParameters =>
        if within ' ' '/' c then deviceModifiers
        else if within '<' '~' c then data
        else deviceParameters
    | deviceModifiers => if within '0' '~' c then data else deviceModifiers
    | data => if hasTerminator c then text else data
    | command => if c = '\x07' then text else command

end Place

structure Reader where
  place : Place := .text
  /-- A layout character has been shown inside a sequence. What follows it is shown too, up to the
  next control character. -/
  interrupted : Bool := false

namespace Reader

def shows (r : Reader) (c : Char) : Bool :=
  if isControl c then isLayout c && r.place.showsLayout else r.place == .text || r.interrupted

/-- An interrupted sequence is given up at a character beyond ASCII. -/
def next (r : Reader) (c : Char) : Reader :=
  if r.shows c then
    if isControl c then { r with interrupted := true }
    else if c ≤ '~' then r
    else {}
  else { place := r.place.next c }

/-- The characters of a text that are shown. -/
def shown : Reader → List Char → List Char
  | _, [] => []
  | r, c :: cs => if r.shows c then c :: (r.next c).shown cs else (r.next c).shown cs

theorem exists_shows_of_mem_shown {c : Char} {cs : List Char} (r : Reader) (hc : c ∈ r.shown cs) :
    ∃ r' : Reader, r'.shows c = true := by
  induction cs generalizing r with
  | nil => cases hc
  | cons d cs ih =>
    rw [shown] at hc
    split at hc
    · rename_i hd
      rcases List.mem_cons.mp hc with rfl | hm
      · exact ⟨r, hd⟩
      · exact ih _ hm
    · exact ih _ hc

theorem shown_eq_self {cs : List Char} (r : Reader) (hr : r.place = .text)
    (hcs : ∀ c ∈ cs, isControl c → isLayout c) : r.shown cs = cs := by
  induction cs generalizing r with
  | nil => rfl
  | cons c cs ih =>
    have hs : r.shows c = true := by
      by_cases hc : isControl c
      · simp [shows, hr, hc, hcs c List.mem_cons_self hc, Place.showsLayout]
      · simp [shows, hr, hc]
    have hn : (r.next c).place = .text := by
      rw [next, if_pos hs]
      split
      · exact hr
      · split
        · exact hr
        · rfl
    rw [shown, if_pos hs, ih _ hn fun d hd => hcs d (List.mem_cons_of_mem c hd)]

end Reader

def plain (s : String) : String := String.ofList (({} : Reader).shown s.toList)

theorem plain_eq_self {s : String} (hs : ∀ c ∈ s.toList, isControl c → isLayout c) :
    plain s = s := by
  rw [plain, Reader.shown_eq_self {} rfl hs, String.ofList_toList]

theorem escape_notMem_plain (s : String) : escapeCharacter ∉ (plain s).toList := by
  intro hm
  rw [plain, String.toList_ofList] at hm
  obtain ⟨r, hr⟩ := Reader.exists_shows_of_mem_shown _ hm
  have hc : isControl escapeCharacter = true := by decide
  have hl : isLayout escapeCharacter = false := by decide
  simp [Reader.shows, hc, hl] at hr

end VisibleDifference.Terminal
