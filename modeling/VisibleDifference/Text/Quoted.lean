import VisibleDifference.Text.Hidden

/-!
# Quoted text

Text between quotation marks with nothing hidden in it: tabs, line ends, quotation marks and
backslashes have a letter or mark of their own after a backslash, and any other hidden character is
told by its code point. `isHidden_eq_false_of_mem_quoted` says that all characters of a quoted text
are seen, and `quoted_of_forall_plain` that other visible characters stand for themselves.
-/

namespace VisibleDifference.Text

/-- The character after the backslash, for characters with a short escape. -/
def escapeLetter? : Char → Option Char
  | '\x00' => some '0'
  | '\t' => some 't'
  | '\n' => some 'n'
  | '\r' => some 'r'
  | '"' => some '"'
  | '\\' => some '\\'
  | _ => none

/-- The code point of a character in hexadecimal digits, none of them a leading zero. -/
def codePointEscape (c : Char) : List Char :=
  '\\' :: 'u' :: '\x7b' :: Nat.toDigits 16 c.toNat ++ ['\x7d']

def quotedChar (c : Char) : List Char :=
  match escapeLetter? c with
  | some l => ['\\', l]
  | none => if isHidden c then codePointEscape c else [c]

def quoted (s : String) : String :=
  String.ofList ('"' :: s.toList.flatMap quotedChar ++ ['"'])

theorem flatMap_quotedChar_eq_self {cs : List Char}
    (hcs : ∀ c ∈ cs, escapeLetter? c = none ∧ isHidden c = false) :
    cs.flatMap quotedChar = cs := by
  induction cs with
  | nil => rfl
  | cons c cs ih =>
    obtain ⟨hc, hcs⟩ := List.forall_mem_cons.mp hcs
    rw [List.flatMap_cons, ih hcs]
    simp [quotedChar, hc]

/-- Text in which nothing has to be escaped is only put between quotation marks. -/
theorem quoted_of_forall_plain {s : String}
    (hs : ∀ c ∈ s.toList, escapeLetter? c = none ∧ isHidden c = false) :
    quoted s = String.ofList ('"' :: s.toList ++ ['"']) := by
  rw [quoted, flatMap_quotedChar_eq_self hs]

theorem isHidden_digitChar {d : Nat} (hd : d < 16) : isHidden d.digitChar = false := by
  have hp : ∀ d < 16, ' ' ≤ d.digitChar ∧ d.digitChar ≤ '~' := by decide
  exact isHidden_eq_false_of_printable (hp d hd).1 (hp d hd).2

theorem isHidden_eq_false_of_mem_toDigitsCore {fuel n : Nat} {cs : List Char}
    (hcs : ∀ c ∈ cs, isHidden c = false) :
    ∀ c ∈ Nat.toDigitsCore 16 fuel n cs, isHidden c = false := by
  induction fuel generalizing n cs with
  | zero => exact hcs
  | succ fuel ih =>
    have hd : ∀ c ∈ (n % 16).digitChar :: cs, isHidden c = false :=
      List.forall_mem_cons.mpr ⟨isHidden_digitChar (Nat.mod_lt n (by decide)), hcs⟩
    rw [Nat.toDigitsCore]
    split
    · exact hd
    · exact ih hd

theorem isHidden_eq_false_of_mem_codePointEscape (c : Char) :
    ∀ d ∈ codePointEscape c, isHidden d = false := by
  have hd : ∀ d ∈ Nat.toDigits 16 c.toNat, isHidden d = false :=
    isHidden_eq_false_of_mem_toDigitsCore (by simp)
  have hp : ∀ d ∈ ['\\', 'u', '\x7b', '\x7d'], isHidden d = false := by
    simp [isHidden_eq_false_of_printable]
  simp only [codePointEscape, List.cons_append, List.forall_mem_cons, List.forall_mem_append]
  simp only [List.forall_mem_cons] at hp
  exact ⟨hp.1, hp.2.1, hp.2.2.1, hd, hp.2.2.2⟩

theorem isHidden_eq_false_of_escapeLetter? {c l : Char} (hl : escapeLetter? c = some l) :
    isHidden l = false := by
  unfold escapeLetter? at hl
  split at hl <;> cases hl <;> exact isHidden_eq_false_of_printable (by decide) (by decide)

theorem isHidden_eq_false_of_mem_quotedChar (c : Char) :
    ∀ d ∈ quotedChar c, isHidden d = false := by
  intro d hd
  unfold quotedChar at hd
  split at hd
  · rename_i l hl
    rcases List.mem_cons.mp hd with rfl | hd
    · exact isHidden_eq_false_of_printable (by decide) (by decide)
    · rw [List.mem_singleton.mp hd]
      exact isHidden_eq_false_of_escapeLetter? hl
  · split at hd
    · exact isHidden_eq_false_of_mem_codePointEscape c d hd
    · rename_i hc
      rw [List.mem_singleton.mp hd]
      simpa using hc

/-- Nothing in a quoted text is hidden from its reader. -/
theorem isHidden_eq_false_of_mem_quoted (s : String) :
    ∀ c ∈ (quoted s).toList, isHidden c = false := by
  have hq : isHidden '"' = false := isHidden_eq_false_of_printable (by decide) (by decide)
  intro c hc
  rw [quoted, String.toList_ofList] at hc
  rcases List.mem_append.mp hc with hc | hc
  · rcases List.mem_cons.mp hc with rfl | hc
    · exact hq
    · obtain ⟨d, -, hd⟩ := List.mem_flatMap.mp hc
      exact isHidden_eq_false_of_mem_quotedChar d c hd
  · rw [List.mem_singleton.mp hc]
    exact hq

end VisibleDifference.Text
