/-!
# Planes

A plane holds one value per pixel, row by row. It is known through `get`: two planes with equal
values everywhere are equal, and each way of building or changing a plane has a `get` lemma.
Rows can be written in any order, which `get_fillRows_of_mem` describes.
-/

namespace VisibleDifference

universe u v

structure Plane (α : Type u) (width height : Nat) where
  cells : Vector α (width * height)

namespace Plane

variable {α : Type u} {β : Type v} {w h : Nat}

theorem index_lt (x : Fin w) (y : Fin h) : y.val * w + x.val < w * h := by
  have hy : (y.val + 1) * w ≤ h * w := Nat.mul_le_mul_right w y.isLt
  rw [Nat.add_mul, Nat.one_mul, Nat.mul_comm h w] at hy
  have := x.isLt
  omega

def index (x : Fin w) (y : Fin h) : Fin (w * h) := ⟨y.val * w + x.val, index_lt x y⟩

theorem width_pos (i : Fin (w * h)) : 0 < w := Nat.pos_of_mul_pos_right (Nat.zero_lt_of_lt i.isLt)

def column (i : Fin (w * h)) : Fin w := ⟨i.val % w, Nat.mod_lt _ (width_pos i)⟩

def row (i : Fin (w * h)) : Fin h := ⟨i.val / w, Nat.div_lt_of_lt_mul i.isLt⟩

@[simp] theorem column_index (x : Fin w) (y : Fin h) : column (index x y) = x := by
  apply Fin.ext
  simp [column, index, Nat.mul_comm y.val w, Nat.mod_eq_of_lt x.isLt]

@[simp] theorem row_index (x : Fin w) (y : Fin h) : row (index x y) = y := by
  apply Fin.ext
  have hw : 0 < w := Nat.zero_lt_of_lt x.isLt
  simp [row, index, Nat.mul_comm y.val w, Nat.mul_add_div hw, Nat.div_eq_of_lt x.isLt]

@[simp] theorem index_column_row (i : Fin (w * h)) : index (column i) (row i) = i := by
  apply Fin.ext
  simp only [index, column, row]
  rw [Nat.mul_comm]
  exact Nat.div_add_mod i.val w

theorem index_inj {x x' : Fin w} {y y' : Fin h} :
    index x y = index x' y' ↔ x = x' ∧ y = y' := by
  constructor
  · intro he
    exact ⟨by simpa using congrArg column he, by simpa using congrArg row he⟩
  · rintro ⟨rfl, rfl⟩
    rfl

def get (p : Plane α w h) (x : Fin w) (y : Fin h) : α := p.cells[index x y]

theorem ext_get {p q : Plane α w h} (he : ∀ x y, p.get x y = q.get x y) : p = q := by
  obtain ⟨cp⟩ := p
  obtain ⟨cq⟩ := q
  congr 1
  apply Vector.ext
  intro i hi
  have := he (column ⟨i, hi⟩) (row ⟨i, hi⟩)
  simpa [get] using this

def ofFn (f : Fin w → Fin h → α) : Plane α w h := ⟨Vector.ofFn fun i => f (column i) (row i)⟩

@[simp] theorem get_ofFn (f : Fin w → Fin h → α) (x : Fin w) (y : Fin h) :
    (ofFn f).get x y = f x y := by
  simp [get, ofFn]

def fill (a : α) : Plane α w h := ⟨Vector.replicate (w * h) a⟩

@[simp] theorem get_fill (a : α) (x : Fin w) (y : Fin h) :
    (fill a : Plane α w h).get x y = a := by
  simp [get, fill]

def map (f : α → β) (p : Plane α w h) : Plane β w h := ⟨p.cells.map f⟩

@[simp] theorem get_map (f : α → β) (p : Plane α w h) (x : Fin w) (y : Fin h) :
    (p.map f).get x y = f (p.get x y) := by
  simp [get, map]

def set (p : Plane α w h) (x : Fin w) (y : Fin h) (a : α) : Plane α w h :=
  ⟨p.cells.set (index x y) a⟩

theorem get_set (p : Plane α w h) (x x' : Fin w) (y y' : Fin h) (a : α) :
    (p.set x y a).get x' y' = if x = x' ∧ y = y' then a else p.get x' y' := by
  have he : (index x y).val = (index x' y').val ↔ x = x' ∧ y = y' := by
    rw [← Fin.ext_iff, index_inj]
  simp only [get, set, Fin.getElem_fin, Vector.getElem_set, he]

/-- Writes the columns `xs` of row `y`. -/
def setColumns (p : Plane α w h) (y : Fin h) (f : Fin w → α) (xs : List (Fin w)) : Plane α w h :=
  xs.foldl (fun p x => p.set x y (f x)) p

theorem get_setColumns_of_notMem (y y' : Fin h) (f : Fin w → α) (x' : Fin w) (xs : List (Fin w))
    (hx : x' ∉ xs ∨ y ≠ y') (p : Plane α w h) :
    (p.setColumns y f xs).get x' y' = p.get x' y' := by
  induction xs generalizing p with
  | nil => rfl
  | cons x xs ih =>
    have hs : p.setColumns y f (x :: xs) = (p.set x y (f x)).setColumns y f xs := rfl
    have hne : ¬(x = x' ∧ y = y') := by
      rintro ⟨rfl, rfl⟩
      simp at hx
    rw [hs, ih (hx.imp_left fun h hm => h (List.mem_cons_of_mem x hm)), get_set, if_neg hne]

theorem get_setColumns_of_mem (y : Fin h) (f : Fin w → α) (x' : Fin w) (xs : List (Fin w))
    (hx : x' ∈ xs) (p : Plane α w h) : (p.setColumns y f xs).get x' y = f x' := by
  induction xs generalizing p with
  | nil => cases hx
  | cons x xs ih =>
    have hs : p.setColumns y f (x :: xs) = (p.set x y (f x)).setColumns y f xs := rfl
    rw [hs]
    by_cases hm : x' ∈ xs
    · exact ih hm _
    · obtain rfl : x' = x := (List.mem_cons.mp hx).resolve_right hm
      rw [get_setColumns_of_notMem y y f x' xs (.inl hm), get_set, if_pos ⟨rfl, rfl⟩]

def setRow (p : Plane α w h) (y : Fin h) (f : Fin w → α) : Plane α w h :=
  p.setColumns y f (List.finRange w)

@[simp] theorem get_setRow (p : Plane α w h) (y y' : Fin h) (f : Fin w → α) (x : Fin w) :
    (p.setRow y f).get x y' = if y = y' then f x else p.get x y' := by
  by_cases hy : y = y'
  · subst hy
    rw [if_pos rfl]
    exact get_setColumns_of_mem y f x _ (List.mem_finRange x) p
  · rw [if_neg hy]
    exact get_setColumns_of_notMem y y' f x _ (.inr hy) p

/-- Writes `f` into the rows of `order`, one row after the other. -/
def fillRows (order : List (Fin h)) (f : Fin w → Fin h → α) (p : Plane α w h) : Plane α w h :=
  order.foldl (fun p y => p.setRow y fun x => f x y) p

theorem get_fillRows_of_notMem (f : Fin w → Fin h → α) (x : Fin w) (y : Fin h)
    (order : List (Fin h)) (hy : y ∉ order) (p : Plane α w h) :
    (p.fillRows order f).get x y = p.get x y := by
  induction order generalizing p with
  | nil => rfl
  | cons y' order ih =>
    have hs : fillRows (y' :: order) f p = fillRows order f (p.setRow y' fun x => f x y') := rfl
    have hne : ¬y' = y := fun he => hy (he ▸ List.mem_cons_self)
    rw [hs, ih fun hm => hy (List.mem_cons_of_mem y' hm), get_setRow, if_neg hne]

theorem get_fillRows_of_mem (f : Fin w → Fin h → α) (x : Fin w) (y : Fin h)
    (order : List (Fin h)) (hy : y ∈ order) (p : Plane α w h) :
    (p.fillRows order f).get x y = f x y := by
  induction order generalizing p with
  | nil => cases hy
  | cons y' order ih =>
    have hs : fillRows (y' :: order) f p = fillRows order f (p.setRow y' fun x => f x y') := rfl
    rw [hs]
    by_cases hm : y ∈ order
    · exact ih hm _
    · obtain rfl : y = y' := (List.mem_cons.mp hy).resolve_right hm
      rw [get_fillRows_of_notMem f x y order hm, get_setRow, if_pos rfl]

/-- All rows from top to bottom; none when rows are empty. -/
def rowOrder (w h : Nat) : List (Fin h) := if w = 0 then [] else List.finRange h

theorem mem_rowOrder (x : Fin w) (y : Fin h) : y ∈ rowOrder w h := by
  have : w ≠ 0 := Nat.ne_of_gt (Nat.zero_lt_of_lt x.isLt)
  simp [rowOrder, this]

@[simp] theorem fillRows_rowOrder (f : Fin w → Fin h → α) (p : Plane α w h) :
    p.fillRows (rowOrder w h) f = ofFn f := by
  apply ext_get
  intro x y
  rw [get_fillRows_of_mem f x y _ (mem_rowOrder x y), get_ofFn]

def rowList (p : Plane α w h) (y : Fin h) : List α := (List.finRange w).map fun x => p.get x y

/-- The values row by row. -/
def toList (p : Plane α w h) : List α := p.cells.toList

/-- The plane with the given values row by row, if there are exactly enough of them. -/
def ofArray? (w h : Nat) (values : Array α) : Option (Plane α w h) :=
  if he : values.size = w * h then some ⟨⟨values, he⟩⟩ else none

/-- The same values read as a plane of an equal size. -/
def cast {w' h' : Nat} (hw : w = w') (hh : h = h') (p : Plane α w h) : Plane α w' h' :=
  ⟨p.cells.cast (by rw [hw, hh])⟩

@[simp] theorem cast_rfl (p : Plane α w h) : p.cast rfl rfl = p := rfl

end Plane

end VisibleDifference
