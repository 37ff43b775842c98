import VisibleDifference.Proofs.Checked.Marking

/-!
# Rows as chunks

A worker that is given one row of a stored plane gets the chunk of the array that holds the row; it
can write nowhere else, and what it leaves in the chunk takes its place. Blurring or marking a row
in its chunk is writing that row of the plane, so workers that go through any rows in any order do
to the array what these rows do to the plane, and none of them traps.
-/

namespace VisibleDifference

universe u v w

namespace Checked

section Run

variable {σ : Type u} {τ : Type v} {ι : Type w}

/-- Steps along a list, no more than `m` of them, simulate `g` on stored states. -/
theorem foldlM_simulates (stored : τ → σ) (inv : Nat → τ → Prop) {m : Nat}
    {f : σ → ι → Checked σ} {g : τ → ι → τ}
    (hf : ∀ n < m, ∀ i t, inv n t →
      f (stored t) i = .ok (stored (g t i)) ∧ inv (n + 1) (g t i))
    (items : List ι) {n : Nat} (hn : n + items.length ≤ m) {t : τ} (ht : inv n t) :
    items.foldlM f (stored t) = .ok (stored (items.foldl g t)) := by
  induction items generalizing n t with
  | nil => rfl
  | cons i items ih =>
    rw [List.length_cons] at hn
    obtain ⟨hs, hi⟩ := hf n (by omega) i t ht
    rw [List.foldlM_cons, hs, ok_bind, ih (by omega) hi, List.foldl_cons]

end Run

section Splice

variable {α β : Type u} {xs chunk : Array α} {start : Nat}

/-- The array with its entries from `start` on replaced by those of `chunk`. -/
def splice (xs : Array α) (start : Nat) (chunk : Array α) : Array α :=
  xs.extract 0 start ++ chunk ++ xs.extract (start + chunk.size) xs.size

theorem size_splice (hs : start + chunk.size ≤ xs.size) :
    (splice xs start chunk).size = xs.size := by
  simp only [splice, Array.size_append, Array.size_extract]
  omega

theorem getElem?_splice (hs : start + chunk.size ≤ xs.size) (i : Nat) :
    (splice xs start chunk)[i]? =
      if start ≤ i ∧ i < start + chunk.size then chunk[i - start]? else xs[i]? := by
  have hleft : (xs.extract 0 start).size = start := by
    rw [Array.size_extract]
    omega
  have hmiddle : (xs.extract 0 start ++ chunk).size = start + chunk.size := by
    rw [Array.size_append, hleft]
  rw [splice, Array.getElem?_append, hmiddle, Array.getElem?_append, hleft]
  obtain hi | hi | hi : i < start ∨ (start ≤ i ∧ i < start + chunk.size) ∨
      start + chunk.size ≤ i := by omega
  · rw [if_pos (by omega), if_pos hi, if_neg (by omega), Array.getElem?_extract,
      if_pos (by omega), Nat.zero_add]
  · rw [if_pos hi.2, if_neg (by omega), if_pos hi]
  · rw [if_neg (by omega), if_neg (by omega), Array.getElem?_extract]
    by_cases hx : i < xs.size
    · rw [if_pos (by omega), Nat.add_sub_cancel' hi]
    · rw [if_neg (by omega), Array.getElem?_eq_none (by omega)]

/-- Gives the `y`-th chunk of `w` entries to a worker and puts back what it leaves there. -/
def onChunk (w : Nat) (worker : Array α → Checked (Array α × β)) (xs : Array α) (y : Nat) :
    Checked (Array α × β) := do
  let chunk ← slice xs (y * w) ((y + 1) * w)
  let (chunk, answer) ← worker chunk
  return (splice xs (y * w) chunk, answer)

end Splice

end Checked

open Checked

namespace Plane

variable {α : Type} {w h : Nat}

/-- One row as a plane of its own. -/
def rowAlone (p : Plane α w h) (y : Fin h) : Plane α w 1 := ofFn fun x _ => p.get x y

theorem getElem?_stored (p : Plane α w h) (x : Fin w) (y : Fin h) :
    p.stored[y.val * w + x.val]? = some (p.get x y) := by
  have hi : y.val * w + x.val < p.stored.size := p.size_stored.symm ▸ index_lt x y
  rw [Array.getElem?_eq_getElem hi]
  rfl

/-- An array that holds the values of a plane at their addresses is the stored plane. -/
theorem eq_stored {xs : Array α} {p : Plane α w h} (hs : xs.size = w * h)
    (he : ∀ (x : Fin w) (y : Fin h), xs[y.val * w + x.val]? = some (p.get x y)) :
    xs = p.stored := by
  apply Array.ext_getElem?
  intro i
  by_cases hi : i < w * h
  · have ha : (row ⟨i, hi⟩).val * w + (column ⟨i, hi⟩).val = i :=
      congrArg Fin.val (index_column_row ⟨i, hi⟩)
    have hx := he (column ⟨i, hi⟩) (row ⟨i, hi⟩)
    rw [← getElem?_stored, ha] at hx
    exact hx
  · rw [Array.getElem?_eq_none (by omega), Array.getElem?_eq_none (by rw [size_stored]; omega)]

theorem size_rowAlone (r : Plane α w 1) : r.stored.size = w := by
  rw [size_stored, Nat.mul_one]

theorem row_end (w y : Nat) : (y + 1) * w = y * w + w := Nat.succ_mul y w

theorem extract_stored (p : Plane α w h) (y : Fin h) :
    p.stored.extract (y.val * w) ((y.val + 1) * w) = (p.rowAlone y).stored := by
  have hle := row_end w y.val ▸ row_le (w := w) y
  rw [row_end]
  apply eq_stored
  · rw [Array.size_extract, size_stored]
    omega
  · intro x z
    have hx := x.isLt
    have hz : z.val * w + x.val = x.val := by simp
    rw [hz, Array.getElem?_extract, size_stored, if_pos (by omega), getElem?_stored, rowAlone,
      get_ofFn]

/-- A row that is put in the place of another changes that row only. -/
theorem splice_stored (p : Plane α w h) (y : Fin h) (r : Plane α w 1) :
    splice p.stored (y.val * w) r.stored = (p.setRow y fun x => r.get x 0).stored := by
  have hle := row_end w y.val ▸ row_le (w := w) y
  have hs : y.val * w + r.stored.size ≤ p.stored.size := by rwa [size_rowAlone, size_stored]
  apply eq_stored
  · rw [size_splice hs, size_stored]
  · intro x z
    have hx := x.isLt
    rw [getElem?_splice hs, size_rowAlone, get_setRow]
    by_cases hy : y = z
    · subst hy
      have hget := r.getElem?_stored x 0
      rw [Fin.val_zero, Nat.zero_mul, Nat.zero_add] at hget
      rw [if_pos (by omega), if_pos rfl, Nat.add_sub_cancel_left, hget]
    · have hne : ¬(y.val * w ≤ z.val * w + x.val ∧ z.val * w + x.val < y.val * w + w) := by
        rintro ⟨hl, hr⟩
        have hyz : y.val < z.val + 1 :=
          Nat.lt_of_mul_lt_mul_right (a := w) (by rw [row_end]; omega)
        have hzy : z.val < y.val + 1 :=
          Nat.lt_of_mul_lt_mul_right (a := w) (by rw [row_end]; omega)
        exact hy (Fin.ext (by omega))
      rw [if_neg hne, if_neg hy, getElem?_stored]

/-- A worker that fills its chunk writes one row. -/
theorem onChunk_stored {β : Type} (p : Plane α w h) (y : Fin h) {f : Fin w → α}
    {worker : Array α → Checked (Array α × β)} {answer : β}
    (hw : worker (p.rowAlone y).stored =
      .ok (((p.rowAlone y).setRow 0 f).stored, answer)) :
    onChunk w worker p.stored y.val = .ok ((p.setRow y f).stored, answer) := by
  have hs := p.splice_stored y ((p.rowAlone y).setRow 0 f)
  simp only [get_setRow, if_true] at hs
  rw [onChunk, slice_stored, ok_bind, extract_stored, hw, ok_bind, ← hs]
  rfl

theorem write_rowAlone (r : Plane α w 1) (x : Fin w) (a : α) :
    write r.stored x.val a = .ok (r.set x 0 a).stored := by
  have hw := r.write_stored x 0 a
  rwa [Fin.val_zero, Nat.zero_mul, Nat.zero_add] at hw

variable [MulAdd α]

/-- Writes the blurred value at column `x` of row `y` to the chunk of the row. -/
def blurInChunk (k p : Array α) (w h y : Nat) (chunk : Array α) (x : Nat) : Checked (Array α) := do
  let value ← checkedTapSum k p w h x y
  write chunk x value

def blurChunk (k p : Array α) (w h y : Nat) (chunk : Array α) : Checked (Array α × Unit) := do
  let chunk ← forEach chunk.size chunk (blurInChunk k p w h y)
  return (chunk, ())

theorem blurChunk_eq (k : Kernel α) (p : Plane α w h) (hm : 4 * (w * h) < addressLimit)
    (y : Fin h) (r : Plane α w 1) :
    blurChunk k.stored p.stored w h y.val r.stored =
      .ok ((r.setRow 0 fun x => p.tapSum k x y).stored, ()) := by
  have hstep (x : Fin w) (r : Plane α w 1) :
      blurInChunk k.stored p.stored w h y.val r.stored x.val =
        .ok (r.set x 0 (p.tapSum k x y)).stored := by
    rw [blurInChunk, checkedTapSum_eq k p hm, ok_bind, write_rowAlone]
  rw [blurChunk, size_rowAlone, forEach_stored stored hstep r]
  rfl

/-- Blurs a stored plane into `out`, the rows of `order` one after the other, each in its chunk. -/
def blurChunks (k p : Array α) (w h : Nat) (order : List Nat) (out : Array α) :
    Checked (Array α) :=
  order.foldlM (fun out y => do
    let (out, _) ← onChunk w (blurChunk k p w h y) out y
    return out) out

theorem blurChunks_eq (k : Kernel α) (p : Plane α w h) (hm : 4 * (w * h) < addressLimit)
    (order : List (Fin h)) (out : Plane α w h) :
    blurChunks k.stored p.stored w h (order.map Fin.val) out.stored =
      .ok (p.blurRows k order out).stored := by
  rw [blurChunks, List.foldlM_map]
  apply foldlM_simulates stored (fun _ _ => True) (fun n _ y out _ => ⟨?_, trivial⟩) order
    (Nat.zero_add _).le trivial
  rw [out.onChunk_stored y (blurChunk_eq k p hm y _), ok_bind]
  rfl

end Plane

theorem Viewing.markRow_eq {w h : Nat} (v : Viewing w h) (s : Plane Bool w h × Nat) (y : Fin h) :
    v.markRow s y =
      (s.1.setRow y fun x => v.differs x y, s.2 + (v.rowFlags y).count true) := by
  simp [markRow, rowFlags]

namespace StoredViewing

variable {w h : Nat}

/-- Writes the flag at column `x` of row `y` to the chunk of the row, and counts it. -/
def markInChunk (v : StoredViewing) (y : Nat) (s : Array Bool × Nat) (x : Nat) :
    Checked (Array Bool × Nat) := do
  let flag ← v.checkedDiffers x y
  let chunk ← write s.1 x flag
  let count ← size (s.2 + flag.toNat)
  return (chunk, count)

def markChunk (v : StoredViewing) (y : Nat) (chunk : Array Bool) : Checked (Array Bool × Nat) :=
  forEach v.leftScales.width (chunk, 0) (v.markInChunk y)

theorem foldl_set_count (f : Fin w → Bool) (xs : List (Fin w)) (r : Plane Bool w 1) (n : Nat) :
    xs.foldl (fun s x => (s.1.set x 0 (f x), s.2 + (f x).toNat)) (r, n) =
      (r.setColumns 0 f xs, n + xs.countP f) := by
  induction xs generalizing r n with
  | nil => rfl
  | cons x xs ih =>
    have hs : r.setColumns 0 f (x :: xs) = (r.set x 0 (f x)).setColumns 0 f xs := rfl
    have hc : (f x).toNat = if f x = true then 1 else 0 := by cases f x <;> rfl
    rw [List.foldl_cons, ih, hs, hc, List.countP_cons, Nat.add_assoc, Nat.add_comm (xs.countP f)]

theorem markChunk_eq (v : Viewing w h) (hm : w * h < addressLimit) (y : Fin h)
    (r : Plane Bool w 1) :
    v.stored.markChunk y.val r.stored =
      .ok ((r.setRow 0 fun x => v.differs x y).stored, (v.rowFlags y).count true) := by
  let stored (s : Plane Bool w 1 × Nat) : Array Bool × Nat := (s.1.stored, s.2)
  let mark (s : Plane Bool w 1 × Nat) (x : Fin w) : Plane Bool w 1 × Nat :=
    (s.1.set x 0 (v.differs x y), s.2 + (v.differs x y).toNat)
  have hstep (x : Fin w) (s : Plane Bool w 1 × Nat) (hs : s.2 ≤ x.val) :
      v.stored.markInChunk y.val (stored s) x.val = .ok (stored (mark s x)) ∧
        (mark s x).2 ≤ x.val + 1 := by
    have hi := Plane.index_lt x y
    have hb := (v.differs x y).toNat_le
    have hc : size (s.2 + (v.differs x y).toNat) = .ok (s.2 + (v.differs x y).toNat) :=
      size_of_lt (by omega)
    refine ⟨?_, Nat.add_le_add hs hb⟩
    rw [markInChunk, checkedDiffers_eq v hm, ok_bind, Plane.write_rowAlone, ok_bind, hc]
    rfl
  have hloop := (forEach_simulates stored (fun n s => s.2 ≤ n) hstep (r, 0) (Nat.le_refl 0)).1
  rw [foldl_set_count (fun x => v.differs x y), Nat.zero_add, ← v.count_rowFlags] at hloop
  exact hloop

/-- Marks the rows of `order` one after the other, each in its chunk, and adds up their counts. -/
def markChunks (v : StoredViewing) (order : List Nat) (flags : Array Bool) :
    Checked (Array Bool × Nat) :=
  order.foldlM (fun s y => do
    let (flags, inRow) ← onChunk v.leftScales.width (v.markChunk y) s.1 y
    let count ← size (s.2 + inRow)
    return (flags, count)) (flags, 0)

theorem count_rowFlags_le (v : Viewing w h) (y : Fin h) : (v.rowFlags y).count true ≤ w := by
  rw [v.count_rowFlags]
  exact List.countP_le_length.trans (List.length_finRange).le

/-- At most as many rows as there are keep the count below the number of pixels. -/
theorem markChunks_eq (v : Viewing w h) (hm : w * h < addressLimit) {order : List (Fin h)}
    (ho : order.length ≤ h) (flags : Plane Bool w h) :
    v.stored.markChunks (order.map Fin.val) flags.stored =
      .ok ((v.markRows order flags).1.stored, (v.markRows order flags).2) := by
  let stored (s : Plane Bool w h × Nat) : Array Bool × Nat := (s.1.stored, s.2)
  rw [markChunks, List.foldlM_map]
  apply foldlM_simulates stored (fun n s => s.2 ≤ n * w) (fun n hn y s hs => ?_) order
    (m := h) (n := 0) (t := (flags, 0)) (by omega) (Nat.zero_le _)
  have hr := count_rowFlags_le v y
  have hle : s.2 + (v.rowFlags y).count true ≤ (n + 1) * w := by
    rw [Plane.row_end]
    exact Nat.add_le_add hs hr
  have hlt : s.2 + (v.rowFlags y).count true < addressLimit :=
    (hle.trans (Plane.row_le ⟨n, hn⟩)).trans_lt hm
  refine ⟨?_, hle⟩
  have hchunk := s.1.onChunk_stored y (markChunk_eq v hm y (s.1.rowAlone y))
  have hw : v.stored.leftScales.width = w := rfl
  simp only [stored, hw, hchunk, ok_bind, size_of_lt hlt, v.markRow_eq]
  rfl

end StoredViewing

end VisibleDifference
