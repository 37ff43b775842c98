import Mathlib
import VisibleDifference.Proofs.Checked.Comparison
import VisibleDifference.Proofs.Locality
import VisibleDifference.Proofs.Places

/-!
# Exact differences agree with themselves

The count, the greatest distance and the picture of an exact difference are computed side by side.
Each is settled here place by place: equal words are drawn black and no others are, so the count is
the number of places that are not black, and it is zero exactly when the greatest distance is and
when the pictures are identical.
-/

namespace VisibleDifference

/-- How far the same byte of two pixels is apart. -/
def byteDistance (p q : UInt32) (i : Fin 4) : Nat :=
  ((byteOf p i).toNat - (byteOf q i).toNat : Int).natAbs

section Bytes

variable (p q : UInt32)

theorem toNat_byteOf (i : Fin 4) : (byteOf p i).toNat = p.toNat / 2 ^ (8 * i.val) % 256 := by
  have hi := i.isLt
  have hs : (UInt32.ofNat (i.val * 8)).toNat % 32 = 8 * i.val := by
    rw [UInt32.toNat_ofNat_of_lt' (by rw [UInt32.size]; omega)]
    omega
  rw [byteOf, UInt32.toNat_toUInt8, UInt32.toNat_shiftRight, hs, Nat.shiftRight_eq_div_pow]

theorem eq_iff_bytes : p = q ↔ ∀ i, byteOf p i = byteOf q i := by
  refine ⟨fun he i => by rw [he], fun hb => ?_⟩
  have hb (i : Fin 4) : p.toNat / 2 ^ (8 * i.val) % 256 = q.toNat / 2 ^ (8 * i.val) % 256 := by
    rw [← toNat_byteOf, ← toNat_byteOf, hb]
  have h₀ : p.toNat / 2 ^ 0 % 256 = q.toNat / 2 ^ 0 % 256 := hb 0
  have h₁ : p.toNat / 2 ^ 8 % 256 = q.toNat / 2 ^ 8 % 256 := hb 1
  have h₂ : p.toNat / 2 ^ 16 % 256 = q.toNat / 2 ^ 16 % 256 := hb 2
  have h₃ : p.toNat / 2 ^ 24 % 256 = q.toNat / 2 ^ 24 % 256 := hb 3
  have hp := p.toNat_lt
  have hq := q.toNat_lt
  rw [← UInt32.toNat_inj]
  omega

theorem channelDistance_byteOf (i : Fin 4) :
    channelDistance (byteOf p i) (byteOf q i) = byteDistance p q i := by
  rw [channelDistance, byteDistance]
  omega

theorem byteDistance_comm (i : Fin 4) : byteDistance p q i = byteDistance q p i := by
  rw [byteDistance, byteDistance]
  omega

theorem byteDistance_eq_zero_iff (i : Fin 4) :
    byteDistance p q i = 0 ↔ byteOf p i = byteOf q i := by
  rw [byteDistance, ← UInt8.toNat_inj]
  omega

theorem pixelDistance_le_iff (bound : Nat) :
    pixelDistance p q ≤ bound ↔ ∀ i, byteDistance p q i ≤ bound := by
  have hd : pixelDistance p q =
      max (max (channelDistance (byteOf p 3) (byteOf q 3))
          (channelDistance (byteOf p 2) (byteOf q 2)))
        (max (channelDistance (byteOf p 1) (byteOf q 1))
          (channelDistance (byteOf p 0) (byteOf q 0))) := rfl
  rw [hd]
  simp only [channelDistance_byteOf, Nat.max_le, Fin.forall_fin_succ]
  constructor
  · rintro ⟨⟨h₃, h₂⟩, h₁, h₀⟩
    exact ⟨h₀, h₁, h₂, h₃, fun i => i.elim0⟩
  · rintro ⟨h₀, h₁, h₂, h₃, -⟩
    exact ⟨⟨h₃, h₂⟩, h₁, h₀⟩

theorem toNat_shown (d : Nat) :
    (shown d).toNat = if d = 0 then 0 else min 255 (4 * d + 128) := by
  rw [shown]
  by_cases hd : d = 0
  · rw [if_pos hd, if_pos hd]
    rfl
  · rw [if_neg hd, if_neg hd, UInt8.toNat_ofNat_of_lt' (Nat.lt_succ_of_le (Nat.min_le_left _ _)),
      Nat.mul_comm]

theorem shown_eq_zero_iff (d : Nat) : shown d = 0 ↔ d = 0 := by
  rw [← UInt8.toNat_inj, toNat_shown, UInt8.toNat_zero]
  split <;> omega

theorem byteOf_toWord (c : Argb) :
    byteOf c.toWord 0 = c.blue ∧ byteOf c.toWord 1 = c.green ∧ byteOf c.toWord 2 = c.red ∧
      byteOf c.toWord 3 = c.alpha := by
  have hw := c.ofWord_toWord
  exact ⟨congrArg Argb.blue hw, congrArg Argb.green hw, congrArg Argb.red hw,
    congrArg Argb.alpha hw⟩

end Bytes

section Drawn

variable (p q : UInt32)

def SameColours : Prop := ∀ i : Fin 4, i ≠ 3 → byteOf p i = byteOf q i

instance : Decidable (SameColours p q) := inferInstanceAs (Decidable (∀ _, _ → _))

theorem sameColours_iff :
    SameColours p q ↔ (strengths p q).red = 0 ∧ (strengths p q).green = 0 ∧
      (strengths p q).blue = 0 := by
  have hred : (strengths p q).red = shown (channelDistance (byteOf p 2) (byteOf q 2)) := rfl
  have hgreen : (strengths p q).green = shown (channelDistance (byteOf p 1) (byteOf q 1)) := rfl
  have hblue : (strengths p q).blue = shown (channelDistance (byteOf p 0) (byteOf q 0)) := rfl
  simp only [hred, hgreen, hblue, shown_eq_zero_iff, channelDistance_byteOf,
    byteDistance_eq_zero_iff]
  constructor
  · exact fun hs => ⟨hs 2 (by decide), hs 1 (by decide), hs 0 (by decide)⟩
  · rintro ⟨h₂, h₁, h₀⟩ i hi
    obtain rfl | rfl | rfl : i = 0 ∨ i = 1 ∨ i = 2 := by omega
    · exact h₀
    · exact h₁
    · exact h₂

theorem byteOf_drawn_alpha : byteOf (drawn p q) 3 = 255 := by
  rw [drawn_eq]
  split
  · exact (byteOf_toWord _).2.2.2
  · exact (byteOf_toWord _).2.2.2

theorem byteOf_drawn {i : Fin 4} (hi : i ≠ 3) :
    byteOf (drawn p q) i =
      shown (if SameColours p q then byteDistance p q 3 else byteDistance p q i) := by
  have hi : i = 0 ∨ i = 1 ∨ i = 2 := by omega
  rw [drawn_eq]
  by_cases hs : SameColours p q
  · rw [if_pos hs, if_pos ((sameColours_iff p q).mp hs), ← channelDistance_byteOf]
    obtain ⟨h₀, h₁, h₂, -⟩ := byteOf_toWord
      ⟨255, (strengths p q).alpha, (strengths p q).alpha, (strengths p q).alpha⟩
    obtain rfl | rfl | rfl := hi
    · exact h₀
    · exact h₁
    · exact h₂
  · rw [if_neg hs, if_neg (mt (sameColours_iff p q).mpr hs), ← channelDistance_byteOf]
    obtain ⟨h₀, h₁, h₂, -⟩ := byteOf_toWord { strengths p q with alpha := 255 }
    obtain rfl | rfl | rfl := hi
    · exact h₀
    · exact h₁
    · exact h₂

/-- A changed pixel is never drawn black. -/
theorem drawn_eq_black_iff : drawn p q = 0xff000000 ↔ p = q := by
  refine ⟨fun hd => ?_, fun he => he ▸ drawn_self q⟩
  have hblack : ∀ i : Fin 4, i ≠ 3 → byteOf 0xff000000 i = 0 := by decide
  have hz {i : Fin 4} (hi : i ≠ 3) :
      (if SameColours p q then byteDistance p q 3 else byteDistance p q i) = 0 := by
    rw [← shown_eq_zero_iff, ← byteOf_drawn p q hi, hd, hblack i hi]
  by_cases hs : SameColours p q
  · have h₃ := hz (i := 0) (by decide)
    rw [if_pos hs, byteDistance_eq_zero_iff] at h₃
    rw [eq_iff_bytes]
    intro i
    by_cases hi : i = 3
    · rw [hi, h₃]
    · exact hs i hi
  · refine absurd (fun i hi => ?_) hs
    have hi := hz hi
    rwa [if_neg hs, byteDistance_eq_zero_iff] at hi

theorem drawn_comm : drawn p q = drawn q p := by
  have hs : SameColours p q ↔ SameColours q p :=
    ⟨fun hs i hi => (hs i hi).symm, fun hs i hi => (hs i hi).symm⟩
  rw [eq_iff_bytes]
  intro i
  by_cases hi : i = 3
  · rw [hi, byteOf_drawn_alpha, byteOf_drawn_alpha]
  · rw [byteOf_drawn p q hi, byteOf_drawn q p hi, byteDistance_comm, byteDistance_comm p q i]
    simp only [hs]

end Drawn

/-- How the difference of two pixels is to be drawn: opaque, black exactly if they are equal, each
colour by its distance, and grey by the distance in alpha where the colours agree. -/
structure Draws (p q drawing : UInt32) : Prop where
  alpha : byteOf drawing 3 = 255
  black : drawing = 0xff000000 ↔ p = q
  colours : (∃ i, i ≠ 3 ∧ byteOf p i ≠ byteOf q i) → ∀ i, i ≠ 3 →
    (byteOf drawing i).toNat =
      if byteOf p i = byteOf q i then 0 else min 255 (4 * byteDistance p q i + 128)
  grey : p ≠ q → (∀ i, i ≠ 3 → byteOf p i = byteOf q i) → ∀ i, i ≠ 3 →
    (byteOf drawing i).toNat = min 255 (4 * byteDistance p q 3 + 128)

theorem draws_drawn (p q : UInt32) : Draws p q (drawn p q) where
  alpha := byteOf_drawn_alpha p q
  black := drawn_eq_black_iff p q
  colours := by
    rintro ⟨j, hj, hne⟩ i hi
    have hs : ¬SameColours p q := fun hs => hne (hs j hj)
    rw [byteOf_drawn p q hi, if_neg hs, toNat_shown]
    simp only [byteDistance_eq_zero_iff]
  grey := by
    intro hne (hs : SameColours p q) i hi
    have h₃ : byteDistance p q 3 ≠ 0 := by
      rw [ne_eq, byteDistance_eq_zero_iff]
      intro h₃
      refine hne ((eq_iff_bytes p q).mpr fun j => ?_)
      by_cases hj : j = 3
      · rw [hj, h₃]
      · exact hs j hj
    rw [byteOf_drawn p q hi, if_pos hs, toNat_shown, if_neg h₃]

namespace Difference

variable {w h : Nat} (p q : Plane UInt32 w h)

/-- Where two planes of pixels differ. -/
def differing : Finset (Fin w × Fin h) :=
  Finset.univ.filter fun xy => p.get xy.1 xy.2 ≠ q.get xy.1 xy.2

theorem differing_comm : differing p q = differing q p := by
  simp only [differing, ne_comm]

theorem differing_eq_empty_iff : differing p q = ∅ ↔ ∀ x y, p.get x y = q.get x y := by
  simp [differing, Finset.filter_eq_empty_iff]

/-- What the pairs of pixels add up to: how many differ, and the greatest distance. -/
theorem foldl_step (l : List (UInt32 × UInt32)) (s : Nat × Nat) :
    l.foldl step s = (s.1 + l.countP fun pq => pq.1 ≠ pq.2,
      l.foldl (fun m pq => max m (pixelDistance pq.1 pq.2)) s.2) := by
  induction l generalizing s with
  | nil => rfl
  | cons pq l ih =>
    rw [List.foldl_cons, ih, List.countP_cons, List.foldl_cons]
    by_cases he : pq.1 = pq.2
    · simp [step, he]
    · simp [step, he, Nat.add_assoc, Nat.add_comm 1]

theorem changed_ofPlanes : (ofPlanes p q).changed = (differing p q).card := by
  have hc : (ofPlanes p q).changed = ((p.toList.zip q.toList).foldl step (0, 0)).1 := rfl
  rw [hc, foldl_step, Plane.toList_zip, Plane.countP_toList, differing, Nat.zero_add]
  simp only [Plane.get_ofFn, decide_eq_true_eq]

theorem greatest_ofPlanes_le_iff (bound : Nat) :
    (ofPlanes p q).greatest ≤ bound ↔
      ∀ x y i, byteDistance (p.get x y) (q.get x y) i ≤ bound := by
  have hg : (ofPlanes p q).greatest = ((p.toList.zip q.toList).foldl step (0, 0)).2 := rfl
  rw [hg, foldl_step, Plane.toList_zip,
    foldl_max_le_iff (fun pq : UInt32 × UInt32 => pixelDistance pq.1 pq.2)]
  simp only [Nat.zero_le, true_and, Plane.mem_toList, Plane.get_ofFn, pixelDistance_le_iff]
  constructor
  · exact fun hb x y i => hb _ ⟨x, y, rfl⟩ i
  · rintro hb _ ⟨x, y, rfl⟩ i
    exact hb x y i

theorem greatest_ofPlanes :
    (ofPlanes p q).greatest = Finset.univ.sup fun xyi : (Fin w × Fin h) × Fin 4 =>
      byteDistance (p.get xyi.1.1 xyi.1.2) (q.get xyi.1.1 xyi.1.2) xyi.2 := by
  apply eq_of_forall_ge_iff
  intro bound
  rw [greatest_ofPlanes_le_iff, Finset.sup_le_iff]
  exact ⟨fun hb xyi _ => hb _ _ _, fun hb x y i => hb ((x, y), i) (Finset.mem_univ _)⟩

theorem greatest_ofPlanes_eq_zero_iff :
    (ofPlanes p q).greatest = 0 ↔ ∀ x y, p.get x y = q.get x y := by
  rw [← Nat.le_zero, greatest_ofPlanes_le_iff]
  simp only [Nat.le_zero, byteDistance_eq_zero_iff, eq_iff_bytes]

/-- The picture that is drawn. -/
def drawing : Plane UInt32 w h := .ofFn fun x y => drawn (p.get x y) (q.get x y)

theorem drawing_comm : drawing p q = drawing q p := by
  simp only [drawing, drawn_comm]

theorem ofPlanes_eq :
    ofPlanes p q = ⟨(ofPlanes p q).changed, (ofPlanes p q).greatest, ⟨w, h, drawing p q⟩⟩ := rfl

theorem ofPlanes_comm : ofPlanes p q = ofPlanes q p := by
  have hg : (ofPlanes p q).greatest = (ofPlanes q p).greatest := by
    simp only [greatest_ofPlanes, byteDistance_comm]
  rw [ofPlanes_eq p q, ofPlanes_eq q p, changed_ofPlanes, changed_ofPlanes, differing_comm,
    drawing_comm, hg]

theorem card_not_black : (Finset.univ.filter fun xy : Fin w × Fin h =>
    (drawing p q).get xy.1 xy.2 ≠ 0xff000000).card = (differing p q).card := by
  simp only [drawing, Plane.get_ofFn, ne_eq, drawn_eq_black_iff, differing]

end Difference

namespace Bitmap

variable {w h : Nat} {a b : Bitmap} (ha : a.width = w ∧ a.height = h)
  (hb : b.width = w ∧ b.height = h)

theorem difference_eq_ofPlanes :
    a.picture.difference b.picture = .ok (.ofPlanes (a.plane ha) (b.plane hb)) := by
  obtain ⟨rfl, rfl⟩ := ha
  have hs : a.picture.SameSize b.picture := hb
  rw [Picture.difference, dif_pos hs]
  rfl

theorem identical_iff_planes :
    a.picture.identical b.picture = true ↔
      ∀ x y, (a.plane ha).get x y = (b.plane hb).get x y := by
  obtain ⟨rfl, rfl⟩ := ha
  have hs : a.picture.SameSize b.picture := hb
  rw [Picture.identical_iff]
  exact ⟨fun ⟨_, he⟩ => he, fun he => ⟨hs, he⟩⟩

include ha hb in
/-- Count, greatest distance and drawing of an exact difference say the same, place by place, as
whether the pictures are identical; the order of the pictures does not matter, and on buffers that
can be addressed nothing traps. -/
theorem difference_agrees_with_itself :
    ∃ (changed greatest : Nat) (drawing : Plane UInt32 w h),
      a.picture.difference b.picture = .ok ⟨changed, greatest, ⟨w, h, drawing⟩⟩ ∧
      b.picture.difference a.picture = .ok ⟨changed, greatest, ⟨w, h, drawing⟩⟩ ∧
      (a.Addressable → b.Addressable → checkedDifference a b =
        .ok (.ok ⟨changed, greatest, drawing.toList.toArray⟩)) ∧
      changed = (Finset.univ.filter fun xy : Fin w × Fin h =>
        a.word? xy.1 xy.2 ≠ b.word? xy.1 xy.2).card ∧
      greatest = (Finset.univ.sup fun xyi : (Fin w × Fin h) × Fin 4 =>
        byteDistance ((a.plane ha).get xyi.1.1 xyi.1.2) ((b.plane hb).get xyi.1.1 xyi.1.2)
          xyi.2) ∧
      drawing.toList.length = w * h ∧
      (∀ (x : Fin w) (y : Fin h), ∃ p q, a.word? x y = some p ∧ b.word? x y = some q ∧
        ∃ d, drawing.toList[y.val * w + x.val]? = some d ∧ Draws p q d) ∧
      (drawing.toList.countP fun d => d ≠ 0xff000000) = changed ∧
      (a.picture.identical b.picture = true ↔ changed = 0) ∧
      (changed = 0 ↔ greatest = 0) ∧
      (greatest = 0 ↔ ∀ d ∈ drawing.toList, d = 0xff000000) := by
  let p := a.plane ha
  let q := b.plane hb
  have hequal : (∀ x y, p.get x y = q.get x y) ↔ (Difference.ofPlanes p q).changed = 0 := by
    rw [Difference.changed_ofPlanes, Finset.card_eq_zero, Difference.differing_eq_empty_iff]
  refine ⟨(Difference.ofPlanes p q).changed, (Difference.ofPlanes p q).greatest,
    Difference.drawing p q, difference_eq_ofPlanes ha hb, ?_, fun hla hlb => ?_, ?_,
    Difference.greatest_ofPlanes p q, Plane.length_toList _, fun x y => ?_, ?_, ?_, ?_, ?_⟩
  · rw [difference_eq_ofPlanes hb ha, Difference.ofPlanes_comm]
    rfl
  · rw [checkedDifference_eq a b hla hlb, difference_eq_ofPlanes ha hb]
    rfl
  · rw [Difference.changed_ofPlanes, Difference.differing]
    simp only [a.word?_eq_get_plane ha, b.word?_eq_get_plane hb, ne_eq, Option.some.injEq]
    rfl
  · refine ⟨p.get x y, q.get x y, a.word?_eq_get_plane ha x y, b.word?_eq_get_plane hb x y,
      drawn (p.get x y) (q.get x y), ?_, draws_drawn _ _⟩
    rw [Plane.toList_getElem?, Difference.drawing, Plane.get_ofFn]
  · rw [Plane.countP_toList, Difference.changed_ofPlanes, ← Difference.card_not_black]
    simp only [decide_eq_true_eq]
  · rw [identical_iff_planes ha hb]
    exact hequal
  · rw [Difference.greatest_ofPlanes_eq_zero_iff]
    exact hequal.symm
  · rw [Difference.greatest_ofPlanes_eq_zero_iff]
    simp only [Plane.mem_toList, Difference.drawing, Plane.get_ofFn, forall_exists_index]
    constructor
    · rintro he _ x y rfl
      rw [drawn_eq_black_iff, he]
    · exact fun he x y => (drawn_eq_black_iff _ _).mp (he _ x y rfl)

/-- One step of alpha, in the last of sixteen black pixels, is drawn as a visible grey. -/
theorem faint_alpha_is_drawn_grey :
    ((blackRow 0).width = 16 ∧ (blackRow 0).height = 1) ∧
    ((blackRow 1).width = 16 ∧ (blackRow 1).height = 1) ∧
    ∃ (greatest : Nat) (drawing : Plane UInt32 16 1),
      (blackRow 0).picture.difference (blackRow 1).picture =
        .ok ⟨1, greatest, ⟨16, 1, drawing⟩⟩ ∧
      greatest ≠ 0 ∧
      ∃ d, drawing.toList[15]? = some d ∧ ∀ i, i ≠ 3 → (byteOf d i).toNat = 132 := by
  have hs (last : UInt8) : (blackRow last).width = 16 ∧ (blackRow last).height = 1 := ⟨rfl, rfl⟩
  obtain ⟨changed, greatest, drawing, hd, -, -, hc, -, -, hdraws, -, -, hz, -⟩ :=
    difference_agrees_with_itself (hs 0) (hs 1)
  have hone : changed = 1 := hc.trans (by decide +kernel)
  obtain ⟨p, q, hp, hq, d, hdp, hpq⟩ := hdraws ⟨15, by decide⟩ ⟨0, by decide⟩
  obtain rfl : 0 = p := Option.some.inj hp
  obtain rfl : 0x1000000 = q := Option.some.inj hq
  refine ⟨hs 0, hs 1, greatest, drawing, hone ▸ hd, ?_, d, hdp, fun i hi => ?_⟩
  · rw [ne_eq, ← hz, hone]
    decide
  · exact hpq.grey (by decide) (by decide) i hi

end Bitmap

end VisibleDifference
