import VisibleDifference.Comparison.Verdict
import VisibleDifference.Proofs.Borders
import VisibleDifference.Proofs.Faults
import VisibleDifference.Proofs.Marking
import VisibleDifference.Proofs.SamePixels

/-!
# Locality of visible differences

Each blur carries a value two columns and two rows, so the highest of eight levels shows what lies
up to fourteen away, at borders and in narrow pictures as well. Whether a pixel looks different is
decided by the levels at its place and by its own colours, hence by the words around it. No law of
arithmetic is used: equal values go through equal computations.
-/

namespace VisibleDifference

namespace Plane

variable {α β : Type} {w h : Nat}

/-- Two planes have the same values up to `r` columns and rows away from a place. -/
def AgreesNear (r : Nat) (p q : Plane α w h) (x : Fin w) (y : Fin h) : Prop :=
  ∀ (x' : Fin w) (y' : Fin h), Within r x x' → Within r y y' → p.get x' y' = q.get x' y'

namespace AgreesNear

variable {r s : Nat} {p q : Plane α w h} {x : Fin w} {y : Fin h}

theorem get_eq (he : AgreesNear r p q x y) : p.get x y = q.get x y :=
  he x y (Within.refl.mono (Nat.zero_le r)) (Within.refl.mono (Nat.zero_le r))

theorem mono (hr : r ≤ s) (he : AgreesNear s p q x y) : AgreesNear r p q x y :=
  fun x' y' hx hy => he x' y' (hx.mono hr) (hy.mono hr)

theorem of_within {x' : Fin w} {y' : Fin h} (hx : Within r x x') (hy : Within r y y')
    (he : AgreesNear (r + s) p q x y) : AgreesNear s p q x' y' :=
  fun x'' y'' hx' hy' => he x'' y'' (hx.trans hx') (hy.trans hy')

theorem map (f : α → β) (he : AgreesNear r p q x y) : AgreesNear r (p.map f) (q.map f) x y := by
  intro x' y' hx hy
  rw [get_map, get_map, he x' y' hx hy]

end AgreesNear

variable [MulAdd α] {p q : Plane α w h} {x : Fin w} {y : Fin h}

theorem tapOffset_natAbs_le (i : Fin 5) : (tapOffset i).natAbs ≤ 2 := by
  have hi := i.isLt
  simp only [tapOffset]
  omega

/-- A blurred value is made of values at most two away. -/
theorem tapSum_congr (k : Kernel α) (he : AgreesNear 2 p q x y) :
    p.tapSum k x y = q.tapSum k x y := by
  have htap (r c : Fin 5) :
      p.get (neighbour x (tapOffset c)) (neighbour y (tapOffset r)) =
        q.get (neighbour x (tapOffset c)) (neighbour y (tapOffset r)) :=
    he _ _ ((neighbour_within x _).mono (tapOffset_natAbs_le c))
      ((neighbour_within y _).mono (tapOffset_natAbs_le r))
  simp only [tapSum, htap]

theorem AgreesNear.blur {r : Nat} (k : Kernel α) (he : AgreesNear (r + 2) p q x y) :
    AgreesNear r (p.blur k) (q.blur k) x y := by
  intro x' y' hx hy
  rw [get_blur, get_blur]
  exact tapSum_congr k (he.of_within hx hy)

end Plane

namespace Pyramid

variable {α : Type} [MulAdd α] {w h : Nat} {p q : Plane α w h} {x : Fin w} {y : Fin h}

/-- Level `l` shows what lies up to `2 * l` away. -/
theorem level_agreesNear (k : Kernel α) (r : Nat) (l : Fin levelCount)
    (he : Plane.AgreesNear (r + 2 * l.val) p q x y) :
    Plane.AgreesNear r ((of k p).level l) ((of k q).level l) x y := by
  obtain ⟨l, hl⟩ := l
  induction l generalizing r with
  | zero =>
    rw [level_of_zero k p _ rfl, level_of_zero k q _ rfl]
    exact he
  | succ l ih =>
    have hl' : l < levelCount := Nat.lt_of_succ_lt hl
    rw [level_of_succ k p (l := ⟨l, hl'⟩) rfl, level_of_succ k q (l := ⟨l, hl'⟩) rfl]
    -- the level below has to agree two columns and rows further out
    apply Plane.AgreesNear.blur
    apply ih (r + 2) hl'
    rw [Nat.add_assoc, Nat.add_comm 2]
    exact he

theorem value_congr (k : Kernel α) (l : Fin levelCount) (he : Plane.AgreesNear 14 p q x y) :
    (of k p).value l x y = (of k q).value l x y := by
  have hl : l.val < 8 := l.isLt
  exact (level_agreesNear k 0 l (he.mono (by omega))).get_eq

end Pyramid

theorem bandContrast_congr {w h : Nat} {p p' q q' : Pyramid Float32 w h} {x : Fin w} {y : Fin h}
    (floor : Float32) (hp : ∀ l, p.value l x y = p'.value l x y)
    (hq : ∀ l, q.value l x y = q'.value l x y) :
    bandContrast floor p q x y = bandContrast floor p' q' x y := by
  funext i
  simp only [bandContrast, hp, hq]

namespace Viewing

variable {w h : Nat}

/-- Whether a pixel looks different is decided at its place. -/
theorem differs_congr {v v' : Viewing w h} {x : Fin w} {y : Fin h} (hb : v.bands = v'.bands)
    (hl : ∀ l, v.leftScales.value l x y = v'.leftScales.value l x y)
    (hr : ∀ l, v.rightScales.value l x y = v'.rightScales.value l x y)
    (hla : v.left.a.get x y = v'.left.a.get x y) (hlb : v.left.b.get x y = v'.left.b.get x y)
    (hra : v.right.a.get x y = v'.right.a.get x y) (hrb : v.right.b.get x y = v'.right.b.get x y) :
    v.differs x y = v'.differs x y := by
  have hc : v.contrasts x y = v'.contrasts x y := by
    rw [contrasts, contrasts, bandContrast_congr darkest hl hr]
  have ha : v.adaptation x y = v'.adaptation x y := by
    simp only [adaptation, hb, hl, hr]
  have hf : v.factor x y = v'.factor x y := by
    rw [factor, factor, hb, hc, ha]
  have hlum : v.luminanceDistance x y = v'.luminanceDistance x y := by
    rw [luminanceDistance, luminanceDistance, hl, hr]
  have hcol : v.colourDistance x y = v'.colourDistance x y := by
    simp only [colourDistance, hla, hlb, hra, hrb, ha]
  simp only [differs, hf, hlum, hcol, ha]

/-- Two planes of pixels as they are seen under given conditions. -/
def under (c : Conditions) (left right : Plane UInt32 w h) : Viewing w h :=
  of (Appearance.of c.gamma c.luminance left) (Appearance.of c.gamma c.luminance right)
    c.fieldOfView

theorem differs_under_congr (c : Conditions) {left left' right right' : Plane UInt32 w h}
    {x : Fin w} {y : Fin h} (hl : Plane.AgreesNear 14 left left' x y)
    (hr : Plane.AgreesNear 14 right right' x y) :
    (under c left right).differs x y = (under c left' right').differs x y := by
  apply differs_congr
  · rfl
  · exact fun l => Pyramid.value_congr _ l ((hl.map _).map _)
  · exact fun l => Pyramid.value_congr _ l ((hr.map _).map _)
  · exact ((hl.map _).map _).get_eq
  · exact ((hl.map _).map _).get_eq
  · exact ((hr.map _).map _).get_eq
  · exact ((hr.map _).map _).get_eq

end Viewing

namespace Bitmap

open Picture (perceive)

variable {w h : Nat}

def plane (b : Bitmap) (hs : b.width = w ∧ b.height = h) : Plane UInt32 w h :=
  b.picture.words.cast hs.1 hs.2

theorem word?_eq_get_plane (b : Bitmap) (hs : b.width = w ∧ b.height = h) (x : Fin w)
    (y : Fin h) : b.word? x.val y.val = some ((b.plane hs).get x y) := by
  obtain ⟨rfl, rfl⟩ := hs
  rw [b.word?_eq_some x y, ← get_picture]
  rfl

theorem perceive_eq_find {c : Conditions} {a b : Bitmap} (hv : c.validate = .ok ())
    (ha : a.width = w ∧ a.height = h) (hb : b.width = w ∧ b.height = h) :
    perceive c a.picture b.picture =
      .ok ((Viewing.under c (a.plane ha) (b.plane hb)).find c.wantsMap) := by
  obtain ⟨rfl, rfl⟩ := ha
  have hs : a.picture.SameSize b.picture := hb
  exact Picture.perceive_of_sameSize hv hs

theorem agreesNear_plane {a a' : Bitmap} (ha : a.width = w ∧ a.height = h)
    (ha' : a'.width = w ∧ a'.height = h) {r : Nat} {x : Fin w} {y : Fin h}
    (he : ∀ x' < w, ∀ y' < h, Within r x x' → Within r y y' → a.word? x' y' = a'.word? x' y') :
    Plane.AgreesNear r (a.plane ha) (a'.plane ha') x y := by
  intro x' y' hx hy
  have hw := he x' x'.isLt y' y'.isLt hx hy
  rw [a.word?_eq_get_plane ha, a'.word?_eq_get_plane ha', Option.some.injEq] at hw
  exact hw

/-- The places up to fourteen columns and rows away from one where the first or the second picture
has been changed. -/
def nearChange (w h : Nat) (a b a' b' : Bitmap) : Finset (Fin w × Fin h) :=
  Finset.univ.filter fun p => ∃ (x' : Fin w) (y' : Fin h), Within 14 p.1 x' ∧ Within 14 p.2 y' ∧
    (a.word? x' y' ≠ a'.word? x' y' ∨ b.word? x' y' ≠ b'.word? x' y')

theorem mem_nearChange_of_ne {a b a' b' : Bitmap} {x : Fin w} {y : Fin h} (x' : Fin w)
    (y' : Fin h) (hx : Within 14 x x') (hy : Within 14 y y')
    (hne : a.word? x' y' ≠ a'.word? x' y' ∨ b.word? x' y' ≠ b'.word? x' y') :
    (x, y) ∈ nearChange w h a b a' b' := by
  rw [nearChange, Finset.mem_filter]
  exact ⟨Finset.mem_univ _, x', y', hx, hy, hne⟩

theorem nearChange_symm (a b a' b' : Bitmap) :
    nearChange w h a' b' a b = nearChange w h a b a' b' := by
  simp only [nearChange, ne_comm]

section Runs

variable (c : Conditions) {a b a' b' : Bitmap} (ha : a.width = w ∧ a.height = h)
  (hb : b.width = w ∧ b.height = h) (ha' : a'.width = w ∧ a'.height = h)
  (hb' : b'.width = w ∧ b'.height = h)

theorem differs_eq_of_words {x : Fin w} {y : Fin h}
    (he : ∀ x' < w, ∀ y' < h, Within 14 x x' → Within 14 y y' →
      a.word? x' y' = a'.word? x' y' ∧ b.word? x' y' = b'.word? x' y') :
    (Viewing.under c (a.plane ha) (b.plane hb)).differs x y =
      (Viewing.under c (a'.plane ha') (b'.plane hb')).differs x y :=
  Viewing.differs_under_congr c
    (agreesNear_plane ha ha' fun x' hx' y' hy' hx hy => (he x' hx' y' hy' hx hy).1)
    (agreesNear_plane hb hb' fun x' hx' y' hy' hx hy => (he x' hx' y' hy' hx hy).2)

/-- What looks different after a change did so before, or is near the change. -/
theorem visible_subset :
    (Viewing.under c (a.plane ha) (b.plane hb)).visible ⊆
      (Viewing.under c (a'.plane ha') (b'.plane hb')).visible ∪ nearChange w h a b a' b' := by
  rintro ⟨x, y⟩ hp
  rw [Finset.mem_union]
  by_cases hn : (x, y) ∈ nearChange w h a b a' b'
  · exact .inr hn
  · left
    rw [Viewing.mem_visible] at hp ⊢
    rw [← differs_eq_of_words c ha hb ha' hb']
    · exact hp
    · intro x' hx' y' hy' hx hy
      by_contra hne
      rw [not_and_or] at hne
      exact hn (mem_nearChange_of_ne ⟨x', hx'⟩ ⟨y', hy'⟩ hx hy hne)

theorem card_visible_le :
    (Viewing.under c (a.plane ha) (b.plane hb)).visible.card ≤
      (Viewing.under c (a'.plane ha') (b'.plane hb')).visible.card +
        (nearChange w h a b a' b').card :=
  (Finset.card_le_card (visible_subset c ha hb ha' hb')).trans (Finset.card_union_le _ _)

end Runs

/-- Flags are equal where the words around are, and so the numbers of set flags differ at most by
the number of places near a change. -/
theorem flags_depend_on_nearby_words {c : Conditions} (hv : c.validate = .ok ())
    {a b a' b' : Bitmap} (ha : a.width = w ∧ a.height = h) (hb : b.width = w ∧ b.height = h)
    (ha' : a'.width = w ∧ a'.height = h) (hb' : b'.width = w ∧ b'.height = h) :
    ∃ f f', perceive c a.picture b.picture = .ok f ∧ perceive c a'.picture b'.picture = .ok f' ∧
      (c.wantsMap = true → ∃ m m', f.map = some m ∧ f'.map = some m' ∧
        (m.width = w ∧ m.height = h) ∧ (m'.width = w ∧ m'.height = h) ∧
        ∀ x < w, ∀ y < h,
          (∀ x' < w, ∀ y' < h, Within 14 x x' → Within 14 y y' →
            a.word? x' y' = a'.word? x' y' ∧ b.word? x' y' = b'.word? x' y') →
          m.isMarked? x y = m'.isMarked? x y) ∧
      f.count ≤ f'.count + (nearChange w h a b a' b').card ∧
      f'.count ≤ f.count + (nearChange w h a b a' b').card := by
  refine ⟨_, _, perceive_eq_find hv ha hb, perceive_eq_find hv ha' hb', ?_, ?_, ?_⟩
  · intro hm
    simp only [Viewing.find_eq, hm, if_true]
    refine ⟨_, _, rfl, rfl, ⟨rfl, rfl⟩, ⟨rfl, rfl⟩, fun x hx y hy he => ?_⟩
    have hd := differs_eq_of_words c ha hb ha' hb' (x := ⟨x, hx⟩) (y := ⟨y, hy⟩) he
    rw [DifferenceMap.isMarked?, dif_pos ⟨hx, hy⟩, DifferenceMap.isMarked?, dif_pos ⟨hx, hy⟩]
    simp only [Plane.get_ofFn, hd]
  · rw [Viewing.find_eq, Viewing.find_eq]
    exact card_visible_le c ha hb ha' hb'
  · rw [Viewing.find_eq, Viewing.find_eq, ← nearChange_symm]
    exact card_visible_le c ha' hb' ha hb

/-- Sixteen pixels in one row, black but for the last byte. -/
def blackRow (last : UInt8) : Bitmap where
  bytes := ⟨(Array.replicate 63 0).push last⟩
  width := 16
  height := 1
  stride := 64
  row_le := by decide
  needed_le := by simp [bytesNeeded, ByteArray.size]

theorem word?_blackRow : ∀ x < 15, (blackRow 0).word? x 0 = (blackRow 1).word? x 0 := by
  decide +kernel

/-- A change of the last of sixteen pixels does not reach the first. -/
theorem first_flag_of_sixteen_is_kept :
    ∃ f f' m m', perceive { wantsMap := true } (blackRow 0).picture (blackRow 0).picture = .ok f ∧
      perceive { wantsMap := true } (blackRow 1).picture (blackRow 0).picture = .ok f' ∧
      f.map = some m ∧ f'.map = some m' ∧ m.isMarked? 0 0 = m'.isMarked? 0 0 ∧
      (blackRow 0).word? 15 0 ≠ (blackRow 1).word? 15 0 := by
  have hv : ({ wantsMap := true } : Conditions).validate = .ok () := by rfl
  have hs (last : UInt8) : (blackRow last).width = 16 ∧ (blackRow last).height = 1 := ⟨rfl, rfl⟩
  obtain ⟨f, f', hf, hf', hm, -⟩ := flags_depend_on_nearby_words hv (hs 0) (hs 0) (hs 1) (hs 0)
  obtain ⟨m, m', hm, hm', -, -, he⟩ := hm rfl
  refine ⟨f, f', m, m', hf, hf', hm, hm', he 0 (by decide) 0 (by decide) ?_, by decide⟩
  intro x' _ y' _ hx _
  obtain rfl : y' = 0 := by omega
  have hx' : x' < 15 := by
    have := hx.2
    omega
  exact ⟨word?_blackRow x' hx', rfl⟩

end Bitmap

end VisibleDifference
