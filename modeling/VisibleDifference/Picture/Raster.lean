import VisibleDifference.Picture.Basic

/-!
# Rasters

Pictures as files hold them: straight colour and alpha. Reading one multiplies the colours by
alpha; a stored picture is written with its channels as they are.
-/

namespace VisibleDifference

structure Raster where
  width : Nat
  height : Nat
  pixels : Plane Rgba width height

namespace Raster

def picture (r : Raster) : Picture :=
  ⟨r.width, r.height, r.pixels.map fun p => p.premultiplied.toWord⟩

def ofPicture (p : Picture) : Raster :=
  ⟨p.width, p.height, p.words.map fun word => Rgba.ofArgb (Argb.ofWord word)⟩

def SameSize (a b : Raster) : Prop := b.width = a.width ∧ b.height = a.height

instance (a b : Raster) : Decidable (a.SameSize b) :=
  inferInstanceAs (Decidable (_ ∧ _))

end Raster

end VisibleDifference
