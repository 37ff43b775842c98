import VisibleDifference.Workbench
import VisibleDifference.Main
import VisibleDifference.Text.Hidden
import VisibleDifference.Text.Quoted
import VisibleDifference.Proofs.Checked.Basic
import VisibleDifference.Proofs.Checked.Rows
import VisibleDifference.Proofs.Words
import VisibleDifference.Proofs.Borders
import VisibleDifference.Proofs.Checked.Bands
import VisibleDifference.Proofs.Checked.Colours
import VisibleDifference.Proofs.Checked.Comparison
import VisibleDifference.Proofs.Faults
import VisibleDifference.Proofs.Locality
import VisibleDifference.Proofs.Safety
import VisibleDifference.Proofs.Verdict
import VisibleDifference.Proofs.Maps
import VisibleDifference.Proofs.Drawing
import VisibleDifference.Proofs.Single.Forms
import VisibleDifference.Proofs.Single.Signs
import VisibleDifference.Proofs.Symmetry
import VisibleDifference.Proofs.RowOrder
import VisibleDifference.Proofs.Mirrors
import VisibleDifference.Proofs.Checked.Access
import VisibleDifference.Proofs.Single.Reading
import VisibleDifference.Proofs.Single.Rounding
import VisibleDifference.Proofs.Single.Operations
import VisibleDifference.Proofs.Single.Order
import VisibleDifference.Proofs.Single.Ranges
import VisibleDifference.Proofs.Single.Powers
import VisibleDifference.Proofs.Blurring
import VisibleDifference.Proofs.Ranges.Colours
import VisibleDifference.Proofs.Ranges.Levels
import VisibleDifference.Proofs.Ranges.Sensitivity
import VisibleDifference.Proofs.Ranges.Elevation
import VisibleDifference.Proofs.Unchanged
import VisibleDifference.Proofs.Flagged
import VisibleDifference.Proofs.Unread
import VisibleDifference.Proofs.CommandLine.Saved
import VisibleDifference.Proofs.Exact.Orientation
import VisibleDifference.Proofs.Exact.Brightness
import VisibleDifference.Proofs.Exact.Averages
import VisibleDifference.Proofs.Ranges.Amounts
import VisibleDifference.Proofs.Exact.Contrasts
import VisibleDifference.Proofs.Opacity
import VisibleDifference.Proofs.Ranges.Overflow
import VisibleDifference.Proofs.Threshold
import VisibleDifference.Proofs.Folding
import VisibleDifference.Proofs.Double.Rounding
import VisibleDifference.Proofs.Double.Circle
import VisibleDifference.Proofs.Double.Tangent
import VisibleDifference.Proofs.Double.Extents
import VisibleDifference.Proofs.Bands
