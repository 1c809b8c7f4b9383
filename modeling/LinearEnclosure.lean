import LinearEnclosure.Main
import LinearEnclosure.Proofs.Binary.NormalForm
import LinearEnclosure.Proofs.Binary.Residual
import LinearEnclosure.Proofs.Binary.ThreeReadings
import LinearEnclosure.Proofs.CommandLine
import LinearEnclosure.Proofs.Decimal.DoubleRounding
import LinearEnclosure.Proofs.Interval.Conversion
import LinearEnclosure.Proofs.Interval.Midpoint
import LinearEnclosure.Proofs.Interval.Outward
import LinearEnclosure.Proofs.Interval.Printing
import LinearEnclosure.Proofs.Interval.ReadingDirections
import LinearEnclosure.Proofs.Interval.Reversal
import LinearEnclosure.Proofs.Interval.ReversedText
import LinearEnclosure.Proofs.Interval.RoundTrip
import LinearEnclosure.Proofs.Interval.UndefinedCorner
import LinearEnclosure.Proofs.Readback
import LinearEnclosure.Proofs.Report
import LinearEnclosure.Proofs.Solver.BandedDecimal
import LinearEnclosure.Proofs.Solver.LeadingBlock
import LinearEnclosure.Proofs.Solver.LowerTriangle
import LinearEnclosure.Proofs.Solver.Nesting
import LinearEnclosure.Proofs.Solver.Points
import LinearEnclosure.Proofs.Solver.Reconstruction
import LinearEnclosure.Proofs.Solver.Stored
import LinearEnclosure.Proofs.Solver.Symmetry
import LinearEnclosure.Proofs.Solver.ZeroRow
