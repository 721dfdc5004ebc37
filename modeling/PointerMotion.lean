import PointerMotion.Tracker
import PointerMotion.History.Lemmas
import PointerMotion.Average
import PointerMotion.Filter
import PointerMotion.Regression
import PointerMotion.Selector
import PointerMotion.Text.Digit
import PointerMotion.Numeral.Shortest
import PointerMotion.Numeral.Literal
import PointerMotion.Json.Reader
import PointerMotion.Json.Printer
import PointerMotion.Json.Shown
import PointerMotion.Event
import PointerMotion.Command
import PointerMotion.Main
import PointerMotion.Proofs.Projection
import PointerMotion.Proofs.Rejoin
import PointerMotion.Proofs.Reset
import PointerMotion.Proofs.BoundedList
import PointerMotion.Proofs.EventTime
import PointerMotion.Proofs.Horizon
import PointerMotion.Proofs.Coordinate
import PointerMotion.Proofs.Clock
import PointerMotion.Proofs.Axes
import PointerMotion.Proofs.UniformMotion
import PointerMotion.Proofs.Joining
import PointerMotion.Proofs.Failure
import PointerMotion.Proofs.Pause
import PointerMotion.Proofs.Answer
import PointerMotion.Proofs.PairWeights
import PointerMotion.Proofs.Rescaling
import PointerMotion.Proofs.Selection
import PointerMotion.Proofs.Repetition
import PointerMotion.Proofs.PairOrder
import PointerMotion.Proofs.Determination
import PointerMotion.Proofs.Overshoot
import PointerMotion.Proofs.Refusal
import PointerMotion.Proofs.Recording
import PointerMotion.Proofs.LongestRun
import PointerMotion.Proofs.Instant
import PointerMotion.Proofs.Heading
import PointerMotion.Proofs.HighestDegree
import PointerMotion.Proofs.Packing
import PointerMotion.Proofs.Mask
import PointerMotion.Proofs.Expansion
import PointerMotion.Proofs.WeightCurve
