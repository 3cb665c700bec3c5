import QuantumBoard.Circuit.Run
import QuantumBoard.Main
import QuantumBoard.Saved.Read
import QuantumBoard.Proofs.Board.Arithmetic
import QuantumBoard.Proofs.Board.Checked
import QuantumBoard.Proofs.Board.Definition
import QuantumBoard.Proofs.Board.Display
import QuantumBoard.Proofs.Board.Initial
import QuantumBoard.Proofs.Board.Order
import QuantumBoard.Proofs.Board.Steps
import QuantumBoard.Proofs.Board.Time
import QuantumBoard.Proofs.Board.Translation
import QuantumBoard.Proofs.Circuit.Binding
import QuantumBoard.Proofs.Circuit.DoubleInverse
import QuantumBoard.Proofs.Circuit.Rearrangement
import QuantumBoard.Proofs.Column.Bracket
import QuantumBoard.Proofs.Column.Swaps
import QuantumBoard.Proofs.Formula.Parser
import QuantumBoard.Proofs.Formula.Spaced
import QuantumBoard.Proofs.Formula.WellDefined
import QuantumBoard.Proofs.Gate.Integer
import QuantumBoard.Proofs.Saved.RoundTrip
