import Sm83.Main
import Sm83.Instruction.Text
import Sm83.Proofs.DeadFlags
import Sm83.Proofs.Divergence
import Sm83.Proofs.ExtendedTable
import Sm83.Proofs.CallReturn
import Sm83.Proofs.Transcript
import Sm83.Proofs.BootImage
import Sm83.Proofs.Restart
import Sm83.Proofs.HaltCause
import Sm83.Proofs.RunSlices
import Sm83.Proofs.RegisterWrites
import Sm83.Proofs.ArgumentGrammar
import Sm83.Proofs.CommandLineAnswers
import Sm83.Proofs.TextDecoding
import Sm83.Proofs.MultiByteSums
import Sm83.Proofs.MultiByteShifts
import Sm83.Proofs.CountdownLoop
import Sm83.Proofs.AccumulatorOperations
import Sm83.Proofs.ExtendedOperations
import Sm83.Proofs.PairAddition
import Sm83.Proofs.BitAssignments
import Sm83.Proofs.AlternativeEncodings
import Sm83.Proofs.StackTransfers
import Sm83.Proofs.OperandViews
