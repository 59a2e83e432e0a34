import Descent.Main
import Descent.Parser.Depth
import Descent.Workbench.Session
import Descent.Proofs.Answer
import Descent.Proofs.Translation
import Descent.Proofs.Reading
import Descent.Proofs.Evaluation
import Descent.Proofs.Lexeme
import Descent.Proofs.Recognition
import Descent.Proofs.LongestPrefix
import Descent.Proofs.Numeral
import Descent.Proofs.Dictionary
import Descent.Proofs.Ending
import Descent.Proofs.Calls
import Descent.Proofs.Guarded
import Descent.Proofs.Json.Language
import Descent.Proofs.Json.StringLiteral
import Descent.Proofs.Json.Decoding
import Descent.Proofs.Json.NumberLiteral
import Descent.Proofs.Json.NumberPattern
import Descent.Proofs.Json.Soundness
import Descent.Proofs.Json.Completeness
import Descent.Proofs.Json.Failure
import Descent.Proofs.Json.Written
import Descent.Proofs.Json.RoundTrip
import Descent.Proofs.Json.Guarded
import Descent.Proofs.Arith.Language
import Descent.Proofs.Arith.Chain
import Descent.Proofs.Arith.Recognition
import Descent.Proofs.Arith.Guarded
import Descent.Proofs.Termination
import Descent.Proofs.Faults
import Descent.Proofs.Taking
import Descent.Proofs.Arith.Taking
import Descent.Proofs.Arith.Value
import Descent.Proofs.Likeness
import Descent.Proofs.Tracing
import Descent.Proofs.Wording
import Descent.Proofs.Steps
import Descent.Proofs.Agreement
import Descent.Proofs.Sequencing
import Descent.Proofs.Rounds
import Descent.Proofs.Recursion
import Descent.Proofs.Repetition
import Descent.Proofs.Settling
import Descent.Proofs.Chains
import Descent.Proofs.Separated
import Descent.Proofs.Blame
import Descent.Proofs.Choices
import Descent.Proofs.Outcomes
import Descent.Proofs.Factoring
import Descent.Proofs.Replacement
import Descent.Proofs.Json.Order
import Descent.Proofs.Arith.Failure
import Descent.Proofs.Fusion
import Descent.Proofs.Labels
import Descent.Proofs.Literals
import Descent.Proofs.Deepening
import Descent.Proofs.Brackets
import Descent.Proofs.Classes
