import InfixCalc.Main
import InfixCalc.Proofs.Grammar.Language
import InfixCalc.Proofs.Tree.Evaluation
import InfixCalc.Proofs.Grammar.Evaluation
import InfixCalc.Proofs.Lexeme.Places
import InfixCalc.Proofs.Lexeme.Replacement
import InfixCalc.Proofs.Grammar.Substitution
import InfixCalc.Proofs.Conversion.Failure
import InfixCalc.Proofs.Grammar.Tracking
import InfixCalc.Proofs.Grammar.Diagnosis
import InfixCalc.Proofs.Lexeme.Tiling
import InfixCalc.Proofs.Grammar.Persistence
import InfixCalc.Proofs.Grammar.Overfull
import InfixCalc.Proofs.Bindings.Store
import InfixCalc.Proofs.Grammar.Blanks
import InfixCalc.Proofs.Grammar.IllegalCharacter
import InfixCalc.Proofs.Machine.Imbalance
import InfixCalc.Proofs.Bindings.Views
import InfixCalc.Proofs.Number.Decimal
import InfixCalc.Proofs.Number.Double
import InfixCalc.Proofs.Number.Format
import InfixCalc.Proofs.Number.Text
import InfixCalc.Proofs.Grammar.Variables
import InfixCalc.Proofs.Grammar.Equality
import InfixCalc.Proofs.Grammar.Postfix
import InfixCalc.Proofs.Grammar.Display
import InfixCalc.Proofs.Bindings.Concatenation
import InfixCalc.Proofs.Grammar.Numerals
import InfixCalc.Proofs.CommandLine.Session
import InfixCalc.Proofs.Number.Order
import InfixCalc.Proofs.Builtin.Extremes
import InfixCalc.Proofs.Grammar.Calls
import InfixCalc.Proofs.Conversion.Invariant
import InfixCalc.Proofs.Grammar.Log
