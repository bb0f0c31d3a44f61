import Dissection.Event
import Dissection.Filter.Request
import Dissection.Main
import Dissection.Proofs.Layout
import Dissection.Proofs.Pairing
import Dissection.Proofs.Placement
import Dissection.Proofs.Returning
import Dissection.Proofs.Padding
import Dissection.Proofs.Registration
import Dissection.Proofs.Simultaneous
import Dissection.Proofs.Respelling
import Dissection.Proofs.FieldOrder
import Dissection.Proofs.RuleOrder
import Dissection.Proofs.OneLine
import Dissection.Proofs.Utf8
import Dissection.Proofs.Numeral
import Dissection.Proofs.ReadBack
import Dissection.Proofs.ConfigFile
import Dissection.Proofs.Invocation
import Dissection.Proofs.LongNumeral
import Dissection.Proofs.BadFile
import Dissection.Proofs.Frame
import Dissection.Proofs.LogLines
import Dissection.Proofs.Lines
import Dissection.Proofs.Printing
import Dissection.Proofs.Stream
import Dissection.Proofs.JsonGrammar
import Dissection.Proofs.JsonNumbers
import Dissection.Proofs.JsonStandard
import Dissection.Proofs.Spelling
import Dissection.Proofs.StandardStream
import Dissection.Proofs.Slots
import Dissection.Proofs.Substitution
import Dissection.Proofs.FieldNames
import Dissection.Proofs.Rebuilding
import Dissection.Proofs.PlaceholderNotation
import Dissection.Proofs.BrokenPattern
import Dissection.Proofs.Reconversion
import Dissection.Proofs.Reprocessing
import Dissection.Proofs.Sinks
import Dissection.Proofs.PlainForm
import Dissection.Proofs.Sharing
import Dissection.Proofs.Validation
import Dissection.Proofs.NumeralGrammar
import Dissection.Proofs.CheckReports
