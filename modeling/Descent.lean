import Descent.Proofs.Attributes
import Descent.Proofs.Cached
import Descent.Proofs.Choices
import Descent.Proofs.Csv
import Descent.Proofs.Exits
import Descent.Proofs.Factored
import Descent.Proofs.Film.Truth
import Descent.Proofs.Flattened.Sessions
import Descent.Proofs.Interleaved
import Descent.Proofs.Journal.WriteOnce
import Descent.Proofs.Labels
import Descent.Proofs.Letters
import Descent.Proofs.Lists
import Descent.Proofs.Mapped
import Descent.Proofs.OnDemand
import Descent.Proofs.Peg.Terminates
import Descent.Proofs.Position.Stepwise
import Descent.Proofs.Relabelled
import Descent.Proofs.Remainder
import Descent.Proofs.Repetitions
import Descent.Proofs.Reports
import Descent.Proofs.Separated
import Descent.Proofs.Sequencing
import Descent.Proofs.Spans
import Descent.Proofs.Verdicts
import Descent.Proofs.Worded
import Descent.Raised.Message
import Descent.Session
