import Lookahead.Position
import Lookahead.Token
import Lookahead.Token.Display
import Lookahead.KindSet
import Lookahead.Policy
import Lookahead.Source.Metered
import Lookahead.Journal
import Lookahead.Stream.Command
import Lookahead.Session
import Lookahead.Binary.Form
import Lookahead.Json.Form
import Lookahead.Proofs.Buffer
import Lookahead.Proofs.Pulls
import Lookahead.Proofs.Position
import Lookahead.Proofs.Motion
import Lookahead.Proofs.History
import Lookahead.Proofs.Cursor
import Lookahead.Proofs.Advance
import Lookahead.Proofs.Ending
import Lookahead.Proofs.Laziness
import Lookahead.Proofs.Mirror
import Lookahead.Proofs.Retry
import Lookahead.Proofs.Failure
import Lookahead.Proofs.Lockstep
import Lookahead.Proofs.Replacement
import Lookahead.Proofs.Policy
import Lookahead.Proofs.Rank
import Lookahead.Proofs.Abreast
import Lookahead.Proofs.Visibility
import Lookahead.Proofs.Json.Literal
import Lookahead.Proofs.Json.Number
import Lookahead.Proofs.Json.Lexeme
import Lookahead.Proofs.Json.Value
import Lookahead.Proofs.Json.Form
import Lookahead.Proofs.Json.Grammar
import Lookahead.Proofs.Json.Record
import Lookahead.Proofs.Json.Document
import Lookahead.Proofs.Binary.Reader
import Lookahead.Proofs.Binary.Integer
import Lookahead.Proofs.Binary.Form
import Lookahead.Proofs.KindSet.Members
import Lookahead.Proofs.Consumption
import Lookahead.Proofs.Lookbehind
import Lookahead.Proofs.Relay
import Lookahead.Proofs.Permanence
import Lookahead.Proofs.Backtracking
import Lookahead.Proofs.Agreement
import Lookahead.Proofs.Frugality
import Lookahead.Proofs.Ranges
import Lookahead.Proofs.Seeking
import Lookahead.Proofs.Location
import Lookahead.Proofs.Selection
import Lookahead.Proofs.KindSet.Listing
import Lookahead.Proofs.Account
import Lookahead.Proofs.Conclusion
import Lookahead.Proofs.Termination
import Lookahead.Proofs.Checked
import Lookahead.Proofs.Frame
import Lookahead.Proofs.Display
import Lookahead.Proofs.Listed
