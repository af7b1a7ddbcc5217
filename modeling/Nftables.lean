import Nftables.Channel
import Nftables.Client
import Nftables.Main
import Nftables.Expr.Call
import Nftables.Fragment.Call
import Nftables.Listing
import Nftables.Options
import Nftables.Plan
import Nftables.Query
import Nftables.Submission
import Nftables.Text.Lines
import Nftables.Text.Words
import Nftables.Yaml.Load
import Nftables.Proofs.Channel.Replies
import Nftables.Proofs.Outcome.Document
import Nftables.Proofs.Transaction.WellFormed
import Nftables.Proofs.Transaction.Ambient
import Nftables.Proofs.Spec.Qualified
import Nftables.Proofs.Transaction.Qualified
import Nftables.Proofs.Expr.Call
import Nftables.Proofs.Expr.Run
import Nftables.Proofs.Expr.Closed
import Nftables.Proofs.Expr.Protocol
import Nftables.Proofs.Binary64
import Nftables.Proofs.Channel.Requests
import Nftables.Proofs.CommandLine.Run
import Nftables.Proofs.CommandLine.ExitCode
import Nftables.Proofs.Expr.Ports
import Nftables.Proofs.Operation.Listing
import Nftables.Proofs.Transaction.Listing
import Nftables.Proofs.Text.Digits
import Nftables.Proofs.Json.Scalar
import Nftables.Proofs.Value.Plain
import Nftables.Proofs.Text.Ascii
import Nftables.Proofs.Json.Compact
import Nftables.Proofs.Json.RoundTrip
import Nftables.Proofs.Spec.Plain
import Nftables.Proofs.Transaction.Plain
import Nftables.Proofs.Transaction.Wire
import Nftables.Proofs.Options.Reading
import Nftables.Proofs.Plan.Operation
import Nftables.Proofs.CommandLine.Containment
import Nftables.Proofs.Options.Markers
import Nftables.Proofs.Address.Literal
import Nftables.Proofs.Expr.Addresses
import Nftables.Proofs.Expr.PortMeaning
import Nftables.Proofs.Expr.RateLimits
import Nftables.Proofs.Transaction.Batch
import Nftables.Proofs.Spec.Details
import Nftables.Proofs.Spec.Refusal
import Nftables.Proofs.Transaction.Details
import Nftables.Proofs.Json.Acceptance
import Nftables.Proofs.Outcome.Text
import Nftables.Proofs.Listing.Composition
import Nftables.Proofs.Options.NormalForm
import Nftables.Proofs.Plan.Lines
import Nftables.Proofs.Transaction.Plan
import Nftables.Proofs.Symbol.Spelling
import Nftables.Proofs.Listing.Ranges
import Nftables.Proofs.Json.Writable
import Nftables.Proofs.Json.Limits
