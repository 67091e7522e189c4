import ForeignCall.Directory
import ForeignCall.Main
import ForeignCall.Proofs.AbiText
import ForeignCall.Proofs.Acceptance
import ForeignCall.Proofs.Counts
import ForeignCall.Proofs.Defaults
import ForeignCall.Proofs.Dispatch
import ForeignCall.Proofs.FirstCause
import ForeignCall.Proofs.FloatResult
import ForeignCall.Proofs.Footprint
import ForeignCall.Proofs.Members
import ForeignCall.Proofs.Readback
import ForeignCall.Proofs.ResultAddress
import ForeignCall.Proofs.RoundTrip
import ForeignCall.Proofs.Separation
