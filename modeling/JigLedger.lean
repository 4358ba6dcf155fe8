import JigLedger.Ledger
import JigLedger.Proofs.Abi.Overrides
import JigLedger.Proofs.Engine.Identity
import JigLedger.Proofs.Engine.Mediation
import JigLedger.Proofs.Engine.Origins
import JigLedger.Proofs.Ledger.Applying
import JigLedger.Proofs.Ledger.Arguments
import JigLedger.Proofs.Ledger.Atomicity
import JigLedger.Proofs.Ledger.Finalization
import JigLedger.Proofs.Ledger.Freshness
import JigLedger.Proofs.Ledger.Minting
import JigLedger.Proofs.Ledger.Payments
import JigLedger.Proofs.Ledger.Replay
import JigLedger.Proofs.Ledger.Results
import JigLedger.Proofs.Ledger.Serializability
import JigLedger.Proofs.Store.Changes
import JigLedger.Proofs.Store.Independent
import JigLedger.Proofs.Value.Canonical
import JigLedger.Proofs.Value.Frame
import JigLedger.Proofs.Value.Handouts
import JigLedger.Proofs.Value.Slots
import JigLedger.Proofs.Value.Untrusted
import JigLedger.Proofs.Value.Words
import JigLedger.Proofs.Wire.Output
import JigLedger.Proofs.Wire.Signing
import JigLedger.Proofs.Package.Content
import JigLedger.Proofs.Store.Snapshot
import JigLedger.Proofs.Ledger.Imports
import JigLedger.Proofs.Engine.Owners
import JigLedger.Proofs.Ledger.Owners
import JigLedger.Proofs.Identifier
import JigLedger.Proofs.Abi.Json
import JigLedger.Proofs.Engine.Frames
import JigLedger.Proofs.Ledger.Instances
