import Preaction.Lib.Loop
import Preaction.Lib.Chain
import Preaction.Lib.Search
import Preaction.Lib.Run
import Preaction.Lib.Keyed
import Preaction.Lib.Merkle
import Preaction.Lib.MerklePath
import Preaction.Lib.MerkleInclusion
import Preaction.Lib.Positional
import Preaction.Lib.Tally
import Preaction.Lib.Walk
import Preaction.Lib.Pattern
import Preaction.Lib.Cursor
import Preaction.Lib.ShortestDecimal
import Preaction.Py.Text
import Preaction.Py.Date
import Preaction.Py.Calendar
import Preaction.Py.Json
import Preaction.Py.JsonPrint
import Preaction.Py.JsonParse
import Preaction.Py.Runtime
import Preaction.Py.JsonAscii
import Preaction.Py.Base64
import Preaction.Py.Base64Url
import Preaction.Py.Digits
import Preaction.Py.Stamp
import Preaction.Py.DecimalForm
import Preaction.Py.Rounding
import Preaction.Py.Value
import Preaction.Bip340
import Preaction.Secp256k1
import Preaction.Bip340Ts
import Preaction.IssuerProfile
import Preaction.Py.Ecma
import Preaction.Py.KeyOrder
import Preaction.FederationAdapter
import Preaction.Edwards
import Preaction.EdwardsCoding
import Preaction.EdwardsField
import Preaction.PointDecoders
import Preaction.Ed25519RefCoding
import Preaction.Ed25519Ref
import Preaction.Ed25519Tools
import Preaction.MusubiApproval
import Preaction.Verifier
import Preaction.VerifyJs
import Preaction.Rfc8785
import Preaction.JcsWriter
import Preaction.NumberLayout
import Preaction.PaymentPair
import Preaction.PaymentFingerprint
import Preaction.LiveCheck
import Preaction.LiveCheck.Anchoring
import Preaction.CanonicalEnvelope
import Preaction.ClaimLevel
import Preaction.AcceptanceRecord
import Preaction.ProcedureManifest.Model
import Preaction.ProcedureManifest.Ordering
import Preaction.ProcedureManifest.Retry
import Preaction.ProcedureManifest.Outcome
import Preaction.ProcedureManifest.ClaimProofs
import Preaction.ProcedureManifest.Redelivery
import Preaction.ProcedureManifest.Delivery
import Preaction.Nenrin.Ed25519
import Preaction.Nenrin.DidKey
import Preaction.EdwardsDecoding
import Preaction.Ed25519Agreement
import Preaction.Nenrin.Canonical
import Preaction.Nenrin.Records
import Preaction.Nenrin.JsonValue
import Preaction.Nenrin.Verify
import Preaction.Nenrin.Execution
import Preaction.Nenrin.LinkCheck
import Preaction.Nenrin.Delegation
import Preaction.Nenrin.Codes
import Preaction.Nenrin.Spelling
import Preaction.Nenrin.SpellingVerdict
import Preaction.Nenrin.Links
import Preaction.Nenrin.Identity
import Preaction.Nenrin.Reorder
import Preaction.WorkAcceptance.Tst
import Preaction.WorkAcceptance.TstLoops
import Preaction.WorkAcceptance.TsaSig
import Preaction.WorkAcceptance.DerElements
import Preaction.WorkAcceptance.TsaChain
import Preaction.WorkAcceptance.ObjectId
import Preaction.WorkAcceptance.SignedTime
import Preaction.WorkAcceptance.Jcs
import Preaction.WorkAcceptance.JcsAgree
import Preaction.WorkAcceptance.Check
import Preaction.WorkAcceptance.Times
import Preaction.WorkAcceptance.Verdict
import Preaction.WorkAcceptance.Timing
import Preaction.WorkAcceptance.Independence
import Preaction.WorkAcceptance.Returns
import Preaction.EvidenceSet
import Preaction.EvidenceSet.Times
import Preaction.EvidenceSet.Consistent
import Preaction.EvidenceSet.Returns
import Preaction.EvidenceSet.Resolve
import Preaction.EvidenceSet.Reorder
import Preaction.TimeOrder
import Preaction.PatternStatement
import Preaction.ScanSubject
import Preaction.ScanSubject.Bound
import Preaction.VendoredJcs
import Preaction.CommitmentAnchor
import Preaction.SequenceIntegrity
import Preaction.ComposedEnvelope
import Preaction.VendoredEd25519
import Preaction.SequenceIntegrity.Run
import Preaction.SequenceIntegrity.Fixture
import Preaction.ComposedEnvelope.Check
import Preaction.Ledger.Entry
import Preaction.Ledger.Continuity
import Preaction.Ledger.Session
import Preaction.Ledger.Agreement
import Preaction.PrivateOpening.Log
import Preaction.AuthorizationCommitment
import Preaction.ReceiptCheck.Keccak
import Preaction.ReceiptCheck.Link
import Preaction.ReceiptCheck.Group
import Preaction.Secp256k1.Agreement
import Preaction.Secp256k1.Coding
import Preaction.Lib.GroupSignature
import Preaction.Lib.EdwardsCurve
import Preaction.EdwardsGroup
import Preaction.Bip340Signer
import Preaction.ReceiptCheck.Recover
import Preaction.ReceiptCheck.Check
import Preaction.ReceiptCheck.Signer
import Preaction.ReceiptCheck.Issue
import Preaction.ReceiptCheck.Evaluate
import Preaction.PrivateOpening.Statement
import Preaction.PrivateOpening.HexCase
import Preaction.PrivateOpening.Grounded
import Preaction.AttemptGuard
import Preaction.AttestationRefs
import Preaction.BenchmarkGrade
import Preaction.ProofChain
import Preaction.ProofChain.Chain
import Preaction.MeshSync
