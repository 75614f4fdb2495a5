import CipherCalls.Bytes.Lemmas
import CipherCalls.Engine.Failing
import CipherCalls.Main
import CipherCalls.Stored.Ciphertext
import CipherCalls.Width.Lemmas
import CipherCalls.Proofs.Slots
import CipherCalls.Proofs.Visibility
import CipherCalls.Proofs.Demand
import CipherCalls.Proofs.Effect
import CipherCalls.Proofs.Selection
import CipherCalls.Proofs.Reveal
import CipherCalls.Proofs.History
import CipherCalls.Proofs.ClearArithmetic
import CipherCalls.Proofs.Pending
import CipherCalls.Proofs.Resolution
import CipherCalls.Proofs.Expression
import CipherCalls.Proofs.Outline
import CipherCalls.Proofs.Program
import CipherCalls.Proofs.Coverage
import CipherCalls.Proofs.Estimation
import CipherCalls.Proofs.Admission
import CipherCalls.Proofs.Grants
import CipherCalls.Proofs.Framing
import CipherCalls.Proofs.StandIns
import CipherCalls.Proofs.Depths
import CipherCalls.Proofs.PriceByWidth
import CipherCalls.Proofs.Independence
import CipherCalls.Proofs.Conjunction
import CipherCalls.Proofs.Chain
import CipherCalls.Proofs.Questions
import CipherCalls.Proofs.ScalarForm
import CipherCalls.Proofs.ClearAnswers
import CipherCalls.Proofs.CallEncoding
import CipherCalls.Proofs.Narrowing
import CipherCalls.Proofs.Padding
import CipherCalls.Proofs.ShortPayloads
import CipherCalls.Proofs.OperandFormat
import CipherCalls.Proofs.ServedKey
import CipherCalls.Proofs.WrittenCalls
import CipherCalls.Proofs.ReportLine
import CipherCalls.Proofs.CallReport
import CipherCalls.Proofs.Reporting
import CipherCalls.Proofs.WordCodec
import CipherCalls.Proofs.Access
import CipherCalls.Proofs.GuardedRun
import CipherCalls.Proofs.Layout
import CipherCalls.Proofs.NumberTexts
import CipherCalls.Proofs.QuotedTexts
import CipherCalls.Proofs.SkippedValues
import CipherCalls.Proofs.WrittenRecords
import CipherCalls.Proofs.PriceTexts
import CipherCalls.Proofs.PartialPrices
import CipherCalls.Proofs.WrittenLists
import CipherCalls.Proofs.RoundTrip
