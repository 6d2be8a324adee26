import LeveragedLp.Chain.Calls
import LeveragedLp.Chain.Initial
import LeveragedLp.Engine.Operation
import LeveragedLp.Record.Messages
import LeveragedLp.Settings
import LeveragedLp.Proofs.Turns
import LeveragedLp.Proofs.Rounding
import LeveragedLp.Proofs.Ratios
import LeveragedLp.Proofs.Exposure
import LeveragedLp.Proofs.SettlementFaults
import LeveragedLp.Proofs.Journal
import LeveragedLp.Proofs.Moves
import LeveragedLp.Proofs.Ledger
import LeveragedLp.Proofs.Custody
import LeveragedLp.Proofs.Keys
import LeveragedLp.Proofs.Passes
import LeveragedLp.Proofs.Accrual
import LeveragedLp.Proofs.Judgement
import LeveragedLp.Proofs.Sweep
import LeveragedLp.Proofs.Reasons
import LeveragedLp.Proofs.Log
import LeveragedLp.Proofs.Lives
import LeveragedLp.Proofs.Outcomes
import LeveragedLp.Proofs.Epochs
import LeveragedLp.Proofs.Development
import LeveragedLp.Proofs.Levies
import LeveragedLp.Proofs.Payments
import LeveragedLp.Proofs.Accounts
import LeveragedLp.Proofs.Seconds
import LeveragedLp.Proofs.Filing
import LeveragedLp.Proofs.Closure
import LeveragedLp.Proofs.Frame
import LeveragedLp.Proofs.Repetition
import LeveragedLp.Proofs.Standstill
import LeveragedLp.Proofs.Waterfall
import LeveragedLp.Proofs.EarlyInterest
import LeveragedLp.Proofs.Admission
import LeveragedLp.Proofs.WindDown
import LeveragedLp.Proofs.Thresholds
import LeveragedLp.Proofs.Compounding
import LeveragedLp.Proofs.Limits
import LeveragedLp.Proofs.Consolidation
import LeveragedLp.Proofs.DebtFree
import LeveragedLp.Proofs.InterestOrder
import LeveragedLp.Proofs.InterestPrecision
import LeveragedLp.Proofs.Idempotence
import LeveragedLp.Proofs.TopUps
import LeveragedLp.Proofs.OwnerRange
import LeveragedLp.Proofs.LedgerForm
import LeveragedLp.Proofs.Answers
import LeveragedLp.Proofs.Products
import LeveragedLp.Proofs.PoolShares
import LeveragedLp.Proofs.DecimalTexts
import LeveragedLp.Proofs.JsonTexts
import LeveragedLp.Proofs.Records
