import ArchiveDeposit.Main
import ArchiveDeposit.Proofs.AuditLog
import ArchiveDeposit.Proofs.CatalogueFailure
import ArchiveDeposit.Proofs.ChildOrder
import ArchiveDeposit.Proofs.CollectionCourse
import ArchiveDeposit.Proofs.CommandFrame
import ArchiveDeposit.Proofs.DepositTimes
import ArchiveDeposit.Proofs.FailurePropagation
import ArchiveDeposit.Proofs.IdentifierText
import ArchiveDeposit.Proofs.IndependentReports
import ArchiveDeposit.Proofs.InsertionOrder
import ArchiveDeposit.Proofs.Integrity
import ArchiveDeposit.Proofs.JointDeposit
import ArchiveDeposit.Proofs.ManifestAcceptance
import ArchiveDeposit.Proofs.Monotonicity
import ArchiveDeposit.Proofs.PiecewiseRecovery
import ArchiveDeposit.Proofs.Precision
import ArchiveDeposit.Proofs.Retention
import ArchiveDeposit.Proofs.SignalHistory
import ArchiveDeposit.Proofs.SignalSet
import ArchiveDeposit.Proofs.Simultaneous
import ArchiveDeposit.Proofs.StoreProgress
import ArchiveDeposit.Proofs.DirectoryListing
