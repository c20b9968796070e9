import Havemind.AgentScope
import Havemind.ApplyRollback
import Havemind.BackupConsistency
import Havemind.BatchOrder
import Havemind.BlobByteRate
import Havemind.BootstrapIdentities
import Havemind.CanonicalForm
import Havemind.CanonicalJson
import Havemind.CommitRecovery
import Havemind.ConfigNormalize
import Havemind.ConflictPairing
import Havemind.ConflictSweep
import Havemind.DiffCollapse
import Havemind.DiffHunks
import Havemind.HeadlessSafety
import Havemind.HeadlessSession
import Havemind.HeldWaitAccounts
import Havemind.HistoryStore
import Havemind.InvitationSafety
import Havemind.KeyedLock
import Havemind.LiveParents
import Havemind.MembershipPersistence
import Havemind.MergeBase
import Havemind.MergeConvergence
import Havemind.MergeTotality
import Havemind.MissingParents
import Havemind.OnboardingRuns
import Havemind.OwnerPairing
import Havemind.PathStability
import Havemind.PullLoop
import Havemind.PushWake
import Havemind.QueueRecovery
import Havemind.QueuedBytes
import Havemind.RejoinSafety
import Havemind.RenameChains
import Havemind.RevocationSafety
import Havemind.ServerRestore
import Havemind.SharedLines
import Havemind.SingleFlight
import Havemind.StatShortcut
import Havemind.StateSummary
import Havemind.WaitRoute
import Havemind.WakeSubscription
