import Portuni.Access.Graph
import Portuni.AccessRequests.Consistent
import Portuni.Accounts.Binding
import Portuni.AgentTools.Gate
import Portuni.ChangeFeed.Delivered
import Portuni.Classify.Agreement
import Portuni.ConsumedMessages.Exact
import Portuni.CrashSafety.SourceKept
import Portuni.Creations.Unclobbered
import Portuni.Desktop.Migration
import Portuni.Desktop.OneSidecar
import Portuni.Desktop.Outbox
import Portuni.Desktop.QuitOrder
import Portuni.Desktop.RefreshGate
import Portuni.Direct.PullOrder
import Portuni.DriveFolders.Coherent
import Portuni.EventStream.GapFree
import Portuni.Events.StatusChanges
import Portuni.FileContent.Shown
import Portuni.FileEditor.Saved
import Portuni.FileOps.Folding
import Portuni.FileOps.LocalBytes
import Portuni.FileOps.Rerun
import Portuni.FilesTab.FileTree
import Portuni.FilesTab.InOrder
import Portuni.GraphMutations.Refused
import Portuni.Instances.Registry
import Portuni.LocalCleanup.Lossless
import Portuni.LocalCleanup.Unregister
import Portuni.McpSessions.Together
import Portuni.MirrorIgnore.Walkers
import Portuni.NodeMove.Aligned
import Portuni.OAuth.Guarded
import Portuni.Organizations.OneOrganization
import Portuni.PathLock.Chain
import Portuni.PendingOps.Newest
import Portuni.Questions.OneAtATime
import Portuni.RateLimit.Window
import Portuni.RemotePaths.Bijection
import Portuni.RemoteSweep.Interrupted
import Portuni.RemoteWatch.BatchCorrect
import Portuni.RemoteWatch.FeedOrder
import Portuni.Resources.Wins
import Portuni.RestGate.NoMore
import Portuni.Routing.Rules
import Portuni.SessionStore.Converged
import Portuni.SqlPlaceholders.ByTokens
import Portuni.StateBroadcast.Newest
import Portuni.StatusFilter.Paging
import Portuni.Subscriptions.NoLeak
import Portuni.SyncInfo.ReadsYourWrites
import Portuni.SyncJobs.Swallowed
import Portuni.Transcript.Accounted
import Portuni.TurnsInFlight.Agree
import Portuni.WatchLoop.BackedOff
import Portuni.WriteScope.HintBlock
