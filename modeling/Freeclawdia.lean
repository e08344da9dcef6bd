import Freeclawdia.Correctness.ThreadMap
import Freeclawdia.Correctness.Pruning
import Freeclawdia.Correctness.HookMediation
import Freeclawdia.Correctness.ApprovalSafety
import Freeclawdia.Correctness.ToolProtocol
import Freeclawdia.Correctness.AuditTrail
import Freeclawdia.Correctness.Shutdown
import Freeclawdia.Correctness.HttpApproval
import Freeclawdia.Correctness.OpenCircuit
import Freeclawdia.Correctness.FailoverCalls
import Freeclawdia.Correctness.MessageSanitizing
import Freeclawdia.Correctness.ToolCallRoundTrip
import Freeclawdia.Correctness.Staffing
import Freeclawdia.Correctness.HookAnswers
import Freeclawdia.Correctness.ToolCeiling
import Freeclawdia.Correctness.Metering
import Freeclawdia.Correctness.Observers
import Freeclawdia.Correctness.PairingLists
import Freeclawdia.Correctness.CanonicalPaths
import Freeclawdia.Correctness.IdentityFiles
import Freeclawdia.Correctness.MemoryWrites
import Freeclawdia.Correctness.HygienePasses
import Freeclawdia.Correctness.Wrapping
import Freeclawdia.Correctness.Compaction
import Freeclawdia.Correctness.PersistedTurns
import Freeclawdia.Correctness.MessageOwnership
import Freeclawdia.Correctness.SessionRaces
import Freeclawdia.Correctness.SignalAccess
import Freeclawdia.Correctness.HookChain
import Freeclawdia.Correctness.SettingsRoundTrip
import Freeclawdia.Correctness.WebhookAccess
import Freeclawdia.Correctness.ContainerLifecycle
import Freeclawdia.Correctness.SkillInstalls
import Freeclawdia.Correctness.ChannelConfinement
import Freeclawdia.Correctness.McpMessages
import Freeclawdia.Correctness.ExtensionInstall
import Freeclawdia.Correctness.CredentialAuthority
import Freeclawdia.Correctness.ChannelCredentials
import Freeclawdia.Correctness.ToolOwnership
import Freeclawdia.Correctness.MessageDestinations
import Freeclawdia.Correctness.McpSessions
import Freeclawdia.Correctness.LeakRedaction
import Freeclawdia.Correctness.HostLimits
import Freeclawdia.Correctness.PartialReads
import Freeclawdia.Correctness.ShellGate
import Freeclawdia.Correctness.ExactCosts
import Freeclawdia.Correctness.Base64
import Freeclawdia.Correctness.SignatureFreshness
import Freeclawdia.Correctness.EmitLimits
import Freeclawdia.Correctness.ModelSwitch
import Freeclawdia.Correctness.RetryBackoff
import Freeclawdia.Correctness.CachedAnswers
import Freeclawdia.Correctness.Chunking
import Freeclawdia.Correctness.ToolResultIds
