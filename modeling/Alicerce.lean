import Alicerce.Adapters.Candidates
import Alicerce.Adapters.CommandExecution
import Alicerce.Adapters.EvidenceBinding
import Alicerce.Adapters.EvidenceEmbedding
import Alicerce.Adapters.EvidenceEquality
import Alicerce.Adapters.GitCapture
import Alicerce.Adapters.GitSessions
import Alicerce.Adapters.LinkValidation
import Alicerce.Adapters.PinnedStarts
import Alicerce.Adapters.Preparation
import Alicerce.Adapters.RawEvidence
import Alicerce.Adapters.ReleaseRetries
import Alicerce.Adapters.SandboxResults
import Alicerce.Adapters.StoreContract
import Alicerce.Adapters.StoreOpening
import Alicerce.Adapters.StoreReads
import Alicerce.Adapters.TimedOut
import Alicerce.Adapters.WorkingDirectories
import Alicerce.Adapters.WorkspaceRegistry
import Alicerce.Adapters.WorkspaceRemoval
import Alicerce.Adapters.WorkspaceSessions
import Alicerce.Application.CommandExecution
import Alicerce.Application.CommandResults
import Alicerce.Application.Resume
import Alicerce.Domain.CommandPolicy
import Alicerce.Domain.ContractDocuments
import Alicerce.Domain.LifecycleRuns
import Alicerce.Domain.RuleSets
