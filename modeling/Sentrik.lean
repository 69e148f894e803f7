import Sentrik.Library.Machine
import Sentrik.Library.SelfDelimiting
import Sentrik.Library.Sha1
import Sentrik.Library.Slots
import Sentrik.Library.UnitOfWork
import Sentrik.Library.Interaction
import Sentrik.Library.Json
import Sentrik.Library.Tenancy
import Sentrik.Library.Text
import Sentrik.Library.Glob
import Sentrik.Library.DotSegments
import Sentrik.Library.IpAddress
import Sentrik.Library.Url
import Sentrik.Core.Basic
import Sentrik.Core.Auth
import Sentrik.Security.Netguard
import Sentrik.Security.Scope
import Sentrik.Security.Sandbox
import Sentrik.Security.HttpClient
import Sentrik.Security.ReferenceHttpx
import Sentrik.Security.PoolMoves
import Sentrik.Security.Egress
import Sentrik.Security.Redirects
import Sentrik.Security.PathPolicy
import Sentrik.Security.Budget
import Sentrik.Orchestration.Lifetime
import Sentrik.Services.Ownership
import Sentrik.Api.Targets
import Sentrik.Api.ProvenHosts
import Sentrik.Api.Chat
import Sentrik.Api.Assessments
import Sentrik.Api.Triage
import Sentrik.Checks.Base
import Sentrik.Checks.Client
import Sentrik.Checks.Detection
import Sentrik.Checks.ProgramRun
import Sentrik.Checks.Builtin
import Sentrik.Checks.Declarative
import Sentrik.Agents.Registry
import Sentrik.Services.Planning
import Sentrik.Services.Scoring
import Sentrik.Services.Validation
import Sentrik.Services.Regression
import Sentrik.Services.Observations
import Sentrik.Services.Verdicts
import Sentrik.Services.Rejections
import Sentrik.Services.Emissions
import Sentrik.Services.Agreement
import Sentrik.Integrations.McpServer
import Sentrik.Integrations.A2aServer
import Sentrik.Integrations.RoleParity
import Sentrik.Orchestration.Steps
import Sentrik.Orchestration.Engine
import Sentrik.Orchestration.Moves
import Sentrik.Orchestration.Clearance
import Sentrik.Orchestration.AuthorizedChecks
import Sentrik.Orchestration.Approval
import Sentrik.Orchestration.RequestedClasses
import Sentrik.Orchestration.Silence
import Sentrik.Orchestration.StateTrace
import Sentrik.Orchestration.StepOrigins
import Sentrik.Orchestration.Cancellation
import Sentrik.Orchestration.Parked
import Sentrik.Orchestration.Surface
import Sentrik.Orchestration.TestedPairs
import Sentrik.Orchestration.Custody
import Sentrik.Orchestration.ApprovalDesk
import Sentrik.Orchestration.TriageRace
import Sentrik.Orchestration.Dossier
import Sentrik.Orchestration.RiskSummary
import Sentrik.Api.Retest
import Sentrik.Orchestration.Restart
import Sentrik.Orchestration.CoverageReport
import Sentrik.Agents.Brain
import Sentrik.Agents.Containment
import Sentrik.Agents.Spending
import Sentrik.Api.Identity
import Sentrik.Api.ProductionRecords
import Sentrik.Security.TestingWindow
import Sentrik.Library.JsonText
import Sentrik.Discovery.Normalize
import Sentrik.Discovery.Signature
import Sentrik.Orchestration.FrozenChecks
import Sentrik.Orchestration.Provenance
import Sentrik.Orchestration.Batches
import Sentrik.Orchestration.KeptResults
import Sentrik.Orchestration.AuditTrail
import Sentrik.Orchestration.Claims
import Sentrik.Orchestration.Checkpoints
import Sentrik.Services.Applicability
import Sentrik.Security.TwoGates
import Sentrik.Security.Totality
import Sentrik.Discovery.Intake
import Sentrik.Security.Metadata
import Sentrik.Security.Replay
import Sentrik.Security.SideChannels
import Sentrik.Api.MemoryKeys
import Sentrik.Library.Keyed
import Sentrik.Discovery.Merge
import Sentrik.Discovery.Inventory
import Sentrik.Library.Yaml
import Sentrik.Agents.Skills
import Sentrik.Library.Metered
import Sentrik.Security.RateBound
import Sentrik.Library.StableSort
import Sentrik.Services.FlowReplay
import Sentrik.Services.PlanOrder
import Sentrik.Library.Coupling
import Sentrik.Services.RegressionAgreement
import Sentrik.Services.AttackerSession
import Sentrik.Discovery.MergeLaws
import Sentrik.Library.UrlJoin
import Sentrik.Library.Regex
import Sentrik.Discovery.Crawler
import Sentrik.Library.BreadthFirst
import Sentrik.Discovery.CrawlSearch
import Sentrik.Discovery.Forms
import Sentrik.Checks.ObjectTarget
import Sentrik.Services.Dilution
import Sentrik.Library.Bytes
import Sentrik.Library.CrossReference
import Sentrik.Services.PdfReport
import Sentrik.Services.PdfStructure
import Sentrik.Library.LiteralString
import Sentrik.Services.PdfText
import Sentrik.Library.JsonReader
import Sentrik.Library.Base64
import Sentrik.Library.PosixPath
import Sentrik.Services.Storage
import Sentrik.Services.StorageContainment
import Sentrik.Services.StorageRoundTrip
import Sentrik.Library.Escaping
import Sentrik.Services.Siem
import Sentrik.Services.SiemReading
import Sentrik.Discovery.Har
import Sentrik.Library.PacketFilter
import Sentrik.Security.EgressScript
import Sentrik.Security.EgressFilter
import Sentrik.Library.Fragments
import Sentrik.Library.Markers
import Sentrik.Security.Redaction
import Sentrik.Agents.Compaction
import Sentrik.Orchestration.RequestCount
import Sentrik.Library.JsonGrammar
import Sentrik.Agents.JsonRecovery
import Sentrik.Library.UrlWeight
import Sentrik.Library.UrlAssembly
import Sentrik.Discovery.OpenApi
import Sentrik.Orchestration.LoginTraffic
import Sentrik.Orchestration.References
import Sentrik.Orchestration.StepLifecycle
import Sentrik.Orchestration.Finality
import Sentrik.Library.Semaphore
import Sentrik.Library.Placeholder
import Sentrik.Agents.Pool
import Sentrik.Library.BoundedQueue
import Sentrik.Agents.MessageBus
import Sentrik.Discovery.Postman
import Sentrik.Discovery.Graphql
import Sentrik.Library.TimedCache
import Sentrik.Api.Oidc
import Sentrik.Library.EventStream
import Sentrik.Api.Stream
import Sentrik.Api.Connectors
import Sentrik.Library.Gate
import Sentrik.Library.Progress
import Sentrik.Orchestration.Supervisor
