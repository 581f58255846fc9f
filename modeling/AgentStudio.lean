import AgentStudio.Tasks.Modes
import AgentStudio.Tasks.History
import AgentStudio.Tasks.Dependencies
import AgentStudio.Graph.FanIn
import AgentStudio.Runtime.Checkpoint
import AgentStudio.Graph.Versions
import AgentStudio.Leases.Handover
import AgentStudio.Triggers.Events
import AgentStudio.Workflows.Refuted
import AgentStudio.Gateway.Circuit
import AgentStudio.Orchestration.Failures
import AgentStudio.Execution.Nesting
import AgentStudio.Execution.RunAudit
import AgentStudio.Execution.Metering
import AgentStudio.Execution.Streaming
import AgentStudio.Daemon.Outcomes
import AgentStudio.Daemon.ChainRuns
import AgentStudio.Daemon.TaskCancel
import AgentStudio.Daemon.CatchUp
import AgentStudio.EventTree.Trajectory
import AgentStudio.Chats.TreeContract
import AgentStudio.Chats.Storage
import AgentStudio.Auth.Login
import AgentStudio.Inbox.Feedback
import AgentStudio.Planner.Authority
import AgentStudio.Platform.Approvals
import AgentStudio.Platform.Publishing
import AgentStudio.Api.Overrides
import AgentStudio.Api.RunStream
import AgentStudio.Platform.ToolIsolation
import AgentStudio.Api.OneExecution
import AgentStudio.Connectors.Approval
import AgentStudio.Flows.Versions
import AgentStudio.Knowledge.Agreement
import AgentStudio.Marketplace.Tenancy
import AgentStudio.Checkpoints.Rollback
import AgentStudio.Agents.Versions
import AgentStudio.Agents.DeniedTools
import AgentStudio.Bundles.Rollback
import AgentStudio.Execution.Loops
import AgentStudio.Execution.SubGraphs
import AgentStudio.Execution.ParallelTools
import AgentStudio.Execution.StructuredOutput
import AgentStudio.Execution.ErrorHandler
import AgentStudio.Execution.Replies
import AgentStudio.Execution.Budgets
import AgentStudio.Conditions.Inert
import AgentStudio.Workflows.JudgePanel
import AgentStudio.Workflows.Budget
import AgentStudio.Plazas.Delivery
import AgentStudio.Leases.Stored
import AgentStudio.Personas.Resumption
import AgentStudio.Personas.MemoryScope
import AgentStudio.Memory.Scopes
import AgentStudio.Swarm.Handoffs
import AgentStudio.Chats.ModePrompts
import AgentStudio.Chats.SessionStore
import AgentStudio.Verifier.Adversarial
import AgentStudio.Sessions.Injection
import AgentStudio.Sessions.Lifecycle
import AgentStudio.Runtime.PendingActions
import AgentStudio.Subagents.Resumption
import AgentStudio.Knowledge.Chunking
import AgentStudio.Runtime.Aware
import AgentStudio.Runtime.RateLimits
import AgentStudio.Daemon.Frames
import AgentStudio.Gateway.Semaphore
import AgentStudio.Graph.Layout
