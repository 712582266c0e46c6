import Jetty.Core.Transition
import Jetty.Orchestrator.Service.Requests
import Jetty.Orchestrator.Service.Stop
import Jetty.Orchestrator.Service.Endings
import Jetty.Orchestrator.Service.Budget
import Jetty.Orchestrator.Service.Pacing
import Jetty.Orchestrator.Supervisor.Pinning
import Jetty.Orchestrator.Supervisor.Shutdown
import Jetty.Orchestrator.Supervisor.Waves
import Jetty.Orchestrator.Supervisor.Startup
import Jetty.Orchestrator.Registry.Exclusion
import Jetty.Orchestrator.Registry.Query
import Jetty.Orchestrator.Containment.Sweep
import Jetty.Orchestrator.Containment.ForceKill
import Jetty.Orchestrator.Containment.Enumeration
import Jetty.Orchestrator.Containment.CgroupWalk
import Jetty.Orchestrator.Gates.Closing
import Jetty.Orchestrator.Gates.Watchers
import Jetty.Orchestrator.Watch.Changes
import Jetty.Orchestrator.Watch.Relaunch
import Jetty.Orchestrator.Resolvers.Vanish
import Jetty.Orchestrator.Resolvers.Invocations
import Jetty.Orchestrator.Resolvers.Contract
import Jetty.Orchestrator.Render.Soundness
import Jetty.Orchestrator.Config.Confinement
import Jetty.Orchestrator.Config.Inheritance
import Jetty.Orchestrator.Config.PortSpecs
import Jetty.Orchestrator.Ports.Allocation
import Jetty.Orchestrator.Ports.Refusal
import Jetty.Deadlines.Completion
import Jetty.Modules.Filesystem.Containment
import Jetty.Modules.Sql.Atomic
import Jetty.Modules.Sql.Ledger
import Jetty.Modules.Mail.Dedup
import Jetty.Modules.Mail.Recovery
import Jetty.Modules.Mail.Limits
import Jetty.Modules.Hg.Pagination
import Jetty.Modules.Llmproxy.Transparency
import Jetty.Modules.Chat.Rejected
import Jetty.Modules.Chat.Store
import Jetty.Modules.Chat.Threads
import Jetty.Modules.Chat.Answers
import Jetty.Modules.Chat.Filters
import Jetty.Modules.Chat.Freshness
import Jetty.Modules.Chat.Quotes
import Jetty.Modules.Issuetracker.History
import Jetty.Fsspec.Exclusive
import Jetty.Fsspec.Parity
import Jetty.Orchestrator.Console.Logs
import Jetty.Orchestrator.Console.Chunks
import Jetty.Modules.Filesystem.Root
import Jetty.Modules.Filesystem.Scratch
import Jetty.Core.Python.Replacement
import Jetty.Modules.Pages
import Jetty.Modules.Issuetracker.Modify
import Jetty.Modules.Issuetracker.Description
import Jetty.Modules.Issuetracker.Stamps
import Jetty.Modules.Issuetracker.Identifiers
import Jetty.Modules.Issuetracker.Consistency
import Jetty.Modules.Llmproxy.Settings
import Jetty.Charsets
import Jetty.Core.Forest
import Jetty.Modules.Filesystem.Contents
import Jetty.Modules.Filesystem.Histories
import Jetty.Orchestrator.Console.Tree
import Jetty.Orchestrator.Service.Output
import Jetty.Orchestrator.Registry.Records
import Jetty.Modules.Llmproxy.Ledger
import Jetty.Modules.Llmproxy.MockAnswers
