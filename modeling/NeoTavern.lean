import NeoTavern.Kernel.Stable
import NeoTavern.Kernel.Ends
import NeoTavern.Prompt.Agreement
import NeoTavern.Generation.Cancellation
import NeoTavern.Generation.Delivery
import NeoTavern.Lib.Archive
import NeoTavern.Messages.History
import NeoTavern.RemoteHttp.Resume
import NeoTavern.Generation.Growth
import NeoTavern.RemoteHttp.Product
import NeoTavern.PluginSdk.Buffer
import NeoTavern.PluginSdk.Answers
import NeoTavern.PluginSdk.Envelopes
import NeoTavern.Broker.Schedules
import NeoTavern.Capability.Histories
import NeoTavern.Worker.LogRing
import NeoTavern.Worker.Services
import NeoTavern.Runtime.Backpressure
import NeoTavern.Capability.Layers
import NeoTavern.Capability.Scopes
import NeoTavern.Worker.LiveEvents
import NeoTavern.Broker.Policy
import NeoTavern.Runtime.StreamRelease
import NeoTavern.Network.Confinement
import NeoTavern.Database.ReadOnly
import NeoTavern.Events.Exactness
import NeoTavern.Governor.Causes
import NeoTavern.Governor.Levels
import NeoTavern.ModuleMap.Rebuild
import NeoTavern.Jobs.Finished
import NeoTavern.Jobs.Dispatches
import NeoTavern.Dependencies.Closure
import NeoTavern.Dependencies.Simulation
import NeoTavern.Generation.OneMessage
import NeoTavern.Kernel.Chats
import NeoTavern.Generation.Readings
import NeoTavern.Frontend.Connections
import NeoTavern.Frontend.Ownership
import NeoTavern.Kernel.World
import NeoTavern.RemoteHttp.Pairing
import NeoTavern.RemoteHttp.RateLimit
import NeoTavern.RemoteHttp.Requests
import NeoTavern.Prompt.Injection
import NeoTavern.Prompt.PostProcessed
import NeoTavern.Prompt.ContextShift
import NeoTavern.Storage.Converted
import NeoTavern.Storage.Imported
import NeoTavern.Repositories.Search
import NeoTavern.Prompt.Lore
import NeoTavern.Repositories.Drafts
import NeoTavern.Repositories.Chats
import NeoTavern.Repositories.Snapshotted
import NeoTavern.Repositories.PluginState
import NeoTavern.SillyTavern.Transcript
import NeoTavern.ClientSdk.Stream
import NeoTavern.Shared.Cache
import NeoTavern.Shared.MacroRules
import NeoTavern.ModuleMap.Closure
import NeoTavern.Storage.BlobSteps
import NeoTavern.Lib.NumberText
import NeoTavern.Network.Secrets
import NeoTavern.Worker.JobLaw
import NeoTavern.Shared.Ids
import NeoTavern.Dependencies.Ranges
import NeoTavern.ProviderSdk.Sse
import NeoTavern.ProviderSdk.DeepseekBpe
import NeoTavern.Worker.ConsoleFormat
import NeoTavern.Routes.Dispatch
import NeoTavern.Frontend.MobileStream
import NeoTavern.Jobs.Isolation
import NeoTavern.Repositories.CharacterVersions
import NeoTavern.Repositories.CatalogPages
import NeoTavern.Jobs.CronTimes
