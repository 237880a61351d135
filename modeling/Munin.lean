import Munin.Foundations.Sessions
import Munin.Journeys.CallGraph
import Munin.Journeys.MessagePolicy
import Munin.Journeys.Publishing
import Munin.Journeys.SimulatorFlow
import Munin.Journeys.Runtime.Awaits
import Munin.Journeys.Runtime.Bounds
import Munin.Journeys.Runtime.Reentry
import Munin.Journeys.Runtime.ScheduledEntry
import Munin.Outreach.BroadcastFreeze
import Munin.Outreach.BroadcastLifecycle
import Munin.Outreach.HourlyLimit
import Munin.Outreach.ProposalFreeze
import Munin.Outreach.SendWorker
import Munin.Outreach.WeeklyCap
import Munin.Curator.Attempts
import Munin.Curator.Leases
import Munin.Conversations.ListPages
import Munin.Conversations.Claims
import Munin.Cms.VersionHistory
import Munin.Kb.OptimisticLock
import Munin.Kb.Curation
import Munin.Kb.DecidedSources
import Munin.Conversations.ImapPolling
import Munin.Cms.AssetIndex
import Munin.Journeys.Runtime.AnsweredSteps
import Munin.Journeys.Runtime.Placement
import Munin.Crm.MergeRuns
import Munin.Crm.MergeReview
import Munin.Runner.Exclusivity
import Munin.Runner.Silence
import Munin.Conversations.Flags
import Munin.Tenancy.EndUserReads
import Munin.Conversations.DisplayIds
import Munin.Conversations.AutoClose
import Munin.Journeys.ZonedTime
import Munin.Journeys.Schedules
import Munin.Conversations.ChannelIngest
import Munin.Conversations.IngestedOnce
import Munin.Outreach.SendWindow
import Munin.Outreach.Deferrals
import Munin.Journeys.Conditions
import Munin.Journeys.Splits
import Munin.Foundations.LoopSearch
import Munin.Journeys.TightLoops
import Munin.Foundations.Streaks
import Munin.Crm.Deliverability
import Munin.Crm.BounceRule
import Munin.Foundations.KeyedList
import Munin.Foundations.JsValue
import Munin.Cms.BlockEdits
import Munin.Journeys.SpecText
import Munin.Journeys.Runtime.CompanyMessages
import Munin.Journeys.Runtime.CompanySteps
import Munin.Journeys.Runtime.CompanyAdvances
import Munin.Journeys.Runtime.Moves
import Munin.Journeys.Runtime.MovedRuns
import Munin.Cms.Restores
import Munin.TextReplacements
import Munin.Foundations.Utf16Text
import Munin.Kb.Chunker
import Munin.LineDiffs
import Munin.Foundations.Regex
import Munin.Conversations.QuotedReplies
import Munin.Conversations.ReplyAddresses
import Munin.Conversations.Threading
import Munin.Foundations.HeaderText
import Munin.Conversations.AuthenticationResults
import Munin.Foundations.JsonPaths
import Munin.Cms.FieldText
import Munin.Agent.Untrusted
import Munin.Agent.History
import Munin.Foundations.DisjointRanges
import Munin.NationalIds
import Munin.Agent.ToolResults
import Munin.Agent.Transcript
import Munin.Foundations.Wildcards
import Munin.Agent.Robots
import Munin.Foundations.NestedReading
import Munin.Agent.Crawl
import Munin.Foundations.IpText
import Munin.Net.IpAddresses
import Munin.Net.SafeFetch
import Munin.Conversations.OptOuts
import Munin.Foundations.Runs
import Munin.Conversations.DraftMarkup
import Munin.Agent.Politeness
import Munin.Foundations.Executions
import Munin.Agent.TranslationRuns
import Munin.Agent.CrawlSafety
import Munin.Foundations.RegexWords
import Munin.Foundations.UrlText
import Munin.Foundations.HtmlAttributes
import Munin.Conversations.LetterCase
import Munin.Conversations.EmailMarkup
import Munin.Conversations.SlackMarkup
import Munin.Conversations.SlackStages
import Munin.Conversations.SlackSafety
import Munin.Conversations.SlackCode
import Munin.Agent.HtmlMarkdown
import Munin.Agent.HtmlWords
