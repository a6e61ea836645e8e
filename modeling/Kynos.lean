import Kynos.Assets.Built
import Kynos.Assets.Directory
import Kynos.Assets.Folded
import Kynos.Assets.Listed
import Kynos.Assets.Literal
import Kynos.Assets.Mount
import Kynos.Assets.Mounted
import Kynos.Assets.Opened
import Kynos.Assets.Served
import Kynos.Assets.Walk
import Kynos.Body.Adapters
import Kynos.Body.Collected
import Kynos.Body.Frame
import Kynos.Body.Offers
import Kynos.Body.Spelled
import Kynos.Body.StrictJson
import Kynos.Body.Timed
import Kynos.Body.Waited
import Kynos.Body.Watched
import Kynos.Cache.Conditional
import Kynos.Cache.Directives
import Kynos.Cache.Freshness
import Kynos.Cache.Honoured
import Kynos.Cache.Intercept
import Kynos.Cache.Served
import Kynos.Cache.Store
import Kynos.Cache.Variants
import Kynos.Calendar.Gregorian
import Kynos.Choice.Offers
import Kynos.Collection.Assoc
import Kynos.Collection.Sorted
import Kynos.Compression.Honest
import Kynos.Compression.Lossless
import Kynos.Compression.Settle
import Kynos.Compression.Streamed
import Kynos.Cookie.RoundTrip
import Kynos.Cookie.UserAgent
import Kynos.Cors.Answer
import Kynos.Cors.Preflight
import Kynos.Cors.Safety
import Kynos.Csrf.Decides
import Kynos.Decompression.Delivered
import Kynos.Decompression.Undo
import Kynos.Http.Civil
import Kynos.Http.Coding
import Kynos.Http.Date
import Kynos.Http.DateRoundTrip
import Kynos.Http.DateText
import Kynos.Http.Disposition
import Kynos.Http.DispositionAbnf
import Kynos.Http.DispositionRoundTrip
import Kynos.Http.ETag
import Kynos.Http.EntityTags
import Kynos.Http.Field
import Kynos.Http.Forwarded
import Kynos.Http.Lists
import Kynos.Http.Problem
import Kynos.Http.Quality
import Kynos.Http.SfString
import Kynos.Http.Trust
import Kynos.Http.Vary
import Kynos.Interval.Merge
import Kynos.JsonLines.Chunks
import Kynos.JsonLines.Records
import Kynos.JsonLines.Whole
import Kynos.JsonLines.Writer
import Kynos.Language.Lookup
import Kynos.Language.Matching
import Kynos.Language.Selected
import Kynos.LanguageTag.Abnf
import Kynos.LanguageTag.Case
import Kynos.LanguageTag.Grammar
import Kynos.LanguageTag.Tag
import Kynos.LanguageTag.WellFormed
import Kynos.Limits.Concurrency
import Kynos.Multipart.Decode
import Kynos.Multipart.Disposition
import Kynos.Multipart.Framing
import Kynos.Multipart.Grammar
import Kynos.Multipart.NamesBack
import Kynos.Multipart.Parts
import Kynos.Negotiate.Accept
import Kynos.Negotiate.Choose
import Kynos.Negotiate.Field
import Kynos.Negotiate.MediaType
import Kynos.Net.IpAddr
import Kynos.Net.Network
import Kynos.Net.Shown
import Kynos.Net.TrustedHosts
import Kynos.Numeral.Fixed
import Kynos.Numeral.Unsigned
import Kynos.OpenApi.AdmitsNull
import Kynos.OpenApi.ComponentName
import Kynos.OpenApi.Document
import Kynos.OpenApi.Downgrade
import Kynos.OpenApi.Judged
import Kynos.OpenApi.LinkTargets
import Kynos.OpenApi.PathGrammar
import Kynos.OpenApi.PathNesting
import Kynos.OpenApi.PathParameters
import Kynos.OpenApi.PathTemplate
import Kynos.OpenApi.Requires
import Kynos.OpenApi.ResponseHeaders
import Kynos.OpenApi.SchemaObject
import Kynos.OpenApi.TagHierarchy
import Kynos.OpenApi.Violation
import Kynos.Pattern.Dialects
import Kynos.Pattern.Preserved
import Kynos.Pattern.Rewritten
import Kynos.Pattern.Translate
import Kynos.Range.Coalesced
import Kynos.Range.Decision
import Kynos.Range.Delivery
import Kynos.Range.Frames
import Kynos.Range.Parts
import Kynos.Range.Pattern
import Kynos.Range.Precedence
import Kynos.Range.Select
import Kynos.Range.Served
import Kynos.Range.Source
import Kynos.Range.Spec
import Kynos.Range.Unbounded
import Kynos.RateLimit.Earliest
import Kynos.RateLimit.Estimate
import Kynos.RateLimit.Fields
import Kynos.RateLimit.Key
import Kynos.RateLimit.Quota
import Kynos.RateLimit.Recovery
import Kynos.RateLimit.Run
import Kynos.RateLimit.Store
import Kynos.RequestId.Numbered
import Kynos.Router.Agreement
import Kynos.Router.Allow
import Kynos.Router.Assembly
import Kynos.Router.Assets
import Kynos.Router.Composed
import Kynos.Router.Composition
import Kynos.Router.Description
import Kynos.Router.ExactlyOne
import Kynos.Router.Fallback
import Kynos.Router.Matching
import Kynos.Router.Method
import Kynos.Router.Outcomes
import Kynos.Router.Policies
import Kynos.Router.Predicted
import Kynos.Router.Redirects
import Kynos.Router.Scopes
import Kynos.Router.Spellings
import Kynos.Router.Table
import Kynos.Router.TrailingSlash
import Kynos.Run.Asking
import Kynos.Run.Chain
import Kynos.Run.Runs
import Kynos.Run.Shared
import Kynos.Run.Traced
import Kynos.Schema.Descent
import Kynos.Schema.Distinct
import Kynos.Schema.Nullable
import Kynos.Schema.Registered
import Kynos.Schema.Registry
import Kynos.Schema.Resolved
import Kynos.Schema.Terminates
import Kynos.Security.Base64
import Kynos.Security.Carrier
import Kynos.Security.Enforced
import Kynos.Security.Requirement
import Kynos.Server.Backoff
import Kynos.Server.Drain
import Kynos.Server.Fleet
import Kynos.Server.Idle
import Kynos.Server.Serving
import Kynos.Server.Shutdown
import Kynos.Server.Streams
import Kynos.Server.Ticket
import Kynos.Sse.Client
import Kynos.Sse.Record
import Kynos.Sse.RoundTrip
import Kynos.StructuredField.Joined
import Kynos.StructuredField.Read
import Kynos.StructuredField.Write
import Kynos.Text.Percent
import Kynos.Text.Pointer
import Kynos.Text.Str
import Kynos.Text.Utf8
import Kynos.Text.Utf8Table
import Kynos.Uri.Captures
import Kynos.Uri.FormCheck
import Kynos.Uri.Render
import Kynos.Uri.RouteBack
import Kynos.Uri.Substitute
import Kynos.Word.Led
import Kynos.Word.Lines
import Kynos.Word.Padded
import Kynos.Word.Quoted
import Kynos.Word.Regex
import Kynos.Word.Scan
import Kynos.Word.Splice
import Kynos.Word.Split
