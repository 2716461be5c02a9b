import JustWeather.Http.Framing
import JustWeather.Http.Response
import JustWeather.Cache.Capacity
import JustWeather.Cache.Freshness
import JustWeather.Cache.Stored
import JustWeather.Cache.Coherence
import JustWeather.Api.CacheKeys
import JustWeather.Api.RequestFidelity
import JustWeather.Cache.Clearing
import JustWeather.Cache.Residence
import JustWeather.Cache.Sharing
import JustWeather.Http.ChunkCuts
import JustWeather.Http.ChunkMachine
import JustWeather.Http.ChunkBounds
import JustWeather.Http.OneResponse
import JustWeather.Api.Session
import JustWeather.Memory.Chains
import JustWeather.Utils.ClientList
import JustWeather.Utils.ListEdits
import JustWeather.Utils.Sequences
import JustWeather.Cache.EntryList
import JustWeather.CLib.Buffers
import JustWeather.Http.UrlBuffers
import JustWeather.Http.UrlText
import JustWeather.Utils.WordLevel
import JustWeather.Api.QueryUrl
import JustWeather.Http.SizeLines
import JustWeather.CLib.LetterCase
import JustWeather.Http.HeaderCase
import JustWeather.Http.ContentLength
import JustWeather.Api.FailedRequest
import JustWeather.Cache.Eviction
import JustWeather.Cache.FailedStore
import JustWeather.Http.Sockets
import JustWeather.Http.Sending
import JustWeather.Cache.FileNames
import JustWeather.CLib.Strtod
import JustWeather.CLib.Stod
import JustWeather.Cli.CommandParser
import JustWeather.Cli.Main
import JustWeather.Http.Transport
import JustWeather.Cli.ExitCode
import JustWeather.Hashing.Blocks
import JustWeather.Hashing.Md5
import JustWeather.Cache.Md5Blocks
import JustWeather.Cache.Md5Context
import JustWeather.Cache.Staleness
import JustWeather.Api.CacheCalls
import JustWeather.Api.Provenance
import JustWeather.Machine.Recency
import JustWeather.Cache.Retention
import JustWeather.Cache.Keeping
import JustWeather.Api.Repeats
import JustWeather.Cli.Interactive
import JustWeather.CLib.Rounded
import JustWeather.CLib.Decimals
import JustWeather.Cli.Coordinates
import JustWeather.CLib.Ownership
import JustWeather.Http.Ownership
import JustWeather.CLib.Triples
import JustWeather.Cache.Ownership
