import AntRuntime.Exceptions.Correctness
import AntRuntime.Promises.Order
import AntRuntime.Integrity.Runs
import AntRuntime.ArraySort.Correctness
import AntRuntime.Strings.Equality
import AntRuntime.Collections.Keys
import AntRuntime.Url.SearchParams
import AntRuntime.Collections.Iteration
import AntRuntime.Tar.Extractor
import AntRuntime.Pkg.Ranges
import AntRuntime.BigInt.NumberComparison
import AntRuntime.BigInt.Radix
import AntRuntime.BigInt.Wrapping
import AntRuntime.Url.UriEscapes
import AntRuntime.Sandbox.TcpFaithful
import AntRuntime.Strings.CacheTransparency
import AntRuntime.Pkg.Termination
import AntRuntime.WebSocket.RoundTrip
import AntRuntime.Sse.RoundTrip
import AntRuntime.Exceptions.HandlerLimit
import AntRuntime.Cron.Correctness
import AntRuntime.Lock.Reads
import AntRuntime.Esm.Encapsulation
import AntRuntime.Promises.Rejections
import AntRuntime.Promises.Reactions
import AntRuntime.Streams.PipeTo
import AntRuntime.Objects.OwnKeys
import AntRuntime.Timers.Cancellation
import AntRuntime.TextCodec.StringDecoder
import AntRuntime.TextCodec.SharedUtf16
import AntRuntime.Pkg.Lockfile
import AntRuntime.Sandbox.Frames
import AntRuntime.Sandbox.SendWindow
import AntRuntime.Sandbox.DirectoryListing
import AntRuntime.Strings.Export
