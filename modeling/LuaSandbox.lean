import LuaSandbox.Foundation.Double
import LuaSandbox.Matcher.Composition
import LuaSandbox.Matcher.StringOrder
import LuaSandbox.Heka.StreamHistory
import LuaSandbox.Util.DecodeBounds
import LuaSandbox.Heka.DecodeTableBounds
import LuaSandbox.Heka.PluginMessage
import LuaSandbox.Heka.PluginStack
import LuaSandbox.Heka.EncodeBounds
import LuaSandbox.Heka.EncodeComplete
import LuaSandbox.Heka.EncodeDecodes
import LuaSandbox.Heka.RestrictedHeaders
import LuaSandbox.Heka.EncodeValues
import LuaSandbox.Util.PatternSlice
import LuaSandbox.Util.PatternText
import LuaSandbox.Matcher.PatternMod
import LuaSandbox.Foundation.Peg.Forward
import LuaSandbox.Matcher.SourceText
import LuaSandbox.Matcher.FieldReference
import LuaSandbox.Matcher.QuotedLiteral
import LuaSandbox.Matcher.TimestampConstant
import LuaSandbox.Util.WireValues
import LuaSandbox.Heka.DecodersAgree
import LuaSandbox.Foundation.DoubleInt
import LuaSandbox.Heka.ReadMessage
import LuaSandbox.Heka.ReadMessageZc
import LuaSandbox.Heka.FieldTraversal
import LuaSandbox.Heka.FrameRoundTrip
import LuaSandbox.Heka.SameMessage
import LuaSandbox.Heka.BooleanFields
import LuaSandbox.Heka.StreamAccounts
import LuaSandbox.Util.PieceWire
import LuaSandbox.Util.DecodePieces
import LuaSandbox.Heka.EncodeFuel
import LuaSandbox.Util.LargeBuffer
import LuaSandbox.Util.NumberConversions
import LuaSandbox.Util.OutputCalls
import LuaSandbox.Util.FieldIndex
import LuaSandbox.Util.FieldArray
import LuaSandbox.Util.NumberText
import LuaSandbox.Foundation.Fuel
import LuaSandbox.Heka.EncodeTermination
import LuaSandbox.Util.VarintCodec
import LuaSandbox.Heka.PackedLength
import LuaSandbox.Util.RunningStats
import LuaSandbox.Util.Unescape
import LuaSandbox.Core.SerializeBinary
import LuaSandbox.Cli.HekaCat
import LuaSandbox.Core.MemoryLimit
import LuaSandbox.Core.ConfigEqual
import LuaSandbox.Cli.CatStream
import LuaSandbox.Core.RestoreGraph
import LuaSandbox.Heka.Injection
import LuaSandbox.Heka.BareMessage
import LuaSandbox.Heka.PayloadTable
import LuaSandbox.Heka.InjectionSteps
import LuaSandbox.Heka.EncodeGrowth
import LuaSandbox.Heka.PayloadSessions
import LuaSandbox.Heka.InjectedMessages
import LuaSandbox.Heka.PlainFields
import LuaSandbox.Util.UuidText
import LuaSandbox.Heka.TableRoundTrip
import LuaSandbox.Core.Modules
import LuaSandbox.Core.ModuleSteps
import LuaSandbox.Core.Restrictions
import LuaSandbox.Core.LibraryOpening
import LuaSandbox.Core.RestrictedRuns
import LuaSandbox.Core.RestrictionEscapes
import LuaSandbox.Core.BaseLibrary
import LuaSandbox.Heka.SetRestrictions
import LuaSandbox.Heka.SandboxStart
