import FastEcu.Data.Overwrite
import FastEcu.Data.Tiling
import FastEcu.Memory.Address
import FastEcu.Memory.Map
import FastEcu.Memory.Image
import FastEcu.Checksum.DensoTable
import FastEcu.Checksum.Diesel
import FastEcu.Checksum.Families
import FastEcu.Data.Tally
import FastEcu.Checksum.Windows
import FastEcu.Checksum.HitachiM32r
import FastEcu.Checksum.HitachiSh7058
import FastEcu.Checksum.HitachiTcu
import FastEcu.Checksum.Dispatch
import FastEcu.Cipher.Ssm
import FastEcu.Cipher.KeyRecovery
import FastEcu.Expression.Compile
import FastEcu.Expression.Grammar
import FastEcu.Expression.Code
import FastEcu.Expression.Literal
import FastEcu.Expression.Sound
import FastEcu.Expression.Complete
import FastEcu.Expression.Correct
import FastEcu.Calibration.Definition
import FastEcu.Calibration.Placement
import FastEcu.Calibration.Decode
import FastEcu.Calibration.Session
import FastEcu.Calibration.PlacedMaps
import FastEcu.Calibration.NumericEdit
import FastEcu.Calibration.NumericPatch
import FastEcu.Calibration.EditNumeric
import FastEcu.Definition.Model
import FastEcu.Definition.Overlay
import FastEcu.Definition.Resolver
import FastEcu.Data.DependencyOrder
import FastEcu.Definition.Inheritance
import FastEcu.Definition.Termination
import FastEcu.Definition.Naive
import FastEcu.Definition.WellFormed
import FastEcu.Logging.Session
import FastEcu.Logging.UseCase
import FastEcu.Flash.Workflow
import FastEcu.Flash.SingleAttempt
import FastEcu.Flash.Unisia
import FastEcu.Flash.UnisiaBootMode
import FastEcu.Data.Resync
import FastEcu.Logging.SsmProtocol
import FastEcu.Logging.ReadPlan
import FastEcu.Logging.SsmPoll
import FastEcu.Logging.SessionSpec
import FastEcu.Logging.Preparation
import FastEcu.Logging.RunSnapshot
import FastEcu.Data.Computation
import FastEcu.Diagnostics.DtcSession
import FastEcu.Diagnostics.DtcTrace
import FastEcu.Data.XmlTree
import FastEcu.Logging.LoggerConf
import FastEcu.Definition.ParserUtils
import FastEcu.Definition.Parsers
import FastEcu.Definition.Catalog
import FastEcu.Data.Script
import FastEcu.Flash.CanTransport
import FastEcu.Flash.UdsClient
import FastEcu.Flash.BoundAttempt
import FastEcu.Flash.UdsSession
import FastEcu.Flash.DensoIso15765
import FastEcu.Flash.ColtWrite
import FastEcu.Flash.ColtSpec
import FastEcu.Flash.Eeprom
import FastEcu.Data.Occurrences
import FastEcu.Serial.DirectRead
import FastEcu.Serial.SsmLink
import FastEcu.Flash.Beef
import FastEcu.Flash.BeefCan
import FastEcu.Flash.KlineTransport
import FastEcu.Flash.Sh705xKline
import FastEcu.Memory.Selection
import FastEcu.Flash.BeefKline
import FastEcu.Flash.Sh705502Kline
import FastEcu.Flash.Mc68Kline
import FastEcu.Flash.Mc68RoundTrip
import FastEcu.Data.Protocol
import FastEcu.Flash.UnisiaKlineSession
import FastEcu.Flash.UnisiaKlineProtocol
import FastEcu.MutDma.Frames
import FastEcu.MutDma.Memory
import FastEcu.Data.Bursts
import FastEcu.Serial.ByteBuffer
import FastEcu.Serial.PassThru
import FastEcu.Serial.PassThruSpec
import FastEcu.Data.XmlViews
import FastEcu.Definition.Writer
import FastEcu.Definition.HeaderFields
import FastEcu.Definition.TableReading
import FastEcu.Definition.HeaderText
import FastEcu.Definition.WrittenHeader
import FastEcu.Definition.WriterRoundTrip
import FastEcu.Checksum.MitsuM32r
import FastEcu.Cipher.RoundFunction
import FastEcu.Cipher.KeySearch
import FastEcu.Calibration.Assignment
import FastEcu.Calibration.RunLayout
import FastEcu.Data.FixedWidth
import FastEcu.Calibration.RawElement
import FastEcu.Data.Candidates
import FastEcu.Definition.OverlayScan
import FastEcu.Definition.MappackCsv
import FastEcu.Definition.RomMatch
import FastEcu.Checksum.Crc32
import FastEcu.Checksum.SingleBalance
import FastEcu.Flash.KernelImage
import FastEcu.Flash.KernelUpload
import FastEcu.Data.Tokens
import FastEcu.Diagnostics.TerminalScript
import FastEcu.Serial.PassThruMessages
import FastEcu.Serial.StagingBuffer
import FastEcu.Flash.UnisiaJecs
import FastEcu.Logging.CdbgPoll
import FastEcu.Diagnostics.DtcLists
import FastEcu.Definition.FlashMethod
import FastEcu.Definition.WriterSpec
import FastEcu.Definition.HeaderImport
import FastEcu.Cipher.ColtChallenge
import FastEcu.Data.Csv
import FastEcu.Logging.CsvRecord
import FastEcu.Definition.MappackConverter
import FastEcu.Definition.MappackLoads
import FastEcu.Data.Pipes
import FastEcu.Data.PipeRuns
import FastEcu.Data.Layout
import FastEcu.Serial.BridgeProtocol
import FastEcu.Serial.BridgeHost
import FastEcu.Serial.BridgeClient
import FastEcu.Serial.BridgeRuns
import FastEcu.ServiceFunctions.Sessions
import FastEcu.ServiceFunctions.Relearn
import FastEcu.ServiceFunctions.Worker
import FastEcu.ServiceFunctions.Parameters
import FastEcu.Config.AppConfig
import FastEcu.Config.Provisioning
import FastEcu.Config.Session
import FastEcu.Logging.SupportModel
import FastEcu.Diagnostics.SsmIdentify
