import TWA.Foundation.Exec
import TWA.Foundation.Bytes
import TWA.Foundation.Parsers
import TWA.Foundation.Emitters
import TWA.Foundation.Pixels
import TWA.Foundation.St7789
import TWA.Foundation.F32
import TWA.Foundation.RingBuffer
import TWA.Foundation.Runs
import TWA.Foundation.Histories
import TWA.Foundation.Counters
import TWA.Foundation.WrappingClock
import TWA.Foundation.LinearCongruential
import TWA.Foundation.Text
import TWA.Foundation.Utf8
import TWA.Foundation.Json
import TWA.Display.Model
import TWA.Display.Units
import TWA.Display.Typewriter
import TWA.Display.FullText
import TWA.Display.Reconcile
import TWA.Display.LineBreaks
import TWA.Display.RowWidth
import TWA.Display.Wrapping
import TWA.Config
import TWA.VoiceClient.RoundTracker
import TWA.VoiceClient.RoundHistory
import TWA.VoiceClient.RoundLatency
import TWA.VoiceClient.Base64
import TWA.VoiceClient.Base64Encoding
import TWA.VoiceClient.Scanner
import TWA.VoiceClient.ScannerSafety
import TWA.VoiceClient.ScannerRenderings
import TWA.VoiceClient.Messages
import TWA.VoiceClient.Requests
import TWA.AudioOutput.Model
import TWA.AudioOutput.Ring
import TWA.AudioOutput.Pump
import TWA.AudioOutput.Activity
import TWA.AudioOutput.Playback
import TWA.AudioOutput.Queue
import TWA.AudioOutput.Alignment
import TWA.AudioOutput.Resampling
import TWA.AudioOutput.Termination
import TWA.AudioOutput.FailedStart
import TWA.AudioOutput.Safety
import TWA.AudioOutput.Tone
import TWA.AudioOutput.Consistency
import TWA.AudioOutput.ToneDelivery
import TWA.Ntp.Model
import TWA.Ntp.Freshness
import TWA.Battery
import TWA.Screen
import TWA.Screen.Spi
import TWA.Render.Raster
import TWA.Render.Model
import TWA.Render.Rows
import TWA.Render.Painting
import TWA.Render.BarKey
import TWA.Render.Snapshots
import TWA.Render.Settling
import TWA.Render.SevenTicks
import TWA.Render.Pushes
import TWA.Render.WriteLog
import TWA.Render.Healing
import TWA.Render.Recovery
import TWA.Render.VolumeReadout
import TWA.EmbeddedTls.RecordReader
import TWA.EmbeddedTls.ReadResumption
import TWA.EmbeddedTls.WriteBuffer
import TWA.EmbeddedTls.SendResumption
import TWA.EmbeddedTls.ParseBuffer
import TWA.EmbeddedTls.Extensions
import TWA.EmbeddedTls.KeySchedule
import TWA.EmbeddedTls.KeyTree
import TWA.EmbeddedTls.ServerHandshake
import TWA.EmbeddedTls.CryptoBuffer
import TWA.EmbeddedTls.ClientExtensions
import TWA.EmbeddedTls.ClientMessages
import TWA.EmbeddedTls.WriteRecord
import TWA.EmbeddedTls.Handshake
import TWA.EmbeddedTls.ServerFlight
import TWA.EmbeddedTls.HandshakeSteps
import TWA.EmbeddedTls.Authentication
import TWA.EmbeddedTls.ServerTexts
import TWA.EmbeddedTls.HonestServer
import TWA.EmbeddedTls.Completion
import TWA.EmbeddedTls.Decryption
import TWA.EmbeddedTls.AnyStream
import TWA.EmbeddedTls.ReadHalf
import TWA.EmbeddedTls.Handling
import TWA.EmbeddedTls.Integrity
import TWA.EmbeddedTls.Delivery
import TWA.EmbeddedTls.Channel
import TWA.WsClient
import TWA.Main.Shared
import TWA.Main.VoiceTask
import TWA.Main.AppLoop
import TWA.Main.System
import TWA.Main.MicFlag
import TWA.Main.OpenStream
import TWA.Main.Hearing
import TWA.Main.LateContent
import TWA.Main.MicQueue
import TWA.Main.Clock
import TWA.Main.AutoResume
import TWA.Main.ListenTimeout
