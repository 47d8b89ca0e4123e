import IotTransfer.Core.Bytes
import IotTransfer.Core.Counter
import IotTransfer.Core.Programs
import IotTransfer.Core.Ring
import IotTransfer.Core.Interrupts
import IotTransfer.Core.TwoRuns
import IotTransfer.Core.Schedules
import IotTransfer.Core.Simulation
import IotTransfer.Core.Triples
import IotTransfer.Core.Linked
import IotTransfer.Core.Segments
import IotTransfer.Defines
import IotTransfer.RFQueue
import IotTransfer.Board
import IotTransfer.Drivers
import IotTransfer.Radio
import IotTransfer.Receive
import IotTransfer.MyKeys
import IotTransfer.PeerKey
import IotTransfer.Alike
import IotTransfer.FormattedText
import IotTransfer.Startup
import IotTransfer.Rx.MainThread
import IotTransfer.Rx.Runs
import IotTransfer.Rx.HandOver
import IotTransfer.Rx.Rotation
import IotTransfer.Rx.KeyOrder
import IotTransfer.Rx.Refusal
import IotTransfer.Rx.ShortFrames
import IotTransfer.Tx.Nonce
import IotTransfer.Tx.ReadInput
import IotTransfer.Tx.BufferSizes
import IotTransfer.Tx.MainThread
import IotTransfer.Tx.Runs
import IotTransfer.Tx.FreshPackets
import IotTransfer.Tx.Keys
import IotTransfer.Tx.NonceReuse
import IotTransfer.System.Delivery
import IotTransfer.System.EndToEnd
import IotTransfer.System.Loss
import IotTransfer.System.KeyAgreement
import IotTransfer.System.Outsider
import IotTransfer.System.FailStop
import IotTransfer.System.Consent
import IotTransfer.Spec.Package
import IotTransfer.Spec.KeyPackage
import IotTransfer.Spec.Terminal
import IotTransfer.Spec.Receiver
import IotTransfer.Spec.Sender
import IotTransfer.Spec.OnTheAir
import IotTransfer.System.LastWords
import IotTransfer.System.Schedules
import IotTransfer.Network.Startup
import IotTransfer.Network.Receiver
import IotTransfer.Network.Sender
import IotTransfer.Network.Agreement
