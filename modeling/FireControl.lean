import FireControl.Aim.Box
import FireControl.Aim.Controller
import FireControl.Aim.Outcome
import FireControl.Aim.Overlay
import FireControl.Aim.ReasonText
import FireControl.Bytes
import FireControl.Calendar.Date
import FireControl.Calendar.Timestamp
import FireControl.Calibration.Checksum
import FireControl.Calibration.Editor
import FireControl.Calibration.File
import FireControl.Calibration.Interpolation
import FireControl.Calibration.Store
import FireControl.Calibration.Table
import FireControl.Decimal.Layout
import FireControl.Decimal.Shortest
import FireControl.Event
import FireControl.Exchange.Bus
import FireControl.Exchange.Latest
import FireControl.Exchange.Queue
import FireControl.FileSystem
import FireControl.Interchange.Form
import FireControl.Interchange.Identifier
import FireControl.Interchange.Numeral
import FireControl.Interchange.Quoted
import FireControl.Interchange.Records
import FireControl.Interchange.Value
import FireControl.IoFault
import FireControl.Link.Supervisor
import FireControl.Link.Upload
import FireControl.Motion.Attitude
import FireControl.Motion.Gyro
import FireControl.Motion.Sharing
import FireControl.Number.Average
import FireControl.Number.Checked
import FireControl.Number.Floating
import FireControl.Number.Trigonometry
import FireControl.Operator
import FireControl.Radar.Cloud
import FireControl.Radar.Distance
import FireControl.Radar.Health
import FireControl.Radar.Intake
import FireControl.Radar.Point
import FireControl.Radar.PointLog
import FireControl.Ring
import FireControl.Session
import FireControl.Settings
import FireControl.Settings.File
import FireControl.Station
import FireControl.Text.Blank
import FireControl.Text.Digits
import FireControl.Toml.Document
import FireControl.Toml.Quoted
import FireControl.Toml.Reader
import FireControl.Toml.Scalar
import FireControl.Wire.Frame
import FireControl.Wire.PointCloud
import FireControl.Wire.Receiver
import FireControl.Wire.SensorMessage
import FireControl.Wire.Source
import FireControl.Proofs.RingHistory
import FireControl.Proofs.Aim.Moves
import FireControl.Proofs.Aim.Run
import FireControl.Proofs.Number.Rounding
import FireControl.Proofs.Number.Magnitude
import FireControl.Proofs.Number.Exceptional
import FireControl.Proofs.Motion.Variance
import FireControl.Proofs.Calibration.Corrections
import FireControl.Proofs.Calibration.Cells
import FireControl.Proofs.Aim.Progress
import FireControl.Proofs.Aim.Locking
import FireControl.Proofs.Aim.Firing
import FireControl.Proofs.Aim.Timing
import FireControl.Proofs.Wire.Layout
import FireControl.Proofs.Wire.Hunt
import FireControl.Proofs.Wire.Parse
import FireControl.Proofs.Wire.Delivery
import FireControl.Proofs.Wire.Recovery
import FireControl.Proofs.Wire.Slices
import FireControl.Proofs.Calibration.Editing
import FireControl.Proofs.Calibration.Codec
import FireControl.Proofs.Calibration.Persistence
import FireControl.Proofs.Exchange.Listening
import FireControl.Proofs.Exchange.Inbox
import FireControl.Proofs.Exchange.Broadcast
import FireControl.Proofs.Radar.Conservation
import FireControl.Proofs.Link.Sessions
import FireControl.Proofs.Link.Accounting
import FireControl.Proofs.Aim.Gate
import FireControl.Proofs.Exchange.Newest
import FireControl.Proofs.Wire.Walk
import FireControl.Proofs.Wire.Format
import FireControl.Proofs.Calibration.Remainder
import FireControl.Proofs.Calibration.Corruption
import FireControl.Proofs.Calibration.Wheel
import FireControl.Proofs.Wire.Stalls
import FireControl.Proofs.Wire.FirstRecords
import FireControl.Proofs.Wire.CloudGrammar
import FireControl.Proofs.Wire.CloudCodec
import FireControl.Proofs.Wire.MessageGrammar
import FireControl.Proofs.Radar.Liveness
import FireControl.Proofs.Number.Packing
import FireControl.Proofs.Number.Signs
import FireControl.Proofs.Aim.OppositeLead
import FireControl.Proofs.Aim.Mirror
import FireControl.Proofs.Calibration.Blend
import FireControl.Proofs.Calibration.Surface
import FireControl.Proofs.Number.Values
import FireControl.Proofs.Number.Faithful
import FireControl.Proofs.Number.Operations
import FireControl.Proofs.Number.Bounds
import FireControl.Proofs.Calibration.Reach
import FireControl.Proofs.Aim.Overflow
import FireControl.Proofs.Insertions
import FireControl.Proofs.Radar.Plausibility
import FireControl.Proofs.Radar.Reflections
import FireControl.Proofs.Motion.Glitches
import FireControl.Proofs.Calibration.FileFormat
import FireControl.Proofs.Link.Dialogue
import FireControl.Proofs.Link.Stopping
import FireControl.Proofs.Number.Cancellation
import FireControl.Proofs.Motion.Calibration
import FireControl.Proofs.Number.Roots
import FireControl.Proofs.Aim.Centering
import FireControl.Proofs.Motion.Windows
