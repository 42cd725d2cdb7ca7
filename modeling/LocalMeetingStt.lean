import LocalMeetingStt.Lib.Scan
import LocalMeetingStt.Captions.Text
import LocalMeetingStt.Captions.Spacing
import LocalMeetingStt.Captions.Cleaning
import LocalMeetingStt.Captions.State
import LocalMeetingStt.Lib.Replica
import LocalMeetingStt.Captions.Page
import LocalMeetingStt.Lib.Slices
import LocalMeetingStt.Segmenter.Model
import LocalMeetingStt.Segmenter.Accounting
import LocalMeetingStt.Segmenter.Limit
import LocalMeetingStt.Segmenter.Pauses
import LocalMeetingStt.Segmenter.Previews
import LocalMeetingStt.Captions.Utterances
import LocalMeetingStt.Captions.Normal
import LocalMeetingStt.Lib.Transition
import LocalMeetingStt.Lib.Windows
import LocalMeetingStt.Captions.Frame
import LocalMeetingStt.Captions.Stamped
import LocalMeetingStt.Captions.Filter
import LocalMeetingStt.Captions.Loops
import LocalMeetingStt.Captions.Lookback
import LocalMeetingStt.Captions.Loopback
import LocalMeetingStt.Captions.Repeated
import LocalMeetingStt.Captions.Merging
import LocalMeetingStt.Live.Devices
import LocalMeetingStt.Live.Session
import LocalMeetingStt.Live.Failures
import LocalMeetingStt.Live.Recording
import LocalMeetingStt.Live.Stream
import LocalMeetingStt.Lib.LittleEndian
import LocalMeetingStt.Wav.Repair
import LocalMeetingStt.Jobs.Commands
import LocalMeetingStt.Jobs.State
import LocalMeetingStt.Jobs.World
import LocalMeetingStt.Jobs.Table
import LocalMeetingStt.Jobs.Trace
import LocalMeetingStt.Jobs.Stopping
import LocalMeetingStt.Jobs.Agreement
import LocalMeetingStt.Jobs.Closing
import LocalMeetingStt.Lib.Framing
import LocalMeetingStt.Jobs.Reading
import LocalMeetingStt.Devices.Listing
import LocalMeetingStt.Post.Segments
import LocalMeetingStt.Lib.Script
import LocalMeetingStt.Assets.Files
import LocalMeetingStt.Assets.Download
import LocalMeetingStt.Assets.Runs
import LocalMeetingStt.Assets.Killed
import LocalMeetingStt.Assets.Check
import LocalMeetingStt.Assets.Retry
import LocalMeetingStt.Assets.Unpacked
import LocalMeetingStt.Assets.Isolation
import LocalMeetingStt.Ui.Jobs
import LocalMeetingStt.Lib.Json
import LocalMeetingStt.Ui.Settings
import LocalMeetingStt.Live.RecordAudio
import LocalMeetingStt.Wav.Agreement
import LocalMeetingStt.Ui.Loading
import LocalMeetingStt.Benchmarks.ChunkPlan
import LocalMeetingStt.Lib.EditDistance
import LocalMeetingStt.Benchmarks.Metrics
import LocalMeetingStt.Lib.Ring
import LocalMeetingStt.Loopback.Audio
import LocalMeetingStt.Lib.SelfSync
import LocalMeetingStt.Loopback.Overlap
import LocalMeetingStt.Loopback.Preview
import LocalMeetingStt.Lib.Rounding
import LocalMeetingStt.Loopback.Steps
import LocalMeetingStt.Loopback.Capture
import LocalMeetingStt.Lib.WinPath
import LocalMeetingStt.Lib.WinJoin
import LocalMeetingStt.Lib.WinNested
import LocalMeetingStt.Lib.WinNames
import LocalMeetingStt.Post.Output
import LocalMeetingStt.Post.Opened
import LocalMeetingStt.Post.TextScript
import LocalMeetingStt.Live.Backlog
import LocalMeetingStt.Live.Ending
import LocalMeetingStt.Captions.Clock
import LocalMeetingStt.Jobs.Pipeline
import LocalMeetingStt.Loopback.Sliding
import LocalMeetingStt.Lib.Torn
import LocalMeetingStt.Wav.Recorder
import LocalMeetingStt.Ui.Saving
import LocalMeetingStt.Jobs.Printed
import LocalMeetingStt.Live.Transcript
import LocalMeetingStt.Ui.Downloads
import LocalMeetingStt.Ui.Recordings
import LocalMeetingStt.Lib.Argparse
import LocalMeetingStt.Launch.Commands
import LocalMeetingStt.Launch.Scripts
import LocalMeetingStt.Launch.Asked
import LocalMeetingStt.Launch.Agreement
import LocalMeetingStt.Launch.Wrapped
