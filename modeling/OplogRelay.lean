import OplogRelay.Json.Reader
import OplogRelay.Main
import OplogRelay.Run.Timeline
import OplogRelay.Session.Memory
import OplogRelay.Source.CursorSet
import OplogRelay.Source.Handoff
import OplogRelay.Source.Reading
import OplogRelay.Proofs.Run.Stopping
import OplogRelay.Proofs.Transfer.Timing
import OplogRelay.Proofs.Run.Landmarks
import OplogRelay.Proofs.Run.Resources
import OplogRelay.Proofs.Run.Lifecycle
import OplogRelay.Proofs.Transfer.Punctuality
import OplogRelay.Proofs.Run.Timely
import OplogRelay.Proofs.Run.Punctuality
import OplogRelay.Proofs.Transfer.Reading
import OplogRelay.Proofs.Transfer.Chunking
import OplogRelay.Proofs.Transfer.Draining
import OplogRelay.Proofs.Run.Chunking
import OplogRelay.Proofs.Run.Promptness
import OplogRelay.Proofs.Transfer.Heeding
import OplogRelay.Proofs.Run.Heeding
import OplogRelay.Proofs.Source.Tailing
import OplogRelay.Proofs.Source.Delivery
import OplogRelay.Proofs.Source.Readings
import OplogRelay.Proofs.Source.Waiting
import OplogRelay.Proofs.Source.Handing
import OplogRelay.Proofs.Source.Sharing
import OplogRelay.Proofs.Destination.Accounting
import OplogRelay.Proofs.HostString.RoundTrip
import OplogRelay.Proofs.HostString.Usability
import OplogRelay.Proofs.Settings.Readiness
import OplogRelay.Proofs.Settings.Seconds
import OplogRelay.Proofs.Settings.Secrecy
import OplogRelay.Proofs.Namespace
import OplogRelay.Proofs.Source.Window
import OplogRelay.Proofs.CommandLine.Overlay
import OplogRelay.Proofs.Batch
import OplogRelay.Proofs.Run.Turns
