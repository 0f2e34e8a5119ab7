import MediaRemote.CommandLine.Load
import MediaRemote.Main
import MediaRemote.Proofs.Client.Happenings
import MediaRemote.Proofs.Client.Polling
import MediaRemote.Proofs.Client.Runs
import MediaRemote.Proofs.Client.Sockets
import MediaRemote.Proofs.Client.Turns
import MediaRemote.Proofs.Connection.Coherence
import MediaRemote.Proofs.Connection.Deliveries
import MediaRemote.Proofs.Connection.Steps
import MediaRemote.Proofs.Histories
import MediaRemote.Proofs.Json.Grammar
import MediaRemote.Proofs.Json.Leaves
import MediaRemote.Proofs.Json.Local
import MediaRemote.Proofs.Json.Printing
import MediaRemote.Proofs.Json.Records
import MediaRemote.Proofs.Json.Values
import MediaRemote.Proofs.Json.Written
import MediaRemote.Proofs.Session.Awaiting
import MediaRemote.Proofs.Session.Changes
import MediaRemote.Proofs.Session.Commands
import MediaRemote.Proofs.Session.Continuations
import MediaRemote.Proofs.Session.Deeds
import MediaRemote.Proofs.Session.Executing
import MediaRemote.Proofs.Session.FollowUps
import MediaRemote.Proofs.Session.Frames
import MediaRemote.Proofs.Session.Handlers
import MediaRemote.Proofs.Session.Ineffective
import MediaRemote.Proofs.Session.Listeners
import MediaRemote.Proofs.Session.Moments
import MediaRemote.Proofs.Session.Negotiation
import MediaRemote.Proofs.Session.Numbering
import MediaRemote.Proofs.Session.Outbox
import MediaRemote.Proofs.Session.Pace
import MediaRemote.Proofs.Session.Pages
import MediaRemote.Proofs.Session.Playback
import MediaRemote.Proofs.Session.Polls
import MediaRemote.Proofs.Session.Queued
import MediaRemote.Proofs.Session.Reports
import MediaRemote.Proofs.Session.Resets
import MediaRemote.Proofs.Session.Runs
import MediaRemote.Proofs.Session.Sending
import MediaRemote.Proofs.Session.SharedFields
import MediaRemote.Proofs.Session.Silence
import MediaRemote.Proofs.Session.Windows
import MediaRemote.Proofs.Wire.Descriptors
import MediaRemote.Proofs.Wire.Messages
import MediaRemote.Proofs.Wire.Requests
import MediaRemote.Session.Clock
import MediaRemote.Signal
import MediaRemote.Proofs.Json.Restored
import MediaRemote.Proofs.Wire.RoundTrips
import MediaRemote.Proofs.Bar.Announcements
import MediaRemote.Proofs.Bar.Display
import MediaRemote.Proofs.Bar.Buttons
import MediaRemote.Proofs.Wire.Payloads
import MediaRemote.Proofs.Bar.Options
import MediaRemote.Proofs.Session.Mistyped
import MediaRemote.Proofs.Results
import MediaRemote.Proofs.Text.Numerals
import MediaRemote.Proofs.Text.Spoken
import MediaRemote.Proofs.Url.Addresses
import MediaRemote.Proofs.Url.Hosts
import MediaRemote.Proofs.Url.Endpoints
import MediaRemote.Proofs.Settings.Loading
