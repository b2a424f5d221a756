import Sinkhole.Choice
import Sinkhole.Dns.Answer
import Sinkhole.Dns.RecordType
import Sinkhole.Dns.Status
import Sinkhole.Fault
import Sinkhole.Json
import Sinkhole.Ledger.Basic
import Sinkhole.Ledger.Tally
import Sinkhole.Lists
import Sinkhole.Net
import Sinkhole.Notice
import Sinkhole.Number.Binary64
import Sinkhole.Number.Bounded
import Sinkhole.Privacy
import Sinkhole.Proofs.Ledger.Bookings
import Sinkhole.Proofs.Ledger.Exchanges
import Sinkhole.Proofs.Ledger.Moves
import Sinkhole.Proofs.Ledger.Recount
import Sinkhole.Proofs.Ledger.Views
import Sinkhole.Proofs.Net.HardwareKeys
import Sinkhole.Proofs.Number.Census
import Sinkhole.Proofs.Record.Counts
import Sinkhole.Proofs.Record.Moments
import Sinkhole.Proofs.Slot.Charges
import Sinkhole.Proofs.Slot.Exchanges
import Sinkhole.Proofs.Slot.Generation
import Sinkhole.Proofs.Slot.Images
import Sinkhole.Proofs.Slot.Insertions
import Sinkhole.Proofs.Slot.Keys
import Sinkhole.Proofs.Slot.Lifetime
import Sinkhole.Proofs.Slot.Records
import Sinkhole.Proofs.Slot.Reuse
import Sinkhole.Proofs.Slot.Ring
import Sinkhole.Proofs.Slot.Scans
import Sinkhole.Proofs.Slot.Traces
import Sinkhole.Proofs.Store.Acceptances
import Sinkhole.Proofs.Store.Actions
import Sinkhole.Proofs.Store.AliasEntries
import Sinkhole.Proofs.Store.AliasSums
import Sinkhole.Proofs.Store.Announcements
import Sinkhole.Proofs.Store.Associations
import Sinkhole.Proofs.Store.Attempts
import Sinkhole.Proofs.Store.Births
import Sinkhole.Proofs.Store.Bystanders
import Sinkhole.Proofs.Store.Cards
import Sinkhole.Proofs.Store.Charges
import Sinkhole.Proofs.Store.ClientCounts
import Sinkhole.Proofs.Store.Courses
import Sinkhole.Proofs.Store.Departures
import Sinkhole.Proofs.Store.DomainCounts
import Sinkhole.Proofs.Store.Effects
import Sinkhole.Proofs.Store.Enrolments
import Sinkhole.Proofs.Store.Exactness
import Sinkhole.Proofs.Store.Leniency
import Sinkhole.Proofs.Store.Lookups
import Sinkhole.Proofs.Store.Managers
import Sinkhole.Proofs.Store.Misses
import Sinkhole.Proofs.Store.Moves
import Sinkhole.Proofs.Store.Newcomers
import Sinkhole.Proofs.Store.Observations
import Sinkhole.Proofs.Store.Quiet
import Sinkhole.Proofs.Store.RecordCounts
import Sinkhole.Proofs.Store.Redactions
import Sinkhole.Proofs.Store.Refusals
import Sinkhole.Proofs.Store.Registry
import Sinkhole.Proofs.Store.Reloads
import Sinkhole.Proofs.Store.Repeats
import Sinkhole.Proofs.Store.Responses
import Sinkhole.Proofs.Store.Runs
import Sinkhole.Proofs.Store.Schedules
import Sinkhole.Proofs.Store.Sightings
import Sinkhole.Proofs.Store.Slots
import Sinkhole.Proofs.Store.Specs
import Sinkhole.Proofs.Store.Spending
import Sinkhole.Proofs.Store.Stillness
import Sinkhole.Proofs.Store.Tallies
import Sinkhole.Proofs.Store.Updates
import Sinkhole.Proofs.Store.Verdicts
import Sinkhole.Proofs.Text.Arena
import Sinkhole.Proofs.Text.Bytes
import Sinkhole.Proofs.Text.Interning
import Sinkhole.Proofs.Timeline.Moves
import Sinkhole.Proofs.Timeline.Rows
import Sinkhole.Record
import Sinkhole.Schedule
import Sinkhole.Settings
import Sinkhole.Slot.Lemmas
import Sinkhole.Slot.Table
import Sinkhole.Store.Basic
import Sinkhole.Store.Clients
import Sinkhole.Store.Command
import Sinkhole.Store.Enrolment
import Sinkhole.Store.Monad
import Sinkhole.Store.Queries
import Sinkhole.Store.Reload
import Sinkhole.Store.Removal
import Sinkhole.Store.Reports
import Sinkhole.Text
import Sinkhole.Timeline
