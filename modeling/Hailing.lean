import Hailing.Desk.Timeline
import Hailing.Feed
import Hailing.Http.Service
import Hailing.Notice.Wire
import Hailing.Proofs.Acceptance
import Hailing.Proofs.Accounts
import Hailing.Proofs.Answerable
import Hailing.Proofs.Attendance
import Hailing.Proofs.Balance
import Hailing.Proofs.Bodies
import Hailing.Proofs.Calendar
import Hailing.Proofs.Cancellation
import Hailing.Proofs.Courses
import Hailing.Proofs.Dockets
import Hailing.Proofs.Doubles
import Hailing.Proofs.Drafts
import Hailing.Proofs.Drawn
import Hailing.Proofs.Errands
import Hailing.Proofs.Exclusion
import Hailing.Proofs.Forms
import Hailing.Proofs.Freshness
import Hailing.Proofs.InRange
import Hailing.Proofs.Instants
import Hailing.Proofs.Lawful
import Hailing.Proofs.Listing
import Hailing.Proofs.Located
import Hailing.Proofs.Moves
import Hailing.Proofs.NoticeHistory
import Hailing.Proofs.Notices
import Hailing.Proofs.Numbering
import Hailing.Proofs.OfferTimes
import Hailing.Proofs.OpenOrders
import Hailing.Proofs.Outcomes
import Hailing.Proofs.Positions
import Hailing.Proofs.Punctual
import Hailing.Proofs.Queues
import Hailing.Proofs.Radii
import Hailing.Proofs.Ranking
import Hailing.Proofs.Refusals
import Hailing.Proofs.Renaming
import Hailing.Proofs.Requests
import Hailing.Proofs.RoundTrip
import Hailing.Proofs.Runs
import Hailing.Proofs.Service
import Hailing.Proofs.SingleOffer
import Hailing.Proofs.Stages
import Hailing.Proofs.Startup
import Hailing.Proofs.Sums
import Hailing.Proofs.SweepOrder
import Hailing.Proofs.Sweeps
import Hailing.Proofs.SweptCases
import Hailing.Proofs.SweptOrders
import Hailing.Proofs.TimeLeft
import Hailing.Proofs.Tokens
import Hailing.Proofs.Traces
import Hailing.Proofs.Tries
import Hailing.Proofs.Trips
import Hailing.Proofs.TurnedDown
import Hailing.Proofs.Turns
import Hailing.Proofs.Widening
import Hailing.Proofs.Windows
import Hailing.Settings.Environment
