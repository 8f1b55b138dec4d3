import Matchbook.Config.Json
import Matchbook.Main
import Matchbook.Order.Json
import Matchbook.Proofs.Decimal.Exact
import Matchbook.Proofs.Book.Orders
import Matchbook.Proofs.Engine.Matching
import Matchbook.Proofs.Engine.Run
import Matchbook.Proofs.Engine.Floor
import Matchbook.Proofs.Engine.Present
import Matchbook.Proofs.Reach
import Matchbook.Proofs.Engine.Makers
import Matchbook.Proofs.Engine.Uncrossed
import Matchbook.Proofs.Engine.Priority
import Matchbook.Proofs.Order.Intake
import Matchbook.Proofs.Engine.Accounts
import Matchbook.Proofs.Engine.Encounter
import Matchbook.Proofs.Exchange.Run
import Matchbook.Proofs.Exchange.Protection
import Matchbook.Proofs.Book.Waiting
import Matchbook.Proofs.Engine.Course
import Matchbook.Proofs.Engine.Release
import Matchbook.Proofs.Engine.Evolution
import Matchbook.Proofs.Engine.Effect
import Matchbook.Proofs.Engine.Disposition
import Matchbook.Proofs.Engine.Orderly
import Matchbook.Proofs.Engine.Succession
import Matchbook.Proofs.Decimal.Product
import Matchbook.Proofs.Engine.Terms
import Matchbook.Store.Basic
import Matchbook.Store.Clerk
import Matchbook.Proofs.Book.Shelves
import Matchbook.Proofs.Store.Index
import Matchbook.Proofs.Store.Ladder
import Matchbook.Proofs.Store.Represents
import Matchbook.Proofs.Store.Trading
import Matchbook.Proofs.Store.Cascade
import Matchbook.Proofs.Store.Calls
import Matchbook.Proofs.Engine.Plain
import Matchbook.Proofs.Store.Agreement
import Matchbook.Proofs.Engine.Halting
import Matchbook.Proofs.Exchange.Halting
import Matchbook.Proofs.Store.Breaches
import Matchbook.Proofs.Store.Refusals
import Matchbook.Proofs.Store.Lookups
import Matchbook.Proofs.Decimal.Range
import Matchbook.Proofs.Book.Depth
import Matchbook.Proofs.Engine.Range
import Matchbook.Proofs.Exchange.Availability
import Matchbook.Proofs.Engine.Stamps
import Matchbook.Proofs.Exchange.Separation
import Matchbook.Proofs.Decimal.Text
import Matchbook.Proofs.Book.Root
import Matchbook.Proofs.Book.Canonical
import Matchbook.Proofs.Book.Without
import Matchbook.Proofs.Engine.Replies
import Matchbook.Proofs.Engine.Arrival
import Matchbook.Proofs.Engine.Bystander
import Matchbook.Proofs.Book.Levels
import Matchbook.Proofs.Decimal.Spelling
import Matchbook.Proofs.Engine.Interruption
import Matchbook.Proofs.Engine.Rounds
import Matchbook.Proofs.Engine.Exhaustion
import Matchbook.Proofs.Ladder.Edits
import Matchbook.Proofs.Json.Records
