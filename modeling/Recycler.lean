import Recycler.Churn
import Recycler.Item.Shelf
import Recycler.Session.Run
import Recycler.Task
import Recycler.Proofs.Constraint
import Recycler.Proofs.Item.Merge
import Recycler.Proofs.Item.Shelf
import Recycler.Proofs.Store.Act
import Recycler.Proofs.Store.Tree
import Recycler.Proofs.Store.Handle
import Recycler.Proofs.Session.Acts
import Recycler.Proofs.Session.Turn
import Recycler.Proofs.Session.Advance
import Recycler.Proofs.Session.Runs
import Recycler.Proofs.Session.Sound
import Recycler.Proofs.Session.Rest
import Recycler.Proofs.Session.Late
import Recycler.Proofs.Store.History
import Recycler.Proofs.Session.Window
import Recycler.Proofs.Store.Valid
import Recycler.Proofs.Session.Items
import Recycler.Proofs.Session.Valid
import Recycler.Proofs.Twin.Renaming
import Recycler.Proofs.Twin.Session
import Recycler.Proofs.Twin.Command
import Recycler.Proofs.Twin.Frame
import Recycler.Proofs.Twin.Reference
import Recycler.Proofs.Twin.Acquire
import Recycler.Proofs.Twin.Recycled
import Recycler.Proofs.Session.Settle
import Recycler.Proofs.Store.Parked
import Recycler.Proofs.Session.Trees
import Recycler.Proofs.Session.Capture
import Recycler.Proofs.Session.Standing
import Recycler.Proofs.Session.Reuse
import Recycler.Proofs.Churn.Turn
import Recycler.Proofs.Churn.Order
import Recycler.Proofs.Churn.Steps
import Recycler.Proofs.Churn.Run
import Recycler.Proofs.Session.Superseded
import Recycler.Proofs.Store.Height
import Recycler.Proofs.Session.Overlap
import Recycler.Proofs.Section.Renders
import Recycler.Proofs.Section.UpToDate
import Recycler.Proofs.Task.Worker
import Recycler.Proofs.Session.Resolve
import Recycler.Proofs.Store.Stack
import Recycler.Proofs.Session.Ledger
import Recycler.Proofs.Session.Listeners
import Recycler.Proofs.Session.Refusal
import Recycler.Proofs.Agree.Scene
import Recycler.Proofs.Agree.Callback
import Recycler.Proofs.Agree.Layout
import Recycler.Proofs.Agree.Request
import Recycler.Proofs.Agree.Task
import Recycler.Proofs.Agree.Carried
import Recycler.Proofs.Agree.Modes
import Recycler.Proofs.Session.Latest
import Recycler.Proofs.Session.Course
import Recycler.Proofs.Store.Armed
import Recycler.Proofs.Session.Reckoning
import Recycler.Proofs.Store.Notice
import Recycler.Proofs.Session.Notice
import Recycler.Proofs.Store.Unarm
import Recycler.Proofs.Outline.Command
import Recycler.Proofs.Outline.Frame
import Recycler.Proofs.Outline.Run
import Recycler.Proofs.Session.Failing
import Recycler.Proofs.Session.Retry
