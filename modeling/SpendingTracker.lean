import SpendingTracker.Lib.Run
import SpendingTracker.Lib.Grouping
import SpendingTracker.Lib.Heap
import SpendingTracker.Lib.DocumentStore
import SpendingTracker.Lib.TrappingInt
import SpendingTracker.Lib.Pool
import SpendingTracker.Lib.Pattern
import SpendingTracker.Lib.Characters
import SpendingTracker.Lib.CivilCalendar
import SpendingTracker.Lib.OrderedMap
import SpendingTracker.Model.Transaction
import SpendingTracker.Model.Platform
import SpendingTracker.Model.Firestore
import SpendingTracker.Model.App
import SpendingTracker.Model.Steps
import SpendingTracker.Model.Identity
import SpendingTracker.Model.AmountField
import SpendingTracker.Model.Screens
import SpendingTracker.Model.Views
import SpendingTracker.Model.Display
import SpendingTracker.Model.Forms
import SpendingTracker.Model.Login
import SpendingTracker.Model.Gate
import SpendingTracker.Sync.Agreement
import SpendingTracker.Sync.Convergence
import SpendingTracker.Sync.Atomicity
import SpendingTracker.Sync.Ids
import SpendingTracker.Accounts.Isolation
import SpendingTracker.Accounts.Noninterference
import SpendingTracker.Accounts.EmailGrammar
import SpendingTracker.Accounts.Gate
import SpendingTracker.Format.RoundTrip
import SpendingTracker.Format.WellFormed
import SpendingTracker.Format.Enumeration
import SpendingTracker.Screens.ListSync
import SpendingTracker.Screens.Lifetime
import SpendingTracker.Screens.LostUpdate
import SpendingTracker.Screens.EditFrame
import SpendingTracker.Screens.OneTransaction
import SpendingTracker.Screens.AmountInput
import SpendingTracker.Views.Traps
import SpendingTracker.Views.Periods
import SpendingTracker.Views.Ledger
import SpendingTracker.Views.Tabs
import SpendingTracker.Views.Report
import SpendingTracker.Views.Forms
import SpendingTracker.Lib.Clients
import SpendingTracker.Sync.Devices
import SpendingTracker.Sync.Rest
import SpendingTracker.Accounts.Strangers
import SpendingTracker.Accounts.Outcome
import SpendingTracker.Screens.Installations
