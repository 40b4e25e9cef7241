import LedgerCore.Consistency.Writes
import LedgerCore.Dashboard.Money
import LedgerCore.Http.ClientIP
import LedgerCore.Http.Cursors
import LedgerCore.Http.InProgress
import LedgerCore.Http.Leases
import LedgerCore.Http.Rejections
import LedgerCore.Idempotency.Caching
import LedgerCore.Idempotency.NumberLayout
import LedgerCore.Ledger.EventLog
import LedgerCore.Ledger.MoneyWire
import LedgerCore.Ledger.Retries
import LedgerCore.Outbox.Delivery
import LedgerCore.Payout.Alerts
import LedgerCore.Payout.Amounts
import LedgerCore.Payout.Books
import LedgerCore.Payout.Holds
import LedgerCore.Payout.HookLocks
import LedgerCore.Payout.Leases
import LedgerCore.Payout.Probes
import LedgerCore.Payout.Starts
import LedgerCore.Projector.Deadlocks
import LedgerCore.Projector.Rebuild
import LedgerCore.Projector.Wire
import LedgerCore.Reconciliation.Payouts
import LedgerCore.Reconciliation.Timing
