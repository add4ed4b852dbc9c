import PaymentSystem.Base.Bookkeeping
import PaymentSystem.Base.LockOrder
import PaymentSystem.Guarantees.Reconciliation
import PaymentSystem.Guarantees.Idempotency
import PaymentSystem.Guarantees.Disclosure
import PaymentSystem.Guarantees.Progress
import PaymentSystem.Guarantees.Failures
import PaymentSystem.Guarantees.Registration
import PaymentSystem.Guarantees.Amounts
import PaymentSystem.Guarantees.Currency
import PaymentSystem.Guarantees.Collisions
import PaymentSystem.Guarantees.CachedBalances
import PaymentSystem.Guarantees.Contention
import PaymentSystem.Guarantees.LockedReads
import PaymentSystem.Guarantees.Retries
import PaymentSystem.Guarantees.RateLimits
import PaymentSystem.Guarantees.Rejections
import PaymentSystem.Guarantees.KeySpaces
import PaymentSystem.Guarantees.SlidingWindow
import PaymentSystem.Guarantees.CounterExpiry
import PaymentSystem.Guarantees.HistoryPages
import PaymentSystem.Guarantees.RacingRegistrations
import PaymentSystem.Guarantees.CacheHealing
import PaymentSystem.Guarantees.CacheCoherence
import PaymentSystem.Guarantees.ConcurrentRetries
import PaymentSystem.Base.Parallel
import PaymentSystem.System.Outages
import PaymentSystem.Guarantees.RedisOutages
import PaymentSystem.Guarantees.Completion
import PaymentSystem.Guarantees.Statuses
import PaymentSystem.Base.Linearization
import PaymentSystem.System.Bank
import PaymentSystem.Behaviour.Lookups
import PaymentSystem.Guarantees.Linearizability
import PaymentSystem.Guarantees.Snapshots
import PaymentSystem.System.Staging
import PaymentSystem.Service.Login
import PaymentSystem.Behaviour.Logins
import PaymentSystem.System.Api
import PaymentSystem.Guarantees.Authentication
import PaymentSystem.Guarantees.Deposits
import PaymentSystem.Guarantees.LostUpdates
import PaymentSystem.Base.Restarts
import PaymentSystem.Guarantees.RateCeiling
import PaymentSystem.Base.JsonLines
import PaymentSystem.Service.Logging
import PaymentSystem.Guarantees.LogLines
