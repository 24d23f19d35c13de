import Payman.Claims.ApiKeys
import Payman.Claims.Backoff
import Payman.Claims.Disorder
import Payman.Claims.Dispatches
import Payman.Claims.Distance
import Payman.Claims.Editions
import Payman.Claims.Edits
import Payman.Claims.Events
import Payman.Claims.Idempotency
import Payman.Claims.Lookups
import Payman.Claims.Paths
import Payman.Claims.Pending
import Payman.Claims.RateLimit
import Payman.Claims.ReadIsolation
import Payman.Claims.Refusals
import Payman.Claims.Retries
import Payman.Claims.Signatures
import Payman.Claims.Tenants
import Payman.Claims.Ticks
import Payman.Claims.Transitions
import Payman.Safety.Watches
import Payman.Bin.Psp
import Payman.Claims.Books
import Payman.Claims.Cards
import Payman.Claims.Deadlocks
import Payman.Claims.Limits
import Payman.Claims.Overdue
import Payman.Claims.Prices
import Payman.Claims.Provenance
import Payman.Claims.Answers
import Payman.Claims.Charges
import Payman.Claims.Admission
import Payman.Claims.Notices
