import Gestalt.Core.LTS
import Gestalt.Core.Inevitable
import Gestalt.Core.Procs
import Gestalt.Core.Table
import Gestalt.Core.Tally
import Gestalt.Core.WriteOnce
import Gestalt.Core.Serial
import Gestalt.Core.Upsert
import Gestalt.Core.Resets
import Gestalt.Core.Attempts
import Gestalt.Core.Json
import Gestalt.Core.JsonLines
import Gestalt.Core.Base64
import Gestalt.Core.Url
import Gestalt.Core.Paging
import Gestalt.L1Shared.Http
import Gestalt.L1Shared.Jwks
import Gestalt.L1Shared.Logging
import Gestalt.L1Shared.RequestId
import Gestalt.L2Stores.Catalog
import Gestalt.L2Stores.CatalogCache
import Gestalt.L2Stores.CatalogServer
import Gestalt.L2Stores.CatalogSerial
import Gestalt.L2Stores.CatalogReads
import Gestalt.L2Stores.Orders
import Gestalt.L2Stores.Cart
import Gestalt.L2Stores.CartServer
import Gestalt.L2Stores.CartQuotes
import Gestalt.L2Stores.Abandonment
import Gestalt.L3Auth.Tokens
import Gestalt.L3Auth.Revocation
import Gestalt.L3Auth.Register
import Gestalt.L3Auth.KeyMaterial
import Gestalt.L3Auth.AccessTokens
import Gestalt.L3Auth.Identity
import Gestalt.L3Auth.Sessions
import Gestalt.L3Payment.Charge
import Gestalt.L3Payment.Once
import Gestalt.L3Payment.Calls
import Gestalt.L3Payment.Modes
import Gestalt.L4Checkout.Clients
import Gestalt.L4Checkout.Lookup
import Gestalt.L4Checkout.System
import Gestalt.L4Checkout.Steps
import Gestalt.L4Checkout.Sweep
import Gestalt.L4Checkout.Keys
import Gestalt.L4Checkout.Ledger
import Gestalt.L4Checkout.Charges
import Gestalt.L4Checkout.Returns
import Gestalt.L4Checkout.Rows
import Gestalt.L4Checkout.Statuses
import Gestalt.L4Checkout.Passes
import Gestalt.L4Checkout.Accounts
import Gestalt.L4Checkout.Conservation
import Gestalt.L4Checkout.Recovery
import Gestalt.L4Checkout.Announce
import Gestalt.L4Checkout.Entry
import Gestalt.L4Checkout.EventLog
import Gestalt.L4Checkout.Publish
import Gestalt.L4Checkout.Delivered
import Gestalt.L4Checkout.DeliverySweep
import Gestalt.L4Checkout.Settling
import Gestalt.L4Checkout.Clearing
import Gestalt.L4Checkout.Reasons
import Gestalt.L4Checkout.Baskets
import Gestalt.L5Consumers.Consumer
import Gestalt.L5Consumers.Retries
import Gestalt.L5Consumers.Reviews
import Gestalt.L5Consumers.Notifications
import Gestalt.L5Consumers.EventFormat
import Gestalt.L5Consumers.Rights
import Gestalt.L5Consumers.Purchases
import Gestalt.Bugs.EarlyReplay
import Gestalt.Bugs.ForeignReplay
import Gestalt.Bugs.LateCrash
import Gestalt.Bugs.LateWrites
import Gestalt.Bugs.AmbiguousReserve
import Gestalt.Bugs.OverCredit
import Gestalt.Bugs.LeakedStock
import Gestalt.Bugs.ChargedFailed
import Gestalt.Bugs.StaleProduct
import Gestalt.Bugs.StaleList
import Gestalt.Bugs.SplicedId
import Gestalt.Bugs.TiedPages
import Gestalt.Bugs.LostEvents
import Gestalt.Bugs.LostNotification
import Gestalt.L5Consumers.Channel
import Gestalt.Bugs.LostDeadLetter
import Gestalt.Bugs.StaleReadiness
import Gestalt.Bugs.DuplicateReview
import Gestalt.Bugs.ForeignReview
import Gestalt.Bugs.TokenReplay
import Gestalt.Bugs.LostCartUpdate
import Gestalt.Bugs.ActiveCartCounted
import Gestalt.Bugs.UnexpiringCart
import Gestalt.Bugs.StrandedSession
import Gestalt.Bugs.RegisterRace
