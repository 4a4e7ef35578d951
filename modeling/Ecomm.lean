import Ecomm.IdempotencyKey
import Ecomm.FinalStatus
import Ecomm.PaymentAnswers
import Ecomm.PaymentsGrpc
import Ecomm.OrdersWorker
import Ecomm.Lib.Growing
import Ecomm.Deliveries
import Ecomm.EventStream
import Ecomm.Lib.Constant
import Ecomm.OrdersGateway
import Ecomm.OrderOwners
import Ecomm.OrderOwnersRuns
import Ecomm.Subscriptions
import Ecomm.Entitlement
import Ecomm.ProductsService
import Ecomm.Lib.ForeignKeys
import Ecomm.Integrity
import Ecomm.Publication
import Ecomm.EditRules
import Ecomm.LostUpdates
import Ecomm.ProductEdits
import Ecomm.Deletions
import Ecomm.PaymentRetries
import Ecomm.RateLimit
import Ecomm.RoomEvents
import Ecomm.FileBindings
import Ecomm.RetryChain
import Ecomm.LockOrder
import Ecomm.CreateSpec
import Ecomm.EmptyKey
import Ecomm.FileKeys
import Ecomm.ProductPages
import Ecomm.OrdersConnection
import Ecomm.StatusEvents
import Ecomm.LastRequest
import Ecomm.UserEmails
import Ecomm.Pipeline
import Ecomm.FileRequests
import Ecomm.PaymentsClient
import Ecomm.NeverStuck
import Ecomm.Recovery
import Ecomm.Logins
import Ecomm.ProductLoader
