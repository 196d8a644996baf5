import Workshop.Library.Interleaving
import Workshop.Library.Recording
import Workshop.Library.KeyedSums
import Workshop.Library.GreedyDraw
import Workshop.Library.Results
import Workshop.Library.Stateful
import Workshop.Library.OwnedRows
import Workshop.Library.Upserts
import Workshop.Library.Walks
import Workshop.Library.LockOrder
import Workshop.Inventory.ShelfLedger
import Workshop.Inventory.ReturnBounds
import Workshop.Inventory.CatalogUpdates
import Workshop.Inventory.Deadlocks
import Workshop.WorkOrders.LoadAndSave
import Workshop.WorkOrders.WriteOffs
import Workshop.WorkOrders.SequentialLedger
import Workshop.WorkOrders.SerialSaves
import Workshop.WorkOrders.Operations
import Workshop.WorkOrders.Refusals
import Workshop.WorkOrders.StatusNotices
import Workshop.WorkOrders.TrailReplay
import Workshop.WorkOrders.BudgetLinks
import Workshop.WorkOrders.OpenParts
import Workshop.Identity.Revocations
import Workshop.Identity.TokenExchange
import Workshop.Identity.AccessTokens
import Workshop.Identity.UserUpdates
import Workshop.Identity.SessionClosings
import Workshop.Identity.TokenChains
import Workshop.Identity.SessionChains
import Workshop.Identity.RoleUpdates
import Workshop.Identity.PrivilegedRoles
import Workshop.Identity.CachedAccess
import Workshop.Customers.OpenedAccounts
import Workshop.Security.Consolidation
import Workshop.Architecture.CycleCheck
import Workshop.WorkOrders.NamedDecisions
import Workshop.WorkOrders.StoredRuns
import Workshop.WorkOrders.Shortages
import Workshop.WorkOrders.BoardPages
import Workshop.WorkOrders.ExactMoney
import Workshop.WorkOrders.OutboxDrain
import Workshop.WorkOrders.FinalStates
import Workshop.WorkOrders.ExecutionMetrics
import Workshop.WorkOrders.StepClaims
import Workshop.Vehicles.StoredVehicles
import Workshop.Services.StoredServices
