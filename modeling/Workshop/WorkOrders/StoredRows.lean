/-
The rows of a work order as the database stores them: every reference is an
internal key, every amount a text, and the rounds of the items are keys of
budget rows.
-/
import Mathlib.Tactic.MkIffOfInductiveProp
import Workshop.Library.Results
import Workshop.Shared.MoneyText
import Workshop.WorkOrders.WorkOrder

namespace Workshop

namespace WorkOrders

/-- A key of a `bigserial` column.  The driver hands it out as a text, which is
never empty, so a key is never taken for null. -/
abbrev InternalId := Nat

/-- The rows of an owner, as its key resolver reads them: an internal key and
an external id each, both unique. -/
structure KeyResolver where
  rows : List (InternalId × Uuid)
  ids : (rows.map Prod.fst).Nodup
  externalIds : (rows.map Prod.snd).Nodup

namespace KeyResolver

def toInternalId (keys : KeyResolver) (externalId : Uuid) : Option InternalId :=
  (keys.rows.find? fun row => row.2 = externalId).map Prod.fst

def toExternalId (keys : KeyResolver) (internalId : InternalId) : Option Uuid :=
  (keys.rows.find? fun row => row.1 = internalId).map Prod.snd

end KeyResolver

/-- The owners of what a work order refers to. -/
structure Owners where
  customers : KeyResolver
  vehicles : KeyResolver
  users : KeyResolver
  services : KeyResolver
  inventoryItems : KeyResolver

/-- `WorkOrderOrmEntity` -/
structure StoredWorkOrder where
  id : InternalId
  externalId : WorkOrderId
  number : String
  customerInternalId : InternalId
  vehicleInternalId : InternalId
  assignedMechanicInternalId : Option InternalId
  createdByInternalId : InternalId
  status : WorkOrderStatus
  customerName : String
  vehiclePlate : String
  vehicleBrand : String
  vehicleModel : String
  vehicleYear : Nat
  createdAt : Timestamp
  updatedAt : Timestamp
  diagnosisStartedAt : Option Timestamp
  diagnosisCompletedAt : Option Timestamp
  budgetDecidedAt : Option Timestamp
  budgetDecidedByInternalId : Option InternalId
  executionStartedAt : Option Timestamp
  chargedTotalCents : Option String
  discountCents : String
  discountNote : Option String
  discountAppliedByInternalId : Option InternalId
  discountAppliedAt : Option Timestamp
  completedAt : Option Timestamp
  deliveredAt : Option Timestamp
  deliveredByInternalId : Option InternalId
  canceledAt : Option Timestamp
  canceledByInternalId : Option InternalId
  cancellationReason : Option String
  version : Nat
deriving DecidableEq, Repr

/-- `WorkOrderServiceOrmEntity` -/
structure StoredService where
  id : InternalId
  externalId : WorkOrderItemId
  workOrderInternalId : InternalId
  serviceInternalId : InternalId
  serviceName : String
  unitPriceCents : String
  createdAt : Timestamp
  budgetInternalId : Option InternalId
  budgetedUnitPriceCents : Option String
deriving DecidableEq, Repr

/-- `WorkOrderPartOrmEntity` -/
structure StoredPart where
  id : InternalId
  externalId : WorkOrderItemId
  workOrderInternalId : InternalId
  inventoryItemInternalId : InternalId
  sku : String
  itemName : String
  plannedQuantity : Int
  withdrawnQuantity : Int
  unitPriceCents : String
  createdAt : Timestamp
  budgetInternalId : Option InternalId
  budgetedUnitPriceCents : Option String
deriving DecidableEq, Repr

/-- `WorkOrderBudgetOrmEntity` -/
structure StoredBudget where
  id : InternalId
  externalId : BudgetId
  workOrderInternalId : InternalId
  round : Nat
  totalCents : String
  status : BudgetStatus
  generatedAt : Timestamp
  decidedAt : Option Timestamp
  decidedByInternalId : Option InternalId
deriving DecidableEq, Repr

/-- `WorkOrderEventOrmEntity`, without the id that is minted for it and the
note that is always null. -/
structure StoredEvent where
  id : InternalId
  workOrderInternalId : InternalId
  eventType : TrailEventType
  fromStatus : Option WorkOrderStatus
  toStatus : Option WorkOrderStatus
  actorInternalId : InternalId
  occurredAt : Timestamp
deriving DecidableEq, Repr

structure StoredRows where
  workOrders : List StoredWorkOrder := []
  services : List StoredService := []
  parts : List StoredPart := []
  budgets : List StoredBudget := []
  events : List StoredEvent := []
  /-- The next value of the sequences, one for all tables. -/
  nextKey : Nat := 1
deriving DecidableEq, Repr

/-- The constraints of the migrations on the columns that are stored. -/
@[mk_iff] structure StoredRows.Constraints (rows : StoredRows) : Prop where
  pkWorkOrders : (rows.workOrders.map StoredWorkOrder.id).Nodup
  pkServices : (rows.services.map StoredService.id).Nodup
  pkParts : (rows.parts.map StoredPart.id).Nodup
  pkBudgets : (rows.budgets.map StoredBudget.id).Nodup
  uxExternalId : (rows.workOrders.map StoredWorkOrder.externalId).Nodup
  uxNumber : (rows.workOrders.map StoredWorkOrder.number).Nodup
  uxActiveVehicle : ((rows.workOrders.filter fun row =>
    !row.status.isClosed).map StoredWorkOrder.vehicleInternalId).Nodup
  uxServicesExternalId : (rows.services.map StoredService.externalId).Nodup
  uxPartsExternalId : (rows.parts.map StoredPart.externalId).Nodup
  uxBudgetsExternalId : (rows.budgets.map StoredBudget.externalId).Nodup
  uxBudgetsRound :
    (rows.budgets.map fun row => (row.workOrderInternalId, row.round)).Nodup
  chkWithdrawnQuantity : ∀ row ∈ rows.parts, 0 ≤ row.withdrawnQuantity
  fkServices : ∀ row ∈ rows.services,
    row.workOrderInternalId ∈ rows.workOrders.map StoredWorkOrder.id
  fkParts : ∀ row ∈ rows.parts,
    row.workOrderInternalId ∈ rows.workOrders.map StoredWorkOrder.id
  fkBudgets : ∀ row ∈ rows.budgets,
    row.workOrderInternalId ∈ rows.workOrders.map StoredWorkOrder.id
  fkServicesBudget : ∀ row ∈ rows.services, ∀ id ∈ row.budgetInternalId.toList,
    id ∈ rows.budgets.map StoredBudget.id
  fkPartsBudget : ∀ row ∈ rows.parts, ∀ id ∈ row.budgetInternalId.toList,
    id ∈ rows.budgets.map StoredBudget.id

instance storedConstraintsDecidable (rows : StoredRows) :
    Decidable rows.Constraints :=
  decidable_of_iff _ (StoredRows.constraints_iff rows).symm

/-- The tables, which hold no rows that violate a constraint. -/
structure StoredTables extends StoredRows where
  constraints : toStoredRows.Constraints

/-- The tables as the migrations leave them. -/
def StoredTables.empty : StoredTables := ⟨{}, by decide⟩

inductive StoredError
  /-- `… row for external id … not found` -/
  | externalIdNotFound (owner : String) (externalId : Uuid)
  /-- `… row for internal id … not found` -/
  | internalIdNotFound (owner : String) (internalId : InternalId)
  /-- `Service … not resolved` and `Inventory item … not resolved` -/
  | notResolved (what : String) (internalId : InternalId)
  | invalidMoneyAmount (raw : String)
  | workOrder (error : WorkOrderError)
  | concurrentModification
  | constraintViolation
deriving DecidableEq, Repr

section Keys

variable (keys : KeyResolver) (owner : String)

/-- `internalKey` -/
def internalKey (externalId : Uuid) : Except StoredError InternalId :=
  match keys.toInternalId externalId with
  | some internalId => .ok internalId
  | none => .error (.externalIdNotFound owner externalId)

def internalKeyOrNull : Option Uuid → Except StoredError (Option InternalId)
  | none => .ok none
  | some externalId => (internalKey keys owner externalId).map some

/-- `externalKey` -/
def externalKey (internalId : InternalId) : Except StoredError Uuid :=
  match keys.toExternalId internalId with
  | some externalId => .ok externalId
  | none => .error (.internalIdNotFound owner internalId)

/-- `userExternalId` -/
def externalKeyOrNull : Option InternalId → Except StoredError (Option Uuid)
  | none => .ok none
  | some internalId => (externalKey keys owner internalId).map some

/-- A key the mapper looks up. -/
def resolved (what : String) (internalId : InternalId) : Except StoredError Uuid :=
  match keys.toExternalId internalId with
  | some externalId => .ok externalId
  | none => .error (.notResolved what internalId)

variable {keys owner}

/-- A resolver translates both ways alike. -/
theorem KeyResolver.toExternalId_eq_some_iff {internalId : InternalId}
    {externalId : Uuid} : keys.toExternalId internalId = some externalId ↔
      (internalId, externalId) ∈ keys.rows := by
  unfold toExternalId
  constructor
  · intro h
    obtain ⟨row, hfind, rfl⟩ := Option.map_eq_some_iff.mp h
    have hid : row.1 = internalId := by simpa using List.find?_some hfind
    subst hid
    exact List.mem_of_find?_eq_some hfind
  · intro hmem
    cases hfind : keys.rows.find? fun row => row.1 = internalId with
    | none => simpa using List.find?_eq_none.mp hfind _ hmem
    | some row =>
        have hid : row.1 = internalId := by simpa using List.find?_some hfind
        rw [List.inj_on_of_nodup_map keys.ids (List.mem_of_find?_eq_some hfind) hmem
          hid, Option.map_some]

theorem KeyResolver.toInternalId_eq_some_iff {internalId : InternalId}
    {externalId : Uuid} : keys.toInternalId externalId = some internalId ↔
      (internalId, externalId) ∈ keys.rows := by
  unfold toInternalId
  constructor
  · intro h
    obtain ⟨row, hfind, rfl⟩ := Option.map_eq_some_iff.mp h
    have hid : row.2 = externalId := by simpa using List.find?_some hfind
    subst hid
    exact List.mem_of_find?_eq_some hfind
  · intro hmem
    cases hfind : keys.rows.find? fun row => row.2 = externalId with
    | none => simpa using List.find?_eq_none.mp hfind _ hmem
    | some row =>
        have hid : row.2 = externalId := by simpa using List.find?_some hfind
        rw [List.inj_on_of_nodup_map keys.externalIds
          (List.mem_of_find?_eq_some hfind) hmem hid, Option.map_some]

theorem toExternalId_of_internalKey {internalId : InternalId} {externalId : Uuid}
    (h : internalKey keys owner externalId = .ok internalId) :
    keys.toExternalId internalId = some externalId := by
  unfold internalKey at h
  split at h
  · rename_i hfound
    cases h
    exact KeyResolver.toExternalId_eq_some_iff.mpr
      (KeyResolver.toInternalId_eq_some_iff.mp hfound)
  · cases h

theorem externalKey_of_internalKey {internalId : InternalId} {externalId : Uuid}
    (h : internalKey keys owner externalId = .ok internalId) :
    externalKey keys owner internalId = .ok externalId := by
  rw [externalKey, toExternalId_of_internalKey h]

theorem resolved_of_internalKey {internalId : InternalId} {externalId : Uuid}
    (h : internalKey keys owner externalId = .ok internalId) (what : String) :
    resolved keys what internalId = .ok externalId := by
  rw [resolved, toExternalId_of_internalKey h]

theorem externalKeyOrNull_of_internalKeyOrNull {internalId : Option InternalId}
    {externalId : Option Uuid}
    (h : internalKeyOrNull keys owner externalId = .ok internalId) :
    externalKeyOrNull keys owner internalId = .ok externalId := by
  cases externalId with
  | none =>
      cases h
      rfl
  | some externalId =>
      obtain ⟨key, hkey, rfl⟩ := map_eq_ok_iff.mp h
      rw [externalKeyOrNull, externalKey_of_internalKey hkey]
      rfl

/-- The same with `?? null` for a key that is not found. -/
theorem bind_of_internalKeyOrNull {internalId : Option InternalId}
    {externalId : Option Uuid}
    (h : internalKeyOrNull keys owner externalId = .ok internalId) :
    internalId.bind keys.toExternalId = externalId := by
  cases externalId with
  | none =>
      cases h
      rfl
  | some externalId =>
      obtain ⟨key, hkey, rfl⟩ := map_eq_ok_iff.mp h
      exact toExternalId_of_internalKey hkey

end Keys

/-- `Money.fromDatabase` -/
def moneyFromDatabase (raw : String) : Except StoredError Money :=
  match (numberOf raw).map Money.fromCents with
  | some (.ok amount) => .ok amount
  | _ => .error (.invalidMoneyAmount raw)

/-- `raw ? Money.fromDatabase(raw) : null`: only the empty text is taken for
null, so a zero is read as an amount. -/
def moneyOrNull : Option String → Except StoredError (Option Money)
  | none => .ok none
  | some raw => if raw = "" then .ok none else (moneyFromDatabase raw).map some

/-- `raw !== null ? Money.fromDatabase(raw).cents : null` -/
def centsOrNull : Option String → Except StoredError (Option Int)
  | none => .ok none
  | some raw => (moneyFromDatabase raw).map fun amount => some amount.cents

section Amounts

variable (amount : Money) (optional : Option Money)

@[simp] theorem moneyFromDatabase_toText :
    moneyFromDatabase amount.toText = .ok amount := by
  rw [moneyFromDatabase, Money.numberOf_toText, Option.map_some, Money.fromCents,
    dif_pos amount.nonneg]

@[simp] theorem moneyOrNull_toText :
    moneyOrNull (optional.map Money.toText) = .ok optional := by
  cases optional with
  | none => rfl
  | some amount =>
      rw [Option.map_some, moneyOrNull, if_neg amount.toText_ne_empty,
        moneyFromDatabase_toText]
      rfl

@[simp] theorem centsOrNull_toText :
    centsOrNull (optional.map Money.toText) = .ok (optional.map Money.cents) := by
  cases optional with
  | none => rfl
  | some amount =>
      rw [Option.map_some, centsOrNull, moneyFromDatabase_toText]
      rfl

end Amounts

end WorkOrders

end Workshop
