/-
What the writes of the role repository leave in the tables: the stored role
and the internal key of every id.
-/
import Workshop.Identity.Roles

namespace Workshop

namespace Identity

/-- The role that a row stands for. -/
def RoleDb.storedRow (db : RoleDb) (row : RoleRow) : StoredRole where
  name := row.name
  description := row.description
  permissionIds := db.permissionIdsOf row.id

/-- The stored role with an id. -/
def RoleDb.roleOf (db : RoleDb) (id : RoleId) : Option StoredRole :=
  (db.findRow id).map db.storedRow

/-- The internal key of the role with an id. -/
def RoleDb.keyOf (db : RoleDb) (id : RoleId) : Option Nat :=
  (db.findRow id).map RoleRow.id

/-- Every id is that of a seeded permission. -/
def PermissionTable.Knows (table : PermissionTable)
    (permissionIds : Finset PermissionId) : Prop :=
  ∀ id ∈ permissionIds, ∃ row ∈ table.rows, row.externalId = id

/-- The keys of `roles`, internal and external, name one row each. -/
structure RoleKeys (db : RoleDb) : Prop where
  keys : (db.roles.map RoleRow.id).Nodup
  ids : (db.roles.map RoleRow.externalId).Nodup
  below : ∀ row ∈ db.roles, row.id < db.nextKey

section Permissions

variable {db : RoleDb} {table : PermissionTable} {key : Nat} {p : PermissionId}
variable {permissionIds : Finset PermissionId}

theorem externalIdOf_of_mem {row : PermissionRow} (hrow : row ∈ table.rows) :
    table.externalIdOf row.id = some row.externalId := by
  unfold PermissionTable.externalIdOf
  rw [find?_key_of_mem table.ids hrow, Option.map_some]

theorem externalIdOf_eq_some (h : table.externalIdOf key = some p) :
    ∃ row ∈ table.rows, row.externalId = p := by
  obtain ⟨row, hrow, hp⟩ := Option.map_eq_some_iff.mp h
  exact ⟨row, List.mem_of_find?_eq_some hrow, hp⟩

theorem mem_permissionIdsOf :
    p ∈ db.permissionIdsOf key ↔ ∃ link ∈ db.rolePermissions,
      link.roleId = key ∧ db.permissions.externalIdOf link.permissionId = some p := by
  unfold RoleDb.permissionIdsOf
  simp [and_assoc]

theorem knows_permissionIdsOf : db.permissions.Knows (db.permissionIdsOf key) := by
  intro p hp
  obtain ⟨link, -, -, hlink⟩ := mem_permissionIdsOf.mp hp
  exact externalIdOf_eq_some hlink

theorem knows_withCodes (codes : List String) :
    table.Knows ((table.withCodes codes).map PermissionRow.externalId).toFinset := by
  intro p hp
  obtain ⟨row, hrow, rfl⟩ := List.mem_map.mp (List.mem_toFinset.mp hp)
  exact ⟨row, (List.mem_filter.mp hrow).1, rfl⟩

theorem resolveIdsByCodes_knows {codes : List String}
    (h : table.resolveIdsByCodes codes = .ok permissionIds) :
    table.Knows permissionIds := by
  obtain ⟨_, -, h⟩ := bind_eq_ok_iff.mp h
  dsimp only at h
  split at h
  · cases h
  · cases h
    exact knows_withCodes codes

/-- The keys that stand for known ids stand for these ids and no others. -/
theorem externalIdOf_internalIdsOf (hknows : table.Knows permissionIds) :
    (∃ id ∈ table.internalIdsOf permissionIds, table.externalIdOf id = some p) ↔
      p ∈ permissionIds := by
  unfold PermissionTable.internalIdsOf
  constructor
  · rintro ⟨id, hid, hp⟩
    obtain ⟨row, hrow, rfl⟩ := List.mem_map.mp hid
    obtain ⟨hmem, hin⟩ := List.mem_filter.mp hrow
    rw [externalIdOf_of_mem hmem, Option.some.injEq] at hp
    rw [← hp]
    exact of_decide_eq_true hin
  · intro hp
    obtain ⟨row, hrow, rfl⟩ := hknows p hp
    refine ⟨row.id, List.mem_map_of_mem ?_, externalIdOf_of_mem hrow⟩
    exact List.mem_filter.mpr ⟨hrow, decide_eq_true hp⟩

end Permissions

section Writes

variable {db db' : RoleDb} {role : Role} {existing : Option Nat} {id : RoleId}
variable {key : Nat}

theorem findRow_eq_some {row : RoleRow} (h : db.findRow id = some row) :
    row ∈ db.roles ∧ row.externalId = id :=
  ⟨List.mem_of_find?_eq_some h, by simpa using List.find?_some h⟩

theorem RoleKeys.findRow_of_mem (hkeys : RoleKeys db) {row : RoleRow}
    (hrow : row ∈ db.roles) : db.findRow row.externalId = some row :=
  find?_key_of_mem hkeys.ids hrow

theorem save_eq_ok (h : db.save role existing = .ok db') :
    (∀ other ∈ db.roles,
      ((role.toRow (existing.getD db.nextKey)).clashes other) = false) ∧
    db' = { db with
      roles := upsert RoleRow.id (role.toRow (existing.getD db.nextKey)) db.roles
      rolePermissions := (db.rolePermissions.filter fun link =>
          link.roleId ≠ existing.getD db.nextKey) ++
        (db.permissions.internalIdsOf role.permissionIds).map fun permissionId =>
          ⟨existing.getD db.nextKey, permissionId⟩
      nextKey := if existing.isSome then db.nextKey else db.nextKey + 1 } := by
  unfold RoleDb.save at h
  dsimp only at h
  split at h
  · cases h
  · rename_i hclash
    refine ⟨fun other hother => ?_, (Except.ok.inj h).symm⟩
    rw [Bool.eq_false_iff]
    exact fun hyes => hclash (List.any_eq_true.mpr ⟨other, hother, hyes⟩)

theorem save_permissions (h : db.save role existing = .ok db') :
    db'.permissions = db.permissions ∧ db'.nextId = db.nextId := by
  obtain ⟨-, rfl⟩ := save_eq_ok h
  exact ⟨rfl, rfl⟩

/-- A save gives the role its permissions and leaves those of the others. -/
theorem permissionIdsOf_save (h : db.save role existing = .ok db')
    (hknows : db.permissions.Knows role.permissionIds) :
    db'.permissionIdsOf key = if key = existing.getD db.nextKey
      then role.permissionIds else db.permissionIdsOf key := by
  obtain ⟨-, rfl⟩ := save_eq_ok h
  ext p
  rw [mem_permissionIdsOf]
  by_cases hwritten : key = existing.getD db.nextKey
  · rw [if_pos hwritten, hwritten, ← externalIdOf_internalIdsOf hknows]
    constructor
    · rintro ⟨link, hlink, hkey, hp⟩
      rcases List.mem_append.mp hlink with hold | hnew
      · exact absurd hkey (of_decide_eq_true (List.mem_filter.mp hold).2)
      · obtain ⟨id, hid, rfl⟩ := List.mem_map.mp hnew
        exact ⟨id, hid, hp⟩
    · rintro ⟨id, hid, hp⟩
      exact ⟨_, List.mem_append_right _ (List.mem_map_of_mem hid), rfl, hp⟩
  · rw [if_neg hwritten, mem_permissionIdsOf]
    refine exists_congr fun link => ?_
    constructor
    · rintro ⟨hlink, hkey, hp⟩
      rcases List.mem_append.mp hlink with hold | hnew
      · exact ⟨(List.mem_filter.mp hold).1, hkey, hp⟩
      · obtain ⟨_, -, rfl⟩ := List.mem_map.mp hnew
        exact absurd hkey.symm hwritten
    · rintro ⟨hlink, hkey, hp⟩
      refine ⟨List.mem_append_left _ (List.mem_filter.mpr ⟨hlink, ?_⟩), hkey, hp⟩
      rw [hkey]
      exact decide_eq_true hwritten

/-- The key a save writes under is that of the row with the role's id. -/
def WritesOwn (db : RoleDb) (role : Role) (existing : Option Nat) : Prop :=
  ∀ row ∈ db.roles,
    row.id = existing.getD db.nextKey ↔ row.externalId = role.id

theorem upsert_own (hown : WritesOwn db role existing) :
    upsert RoleRow.id (role.toRow (existing.getD db.nextKey)) db.roles =
      upsert RoleRow.externalId (role.toRow (existing.getD db.nextKey)) db.roles :=
  upsert_congr hown

/-- A save under the key of its role changes this role and no other. -/
theorem findRow_save (h : db.save role existing = .ok db')
    (hown : WritesOwn db role existing) :
    db'.findRow id = if role.id = id then some (role.toRow (existing.getD db.nextKey))
      else db.findRow id := by
  obtain ⟨-, rfl⟩ := save_eq_ok h
  unfold RoleDb.findRow
  rw [upsert_own hown, find?_upsert]
  rfl

theorem roleOf_save (h : db.save role existing = .ok db')
    (hown : WritesOwn db role existing)
    (hknows : db.permissions.Knows role.permissionIds) :
    db'.roleOf id = if role.id = id then some role.stored else db.roleOf id := by
  unfold RoleDb.roleOf
  rw [findRow_save h hown]
  split
  · rw [Option.map_some, RoleDb.storedRow, permissionIdsOf_save h hknows]
    simp [Role.toRow, Role.stored]
  · rename_i hne
    cases hrow : db.findRow id with
    | none => rfl
    | some row =>
        obtain ⟨hmem, rfl⟩ := findRow_eq_some hrow
        have hother : row.id ≠ existing.getD db.nextKey :=
          fun heq => hne ((hown row hmem).mp heq).symm
        rw [Option.map_some, Option.map_some, RoleDb.storedRow,
          permissionIdsOf_save h hknows, if_neg hother]
        rfl

theorem keyOf_save (h : db.save role existing = .ok db')
    (hown : WritesOwn db role existing) :
    db'.keyOf id = if role.id = id then some (existing.getD db.nextKey)
      else db.keyOf id := by
  unfold RoleDb.keyOf
  rw [findRow_save h hown]
  split <;> rfl

theorem roleKeys_save (hkeys : RoleKeys db) (h : db.save role existing = .ok db')
    (hown : WritesOwn db role existing)
    (hbelow : ∀ key, existing = some key → key < db.nextKey) : RoleKeys db' := by
  obtain ⟨-, rfl⟩ := save_eq_ok h
  constructor
  · exact nodup_upsert hkeys.keys
  · dsimp only
    rw [upsert_own hown]
    exact nodup_upsert hkeys.ids
  · intro row hrow
    dsimp only at hrow ⊢
    rcases mem_upsert.mp hrow with rfl | ⟨hold, -⟩
    · cases existing with
      | none => exact Nat.lt_succ_self _
      | some key => exact hbelow key rfl
    · have hlt := hkeys.below row hold
      split
      · exact hlt
      · exact Nat.lt_succ_of_lt hlt

theorem findRow_delete :
    (db.delete role).findRow id = if role.id = id then none else db.findRow id := by
  unfold RoleDb.findRow RoleDb.delete
  rw [List.find?_filter]
  split
  · rename_i heq
    subst heq
    rw [List.find?_eq_none]
    simp
  · rename_i hne
    refine congrArg (fun p => db.roles.find? p) (funext fun row => ?_)
    by_cases hid : row.externalId = id
    · simp [hid, Ne.symm hne]
    · simp [hid]

/-- A delete takes the role away and leaves the others. -/
theorem roleOf_delete (hkeys : RoleKeys db) :
    (db.delete role).roleOf id = if role.id = id then none else db.roleOf id := by
  unfold RoleDb.roleOf
  rw [findRow_delete]
  split
  · rfl
  · rename_i hne
    cases hrow : db.findRow id with
    | none => rfl
    | some row =>
        obtain ⟨hmem, rfl⟩ := findRow_eq_some hrow
        rw [Option.map_some, Option.map_some, RoleDb.storedRow, RoleDb.storedRow]
        congr 2
        ext p
        rw [mem_permissionIdsOf, mem_permissionIdsOf]
        refine exists_congr fun link => ?_
        constructor
        · rintro ⟨hlink, hkey, hp⟩
          exact ⟨(List.mem_filter.mp hlink).1, hkey, hp⟩
        · rintro ⟨hlink, hkey, hp⟩
          refine ⟨List.mem_filter.mpr ⟨hlink, List.all_eq_true.mpr ?_⟩, hkey, hp⟩
          intro other hother
          by_cases hid : other.id = row.id
          · have hsame := List.inj_on_of_nodup_map hkeys.keys hother hmem hid
            simp [hsame, Ne.symm hne]
          · simp [hkey, hid]

theorem roleKeys_delete (hkeys : RoleKeys db) : RoleKeys (db.delete role) := by
  constructor
  · exact hkeys.keys.sublist (List.filter_sublist.map _)
  · exact hkeys.ids.sublist (List.filter_sublist.map _)
  · exact fun row hrow => hkeys.below row (List.mem_filter.mp hrow).1

/-- A new key over an id that no row has. -/
theorem writesOwn_none (hkeys : RoleKeys db) (hnew : db.roleOf role.id = none) :
    WritesOwn db role none := by
  intro row hrow
  have hbelow := hkeys.below row hrow
  constructor
  · intro heq
    rw [Option.getD_none] at heq
    omega
  · intro heq
    have hfind := hkeys.findRow_of_mem hrow
    rw [heq] at hfind
    rw [RoleDb.roleOf, hfind] at hnew
    cases hnew

/-- The key that the role's row has. -/
theorem writesOwn_some (hkeys : RoleKeys db) (hkey : db.keyOf role.id = some key) :
    WritesOwn db role (some key) := by
  obtain ⟨stored, hfind, rfl⟩ := Option.map_eq_some_iff.mp hkey
  obtain ⟨hmem, hid⟩ := findRow_eq_some hfind
  intro row hrow
  constructor
  · intro heq
    rw [List.inj_on_of_nodup_map hkeys.keys hrow hmem heq]
    exact hid
  · intro heq
    rw [List.inj_on_of_nodup_map hkeys.ids hrow hmem (heq.trans hid.symm)]
    rfl

end Writes

end Identity

end Workshop
