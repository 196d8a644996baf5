/-
The account of a user.  Its row and the domain object have the same fields, so
one structure stands for both.
-/
import Workshop.Shared.Values

namespace Workshop

namespace Identity

/-- A salted hash.  The hasher makes every one anew, so the counter of the id
generator stands for it. -/
abbrev PasswordHash := Nat

inductive UserStatus
  | active
  | inactive
deriving DecidableEq, Repr

inductive UserError
  | userNotFound
  | invalidUserName
  | emailAlreadyInUse
  | documentAlreadyInUse
  | invalidCredentials
  /-- The unique violation of `ux_users_email`, which the repository passes on. -/
  | emailUniqueViolation
deriving DecidableEq, Repr

/-- A row of `users`. -/
structure User where
  id : UserId
  email : String
  name : String
  document : String
  passwordHash : PasswordHash
  status : UserStatus
  mustChangePassword : Bool
  createdAt : Timestamp
  updatedAt : Timestamp
  deletedAt : Option Timestamp
deriving DecidableEq, Repr

def nameMinLength : Nat := 2
def nameMaxLength : Nat := 120

/-- The length of a string in UTF-16 units. -/
def utf16Length (s : String) : Nat :=
  (s.toList.map fun c => if c.val < 0x10000 then 1 else 2).sum

/-- The check of a trimmed name. -/
def checkName (name : String) : Except UserError Unit :=
  if utf16Length name < nameMinLength ∨ nameMaxLength < utf16Length name
  then .error .invalidUserName else .ok ()

namespace User

structure RegisterUserInput where
  id : UserId
  email : String
  /-- The name, trimmed. -/
  name : String
  document : String
  passwordHash : PasswordHash
  now : Timestamp
  temporary : Bool

def register (input : RegisterUserInput) : Except UserError User := do
  checkName input.name
  return {
    id := input.id, email := input.email, name := input.name
    document := input.document, passwordHash := input.passwordHash
    status := .active, mustChangePassword := input.temporary
    createdAt := input.now, updatedAt := input.now, deletedAt := none }

def changePassword (user : User) (newHash : PasswordHash) (now : Timestamp) :
    User :=
  { user with
    passwordHash := newHash, mustChangePassword := false, updatedAt := now }

structure UpdateProfileInput where
  /-- The name, trimmed. -/
  name : Option String
  email : Option String
  document : Option String
deriving DecidableEq, Repr

def updateProfile (user : User) (input : UpdateProfileInput) (now : Timestamp) :
    Except UserError User := do
  match input.name with
  | none => pure ()
  | some name => checkName name
  return { user with
    name := input.name.getD user.name
    email := input.email.getD user.email
    document := input.document.getD user.document
    updatedAt := now }

def deactivate (user : User) (now : Timestamp) : User :=
  if user.status = .inactive then user
  else { user with status := .inactive, deletedAt := some now, updatedAt := now }

def canAuthenticate (user : User) : Bool :=
  user.status = .active && user.deletedAt.isNone

end User

/-- What a use case does to the copy of the user it loaded. -/
inductive UserChange
  | updateProfile (input : User.UpdateProfileInput)
  | changePassword (newHash : PasswordHash)
  | deactivate
deriving DecidableEq, Repr

def UserChange.apply (change : UserChange) (user : User) (now : Timestamp) :
    Except UserError User :=
  match change with
  | .updateProfile input => user.updateProfile input now
  | .changePassword newHash => .ok (user.changePassword newHash now)
  | .deactivate => .ok (user.deactivate now)

end Identity

end Workshop
