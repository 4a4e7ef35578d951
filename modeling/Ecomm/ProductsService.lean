import Ecomm.OrdersService

/-! `ProductsService` and `UsersService`: their calls that write. -/

namespace Ecomm

open Concurrent

namespace ProductsService

structure CreateProductDto where
  name : String
  sku : String
  description : Option String
  price : ℚ
  stock : Option Int
  isActive : Option Bool

/-- The row of a new product, with the defaults of the table. -/
def CreateProductDto.row (dto : CreateProductDto) (now : Nat) : Product where
  name := dto.name
  sku := dto.sku
  description := dto.description
  price := numeric dto.price
  stock := dto.stock.getD 0
  isActive := dto.isActive.getD true
  createdAt := now
  updatedAt := now

def create (dto : CreateProductDto) : App (Uuid × Product) :=
  transaction (insert .products none dto.row)

structure UpdateProductDto where
  name : Option String
  sku : Option String
  description : Option (Option String)
  price : Option ℚ
  stock : Option Int
  isActive : Option Bool

/-- What `preload` makes of the row: a field that is given replaces the column. -/
def UpdateProductDto.merge (updates : UpdateProductDto) (product : Product) : Product :=
  { product with
    name := updates.name.getD product.name
    sku := updates.sku.getD product.sku
    description := updates.description.getD product.description
    price := (updates.price.map numeric).getD product.price
    stock := updates.stock.getD product.stock
    isActive := updates.isActive.getD product.isActive }

def updateProduct (id : String) (updates : UpdateProductDto) : App (Uuid × Product) := do
  match ← findOneById .products id with
  | none => throw (.notFound "Product not found")
  | some (productId, product) => do
    let saved ← repositorySave .products productId (updates.merge product)
    pure (productId, saved)

def deleteProduct (id : String) : App Unit := do
  let affected ← delete .products id
  if affected = 0 then throw (.notFound "Product not found") else pure ()

end ProductsService

namespace UsersService

/-- `hash` is `bcrypt.hash` with ten rounds. -/
def create (hash : String → String) (email : String) (password : Option String)
    (roles scopes : Option (List String)) : App (Uuid × User) := do
  match ← findOne .users (fun _ r => r.email = email) with
  | some existingUser => pure existingUser
  | none =>
    transaction (insert .users none (fun now =>
      { email, passwordHash := (truthy password).map hash, roles := roles.getD []
        scopes := scopes.getD [], createdAt := now, updatedAt := now }))

/-- The fields of a body, none of which is checked. `createdAt`, `updatedAt` and
`avatarFileId` are left out. -/
structure UpdateUser where
  id : Option String
  email : Option String
  passwordHash : Option (Option String)
  roles : Option (List String)
  scopes : Option (List String)

/-- What `preload` makes of the row. It does not select `password_hash`, so the
entity has a hash only if the body brings one. -/
def UpdateUser.merge (updates : UpdateUser) (user : User) : User :=
  { user with
    email := updates.email.getD user.email
    roles := updates.roles.getD user.roles
    scopes := updates.scopes.getD user.scopes }

/-- An array that is compared by reference differs from the array that was re-read. -/
def arrayColumn {α : Type} [DecidableEq α] (byValue : Bool) (entity reread row : α) : α :=
  if byValue then column entity reread row else entity

/-- The columns that `save` writes over the row that it has re-read. -/
def UpdateUser.set (updates : UpdateUser) (byValue : Bool) (entity reread : User) (now : Nat)
    (r : User) : User :=
  { saveColumns .users entity reread now r with
    passwordHash := updates.passwordHash.getD r.passwordHash
    roles := arrayColumn byValue entity.roles reread.roles r.roles
    scopes := arrayColumn byValue entity.scopes reread.scopes r.scopes }

/-- `byValue` says how `save` compares arrays. -/
def saveUser (byValue : Bool) (id : Uuid) (updates : UpdateUser) (entity : User) : App User := do
  match ← findOne .users (fun j _ => j = id) with
  | none =>
    transaction (do
      let saved ← insert .users (some id) (fun _ =>
        { entity with passwordHash := updates.passwordHash.getD none })
      pure saved.2)
  | some (_, reread) =>
    if byValue = true ∧ updates.passwordHash = none ∧
        { entity with passwordHash := reread.passwordHash } = reread then pure entity
    else transaction (do
      let row ← update .users id (updates.set byValue entity reread)
      pure (row.elim entity (returning .users entity)))

/-- The id of the body takes the place of the one of the path. -/
def updateUser (byValue : Bool) (id : String) (updates : UpdateUser) : App (Uuid × User) := do
  match ← findOneById .users (updates.id.getD id) with
  | none => throw (.notFound "User not found")
  | some (userId, user) => do
    let saved ← saveUser byValue userId updates (updates.merge user)
    pure (userId, saved)

def deleteUser (id : String) : App Unit := do
  let affected ← delete .users id
  if affected = 0 then throw (.notFound "User not found") else pure ()

end UsersService

end Ecomm
