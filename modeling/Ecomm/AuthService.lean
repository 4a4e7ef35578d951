import Ecomm.ProductsService

/-! `AuthService`: a token for an email and its password. -/

namespace Ecomm

open Concurrent

namespace AuthService

def payloadOf (id : Uuid) (user : User) : AuthUser where
  sub := uuidOut id
  email := user.email
  roles := user.roles
  scopes := user.scopes

/-- `compare` is `bcrypt.compare`; `sign` is `jwtService.signAsync`, which fails
with a message. -/
def login (compare : String → String → Bool) (sign : AuthUser → Except String String)
    (email password : String) : App String := do
  match ← findOne .users (fun _ r => r.email = email) with
  | none => throw (.unauthorized "Invalid credentials")
  | some (id, user) =>
    match truthy user.passwordHash with
    | none => throw (.unauthorized "Invalid credentials")
    | some passwordHash =>
      if ¬ compare password passwordHash then throw (.unauthorized "Invalid credentials")
      else
        match sign (payloadOf id user) with
        | .error message => throw (.error message)
        | .ok accessToken => pure accessToken

end AuthService

end Ecomm
