import WsHyper.Auth.Queries

/-!
# Users and buckets

The types of the two tables: how they are inserted, how a row is read as one of
them, and the changes that a client may ask for.  `PgRow::get` panics where it
cannot read a column.
-/

namespace WsHyper.Auth

open WsHyper.Lib Sql

/-! ## Reading rows -/

section Reading

variable (row : Row) (column : String)

def getString : Except Panic Str :=
  match row column with
  | .text text => .ok text
  | _ => .error .unwrapErr

def getOptString : Except Panic (Option Str) :=
  match row column with
  | .null => .ok none
  | .text text => .ok (some text)
  | _ => .error .unwrapErr

def getOptUuid : Except Panic (Option Uuid) :=
  match row column with
  | .null => .ok none
  | .uuid uuid => .ok (some uuid)
  | _ => .error .unwrapErr

/-- A label is read as the variant of that name. -/
def getLabel {α : Type} (variants : List α) (label : α → String) : Except Panic α :=
  match row column with
  | .label text =>
      match variants.find? (label · = text) with
      | some variant => .ok variant
      | none => .error .unwrapErr
  | _ => .error .unwrapErr

end Reading

def Role.variants : List Role := [.superUser, .administrator, .productor, .operador]

def UserState.variants : List UserState := [.active, .inactive]

/-! ## Users -/

structure User where
  id : Option Uuid
  username : Str
  passwd : Str
  email : Option Str
  phone : Option Str
  userState : UserState
  role : Role
  description : Option Str

namespace User

def isAdmin (user : User) : Bool := user.role = .administrator ∨ user.role = .superUser

def fromRow (row : Row) : Except Panic User := do
  let id ← getOptUuid row "id"
  let username ← getString row "username"
  let passwd ← getString row "passwd"
  let description ← getOptString row "description"
  let email ← getOptString row "email"
  let phone ← getOptString row "phone"
  let userState ← getLabel row "user_state" UserState.variants UserState.label
  let role ← getLabel row "role" Role.variants Role.label
  .ok { id, username, passwd, email, phone, userState, role, description }

instance : QuerySelect User where
  query := .all "users"
  fromRow := fromRow

/-- A user without an id gets the default one of `Uuid`. -/
instance : Table User where
  name := "users"
  columns := ["id", "username", "passwd", "email", "phone", "user_state", "role", "description"]
  values user := [
    .uuid (user.id.getD Uuid.nil),
    .string user.username,
    .string user.passwd,
    .optString user.email,
    .optString user.phone,
    .userState user.userState,
    .role user.role,
    .optString user.description]

end User

def defaultAccountAdmin (hash : Str → Option Str) : Option User :=
  (hash "admin".toList).map fun passwd =>
    { id := none
      username := "admin".toList
      passwd
      email := none
      phone := none
      userState := .active
      role := .superUser
      description := some "Default account".toList }

/-- A text to set, if one is given; an empty one sets `NULL`. -/
def textEntry (entry : String × Option Str) : Option (String × Types) :=
  entry.2.map fun text => (entry.1, .optString (if text ≠ [] then some text else none))

structure UpdateSelf where
  passwd : Option Str
  email : Option Str
  phone : Option Str

def UpdateSelf.toMap (value : UpdateSelf) : HashMap :=
  [("email", value.email), ("phone", value.phone), ("passwd", value.passwd)].filterMap textEntry

structure UpdateUser where
  username : Option Str
  passwd : Option Str
  email : Option Str
  phone : Option Str
  userState : Option UserState
  role : Option Role
  resources : Option Str
  description : Option Str

def UpdateUser.toMap (value : UpdateUser) : HashMap :=
  let resp := [("username", value.username), ("passwd", value.passwd), ("email", value.email),
    ("phone", value.phone), ("resources", value.resources),
    ("description", value.description)].filterMap textEntry
  let resp := match value.role with
    | some role => AssocMap.put "role" (.role role) resp
    | none => resp
  match value.userState with
  | some state => AssocMap.put "user_state" (.userState state) resp
  | none => resp

/-! ## Buckets -/

structure Buckets where
  name : Str
  description : Option Str

namespace Buckets

def fromRow (row : Row) : Except Panic Buckets := do
  let name ← getString row "name"
  let description ← getOptString row "description"
  .ok { name, description }

instance : QuerySelect Buckets where
  query := .all "buckets"
  fromRow := fromRow

/-- There are more columns than values. -/
instance : Table Buckets where
  name := "buckets"
  columns := ["id", "icon", "user_id", "name", "description"]
  values bucket := [.string bucket.name, .optString bucket.description]

end Buckets

structure BucketUpdate where
  icon : Option Str
  name : Option Str
  description : Option Str

def BucketUpdate.toMap (value : BucketUpdate) : HashMap :=
  [("icon", value.icon), ("name", value.name),
    ("description", value.description)].filterMap textEntry

/-! ## Rows that are only read -/

/-- A user with the program of its own; the rows of its query are never read,
since it names columns that there are not. -/
inductive UserAllInfo

instance : QuerySelect UserAllInfo where
  query := .joined [("buckets", "name"), ("buckets", "icon"), ("buckets", "id"),
    ("buckets", "description"), ("users", "programa"), ("buckets", "id")]
  fromRow _ := .error .unwrapErr

structure AllowedBucketReply where
  allowed : Bool
  deriving DecidableEq

instance : QuerySelect AllowedBucketReply where
  query := .all "users_buckets"
  fromRow _ := .ok { allowed := true }

end WsHyper.Auth
