import WsHyper.Lib.Sql

/-!
# The database of the users

The tables of `initdb.sql`, with their constraints and the trigger that gives the
users of two roles a part in every new bucket.  Postgres folds the names of the
types to lower case.
-/

namespace WsHyper.Auth

open WsHyper.Lib Sql

def enums : String → List String
  | "permissions" => ["Put", "Get", "Delete", "Read"]
  | "user_state" => ["Active", "Inactive"]
  | "role" => ["SuperUser", "Admin", "Operator", "User"]
  | _ => []

def bucketsTable : TableDef :=
  { name := "buckets"
    columns := [("name", .text), ("description", .text)]
    primaryKey := ["name"]
    unique := ["name"]
    foreignKeys := [] }

def usersTable : TableDef :=
  { name := "users"
    columns := [("id", .uuid), ("username", .text), ("passwd", .text), ("email", .text),
      ("user_state", .enum "user_state"), ("phone", .text), ("role", .enum "role"),
      ("description", .text)]
    primaryKey := ["id"]
    unique := ["username"]
    foreignKeys := [] }

def usersBucketsTable : TableDef :=
  { name := "users_buckets"
    columns := [("bucket", .text), ("user_id", .uuid), ("permissions", .enumArray "permissions")]
    primaryKey := ["bucket", "user_id"]
    unique := []
    foreignKeys := [
      { column := "user_id", table := "users", key := "id" },
      { column := "bucket", table := "buckets", key := "name" }] }

/-- The cast of an array of texts to an array of labels. -/
def castLabels (name : String) (labels : List String) : Except SqlError Param :=
  match labels.find? (· ∉ enums name) with
  | some label => .error (.invalidLabel label)
  | none => .ok { type := .enumArray name, value := .labels (labels.map some) }

/-- A round of the loops of `assign_bucket_on_users`, which cast to `role[]`. -/
def assignTo (bucket : Row) (labels : List String) (tables : Tables) (user : Row) :
    Except SqlError Tables := do
  let permissions ← castLabels "role" labels
  if permissions.type = .enumArray "permissions" then
    let row : Row := fun
      | "bucket" => bucket "name"
      | "user_id" => user "id"
      | "permissions" => permissions.value
      | _ => .null
    .ok (Function.update tables "users_buckets" (tables "users_buckets" ++ [row]))
  else .error .typeMismatch

def assignBucketOnUsers (bucket : Row) (tables : Tables) : Except SqlError Tables := do
  let operators := (tables "users").filter fun user => user "role" = .label "Operator"
  let admins := (tables "users").filter fun user => user "role" = .label "Admin"
  let tables ← operators.foldlM (assignTo bucket ["Get", "Read"]) tables
  admins.foldlM (assignTo bucket ["Get", "Put", "Delete", "Read"]) tables

def schema : Schema :=
  { enums
    tables := [bucketsTable, usersTable, usersBucketsTable]
    afterInsert := fun
      | "buckets" => assignBucketOnUsers
      | _ => fun _ tables => .ok tables }

/-- A state of the database that keeps all constraints. -/
abbrev Db := Database schema

def Db.users (db : Db) : List Row := db.tables "users"

def Db.buckets (db : Db) : List Row := db.tables "buckets"

def Db.usersBuckets (db : Db) : List Row := db.tables "users_buckets"

def initdb : Db :=
  { tables := fun _ => []
    valid := by decide }

end WsHyper.Auth
