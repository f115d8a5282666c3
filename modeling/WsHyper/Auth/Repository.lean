import WsHyper.Auth.Models

/-!
# The repository

`PgRepository` sends the statements to the database.  Its calls come back with a
result or an error, or panic while they read a row.
-/

namespace WsHyper.Auth

open WsHyper.Lib Sql

inductive RepositoryError
  | rowNotFound
  | alreadyExist
  | sqlxErr (error : SqlError)
  deriving DecidableEq

/-- `From<sqlx::error::Error>`; Postgres gives a violated uniqueness the code 23505. -/
def RepositoryError.ofSql : SqlError → RepositoryError
  | .uniqueViolation => .alreadyExist
  | error => .sqlxErr error

inductive Failure (ε : Type)
  | panics (panic : Panic)
  | fails (error : ε)

abbrev Result (ε α : Type) := Except (Failure ε) α

def Failure.map {ε ε' : Type} (f : ε → ε') : Failure ε → Failure ε'
  | .panics panic => .panics panic
  | .fails error => .fails (f error)

def answered {α : Type} (answer : Except SqlError α) : Result RepositoryError α :=
  answer.mapError fun error => .fails (.ofSql error)

namespace Db

variable (db : Db)

def get {τ : Type} [QuerySelect τ] (query : QueryOwn τ) (order : HashOrder) :
    Result RepositoryError τ := do
  let (select, params) := query.build order
  match ← answered (db.fetch select params) with
  | [] => .error (.fails .rowNotFound)
  | row :: _ => (QuerySelect.fromRow row).mapError .panics

def gets {τ : Type} [QuerySelect τ] (query : QueryOwn τ) (order : HashOrder) :
    Result RepositoryError (List τ) := do
  let (select, params) := query.build order
  let rows ← answered (db.fetch select params)
  rows.mapM fun row => (QuerySelect.fromRow row).mapError .panics

/-- It deletes users, whatever the id is of. -/
def deleteById (id : Uuid) : Result RepositoryError (Db × Nat) :=
  answered (db.delete "users"
    [{ lead := " WHERE", column := "id", any := false, placeholder := 1 }] [(Types.uuid id).bind])

def insertItem {τ : Type} [Table τ] (defaults : Row) (item : τ) :
    Result RepositoryError (Db × Nat) :=
  let (statement, params) := InsertOwn.query item
  answered (db.execute defaults statement params)

/-- It unwraps the query, which there is not without values to set. -/
def updateItems (defaults : Row) (updater : UpdateOwn) (order : HashOrder) :
    Result RepositoryError (Db × Nat) :=
  match updater.query order with
  | none => .error (.panics .unwrapErr)
  | some (statement, params) => answered (db.execute defaults statement params)

/-- The user is inserted; an error is only reported. -/
def withDefaultUser (defaults : Row) (user : User) : Db :=
  match db.insertItem defaults user with
  | .ok (db, _) => db
  | .error _ => db

end Db

end WsHyper.Auth
