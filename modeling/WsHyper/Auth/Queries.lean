import Mathlib.Data.List.Perm.Basic
import WsHyper.Auth.Schema
import WsHyper.Lib.AssocMap

/-!
# Queries

The builders of the statements that the service sends, `QueryOwn`, `InsertOwn` and
`UpdateOwn`.  Each writes its text piece by piece, numbers the placeholders and
keeps the values to bind.  Conditions and changes are in hash maps, which iterate
over their entries in any order.
-/

namespace WsHyper.Auth

open WsHyper.Lib Sql

inductive Permissions
  | put
  | get
  | delete
  | read
  deriving DecidableEq

inductive UserState
  | active
  | inactive
  deriving DecidableEq

inductive Role
  | superUser
  | administrator
  | productor
  | operador
  deriving DecidableEq

/-- The names of the variants, which are sent as labels. -/
def Permissions.label : Permissions → String
  | .put => "Put"
  | .get => "Get"
  | .delete => "Delete"
  | .read => "Read"

def UserState.label : UserState → String
  | .active => "Active"
  | .inactive => "Inactive"

def Role.label : Role → String
  | .superUser => "SuperUser"
  | .administrator => "Administrator"
  | .productor => "Productor"
  | .operador => "Operador"

inductive Types
  | uuid (uuid : Uuid)
  | string (string : Str)
  | optString (string : Option Str)
  | optUuid (uuid : Option Uuid)
  | userState (state : UserState)
  | role (role : Role)
  | vecAnyPermission (vec : List Permissions)
  | vecContainsPermission (vec : List Permissions)
  | vecOverlapsPermission (vec : List Permissions)

/-- `bind!`. -/
def Types.bind : Types → Param
  | .uuid u => { type := .uuid, value := .uuid u }
  | .string s => { type := .text, value := .text s }
  | .optString s => { type := .text, value := (s.map Value.text).getD .null }
  | .optUuid u => { type := .uuid, value := (u.map Value.uuid).getD .null }
  | .userState s => { type := .enum "user_state", value := .label s.label }
  | .role r => { type := .enum "role", value := .label r.label }
  | .vecAnyPermission vec | .vecContainsPermission vec | .vecOverlapsPermission vec =>
      { type := .enumArray "permissions", value := .labels (vec.map fun p => some p.label) }

/-- The order in which a hash container iterates over its entries. -/
structure HashOrder where
  arrange : {α : Type} → List α → List α
  perm : ∀ {α : Type} (entries : List α), (arrange entries).Perm entries

def HashOrder.inserted : HashOrder := { arrange := id, perm := List.Perm.refl }

abbrev HashMap := AssocMap String Types

/-- `QuerySelect`: the query of a type, and the value that a row is read as. -/
class QuerySelect (τ : Type) where
  query : Source
  fromRow : Row → Except Panic τ

/-- `Table`: the table of a type. -/
class Table (τ : Type) where
  name : String
  columns : List String
  values : τ → List Types

/-! ## QueryOwn -/

structure QueryOwn (τ : Type) where
  wheres : Option HashMap
  groupBys : List String

namespace QueryOwn

variable {τ : Type}

def builder : QueryOwn τ := { wheres := none, groupBys := [] }

def groupBy (query : QueryOwn τ) (column : String) : QueryOwn τ :=
  { query with groupBys := query.groupBys.insert column }

def wh (query : QueryOwn τ) (index : String) (value : Types) : QueryOwn τ :=
  match query.wheres with
  | none => { query with wheres := some [(index, value)] }
  | some map => { query with wheres := some (map.put index value) }

def whVecAny (query : QueryOwn τ) (column : String) (values : List Permissions) : QueryOwn τ :=
  query.wh column (.vecAnyPermission values)

def whereAt (i : Nat) (entry : String × Types) : Piece :=
  { lead := if i = 0 then " WHERE" else " AND"
    column := entry.1
    any := match entry.2 with
      | .vecAnyPermission _ => true
      | _ => false
    placeholder := i + 1 }

def build [QuerySelect τ] (query : QueryOwn τ) (order : HashOrder) : Select × List Param :=
  let wheres := order.arrange (query.wheres.getD [])
  ({ source := QuerySelect.query τ
     wheres := wheres.mapIdx whereAt
     groupBy := order.arrange query.groupBys },
    wheres.map fun entry => entry.2.bind)

end QueryOwn

/-! ## InsertOwn -/

def InsertOwn.query {τ : Type} [Table τ] (item : τ) : Statement × List Param :=
  let columns := Table.columns τ
  (.insert (Table.name τ) columns ((List.range columns.length).map (· + 1)),
    (Table.values item).map Types.bind)

/-! ## UpdateOwn -/

structure UpdateOwn where
  table : String
  sets : List Piece
  wheres : HashMap
  items : List Types

namespace UpdateOwn

def new (τ : Type) [Table τ] : UpdateOwn :=
  { table := Table.name τ, sets := [], wheres := [], items := [] }

def setAt (i : Nat) (entry : String × Types) : Piece :=
  { lead := if i + 1 > 1 then "," else ""
    column := entry.1
    any := false
    placeholder := i + 1 }

def «from» (update : UpdateOwn) (order : HashOrder) (items : HashMap) : UpdateOwn :=
  let entries := order.arrange items
  { update with
    sets := entries.mapIdx setAt
    items := update.items ++ entries.map Prod.snd }

def wh (update : UpdateOwn) (index : String) (value : Types) : UpdateOwn :=
  { update with wheres := update.wheres.put index value }

/-- A condition; the count is not raised from one to the next. -/
def whereAt (len : Nat) (entry : String × Types) : Piece :=
  let count := len + 1
  { lead := if count = len + 1 then " WHERE" else ","
    column := entry.1
    any := false
    placeholder := count }

/-- There is none without values to set. -/
def query (update : UpdateOwn) (order : HashOrder) : Option (Statement × List Param) :=
  if update.items = [] then none
  else
    let wheres := order.arrange update.wheres
    some (.update update.table update.sets (wheres.map (whereAt update.items.length)),
      (update.items ++ wheres.map Prod.snd).map Types.bind)

end UpdateOwn

end WsHyper.Auth
