import WsHyper.Auth.Repository
import WsHyper.Lib.Text

/-!
# Handlers and routes

The HTTP interface of the service: `api` lets users read and change themselves and
hands everything else to administrators, for whom `endpoint_admin` picks a handler
by path and method.  A request that fails leaves the database as it was.
-/

namespace WsHyper.Auth

open WsHyper.Lib Sql

inductive Method
  | get
  | post
  | patch
  | delete
  | other
  deriving DecidableEq

structure Login where
  username : Str
  password : Str

/-- A body, by what it is as JSON of each type that is asked for. -/
structure Body where
  user : Option User
  updateSelf : Option UpdateSelf
  updateUser : Option UpdateUser
  buckets : Option Buckets
  bucketUpdate : Option BucketUpdate
  login : Option Login

def Body.empty : Body :=
  { user := none
    updateSelf := none
    updateUser := none
    buckets := none
    bucketUpdate := none
    login := none }

structure Request where
  method : Method
  path : Str
  body : Body
  /-- The subject of the claim that was verified. -/
  claim : Option Uuid

/-- What differs from call to call: the order of hash maps, the defaults of columns,
and `bcrypt::hash` with the salt of its time. -/
structure Chance where
  order : HashOrder
  defaults : Row
  hash : Str → Option Str

inductive Detail
  | text (text : String)
  | repository (error : RepositoryError)
  | encrypt
  deriving DecidableEq

structure ResponseErr where
  detail : Option Detail
  status : Nat
  deriving DecidableEq

/-- `From<RepositoryError>`. -/
def ResponseErr.ofRepository (error : RepositoryError) : ResponseErr :=
  { detail := some (.repository error), status := 400 }

/-- The responses that are no errors; a row count stands for `row_affect`. -/
inductive Response
  | user (user : User)
  | users (users : List User)
  | userInfos (infos : List UserAllInfo)
  | bucket (bucket : Buckets)
  | buckets (buckets : List Buckets)
  | rowAffect (n : Nat)

abbrev Handled := Result ResponseErr (Response × Db)

def refuse {α : Type} (text : String) (status : Nat) : Result ResponseErr α :=
  .error (.fails { detail := some (.text text), status })

/-- `ParseBodyToStruct::get`, where an unread body gives `status`. -/
def parsed {α : Type} (body : Option α) (status : Nat) : Result ResponseErr α :=
  match body with
  | some value => .ok value
  | none => refuse "Parsing data entry error" status

/-- `?` on a result of the repository. -/
def repository {α : Type} (result : Result RepositoryError α) : Result ResponseErr α :=
  result.mapError (Failure.map ResponseErr.ofRepository)

def changed (result : Result RepositoryError (Db × Nat)) : Handled := do
  let (db, n) ← repository result
  .ok (.rowAffect n, db)

/-! ## Users -/

def userWith (index : String) (value : Types) : QueryOwn User := QueryOwn.builder.wh index value

namespace User

variable (chance : Chance) (db : Db)

def new (body : Body) : Handled := do
  let user ← parsed body.user 400
  match chance.hash user.passwd with
  | none => .error (.fails { detail := some .encrypt, status := 500 })
  | some passwd => changed (db.insertItem chance.defaults { user with passwd })

def getOne (id : Uuid) : Handled := do
  let user ← repository (db.get (userWith "id" (.uuid id)) chance.order)
  .ok (.user { user with passwd := [] }, db)

def getAll : Handled := do
  let users ← repository (db.gets (.builder : QueryOwn User) chance.order)
  .ok (.users (users.map fun user => { user with passwd := [] }), db)

def getUserInfo (id : Option Uuid) : Handled := do
  let query : QueryOwn UserAllInfo := match id with
    | none => .builder
    | some id => QueryOwn.builder.wh "users.id" (.uuid id)
  let infos ← repository (db.gets query chance.order)
  .ok (.userInfos infos, db)

def delete (id : Uuid) : Handled := changed (db.deleteById id)

/-- Generic over the type of the change. -/
def update {τ : Type} (toMap : τ → HashMap) (body : Option τ) (id : Uuid) : Handled := do
  let new ← parsed body 400
  changed (db.updateItems chance.defaults
    (((UpdateOwn.new User).from chance.order (toMap new)).wh "id" (.uuid id)) chance.order)

end User

/-! ## Buckets -/

namespace Buckets

variable (chance : Chance) (db : Db)

def new (body : Body) : Handled := do
  let bucket ← parsed body.buckets 502
  changed (db.insertItem chance.defaults bucket)

def update (body : Body) (id : Uuid) : Handled := do
  match body.bucketUpdate with
  | none => .error (.fails { detail := none, status := 400 })
  | some program =>
      changed (db.updateItems chance.defaults
        (((UpdateOwn.new Buckets).wh "id" (.uuid id)).from chance.order program.toMap)
        chance.order)

def getOne (id : Uuid) : Handled := do
  let query : QueryOwn Buckets := QueryOwn.builder.wh "id" (.uuid id)
  let bucket ← repository (db.get query chance.order)
  .ok (.bucket bucket, db)

def getAll : Handled := do
  let buckets ← repository (db.gets (.builder : QueryOwn Buckets) chance.order)
  .ok (.buckets buckets, db)

/-- The call that deletes users as well. -/
def delete (id : Uuid) : Handled := changed (db.deleteById id)

end Buckets

/-! ## Routes -/

def prefixPath : Str := "/api/v1".toList

/-- `strip_prefix`. -/
def stripPrefix (pat text : Str) : Option Str :=
  if pat <+: text then some (text.drop pat.length) else none

/-- `strip_suffix`. -/
def stripSuffix (pat text : Str) : Option Str :=
  if pat <:+ text then some (text.take (text.length - pat.length)) else none

/-- `split(pat).nth(1)`. -/
def splitNth1 (pat text : Str) : Option Str :=
  (Text.splitOnce pat text).map fun parts =>
    match Text.splitOnce pat parts.2 with
    | none => parts.2
    | some (before, _) => before

section Routes

variable (parseUuid : Str → Option Uuid) (chance : Chance) (db : Db) (request : Request)

/-- The path behind `/api/v1`, without which a request never gets here. -/
def routed : Result ResponseErr Str :=
  match stripPrefix prefixPath request.path with
  | some path => .ok path
  | none => .error (.panics .unwrapNone)

def identified (text : Option Str) : Result ResponseErr Uuid :=
  match text.bind parseUuid with
  | some id => .ok id
  | none => refuse "Invalid format" 400

/-- The arms of the two families that end in an identifier. -/
def userById (path : Str) : Handled := do
  let id ← identified parseUuid (splitNth1 "/user/".toList path)
  match request.method with
  | .delete => User.delete db id
  | .patch => User.update chance db UpdateUser.toMap request.body.updateUser id
  | _ => User.getOne chance db id

def bucketById (path : Str) : Handled := do
  match stripPrefix "/bucket/".toList path with
  | none => .error (.fails { detail := none, status := 400 })
  | some text =>
      let id ← identified parseUuid (some text)
      match request.method with
      | .patch => Buckets.update chance db request.body id
      | .delete => Buckets.delete db id
      | _ => Buckets.getOne chance db id

def endpointAdmin : Handled := do
  let path ← routed request
  if path = "/user".toList ∧ request.method = .post then User.new chance db request.body
  else if path = "/users".toList ∧ request.method = .get then User.getAll chance db
  else if request.method = .get ∧ "user/".toList <+: path ∧ "/detail".toList <:+ path then
    let id ← identified parseUuid
      ((splitNth1 "/user/".toList path).bind (stripSuffix "/detail".toList))
    User.getUserInfo chance db (some id)
  else if path = "/users/detail".toList ∧ request.method = .get then
    User.getUserInfo chance db none
  else if request.method ∈ [.delete, .patch, .get] ∧ "/user/".toList <+: path then
    userById parseUuid chance db request path
  else if path = "/bucket".toList ∧ request.method = .post then
    Buckets.new chance db request.body
  else if path = "/bucket".toList ∧ request.method = .get then Buckets.getAll chance db
  else if request.method ∈ [.patch, .get, .delete] ∧ "/bucket".toList <+: path then
    bucketById parseUuid chance db request path
  else refuse "Path Not Found" 400

def claimed : Result ResponseErr Uuid :=
  match request.claim with
  | some id => .ok id
  | none => .error (.panics .unwrapNone)

def middlewareUserAdmin (next : Handled) : Handled := do
  let id ← claimed request
  let user ← repository (db.get (userWith "id" (.uuid id)) chance.order)
  if user.isAdmin then next else .error (.fails { detail := none, status := 401 })

def api : Handled := do
  let path ← routed request
  if path = "/user".toList then
    let id ← claimed request
    match request.method with
    | .patch => User.update chance db UpdateSelf.toMap request.body.updateSelf id
    | .get => User.getUserInfo chance db (some id)
    | _ => refuse "Path not found" 400
  else
    middlewareUserAdmin chance db request (endpointAdmin parseUuid chance db request)

/-- The answer to a login that is accepted. -/
def issueToken (genToken : Uuid → Except String Str) (id : Uuid) : Result ResponseErr Str :=
  match genToken id with
  | .ok token => .ok token
  | .error text => refuse text 400

/-- `/login`, where `verify` says that a password is the one of a hash and
`genToken` signs a claim for a subject. -/
def login (verify : Str → Str → Bool) (genToken : Uuid → Except String Str) (order : HashOrder)
    (body : Body) : Result ResponseErr Str := do
  let login ← parsed body.login 401
  match db.get (userWith "username" (.string login.username)) order with
  | .error (.panics panic) => .error (.panics panic)
  | .error (.fails _) => refuse "User not found" 404
  | .ok user =>
      if verify login.password user.passwd then
        match user.id with
        | none => .error (.panics .unwrapNone)
        | some id => issueToken genToken id
      else .error (.fails { detail := none, status := 401 })

end Routes

def Handled.after (handled : Handled) (db : Db) : Db :=
  match handled with
  | .ok (_, db) => db
  | .error _ => db

end WsHyper.Auth
