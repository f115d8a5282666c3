import WsHyper.Auth.Routes

/-!
# Requests without an answer

Two things make a handler panic: an update that sets nothing, whose statement is
unwrapped, and a row that cannot be read.
-/

namespace WsHyper.Auth

open WsHyper.Lib Sql

def Panicked {ε α : Type} (result : Result ε α) : Prop := ∃ panic, result = .error (.panics panic)

section Results

variable {ε α β : Type}

@[simp] theorem not_panicked_ok (a : α) : ¬Panicked (.ok a : Result ε α) := by
  rintro ⟨panic, h⟩
  cases h

@[simp] theorem not_panicked_fails (e : ε) : ¬Panicked (.error (.fails e) : Result ε α) := by
  rintro ⟨panic, h⟩
  cases h

@[simp] theorem panicked_panics (panic : Panic) :
    Panicked (.error (.panics panic) : Result ε α) := ⟨panic, rfl⟩

theorem panicked_bind {x : Result ε α} {f : α → Result ε β} :
    Panicked (x >>= f) ↔ Panicked x ∨ ∃ a, x = .ok a ∧ Panicked (f a) := by
  cases x with
  | ok a => simp
  | error failure =>
      cases failure with
      | panics panic => simp
      | fails e => simp

theorem panicked_repository {result : Result RepositoryError α} :
    Panicked (repository result) ↔ Panicked result := by
  cases result with
  | ok a => simp [repository, Except.mapError]
  | error failure =>
      cases failure <;> simp [repository, Except.mapError, Failure.map]

theorem panicked_changed {result : Result RepositoryError (Db × Nat)} :
    Panicked (changed result) ↔ Panicked result := by
  rw [changed, panicked_bind, panicked_repository]
  simp

theorem not_panicked_answered (answer : Except SqlError α) : ¬Panicked (answered answer) := by
  cases answer <;> simp [answered, Except.mapError]

theorem not_panicked_parsed (body : Option α) (status : Nat) :
    ¬Panicked (parsed body status) := by
  cases body <;> simp [parsed, refuse]

theorem panicked_reading {result : Result RepositoryError α} {f : α → Response} {db : Db} :
    Panicked (do
      let a ← repository result
      .ok (f a, db) : Handled) ↔ Panicked result := by
  rw [panicked_bind, panicked_repository]
  simp

end Results

/-! ## What can be read -/

section Reads

variable {τ : Type} [QuerySelect τ]

def Db.found (db : Db) (query : QueryOwn τ) (order : HashOrder) : Except SqlError (List Row) :=
  db.fetch (query.build order).1 (query.build order).2

/-- The first row that is found, if any, is a value of the type. -/
def Db.FirstReads (db : Db) (query : QueryOwn τ) (order : HashOrder) : Prop :=
  ∀ row rows, db.found query order = .ok (row :: rows) →
    ∃ value : τ, QuerySelect.fromRow row = .ok value

/-- Every row that is found is one. -/
def Db.AllRead (db : Db) (query : QueryOwn τ) (order : HashOrder) : Prop :=
  ∀ rows, db.found query order = .ok rows →
    ∀ row ∈ rows, ∃ value : τ, QuerySelect.fromRow row = .ok value

variable {db : Db} {query : QueryOwn τ} {order : HashOrder}

omit [QuerySelect τ] in
theorem panicked_read {read : Except Panic τ} :
    Panicked (read.mapError .panics : Result RepositoryError τ) ↔ ¬∃ value, read = .ok value := by
  cases read with
  | ok value => simp [Except.mapError]
  | error panic => simp [Except.mapError]

theorem panicked_get : Panicked (db.get query order) ↔ ¬db.FirstReads query order := by
  rw [Db.get, panicked_bind, or_iff_right (not_panicked_answered _)]
  simp only [answered_eq_ok, Db.FirstReads, not_forall]
  constructor
  · rintro ⟨rows, hfound, hpanics⟩
    cases rows with
    | nil => exact absurd hpanics (not_panicked_fails _)
    | cons row rows => exact ⟨row, rows, hfound, panicked_read.1 hpanics⟩
  · rintro ⟨row, rows, hfound, hunread⟩
    exact ⟨row :: rows, hfound, panicked_read.2 hunread⟩

theorem panicked_mapM {rows : List Row} :
    Panicked (rows.mapM fun row =>
      ((QuerySelect.fromRow row : Except Panic τ).mapError .panics : Result RepositoryError τ)) ↔
      ∃ row ∈ rows, ¬∃ value : τ, QuerySelect.fromRow row = .ok value := by
  induction rows with
  | nil => simp [pure, Except.pure]
  | cons row rows ih =>
      have hlast : ∀ value : τ, Panicked (do
          let values ← rows.mapM fun row =>
            ((QuerySelect.fromRow row : Except Panic τ).mapError .panics : Result RepositoryError τ)
          pure (value :: values)) ↔
            ∃ row ∈ rows, ¬∃ value : τ, QuerySelect.fromRow row = .ok value := by
        intro value
        rw [panicked_bind, ih]
        simp [pure, Except.pure]
      rw [List.mapM_cons, panicked_bind, panicked_read]
      simp only [hlast, List.mem_cons, exists_eq_or_imp]
      cases hread : (QuerySelect.fromRow row : Except Panic τ) with
      | ok value => simp [Except.mapError]
      | error panic => simp [Except.mapError]

theorem panicked_gets : Panicked (db.gets query order) ↔ ¬db.AllRead query order := by
  have hgets : db.gets query order = answered (db.found query order) >>= fun rows =>
      rows.mapM fun row => (QuerySelect.fromRow row).mapError .panics := rfl
  rw [hgets, panicked_bind, or_iff_right (not_panicked_answered _)]
  simp only [answered_eq_ok, Db.AllRead, not_forall, panicked_mapM, exists_prop]

end Reads

/-- The query for the programs of users is refused: it joins tables. -/
theorem allRead_userInfo (db : Db) (query : QueryOwn UserAllInfo) (order : HashOrder) :
    db.AllRead query order := by
  intro rows hfound
  obtain ⟨types, -, hrows⟩ := bind_eq_ok hfound
  cases hrows

/-! ## Updates -/

section Updates

variable {db : Db} {defaults : Row} {order : HashOrder}

theorem panicked_updateItems {updater : UpdateOwn} :
    Panicked (db.updateItems defaults updater order) ↔ updater.items = [] := by
  rw [Db.updateItems, UpdateOwn.query]
  split_ifs with hitems
  · simp [hitems]
  · simp [hitems, not_panicked_answered]

theorem items_from (update : UpdateOwn) (items : HashMap) :
    (update.from order items).items = update.items ++ (order.arrange items).map Prod.snd := rfl

theorem items_eq_nil_iff {τ : Type} [Table τ] {items : HashMap} :
    (UpdateOwn.new τ).items ++ (order.arrange items).map Prod.snd = [] ↔ items = [] := by
  rw [UpdateOwn.new, List.nil_append, List.map_eq_nil_iff, order.arrange_eq_nil_iff]

end Updates

/-! ## Handlers -/

section Handlers

variable {chance : Chance} {db : Db} {id : Uuid}

theorem panicked_userUpdate {τ : Type} {toMap : τ → HashMap} {body : Option τ} :
    Panicked (User.update chance db toMap body id) ↔ ∃ new, body = some new ∧ toMap new = [] := by
  rw [User.update, panicked_bind, or_iff_right (not_panicked_parsed _ _)]
  cases body with
  | none => simp [parsed, refuse]
  | some new =>
      simp only [parsed, Except.ok.injEq, exists_eq_left', Option.some.injEq, panicked_changed,
        panicked_updateItems, UpdateOwn.wh, items_from, items_eq_nil_iff]

theorem panicked_bucketUpdate {body : Body} :
    Panicked (Buckets.update chance db body id) ↔
      ∃ new, body.bucketUpdate = some new ∧ new.toMap = [] := by
  rw [Buckets.update]
  cases body.bucketUpdate with
  | none => simp
  | some new =>
      simp only [Option.some.injEq, exists_eq_left', panicked_changed, panicked_updateItems,
        UpdateOwn.wh, items_from, items_eq_nil_iff]

def Route.Answers (chance : Chance) (db : Db) (body : Body) : Route → Prop
  | ownUpdate => ∀ new, body.updateSelf = some new → new.toMap ≠ []
  | updateUser _ => ∀ new, body.updateUser = some new → new.toMap ≠ []
  | updateBucket _ => ∀ new, body.bucketUpdate = some new → new.toMap ≠ []
  | getUser id => db.FirstReads (userWith "id" (.uuid id)) chance.order
  | allUsers => db.AllRead (.builder : QueryOwn User) chance.order
  | getBucket id =>
      db.FirstReads (QueryOwn.builder.wh "id" (.uuid id) : QueryOwn Buckets) chance.order
  | allBuckets => db.AllRead (.builder : QueryOwn Buckets) chance.order
  | _ => True

theorem not_panicked_newUser (body : Body) : ¬Panicked (User.new chance db body) := by
  rw [User.new, panicked_bind, or_iff_right (not_panicked_parsed _ _)]
  rintro ⟨user, -, hpanics⟩
  cases hhash : chance.hash user.passwd with
  | none =>
      rw [hhash] at hpanics
      exact not_panicked_fails _ hpanics
  | some passwd =>
      rw [hhash] at hpanics
      exact not_panicked_answered _ (panicked_changed.1 hpanics)

theorem not_panicked_newBucket (body : Body) : ¬Panicked (Buckets.new chance db body) := by
  rw [Buckets.new, panicked_bind, or_iff_right (not_panicked_parsed _ _)]
  rintro ⟨bucket, -, hpanics⟩
  exact not_panicked_answered _ (panicked_changed.1 hpanics)

theorem not_panicked_userInfo (chance : Chance) (id : Option Uuid) :
    ¬Panicked (User.getUserInfo chance db id) := by
  intro hpanics
  exact (panicked_gets.1 (panicked_reading.1 hpanics)) (allRead_userInfo db _ chance.order)

theorem not_panicked_delete : ¬Panicked (User.delete db id) := fun hpanics =>
  not_panicked_answered _ (panicked_changed.1 hpanics)

theorem exists_empty_iff {τ : Type} {toMap : τ → HashMap} {body : Option τ} :
    (∃ new, body = some new ∧ toMap new = []) ↔ ¬∀ new, body = some new → toMap new ≠ [] := by
  simp

theorem panicked_run {body : Body} {own : Uuid} (route : Route) :
    Panicked (route.run chance db body own) ↔ ¬route.Answers chance db body := by
  have hnever : ∀ {result : Handled}, ¬Panicked result → (Panicked result ↔ ¬True) :=
    fun hnot => iff_of_false hnot (by simp)
  cases route with
  | ownUpdate => exact panicked_userUpdate.trans exists_empty_iff
  | ownInfo => exact hnever (not_panicked_userInfo chance (some own))
  | newUser => exact hnever (not_panicked_newUser _)
  | allUsers => exact panicked_reading.trans panicked_gets
  | userInfo id => exact hnever (not_panicked_userInfo chance id)
  | getUser id => exact panicked_reading.trans panicked_get
  | updateUser id => exact panicked_userUpdate.trans exists_empty_iff
  | deleteUser id => exact hnever not_panicked_delete
  | newBucket => exact hnever (not_panicked_newBucket _)
  | allBuckets => exact panicked_reading.trans panicked_gets
  | getBucket id => exact panicked_reading.trans panicked_get
  | updateBucket id => exact panicked_bucketUpdate.trans exists_empty_iff
  | deleteBucket id => exact hnever not_panicked_delete

end Handlers

/-! ## Requests -/

section Requests

variable (parseUuid : Str → Option Uuid) (chance : Chance) (db : Db)

def ChosenAnswers (method : Method) (path : Str) (body : Body) : Prop :=
  ∀ route, apiRoute parseUuid method path = .ok route → route.Answers chance db body

/-- What keeps `api` from panicking on a request of a user: what the handler needs, and away
from `/user` that the row of the user can be read; the handler runs only for administrators. -/
def ApiAnswers (method : Method) (path : Str) (body : Body) (own : Uuid) : Prop :=
  if path = "/user".toList then ChosenAnswers parseUuid chance db method path body
  else db.FirstReads (userWith "id" (.uuid own)) chance.order ∧
    ∀ user, db.get (userWith "id" (.uuid own)) chance.order = .ok user → user.isAdmin = true →
      ChosenAnswers parseUuid chance db method path body

variable {parseUuid chance db} {request : Request} {path : Str} {own : Uuid}

theorem panicked_chosen {method : Method} {body : Body} :
    Panicked (chosen chance db body own (apiRoute parseUuid method path)) ↔
      ¬ChosenAnswers parseUuid chance db method path body := by
  rw [ChosenAnswers]
  cases apiRoute parseUuid method path with
  | ok route => simp [chosen, panicked_run]
  | error error => simp [chosen]

theorem panicked_middleware {next : Handled} (hclaim : request.claim = some own) :
    Panicked (middlewareUserAdmin chance db request next) ↔
      ¬db.FirstReads (userWith "id" (.uuid own)) chance.order ∨
        ∃ user, db.get (userWith "id" (.uuid own)) chance.order = .ok user ∧
          user.isAdmin = true ∧ Panicked next := by
  rw [middlewareUserAdmin, claimed_eq_ok_iff.2 hclaim, ok_bind, panicked_bind,
    panicked_repository, panicked_get]
  refine or_congr_right (exists_congr fun user => ?_)
  rw [repository_eq_ok]
  refine and_congr_right fun _ => ?_
  split_ifs with hadmin
  · simp [hadmin]
  · simp [hadmin]

theorem panicked_api (hpath : request.path = prefixPath ++ path)
    (hclaim : request.claim = some own) :
    Panicked (api parseUuid chance db request) ↔
      ¬ApiAnswers parseUuid chance db request.method path request.body own := by
  rw [ApiAnswers]
  split_ifs with hown
  · rw [api_own hpath hclaim hown, panicked_chosen]
  · have hgate : api parseUuid chance db request = middlewareUserAdmin chance db request
        (chosen chance db request.body own (apiRoute parseUuid request.method path)) :=
      api_gate hpath hown
    rw [hgate, panicked_middleware hclaim, not_and_or]
    refine or_congr_right ?_
    simp only [panicked_chosen, not_forall, exists_prop]

end Requests

end WsHyper.Auth
