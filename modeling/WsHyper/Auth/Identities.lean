import WsHyper.Auth.Effects
import WsHyper.Lib.Run

/-!
# Identities of new users

A user without an id is inserted with the nil one, and never with the default of
the column.  The administrator that comes with the database has that id already.
-/

namespace WsHyper.Auth

open WsHyper.Lib Sql

def NewStep (db : Db) (call : Chance × Body) (db' : Db) : Prop :=
  ∃ response, User.new call.1 db call.2 = .ok (response, db')

/-- The bodies are of users without an id, whose names differ from each other and
from `admin`. -/
structure Anonymous (calls : List (Chance × Body)) : Prop where
  user : ∀ call ∈ calls, ∃ user, call.2.user = some user ∧ user.id = none ∧
    user.username ≠ "admin".toList
  names : ((calls.filterMap fun call => call.2.user).map User.username).Nodup

/-- A user without an id meets the administrator's. -/
theorem new_ne_ok {chance : Chance} {body : Body} {user : User} {db : Db}
    {answer : Response × Db} (huser : body.user = some user) (hid : user.id = none)
    (htaken : ∃ row ∈ db.users, isRow Uuid.nil row) : User.new chance db body ≠ .ok answer := by
  intro h
  obtain ⟨response, db'⟩ := answer
  obtain ⟨user', passwd, n, huser', -, hok⟩ := User.new_eq_ok h
  obtain rfl := Option.some.inj (huser.symm.trans huser')
  obtain ⟨row, hrow, hnil⟩ := htaken
  apply id_ne_of_insertItem hok hrow
  simpa [isRow, hid] using hnil

/-- After `with_default_user`, users without an id are all created, and with
identities of their own, only when there are none. -/
theorem identities_distinct_iff (hash : Str → Option Str) (admin : User) (defaults : Row)
    (calls : List (Chance × Body)) (hadmin : defaultAccountAdmin hash = some admin)
    (hcalls : Anonymous calls) :
    (∃ db', Run NewStep (initdb.withDefaultUser defaults admin) calls db' ∧
        (db'.users.map (· "id")).Nodup) ↔ calls = [] := by
  constructor
  · rintro ⟨db', hrun, -⟩
    cases hrun with
    | nil => rfl
    | @cons _ _ _ call calls hstep _ =>
        obtain ⟨response, hok⟩ := hstep
        obtain ⟨user, huser, hid, -⟩ := hcalls.user call List.mem_cons_self
        refine absurd hok (new_ne_ok huser hid ⟨userRow defaults admin, ?_, ?_⟩)
        · rw [users_withDefaultUser hadmin]
          exact List.mem_singleton_self _
        · rw [isRow, userRow_id, (defaultAccountAdmin_eq_some hadmin).1]
          simp
  · rintro rfl
    exact ⟨_, .nil _, nodup_ids _⟩

def anonymousBody : Body :=
  { Body.empty with
    user := some {
      id := none
      username := ['a']
      passwd := ['p']
      email := none
      phone := none
      userState := .active
      role := .superUser
      description := none } }

def letterChance : Chance :=
  { order := .inserted, defaults := fun _ => .null, hash := fun text => some ('h' :: text) }

def letterAdmin : User :=
  { id := none
    username := "admin".toList
    passwd := 'h' :: "admin".toList
    email := none
    phone := none
    userState := .active
    role := .superUser
    description := some "Default account".toList }

theorem identities_distinct_anonymousBody :
    (∃ db', Run NewStep (initdb.withDefaultUser (fun _ => .null) letterAdmin)
        [(letterChance, anonymousBody)] db' ∧ (db'.users.map (· "id")).Nodup) ↔
      [(letterChance, anonymousBody)] = [] := by
  refine identities_distinct_iff letterChance.hash letterAdmin _ _ rfl ⟨?_, by decide⟩
  intro call hcall
  rw [List.mem_singleton.1 hcall]
  exact ⟨_, rfl, rfl, by decide⟩

/-- The first user that is created is turned down. -/
theorem anonymousBody_rejected :
    User.new letterChance (initdb.withDefaultUser (fun _ => .null) letterAdmin) anonymousBody =
      .error (.fails { detail := some (.repository .alreadyExist), status := 400 }) := rfl

end WsHyper.Auth
