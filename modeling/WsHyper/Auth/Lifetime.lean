import WsHyper.Auth.Deletion
import WsHyper.Auth.Panics
import WsHyper.Auth.Passwords
import WsHyper.Auth.Confinement

/-!
# The life of the service

The database starts empty.  Each start of the service tries to put in the default
administrator, and between the starts there are requests, of anybody and about anything.
The roles of the service and those of the database have one name in common, so all users
that there ever are have that role.
-/

namespace WsHyper.Auth

open WsHyper.Lib Sql

inductive ServiceAct
  /-- `main`, with what is random about the default user. -/
  | start (defaults : Row) (hash : Str → Option Str)
  | request (asked : Asked)

/-- `main` ends where the password of the default user cannot be hashed. -/
def ServiceStep (parseUuid : Str → Option Uuid) (db : Db) : ServiceAct → Db → Prop
  | .start defaults hash, db' =>
      ∃ admin, defaultAccountAdmin hash = some admin ∧ db' = db.withDefaultUser defaults admin
  | .request asked, db' => ApiStep parseUuid db asked db'

/-! ## What a request writes -/

def HasText (map : HashMap) (column : String) (given : Option Str) : Prop :=
  ∀ value, (column, value) ∈ map ↔
    ∃ text, given = some text ∧ value = .optString (if text ≠ [] then some text else none)

def Route.blanks (body : Body) (own : Uuid) : Route → Option Uuid
  | ownUpdate => (body.updateSelf.filter fun value => value.passwd = some []).map fun _ => own
  | updateUser id =>
      (body.updateUser.filter fun value => value.username = some [] ∨ value.passwd = some []).map
        fun _ => id
  | _ => none

inductive Writes (chance : Chance) (db db' : Db) : Option Uuid → Prop
  | nothing (hdb : db' = db) : Writes chance db db' none
  | newUser (user : User) (n : Nat)
      (hok : db.insertItem chance.defaults user = .ok (db', n)) : Writes chance db db' none
  | update (map : HashMap) (username passwd : Option Str) (id : Uuid) (n : Nat)
      (hchanges : Changes map passwd) (hname : HasText map "username" username)
      (hok : db.updateItems chance.defaults
        (((UpdateOwn.new User).from chance.order map).wh "id" (.uuid id)) chance.order =
          .ok (db', n)) :
      Writes chance db db' (if username = some [] ∨ passwd = some [] then some id else none)
  | delete (id : Uuid) (n : Nat) (hok : db.deleteById id = .ok (db', n)) :
      Writes chance db db' none

theorem UpdateSelf.hasText_username (value : UpdateSelf) : HasText value.toMap "username" none := by
  intro new
  rw [UpdateSelf.toMap, mem_filterMap_textEntry]
  simp

theorem UpdateUser.hasText_username (value : UpdateUser) :
    HasText value.toMap "username" value.username := by
  intro new
  rw [UpdateUser.mem_toMap, mem_filterMap_textEntry]
  simp [eq_comm]

section Requests

variable {parseUuid : Str → Option Uuid} {chance : Chance} {db db' : Db} {request : Request}
  {response : Response}

theorem run_of_api (h : api parseUuid chance db request = .ok (response, db')) :
    ∃ own path route, request.claim = some own ∧ request.path = prefixPath ++ path ∧
      apiRoute parseUuid request.method path = .ok route ∧
      route.run chance db request.body own = .ok (response, db') := by
  have hchosen : ∃ own path, request.claim = some own ∧ request.path = prefixPath ++ path ∧
      chosen chance db request.body own (apiRoute parseUuid request.method path) =
        .ok (response, db') := by
    have hgiven := h
    obtain ⟨path, hpath, hrest⟩ := bind_eq_ok h
    have hpath' := routed_eq_ok_iff.1 hpath
    by_cases hown : path = "/user".toList
    · rw [if_pos hown] at hrest
      obtain ⟨own, hclaim, -⟩ := bind_eq_ok hrest
      have hclaim' := claimed_eq_ok_iff.1 hclaim
      rw [api_own hpath' hclaim' hown] at hgiven
      exact ⟨own, path, hclaim', hpath', hgiven⟩
    · rw [if_neg hown] at hrest
      obtain ⟨own, hclaim, -⟩ := bind_eq_ok hrest
      have hgated : middlewareUserAdmin chance db request
          (chosen chance db request.body own (apiRoute parseUuid request.method path)) =
            .ok (response, db') := by
        rw [← api_gate hpath' hown, hgiven]
      obtain ⟨own', hclaim', hgate⟩ := bind_eq_ok hgated
      obtain ⟨user, -, hgate⟩ := bind_eq_ok hgate
      split_ifs at hgate
      exact ⟨own, path, claimed_eq_ok_iff.1 hclaim, hpath', hgate⟩
  obtain ⟨own, path, hclaim, hpath, hchosen⟩ := hchosen
  refine ⟨own, path, ?_⟩
  cases hroute : apiRoute parseUuid request.method path with
  | ok route =>
      rw [hroute] at hchosen
      exact ⟨route, hclaim, hpath, rfl, hchosen⟩
  | error error =>
      rw [hroute] at hchosen
      cases hchosen

theorem writes_of_run {body : Body} {own : Uuid} {route : Route}
    (h : route.run chance db body own = .ok (response, db')) :
    Writes chance db db' (route.blanks body own) := by
  cases route with
  | ownUpdate =>
      obtain ⟨value, n, hvalue, hok⟩ := User.update_eq_ok h
      have hwrites : Writes chance db db' _ :=
        .update _ none _ own n (UpdateSelf.changes value) value.hasText_username hok
      simpa [Route.blanks, hvalue, Option.filter_some, apply_ite] using hwrites
  | updateUser id =>
      obtain ⟨value, n, hvalue, hok⟩ := User.update_eq_ok h
      have hwrites : Writes chance db db' _ :=
        .update _ _ _ id n (UpdateUser.changes value) value.hasText_username hok
      simpa [Route.blanks, hvalue, Option.filter_some, apply_ite] using hwrites
  | newUser =>
      obtain ⟨user, passwd, n, -, -, hok⟩ := User.new_eq_ok h
      exact .newUser _ n hok
  | deleteUser id =>
      obtain ⟨n, hok, -⟩ := changed_eq_ok.1 h
      exact .delete id n hok
  | deleteBucket id =>
      obtain ⟨n, hok, -⟩ := changed_eq_ok.1 h
      exact .delete id n hok
  | newBucket => exact absurd h Buckets.new_ne_ok
  | updateBucket id => exact absurd h Buckets.update_ne_ok
  | ownInfo => exact .nothing (reading_eq_ok h)
  | allUsers => exact .nothing (reading_eq_ok h)
  | userInfo id => exact .nothing (reading_eq_ok h)
  | getUser id => exact .nothing (reading_eq_ok h)
  | allBuckets => exact .nothing (reading_eq_ok h)
  | getBucket id => exact .nothing (reading_eq_ok h)

end Requests

/-! ## One role for all -/

/-- All users have the one role, and there are neither buckets nor parts in them. -/
structure Db.Uniform (db : Db) : Prop where
  readable : Readable db
  buckets : db.buckets = []
  usersBuckets : db.usersBuckets = []

section Uniform

variable {parseUuid : Str → Option Uuid} {chance : Chance} {db db' : Db} {id : Uuid} {n : Nat}
  {defaults : Row}

theorem Db.Uniform.ungranted (huniform : db.Uniform) (id : Uuid) : db.Ungranted id := by
  intro grant hgrant
  rw [huniform.usersBuckets] at hgrant
  cases hgrant

theorem Db.Uniform.insertItem (huniform : db.Uniform) {user : User}
    (hok : db.insertItem defaults user = .ok (db', n)) : db'.Uniform where
  readable row hrow := by
    rw [users_of_insertItem hok, List.mem_append, List.mem_singleton] at hrow
    rcases hrow with hrow | rfl
    · exact huniform.readable row hrow
    · rw [userRow_role, userRow_userState, (insertItem_eq_ok hok).2]
      exact ⟨rfl, user.userState, rfl⟩
  buckets := (tables_of_insertItem hok (by decide)).trans huniform.buckets
  usersBuckets := (tables_of_insertItem hok (by decide)).trans huniform.usersBuckets

theorem Db.Uniform.updateItems (huniform : db.Uniform) {map : HashMap} {passwd : Option Str}
    {order : HashOrder} (hchanges : Changes map passwd)
    (hok : db.updateItems defaults (((UpdateOwn.new User).from order map).wh "id" (.uuid id))
      order = .ok (db', n)) : db'.Uniform where
  readable row hrow := by
    rw [users_of_updateItems hchanges.id hok] at hrow
    obtain ⟨old, hold, rfl⟩ := List.mem_map.1 hrow
    obtain ⟨hrole, userState, hstate⟩ := huniform.readable old hold
    have htyped := (updateItems_eq_ok hchanges.id hok).1
    split_ifs
    · constructor
      · rcases assign_setValues_cases order map old "role" with ⟨-, hkept⟩ | ⟨new, hmem, hset⟩
        · rw [hkept, hrole]
        · obtain ⟨role, rfl⟩ := hchanges.role _ hmem rfl
          rw [hset, hasType_role_iff.1 (htyped _ hmem).2]
          rfl
      · rcases assign_setValues_cases order map old "user_state" with
          ⟨-, hkept⟩ | ⟨new, hmem, hset⟩
        · exact ⟨userState, hkept.trans hstate⟩
        · obtain ⟨userState', rfl⟩ := hchanges.userState _ hmem rfl
          exact ⟨userState', hset⟩
    · exact ⟨hrole, userState, hstate⟩
  buckets := (tables_of_updateItems hchanges.id hok (by decide)).trans huniform.buckets
  usersBuckets := (tables_of_updateItems hchanges.id hok (by decide)).trans huniform.usersBuckets

theorem Db.Uniform.deleteById (huniform : db.Uniform) (hok : db.deleteById id = .ok (db', n)) :
    db'.Uniform := by
  have hgone := goneFrom_of_deleteById hok (huniform.ungranted id)
  constructor
  · intro row hrow
    rw [hgone.users] at hrow
    exact huniform.readable row (List.mem_filter.1 hrow).1
  · exact (hgone.others "buckets" (by decide) (by decide)).trans huniform.buckets
  · rw [hgone.usersBuckets, huniform.usersBuckets]
    rfl

theorem Writes.uniform {blanked : Option Uuid} (hwrites : Writes chance db db' blanked)
    (huniform : db.Uniform) : db'.Uniform := by
  cases hwrites with
  | nothing hdb => rwa [hdb]
  | newUser user n hok => exact huniform.insertItem hok
  | update map username passwd id n hchanges hname hok =>
      exact huniform.updateItems hchanges hok
  | delete id n hok => exact huniform.deleteById hok

theorem uniform_of_step (db : Db) (act : ServiceAct) (db' : Db) (huniform : db.Uniform)
    (hstep : ServiceStep parseUuid db act db') : db'.Uniform := by
  cases act with
  | start defaults hash =>
      obtain ⟨admin, -, rfl⟩ := hstep
      rw [Db.withDefaultUser]
      split
      · next db' n hok => exact huniform.insertItem hok
      · exact huniform
  | request asked =>
      obtain ⟨chance, request⟩ := asked
      obtain rfl : db' = (api parseUuid chance db request).after db := hstep
      cases hresult : api parseUuid chance db request with
      | error failure => exact huniform
      | ok answer =>
          obtain ⟨response, db'⟩ := answer
          obtain ⟨own, path, route, -, -, -, hrun⟩ := run_of_api hresult
          exact (writes_of_run hrun).uniform huniform

theorem uniform_initdb : initdb.Uniform where
  readable row hrow := by cases hrow
  buckets := rfl
  usersBuckets := rfl

theorem uniform_of_run {acts : List ServiceAct}
    (hrun : Run (ServiceStep parseUuid) initdb acts db) : db.Uniform :=
  run_keeps uniform_of_step uniform_initdb hrun

end Uniform

structure SuperUsersOnly (parseUuid : Str → Option Uuid) (db : Db) : Prop where
  roles : ∀ row ∈ db.users, row "role" = .label Role.superUser.label
  /-- Whoever can be read at all may do everything. -/
  admitted : ∀ chance request id path user, request.claim = some id →
    request.path = prefixPath ++ path →
    db.get (userWith "id" (.uuid id)) chance.order = .ok user →
    api parseUuid chance db request =
      chosen chance db request.body id (apiRoute parseUuid request.method path)
  buckets : ∀ chance, Buckets.getAll chance db = .ok (.buckets [], db)
  /-- What the other services are told about permissions is right. -/
  allowed : ∀ order name id permission,
    Auth.allowed order db id name permission = true ↔ Grants db name id permission
  deletable : ∀ id, (∃ row ∈ db.users, row "id" = .uuid id) →
    ∃ db', db.deleteById id = .ok (db', 1) ∧ GoneFrom db db' id

section Consequences

variable {parseUuid : Str → Option Uuid} {db : Db}

theorem found_all {τ : Type} [QuerySelect τ] {name : String} {d : TableDef}
    (hquery : QuerySelect.query τ = .all name) (htable : schema.table name = .ok d)
    (order : HashOrder) : db.found (.builder : QueryOwn τ) order = .ok (db.tables name) := by
  have hwheres : order.arrange ([] : HashMap) = [] := by rw [order.arrange_eq_nil_iff]
  have hgroups : order.arrange ([] : List String) = [] := by rw [order.arrange_eq_nil_iff]
  simp only [Db.found, QueryOwn.builder, QueryOwn.build, Option.getD_none, hwheres, hgroups,
    Database.fetch, hquery, htable, ok_bind, List.mapIdx_nil, List.map_nil]
  simp [Schema.conditions, pure, Except.pure]

theorem Db.Uniform.superUsersOnly (huniform : db.Uniform) : SuperUsersOnly parseUuid db where
  roles row hrow := (huniform.readable row hrow).1
  admitted chance request id path user hclaim hpath hget := by
    refine api_eq hpath hclaim hget ?_
    obtain ⟨row, hrow, -, hread⟩ := get_userWith_id hget
    have hlabel : Role.label user.role = Role.label .superUser :=
      Value.label.inj ((User.role_of_fromRow hread).symm.trans (huniform.readable row hrow).1)
    have hrole : user.role = .superUser := by
      revert hlabel
      cases user.role <;> decide
    simp [User.isAdmin, hrole]
  buckets chance := by
    have hfound : db.found (.builder : QueryOwn Buckets) chance.order = .ok [] := by
      rw [found_all rfl rfl]
      exact congrArg _ huniform.buckets
    have hgets : db.gets (.builder : QueryOwn Buckets) chance.order = .ok [] := by
      simp only [Db.gets]
      rw [show db.fetch _ _ = .ok [] from hfound]
      rfl
    rw [Buckets.getAll, hgets]
    rfl
  allowed order name id permission := by
    rw [allowed_eq_false, Grants, huniform.usersBuckets]
    simp
  deletable id hexists := by
    obtain ⟨row, hrow, hid⟩ := hexists
    have hfree := huniform.ungranted id
    obtain ⟨db', hok⟩ := deleteById_ok hfree
    rw [filter_isRow_length hrow (isRow_iff.2 hid)] at hok
    exact ⟨db', hok, goneFrom_of_deleteById hok hfree⟩

end Consequences

/-- However long the service lives and whatever it is asked: all users are super users, so
whoever is there may do everything; there never is a bucket; the answers about permissions
are right; and each user can be deleted. -/
theorem only_super_users {parseUuid : Str → Option Uuid} {acts : List ServiceAct} {db : Db}
    (hrun : Run (ServiceStep parseUuid) initdb acts db) : SuperUsersOnly parseUuid db :=
  (uniform_of_run hrun).superUsersOnly

def plainAdmin : User :=
  { id := none
    username := "admin".toList
    passwd := "admin".toList
    email := none
    phone := none
    userState := .active
    role := .superUser
    description := some "Default account".toList }

def afterStart : Db := initdb.withDefaultUser (fun _ => .null) plainAdmin

theorem run_afterStart (parseUuid : Str → Option Uuid) :
    Run (ServiceStep parseUuid) initdb [.start (fun _ => .null) some] afterStart :=
  .cons ⟨plainAdmin, rfl, rfl⟩ (.nil _)

theorem users_afterStart : afterStart.users = [userRow (fun _ => .null) plainAdmin] :=
  users_withDefaultUser (rfl : defaultAccountAdmin some = some plainAdmin)

/-- After the first start of the service the default administrator can be deleted. -/
theorem default_user_deletable :
    ∃ db', afterStart.deleteById Uuid.nil = .ok (db', 1) ∧
      GoneFrom afterStart db' Uuid.nil := by
  refine (only_super_users (run_afterStart parseNil)).deletable Uuid.nil
    ⟨userRow (fun _ => .null) plainAdmin, ?_, rfl⟩
  rw [users_afterStart]
  exact List.mem_singleton_self _

/-! ## Users that cannot be read -/

def Db.Named (db : Db) : Prop :=
  ∀ row ∈ db.users, row "username" ≠ .null ∧ row "passwd" ≠ .null

/-- An answered request empties the name or the password of a user who is there. -/
def Blanks (parseUuid : Str → Option Uuid) (db : Db) : ServiceAct → Prop
  | .start _ _ => False
  | .request (chance, request) =>
      ∃ own path route id, request.claim = some own ∧ request.path = prefixPath ++ path ∧
        apiRoute parseUuid request.method path = .ok route ∧
        route.blanks request.body own = some id ∧ (∃ row ∈ db.users, isRow id row) ∧
        ∃ answer, api parseUuid chance db request = .ok answer

section Named

variable {parseUuid : Str → Option Uuid} {chance : Chance} {db db' : Db} {id : Uuid} {n : Nat}
  {defaults : Row} {map : HashMap} {order : HashOrder}

theorem HasText.assign {column : String} {given : Option Str} (htext : HasText map column given)
    {row : Row} (hrow : row column ≠ .null) :
    Schema.assign (setValues order map) row column ≠ .null ↔ given ≠ some [] := by
  rcases assign_setValues_cases order map row column with ⟨hnone, hkept⟩ | ⟨value, hmem, hset⟩
  · rw [hkept]
    refine iff_of_true hrow fun hgiven => ?_
    exact hnone _ ((htext _).2 ⟨[], hgiven, rfl⟩) rfl
  · obtain ⟨text, rfl, rfl⟩ := (htext value).1 hmem
    rw [hset]
    by_cases hempty : text = [] <;> simp [hempty, Types.bind]

theorem named_of_updateItems {username passwd : Option Str} (hnamed : db.Named)
    (hchanges : Changes map passwd) (hname : HasText map "username" username)
    (hok : db.updateItems defaults (((UpdateOwn.new User).from order map).wh "id" (.uuid id))
      order = .ok (db', n)) :
    db'.Named ↔ ¬((username = some [] ∨ passwd = some []) ∧ ∃ row ∈ db.users, isRow id row) := by
  have hpasswd : HasText map "passwd" passwd := hchanges.passwd
  have hrow (row : Row) (hrow : row ∈ db.users) :
      Schema.assign (setValues order map) row "username" ≠ .null ∧
          Schema.assign (setValues order map) row "passwd" ≠ .null ↔
        ¬(username = some [] ∨ passwd = some []) := by
    rw [hname.assign (hnamed row hrow).1,
      HasText.assign hpasswd (hnamed row hrow).2, not_or]
  rw [Db.Named, users_of_updateItems hchanges.id hok]
  simp only [List.forall_mem_map]
  constructor
  · rintro hnamed' ⟨hblank, row, hmem, hid⟩
    have hassigned := hnamed' row hmem
    rw [if_pos hid] at hassigned
    exact (hrow row hmem).1 hassigned hblank
  · intro hkept row hmem
    split_ifs with hid
    · exact (hrow row hmem).2 fun hblank => hkept ⟨hblank, row, hmem, hid⟩
    · exact hnamed row hmem

theorem named_of_insertItem {user : User} (hnamed : db.Named)
    (hok : db.insertItem defaults user = .ok (db', n)) : db'.Named := by
  intro row hrow
  rw [users_of_insertItem hok, List.mem_append, List.mem_singleton] at hrow
  rcases hrow with hrow | rfl
  · exact hnamed row hrow
  · exact ⟨nofun, nofun⟩

theorem Writes.named_iff {blanked : Option Uuid} (hwrites : Writes chance db db' blanked)
    (hnamed : db.Named) :
    db'.Named ↔ ¬∃ id, blanked = some id ∧ ∃ row ∈ db.users, isRow id row := by
  cases hwrites with
  | nothing hdb => simpa [hdb] using hnamed
  | newUser user n hok => simpa using named_of_insertItem hnamed hok
  | delete id n hok =>
      have hnamed' : db'.Named := by
        intro row hrow
        rw [Db.users, (deleteById_eq_ok_iff.1 hok).1, users_deleted] at hrow
        exact hnamed row (List.mem_filter.1 hrow).1
      simpa using hnamed'
  | update map username passwd id n hchanges hname hok =>
      rw [named_of_updateItems hnamed hchanges hname hok]
      split_ifs with hblank
      · simp [hblank]
      · simp [hblank]

theorem named_of_step_iff {act : ServiceAct} (hnamed : db.Named)
    (hstep : ServiceStep parseUuid db act db') : db'.Named ↔ ¬Blanks parseUuid db act := by
  cases act with
  | start defaults hash =>
      obtain ⟨admin, -, rfl⟩ := hstep
      refine iff_of_true ?_ (fun hblanks => hblanks)
      rw [Db.withDefaultUser]
      split
      · next db' n hok => exact named_of_insertItem hnamed hok
      · exact hnamed
  | request asked =>
      obtain ⟨chance, request⟩ := asked
      obtain rfl : db' = (api parseUuid chance db request).after db := hstep
      cases hresult : api parseUuid chance db request with
      | error failure =>
          refine iff_of_true hnamed ?_
          rintro ⟨own, path, route, id, -, -, -, -, -, answer, hok⟩
          rw [hresult] at hok
          cases hok
      | ok answer =>
          obtain ⟨response, db'⟩ := answer
          obtain ⟨own, path, route, hclaim, hpath, hroute, hrun⟩ := run_of_api hresult
          refine ((writes_of_run hrun).named_iff hnamed).trans (not_congr ?_)
          constructor
          · rintro ⟨id, hblanks, hthere⟩
            exact ⟨own, path, route, id, hclaim, hpath, hroute, hblanks, hthere, _, hresult⟩
          · rintro ⟨own', path', route', id, hclaim', hpath', hroute', hblanks, hthere, -⟩
            obtain rfl : own = own' := Option.some.inj (hclaim.symm.trans hclaim')
            obtain rfl : path = path' := List.append_cancel_left (hpath.symm.trans hpath')
            obtain rfl : route = route' := Except.ok.inj (hroute.symm.trans hroute')
            exact ⟨id, hblanks, hthere⟩

theorem exists_fromRow_iff {row : Row} (hread : Readable db) (hrow : row ∈ db.users) :
    (∃ user, User.fromRow row = .ok user) ↔ row "username" ≠ .null ∧ row "passwd" ≠ .null := by
  have htypes := (keeps_users db).types row hrow
  have htext {column : String} {text : Str} (hget : getString row column = .ok text) :
      row column ≠ .null := by
    intro hnull
    rw [getString, hnull] at hget
    cases hget
  constructor
  · rintro ⟨user, hfrom⟩
    obtain ⟨id, -, hfrom⟩ := bind_eq_ok hfrom
    obtain ⟨username, husername, hfrom⟩ := bind_eq_ok hfrom
    obtain ⟨passwd, hpasswd, -⟩ := bind_eq_ok hfrom
    exact ⟨htext husername, htext hpasswd⟩
  · rintro ⟨hname, hpasswd⟩
    obtain ⟨name, hname⟩ := (eq_null_or_text
      (htypes ("username", .text) (by simp [usersTable]))).resolve_left hname
    obtain ⟨hashed, hpasswd⟩ := (eq_null_or_text
      (htypes ("passwd", .text) (by simp [usersTable]))).resolve_left hpasswd
    have hid : ∃ id, row "id" = .uuid id := by
      have hkey := (keeps_users db).notNull row hrow "id" (by simp [usersTable])
      have htype := htypes ("id", .uuid) (by simp [usersTable])
      revert hkey htype
      cases row "id" <;> simp [Value.hasType]
    obtain ⟨id, hid⟩ := hid
    obtain ⟨user, hfrom, -⟩ := fromRow_ok hread hrow hid hname hpasswd
    exact ⟨user, hfrom⟩

theorem listed_iff (hread : Readable db) :
    ¬Panicked (User.getAll chance db) ↔ db.Named := by
  have hpanics : Panicked (User.getAll chance db) ↔
      ¬db.AllRead (.builder : QueryOwn User) chance.order :=
    panicked_reading.trans panicked_gets
  rw [hpanics, not_not, Db.AllRead, found_all rfl rfl]
  simp only [Except.ok.injEq, forall_eq']
  exact forall₂_congr fun row hrow => exists_fromRow_iff hread hrow

end Named

theorem serviceStep_unique {parseUuid : Str → Option Uuid} (db : Db) (act : ServiceAct)
    (t u : Db) (ht : ServiceStep parseUuid db act t) (hu : ServiceStep parseUuid db act u) :
    t = u := by
  cases act with
  | start defaults hash =>
      obtain ⟨admin, hadmin, rfl⟩ := ht
      obtain ⟨admin', hadmin', rfl⟩ := hu
      rw [Option.some.inj (hadmin.symm.trans hadmin')]
  | request asked => exact Eq.trans ht (Eq.symm hu)

/-- The list of all users can be asked for in every state that a run comes to exactly if no
answered request ever empties the name or the password of a user who is there. -/
theorem users_listed_iff {parseUuid : Str → Option Uuid} {acts : List ServiceAct} {db : Db}
    (hrun : Run (ServiceStep parseUuid) initdb acts db) :
    EachState (ServiceStep parseUuid) (fun db => ∀ chance, ¬Panicked (User.getAll chance db))
        initdb acts ↔
      EachStep (ServiceStep parseUuid) (fun db act => ¬Blanks parseUuid db act) initdb acts := by
  have hlisted : EachState (ServiceStep parseUuid)
      (fun db => ∀ chance, ¬Panicked (User.getAll chance db)) initdb acts ↔
        EachState (ServiceStep parseUuid) Db.Named initdb acts := by
    constructor
    · intro h done t hdone htaken
      exact (listed_iff (uniform_of_run htaken).readable).1 (h done t hdone htaken stillChance)
    · intro h done t hdone htaken chance
      exact (listed_iff (uniform_of_run htaken).readable).2 (h done t hdone htaken)
  rw [hlisted, eachState_iff_of_run serviceStep_unique
    (fun s act t hnamed hstep => named_of_step_iff hnamed hstep) hrun]
  refine and_iff_right ?_
  intro row hrow
  cases hrow

def blankSelf : ServiceAct :=
  .request (stillChance, { nilRequest .patch "/user".toList with
    body := { Body.empty with
      updateSelf := some { passwd := some [], email := none, phone := none } } })

theorem list_lost :
    ¬EachState (ServiceStep parseNil) (fun db => ∀ chance, ¬Panicked (User.getAll chance db))
      initdb [.start (fun _ => .null) some, blankSelf] := by
  intro hlisted
  have hrun : Run (ServiceStep parseNil) initdb [.start (fun _ => .null) some, blankSelf] _ :=
    (run_afterStart parseNil).concat (show ServiceStep parseNil afterStart blankSelf _ from rfl)
  refine (users_listed_iff hrun).1 hlisted [.start (fun _ => .null) some] blankSelf []
    afterStart rfl (run_afterStart parseNil) ?_
  refine ⟨Uuid.nil, "/user".toList, .ownUpdate, Uuid.nil, rfl, rfl, rfl, rfl, ?_, _, rfl⟩
  rw [users_afterStart]
  exact ⟨_, List.mem_singleton_self _, rfl⟩

end WsHyper.Auth
