import WsHyper.Auth.Effects
import WsHyper.Lib.Run

/-!
# Passwords

Beside the database goes a ledger of the password that was last supplied for each
user.  A new user's password is hashed, but an update stores the text that it is
given.  So what is stored stays a hash of the password in the ledger exactly as
long as no update changes a password.
-/

namespace WsHyper.Auth

open WsHyper.Lib Sql

/-- `bcrypt`, whose `verify` accepts exactly the hashes of a password. -/
structure Bcrypt where
  Salt : Type
  hash : Salt → Str → Option Str
  verify : Str → Str → Bool
  verify_iff : ∀ password hashed, verify password hashed ↔
    ∃ salt, hash salt password = some hashed

def Bcrypt.Hashes (bcrypt : Bcrypt) (password hashed : Str) : Prop :=
  ∃ salt, bcrypt.hash salt password = some hashed

inductive UserCall
  | new (body : Body)
  | updateSelf (id : Uuid) (body : Body)
  | updateUser (id : Uuid) (body : Body)

structure UserLabel (bcrypt : Bcrypt) where
  salt : bcrypt.Salt
  order : HashOrder
  defaults : Row
  call : UserCall

/-- The passwords that were last supplied. -/
abbrev Ledger := Uuid → Option Str

def UserCall.resets : UserCall → Option (Uuid × Str)
  | .new _ => none
  | .updateSelf id body =>
      ((body.updateSelf.bind UpdateSelf.passwd).filter (· ≠ [])).map fun text => (id, text)
  | .updateUser id body =>
      ((body.updateUser.bind UpdateUser.passwd).filter (· ≠ [])).map fun text => (id, text)

/-- The password that a call brings; an empty one in an update takes it away. -/
def UserCall.supplies : UserCall → Option (Uuid × Str)
  | .new body => body.user.map fun user => (user.id.getD Uuid.nil, user.passwd)
  | call => call.resets

def Ledger.supply (ledger : Ledger) : Option (Uuid × Str) → Ledger
  | none => ledger
  | some (id, password) => Function.update ledger id (some password)

section Steps

variable {bcrypt : Bcrypt}

def UserLabel.chance (label : UserLabel bcrypt) : Chance :=
  { order := label.order, defaults := label.defaults, hash := bcrypt.hash label.salt }

def UserLabel.handled (label : UserLabel bcrypt) (db : Db) : Handled :=
  match label.call with
  | .new body => User.new label.chance db body
  | .updateSelf id body => User.update label.chance db UpdateSelf.toMap body.updateSelf id
  | .updateUser id body => User.update label.chance db UpdateUser.toMap body.updateUser id

def UserStep (bcrypt : Bcrypt) (state : Db × Ledger) (label : UserLabel bcrypt)
    (state' : Db × Ledger) : Prop :=
  ∃ response db', label.handled state.1 = .ok (response, db') ∧
    state' = (db', state.2.supply label.call.supplies)

/-- What is stored is a hash of the password that was last supplied. -/
def HashesKept (bcrypt : Bcrypt) (state : Db × Ledger) : Prop :=
  ∀ row ∈ state.1.users, ∀ hashed, row "passwd" = .text hashed → ∃ id password,
    row "id" = .uuid id ∧ state.2 id = some password ∧ bcrypt.Hashes password hashed

/-- The user gets in with that password. -/
def LoginsKept (bcrypt : Bcrypt) (state : Db × Ledger) : Prop :=
  ∀ row ∈ state.1.users, ∀ id name password, row "id" = .uuid id → row "passwd" ≠ .null →
    row "username" = .text name → state.2 id = some password → ∀ genToken order,
      login state.1 bcrypt.verify genToken order
        { Body.empty with login := some { username := name, password } } = issueToken genToken id

def PasswordsKept (bcrypt : Bcrypt) (state : Db × Ledger) : Prop :=
  HashesKept bcrypt state ∧ LoginsKept bcrypt state

/-- The call does not give an existing user a new password, short of a text that is
its own hash. -/
def KeepsPasswords (bcrypt : Bcrypt) (state : Db × Ledger) (label : UserLabel bcrypt) : Prop :=
  ∀ id text, label.call.resets = some (id, text) → (∃ row ∈ state.1.users, isRow id row) →
    bcrypt.Hashes text text

end Steps

/-! ## What an update sets -/

structure Changes (map : HashMap) (passwd : Option Str) : Prop where
  id : ∀ entry ∈ map, entry.1 ≠ "id"
  role : ∀ entry ∈ map, entry.1 = "role" → ∃ role, entry.2 = .role role
  userState : ∀ entry ∈ map, entry.1 = "user_state" → ∃ state, entry.2 = .userState state
  passwd : ∀ value, ("passwd", value) ∈ map ↔
    ∃ text, passwd = some text ∧ value = .optString (if text ≠ [] then some text else none)

theorem UpdateSelf.changes (value : UpdateSelf) : Changes value.toMap value.passwd where
  id entry hentry := UpdateSelf.key_ne (by decide) hentry
  role entry hentry heq := absurd heq (UpdateSelf.key_ne (by decide) hentry)
  userState entry hentry heq := absurd heq (UpdateSelf.key_ne (by decide) hentry)
  passwd new := by
    rw [UpdateSelf.toMap, mem_filterMap_textEntry]
    simp [eq_comm]

theorem UpdateUser.changes (value : UpdateUser) : Changes value.toMap value.passwd where
  id entry hentry := UpdateUser.key_ne_id hentry
  role := by
    rintro ⟨column, new⟩ hentry rfl
    rcases UpdateUser.mem_toMap.1 hentry with htext | ⟨-, role, -, rfl⟩ | ⟨hstate, -⟩
    · have hkey := key_of_textEntry htext
      simp at hkey
    · exact ⟨role, rfl⟩
    · exact absurd hstate (by decide)
  userState := by
    rintro ⟨column, new⟩ hentry rfl
    rcases UpdateUser.mem_toMap.1 hentry with htext | ⟨hrole, -⟩ | ⟨-, state, -, rfl⟩
    · have hkey := key_of_textEntry htext
      simp at hkey
    · exact absurd hrole (by decide)
    · exact ⟨state, rfl⟩
  passwd new := by
    rw [UpdateUser.mem_toMap, mem_filterMap_textEntry]
    simp [eq_comm]

section Assign

variable {order : HashOrder} {map : HashMap} {passwd : Option Str} {row : Row} {column : String}

/-- A column keeps its value, or has the one of an entry of the map. -/
theorem assign_setValues_cases (order : HashOrder) (map : HashMap) (row : Row)
    (column : String) :
    (∀ entry ∈ map, entry.1 ≠ column) ∧
        Schema.assign (setValues order map) row column = row column ∨
      ∃ value, (column, value) ∈ map ∧
        Schema.assign (setValues order map) row column = value.bind.value := by
  by_cases hcolumn : column ∈ (setValues order map).map Prod.fst
  · obtain ⟨value, hlookup⟩ : ∃ value, (setValues order map).lookup column = some value := by
      rw [← Option.isSome_iff_exists, List.lookup_isSome_iff]
      obtain ⟨entry, hentry, rfl⟩ := List.mem_map.1 hcolumn
      exact ⟨entry, hentry, by simp⟩
    obtain ⟨before, after, hsplit, -⟩ := List.lookup_eq_some_iff.1 hlookup
    have hmem : (column, value) ∈ setValues order map := by
      rw [hsplit]
      simp
    obtain ⟨entry, hentry, heq⟩ := List.mem_map.1 hmem
    obtain ⟨rfl, rfl⟩ := Prod.mk.inj heq
    refine .inr ⟨entry.2, order.mem_arrange.1 hentry, ?_⟩
    rw [Schema.assign, hlookup, Option.getD_some]
  · refine .inl ⟨fun entry hentry heq => hcolumn ?_, assign_of_notMem hcolumn⟩
    rw [setValues, List.map_map]
    exact List.mem_map.2 ⟨entry, order.mem_arrange.2 hentry, heq⟩

theorem Changes.assign_id (hchanges : Changes map passwd) :
    Schema.assign (setValues order map) row "id" = row "id" := by
  rcases assign_setValues_cases order map row "id" with ⟨-, hkept⟩ | ⟨value, hmem, -⟩
  · exact hkept
  · exact absurd rfl (hchanges.id _ hmem)

/-- An update leaves the password, takes it away, or stores the given text. -/
theorem Changes.assign_passwd (hchanges : Changes map passwd) :
    Schema.assign (setValues order map) row "passwd" =
      passwd.elim (row "passwd") fun text => if text ≠ [] then .text text else .null := by
  rcases assign_setValues_cases order map row "passwd" with ⟨hnone, hkept⟩ | ⟨value, hmem, hset⟩
  · cases passwd with
    | none => exact hkept
    | some text => exact absurd rfl (hnone _ ((hchanges.passwd _).2 ⟨text, rfl, rfl⟩))
  · obtain ⟨text, rfl, rfl⟩ := (hchanges.passwd value).1 hmem
    rw [hset]
    by_cases htext : text = [] <;> simp [htext, Types.bind]

end Assign

/-! ## What a call does -/

section Calls

variable {bcrypt : Bcrypt} {state state' : Db × Ledger} {label : UserLabel bcrypt}

/-- What an update leaves: new values in the row of the user, and in the ledger the
password that it brings. -/
structure Updated (state state' : Db × Ledger) (order : HashOrder) (map : HashMap)
    (passwd : Option Str) (id : Uuid) : Prop where
  changes : Changes map passwd
  typed : ∀ entry ∈ map, entry.2.bind.value.hasType enums entry.2.bind.type
  users : state'.1.users = state.1.users.map fun row =>
    if isRow id row then Schema.assign (setValues order map) row else row
  ledger : state'.2 = state.2.supply ((passwd.filter (· ≠ [])).map fun text => (id, text))

theorem Changes.updated {map : HashMap} {passwd : Option Str} {id : Uuid} {n : Nat}
    {order : HashOrder} {defaults : Row} (hchanges : Changes map passwd)
    (hupdate : state.1.updateItems defaults
      (((UpdateOwn.new User).from order map).wh "id" (.uuid id)) order = .ok (state'.1, n))
    (hledger : state'.2 = state.2.supply ((passwd.filter (· ≠ [])).map fun text => (id, text))) :
    Updated state state' order map passwd id where
  changes := hchanges
  typed entry hentry := ((updateItems_eq_ok hchanges.id hupdate).1 entry hentry).2
  users := users_of_updateItems hchanges.id hupdate
  ledger := hledger

/-- One more user, whose password is hashed, or new values for the row of a user. -/
theorem userStep_cases (hstep : UserStep bcrypt state label state') :
    (∃ (user : User) (passwd : Str) (n : Nat), label.call.resets = none ∧
        bcrypt.Hashes user.passwd passwd ∧
        state.1.insertItem label.defaults { user with passwd } = .ok (state'.1, n) ∧
        state'.2 = Function.update state.2 (user.id.getD Uuid.nil) (some user.passwd)) ∨
      ∃ map passwd id, Updated state state' label.order map passwd id ∧
        label.call.resets = (passwd.filter (· ≠ [])).map fun text => (id, text) := by
  obtain ⟨salt, order, defaults, call⟩ := label
  obtain ⟨response, db', hok, rfl⟩ := hstep
  cases call with
  | new body =>
      obtain ⟨user, passwd, n, huser, hpasswd, hinsert⟩ := User.new_eq_ok hok
      refine .inl ⟨user, passwd, n, rfl, ⟨salt, hpasswd⟩, hinsert, ?_⟩
      simp [UserCall.supplies, huser, Ledger.supply]
  | updateSelf id body =>
      obtain ⟨value, n, hvalue, hupdate⟩ := User.update_eq_ok hok
      refine .inr ⟨_, _, id, (UpdateSelf.changes value).updated hupdate ?_, ?_⟩
      · simp [UserCall.supplies, UserCall.resets, hvalue]
      · simp [UserCall.resets, hvalue]
  | updateUser id body =>
      obtain ⟨value, n, hvalue, hupdate⟩ := User.update_eq_ok hok
      refine .inr ⟨_, _, id, (UpdateUser.changes value).updated hupdate ?_, ?_⟩
      · simp [UserCall.supplies, UserCall.resets, hvalue]
      · simp [UserCall.resets, hvalue]

def Readable (db : Db) : Prop :=
  ∀ row ∈ db.users, row "role" = .label Role.superUser.label ∧
    ∃ userState : UserState, row "user_state" = .label userState.label

theorem Readable.step (hread : Readable state.1) (hstep : UserStep bcrypt state label state') :
    Readable state'.1 := by
  intro row hrow
  rcases userStep_cases hstep with
    ⟨user, passwd, n, -, -, hinsert, -⟩ | ⟨map, passwd, id, hupdated, -⟩
  · rw [users_of_insertItem hinsert, List.mem_append, List.mem_singleton] at hrow
    rcases hrow with hrow | rfl
    · exact hread row hrow
    · rw [userRow_role, userRow_userState, (insertItem_eq_ok hinsert).2]
      exact ⟨rfl, user.userState, rfl⟩
  · rw [hupdated.users] at hrow
    obtain ⟨old, hold, rfl⟩ := List.mem_map.1 hrow
    obtain ⟨hrole, userState, hstate⟩ := hread old hold
    split
    · constructor
      · rcases assign_setValues_cases label.order map old "role" with ⟨-, hkept⟩ | ⟨new, hmem, hset⟩
        · rw [hkept, hrole]
        · obtain ⟨role, rfl⟩ := hupdated.changes.role _ hmem rfl
          rw [hset, hasType_role_iff.1 (hupdated.typed _ hmem)]
          rfl
      · rcases assign_setValues_cases label.order map old "user_state" with
          ⟨-, hkept⟩ | ⟨new, hmem, hset⟩
        · exact ⟨userState, hkept.trans hstate⟩
        · obtain ⟨userState', rfl⟩ := hupdated.changes.userState _ hmem rfl
          exact ⟨userState', hset⟩
    · exact ⟨hrole, userState, hstate⟩

end Calls

/-! ## Logins -/

section Logins

variable {bcrypt : Bcrypt} {db : Db} {row : Row}

theorem eq_null_or_text {value : Value} (htype : value.hasType enums .text) :
    value = .null ∨ ∃ text, value = .text text := by
  cases value with
  | null => exact .inl rfl
  | text text => exact .inr ⟨text, rfl⟩
  | uuid u => cases htype
  | label l => cases htype
  | labels ls => cases htype

theorem getOptString_ok {column : String} (htype : (row column).hasType enums .text) :
    ∃ text, getOptString row column = .ok text := by
  unfold getOptString
  rcases eq_null_or_text htype with hnull | ⟨text, htext⟩
  · exact ⟨none, by rw [hnull]⟩
  · exact ⟨some text, by rw [htext]⟩

theorem getLabel_state {userState : UserState}
    (hstate : row "user_state" = .label userState.label) :
    getLabel row "user_state" UserState.variants UserState.label = .ok userState := by
  rw [getLabel, hstate]
  cases userState <;> rfl

theorem fromRow_ok {id : Uuid} {name hashed : Str} (hread : Readable db) (hrow : row ∈ db.users)
    (hid : row "id" = .uuid id) (hname : row "username" = .text name)
    (hpasswd : row "passwd" = .text hashed) :
    ∃ user, User.fromRow row = .ok user ∧ user.id = some id ∧ user.passwd = hashed := by
  have htypes := (keeps_users db).types row hrow
  obtain ⟨description, hdescription⟩ :=
    getOptString_ok (htypes ("description", .text) (by simp [usersTable]))
  obtain ⟨email, hemail⟩ := getOptString_ok (htypes ("email", .text) (by simp [usersTable]))
  obtain ⟨phone, hphone⟩ := getOptString_ok (htypes ("phone", .text) (by simp [usersTable]))
  obtain ⟨hrole, userState, hstate⟩ := hread row hrow
  have hid' : getOptUuid row "id" = .ok (some id) := by rw [getOptUuid, hid]
  have hname' : getString row "username" = .ok name := by rw [getString, hname]
  have hpasswd' : getString row "passwd" = .ok hashed := by rw [getString, hpasswd]
  have hrole' : getLabel row "role" Role.variants Role.label = .ok .superUser := by
    rw [getLabel, hrole]
    rfl
  simp only [User.fromRow, hid', hname', hpasswd', hdescription, hemail, hphone,
    getLabel_state hstate, hrole', ok_bind]
  exact ⟨_, rfl, rfl, rfl⟩

theorem eq_of_username {other : Row} {name : Str} (hrow : row ∈ db.users)
    (hother : other ∈ db.users) (hname : row "username" = .text name)
    (hname' : other "username" = .text name) : row = other := by
  have hunique := (keeps_users db).unique "username" (by simp [usersTable])
  rw [TableDef.UniqueIn, List.filter_map] at hunique
  refine List.inj_on_of_nodup_map hunique (List.mem_filter.2 ⟨hrow, ?_⟩)
    (List.mem_filter.2 ⟨hother, ?_⟩) (hname.trans hname'.symm)
  · simp [hname]
  · simp [hname']

theorem get_username {name : Str} {order : HashOrder} (hrow : row ∈ db.users)
    (hname : row "username" = .text name) :
    db.get (userWith "username" (.string name)) order =
      (User.fromRow row).mapError .panics := by
  rw [get_userWith rfl rfl rfl]
  split
  · rename_i hnone
    have hmem := List.filter_eq_nil_iff.1 hnone row hrow
    simp [Types.bind, hname] at hmem
  · rename_i first rest hfirst
    have hmem := List.mem_filter.1 (by rw [hfirst]; exact List.mem_cons_self)
    have hfirst' : first "username" = .text name := by simpa [Types.bind] using hmem.2
    rw [eq_of_username hrow hmem.1 hname hfirst']

theorem HashesKept.logins {ledger : Ledger} (hread : Readable db)
    (hkept : HashesKept bcrypt (db, ledger)) : LoginsKept bcrypt (db, ledger) := by
  intro row hrow id name password hid hpasswd hname hledger genToken order
  have htype := (keeps_users db).types row hrow ("passwd", .text) (by simp [usersTable])
  obtain ⟨hashed, hhashed⟩ := (eq_null_or_text htype).resolve_left hpasswd
  obtain ⟨id', password', hid', hledger', hhashes⟩ := hkept row hrow hashed hhashed
  obtain rfl : id' = id := Value.uuid.inj (hid'.symm.trans hid)
  obtain rfl : password' = password := Option.some.inj (hledger'.symm.trans hledger)
  obtain ⟨user, huser, hid, rfl⟩ := fromRow_ok hread hrow hid hname hhashed
  have hget : db.get (userWith "username" (.string name)) order = .ok user := by
    rw [get_username hrow hname, huser]
    rfl
  have hverify : bcrypt.verify password' user.passwd = true := (bcrypt.verify_iff _ _).2 hhashes
  simp only [login, parsed, ok_bind, hget, hverify, if_true, hid]

end Logins

/-! ## Runs -/

section Runs

variable {bcrypt : Bcrypt} {state state' : Db × Ledger} {label : UserLabel bcrypt}

theorem HashesKept.insert {user : User} {passwd : Str} {defaults : Row} {n : Nat}
    (hkept : HashesKept bcrypt state) (hhashes : bcrypt.Hashes user.passwd passwd)
    (hinsert : state.1.insertItem defaults { user with passwd } = .ok (state'.1, n))
    (hledger : state'.2 = Function.update state.2 (user.id.getD Uuid.nil) (some user.passwd)) :
    HashesKept bcrypt state' := by
  intro row hrow hashed hhashed
  rw [users_of_insertItem hinsert, List.mem_append, List.mem_singleton] at hrow
  rcases hrow with hrow | rfl
  · obtain ⟨id, password, hid, hbefore, hold⟩ := hkept row hrow hashed hhashed
    have hne : id ≠ user.id.getD Uuid.nil := by
      rintro rfl
      exact id_ne_of_insertItem hinsert hrow hid
    exact ⟨id, password, hid, by rw [hledger, Function.update_of_ne hne, hbefore], hold⟩
  · obtain rfl : passwd = hashed := Value.text.inj (userRow_passwd.symm.trans hhashed)
    exact ⟨_, user.passwd, rfl, by rw [hledger, Function.update_self], hhashes⟩

theorem Ledger.supply_passwd {ledger : Ledger} {id : Uuid} {text : Str} (htext : text ≠ []) :
    ledger.supply (((some text).filter (· ≠ [])).map fun text => (id, text)) =
      Function.update ledger id (some text) := by
  rw [Option.filter_some_pos (by simpa using htext)]
  rfl

section Updates

variable {order : HashOrder} {map : HashMap} {passwd : Option Str} {id : Uuid}

theorem Updated.ledger_of_ne (hupdated : Updated state state' order map passwd id) {other : Uuid}
    (hne : other ≠ id) : state'.2 other = state.2 other := by
  rw [hupdated.ledger]
  cases passwd.filter (· ≠ []) with
  | none => rfl
  | some text => exact Function.update_of_ne hne ..

theorem Updated.hashes_of_kept {text : Str}
    (hupdated : Updated state state' order map (some text) id) (htext : text ≠ [])
    (hrow : ∃ row ∈ state.1.users, isRow id row) (hkept : HashesKept bcrypt state') :
    bcrypt.Hashes text text := by
  obtain ⟨row, hrow, hid⟩ := hrow
  have hset : Schema.assign (setValues order map) row "passwd" = .text text := by
    rw [hupdated.changes.assign_passwd]
    simp [htext]
  have hmem : Schema.assign (setValues order map) row ∈ state'.1.users := by
    rw [hupdated.users]
    exact List.mem_map.2 ⟨row, hrow, by rw [if_pos hid]⟩
  obtain ⟨id', password, hid', hpassword, hhashes⟩ := hkept _ hmem text hset
  rw [hupdated.changes.assign_id] at hid'
  have hrowId : row "id" = .uuid id := by simpa [isRow] using hid
  obtain rfl : id' = id := Value.uuid.inj (hid'.symm.trans hrowId)
  have hsupplied : state'.2 id' = some text := by
    rw [hupdated.ledger, Ledger.supply_passwd htext, Function.update_self]
  rwa [Option.some.inj (hpassword.symm.trans hsupplied)] at hhashes

theorem Updated.hashes_assign (hupdated : Updated state state' order map passwd id)
    (hkept : HashesKept bcrypt state) {row : Row} (hrow : row ∈ state.1.users)
    (hid : row "id" = .uuid id) {hashed : Str}
    (hown : ∀ text, passwd = some text → text ≠ [] → bcrypt.Hashes text text)
    (hhashed : Schema.assign (setValues order map) row "passwd" = .text hashed) :
    ∃ password, state'.2 id = some password ∧ bcrypt.Hashes password hashed := by
  rw [hupdated.changes.assign_passwd] at hhashed
  cases passwd with
  | none =>
      obtain ⟨other, password, hother, hpassword, hhashes⟩ := hkept row hrow hashed hhashed
      obtain rfl : other = id := Value.uuid.inj (hother.symm.trans hid)
      refine ⟨password, ?_, hhashes⟩
      rw [hupdated.ledger]
      exact hpassword
  | some text =>
      by_cases htext : text = []
      · simp [htext] at hhashed
      · obtain rfl : text = hashed := by simpa [htext] using hhashed
        refine ⟨text, ?_, hown text rfl htext⟩
        rw [hupdated.ledger, Ledger.supply_passwd htext, Function.update_self]

/-- An update keeps what is stored a hash only if the user has no new password. -/
theorem Updated.hashesKept_iff (hupdated : Updated state state' order map passwd id)
    (hkept : HashesKept bcrypt state) :
    HashesKept bcrypt state' ↔ ∀ text, passwd = some text → text ≠ [] →
      (∃ row ∈ state.1.users, isRow id row) → bcrypt.Hashes text text := by
  constructor
  · rintro hkept' text rfl htext hrow
    exact hupdated.hashes_of_kept htext hrow hkept'
  · intro hown row' hrow' hashed hhashed
    rw [hupdated.users] at hrow'
    obtain ⟨row, hrow, rfl⟩ := List.mem_map.1 hrow'
    by_cases hid : isRow id row
    · have hrowId : row "id" = .uuid id := by simpa [isRow] using hid
      rw [if_pos hid] at hhashed ⊢
      obtain ⟨password, hpassword, hhashes⟩ := hupdated.hashes_assign hkept hrow hrowId
        (fun text htext hne => hown text htext hne ⟨row, hrow, hid⟩) hhashed
      rw [hupdated.changes.assign_id]
      exact ⟨id, password, hrowId, hpassword, hhashes⟩
    · rw [if_neg hid] at hhashed ⊢
      obtain ⟨other, password, hother, hpassword, hhashes⟩ := hkept row hrow hashed hhashed
      have hne : other ≠ id := by
        rintro rfl
        exact hid (by simp [isRow, hother])
      exact ⟨other, password, hother, (hupdated.ledger_of_ne hne).trans hpassword, hhashes⟩

end Updates

theorem HashesKept.step_iff (hkept : HashesKept bcrypt state)
    (hstep : UserStep bcrypt state label state') :
    HashesKept bcrypt state' ↔ KeepsPasswords bcrypt state label := by
  rcases userStep_cases hstep with
    ⟨user, passwd, n, hresets, hhashes, hinsert, hledger⟩ |
      ⟨map, passwd, id, hupdated, hresets⟩
  · constructor
    · intro _ id text hsome
      rw [hresets] at hsome
      cases hsome
    · intro _
      exact hkept.insert hhashes hinsert hledger
  · rw [hupdated.hashesKept_iff hkept, KeepsPasswords, hresets]
    constructor
    · intro hown id' text hsome hrow
      obtain ⟨text', htext', heq⟩ := Option.map_eq_some_iff.1 hsome
      obtain ⟨rfl, rfl⟩ := Prod.mk.inj heq
      obtain ⟨hpasswd, htext⟩ := Option.filter_eq_some_iff.1 htext'
      exact hown text' hpasswd (by simpa using htext) hrow
    · intro hown text hpasswd htext hrow
      exact hown id text (by simp [hpasswd, htext]) hrow

theorem userStep_unique (s : Db × Ledger) (label : UserLabel bcrypt) (t u : Db × Ledger)
    (ht : UserStep bcrypt s label t) (hu : UserStep bcrypt s label u) : t = u := by
  obtain ⟨response, db, hok, rfl⟩ := ht
  obtain ⟨response', db', hok', rfl⟩ := hu
  obtain ⟨-, rfl⟩ := Prod.mk.inj (Except.ok.inj (hok.symm.trans hok'))
  rfl

def initialLedger : Ledger := Function.update (fun _ => none) Uuid.nil (some "admin".toList)

variable {salt : bcrypt.Salt} {admin : User} {defaults : Row}

theorem readable_withDefaultUser {hash : Str → Option Str}
    (hadmin : defaultAccountAdmin hash = some admin) :
    Readable (initdb.withDefaultUser defaults admin) := by
  intro row hrow
  rw [users_withDefaultUser hadmin, List.mem_singleton] at hrow
  subst hrow
  rw [userRow_role, userRow_userState, (defaultAccountAdmin_eq_some hadmin).2.2.1]
  exact ⟨rfl, admin.userState, rfl⟩

theorem hashesKept_withDefaultUser (hadmin : defaultAccountAdmin (bcrypt.hash salt) = some admin) :
    HashesKept bcrypt (initdb.withDefaultUser defaults admin, initialLedger) := by
  intro row hrow hashed hhashed
  obtain ⟨hid, -, -, hhash⟩ := defaultAccountAdmin_eq_some hadmin
  rw [users_withDefaultUser hadmin, List.mem_singleton] at hrow
  subst hrow
  obtain rfl : admin.passwd = hashed := Value.text.inj (userRow_passwd.symm.trans hhashed)
  refine ⟨Uuid.nil, "admin".toList, ?_, ?_, salt, hhash⟩
  · rw [userRow_id, hid, Option.getD_none]
  · exact Function.update_self Uuid.nil (some "admin".toList) fun _ => none

end Runs

/-- From the database that `with_default_user` makes, what is stored stays a hash of
the password last supplied, and the users get in with it, exactly as long as no call
gives a user who is there a new password. -/
theorem passwords_kept_iff (bcrypt : Bcrypt) (salt : bcrypt.Salt) (admin : User) (defaults : Row)
    (labels : List (UserLabel bcrypt)) (state' : Db × Ledger)
    (hadmin : defaultAccountAdmin (bcrypt.hash salt) = some admin)
    (hrun : Run (UserStep bcrypt) (initdb.withDefaultUser defaults admin, initialLedger) labels
      state') :
    EachState (UserStep bcrypt) (PasswordsKept bcrypt)
        (initdb.withDefaultUser defaults admin, initialLedger) labels ↔
      EachStep (UserStep bcrypt) (KeepsPasswords bcrypt)
        (initdb.withDefaultUser defaults admin, initialLedger) labels := by
  have hreadable : ∀ done t, Run (UserStep bcrypt)
      (initdb.withDefaultUser defaults admin, initialLedger) done t → Readable t.1 :=
    fun done t hdone => run_keeps (I := fun s => Readable s.1)
      (fun s label t hread hstep => hread.step hstep) (readable_withDefaultUser hadmin) hdone
  have hhashes : EachState (UserStep bcrypt) (PasswordsKept bcrypt)
      (initdb.withDefaultUser defaults admin, initialLedger) labels ↔
        EachState (UserStep bcrypt) (HashesKept bcrypt)
          (initdb.withDefaultUser defaults admin, initialLedger) labels := by
    constructor
    · exact fun h => h.mono fun t ht => ht.1
    · intro h done t hdone htaken
      have hkept := h done t hdone htaken
      exact ⟨hkept, hkept.logins (hreadable done t htaken)⟩
  rw [hhashes, eachState_iff_of_run userStep_unique
    (fun s label t hkept hstep => hkept.step_iff hstep) hrun]
  exact and_iff_right (hashesKept_withDefaultUser hadmin)

def dollarBcrypt : Bcrypt where
  Salt := Unit
  hash _ password := some ('$' :: password)
  verify password hashed := hashed = '$' :: password
  verify_iff password hashed := by simp [eq_comm]

def dollarAdmin : User :=
  { id := none
    username := "admin".toList
    passwd := '$' :: "admin".toList
    email := none
    phone := none
    userState := .active
    role := .superUser
    description := some "Default account".toList }

def dollarLabel (call : UserCall) : UserLabel dollarBcrypt :=
  { salt := (), order := .inserted, defaults := fun _ => .null, call }

def newCall : UserCall :=
  .new { Body.empty with
    user := some {
      id := some ⟨List.replicate 16 1, rfl⟩
      username := ['a']
      passwd := ['p']
      email := none
      phone := none
      userState := .active
      role := .superUser
      description := none } }

def mailCall : UserCall :=
  .updateSelf Uuid.nil { Body.empty with
    updateSelf := some { passwd := none, email := some "a@b".toList, phone := none } }

theorem passwords_kept_two_calls : ∃ state',
    Run (UserStep dollarBcrypt)
      (initdb.withDefaultUser (fun _ => .null) dollarAdmin, initialLedger)
      [dollarLabel newCall, dollarLabel mailCall] state' ∧
    (EachState (UserStep dollarBcrypt) (PasswordsKept dollarBcrypt)
        (initdb.withDefaultUser (fun _ => .null) dollarAdmin, initialLedger)
        [dollarLabel newCall, dollarLabel mailCall] ↔
      EachStep (UserStep dollarBcrypt) (KeepsPasswords dollarBcrypt)
        (initdb.withDefaultUser (fun _ => .null) dollarAdmin, initialLedger)
        [dollarLabel newCall, dollarLabel mailCall]) := by
  have hrun : ∃ state', Run (UserStep dollarBcrypt)
      (initdb.withDefaultUser (fun _ => .null) dollarAdmin, initialLedger)
      [dollarLabel newCall, dollarLabel mailCall] state' :=
    ⟨_, .cons ⟨_, _, rfl, rfl⟩ (.cons ⟨_, _, rfl, rfl⟩ (.nil _))⟩
  obtain ⟨state', hrun⟩ := hrun
  exact ⟨state', hrun, passwords_kept_iff dollarBcrypt () dollarAdmin _ _ state' rfl hrun⟩

def plainCall : UserCall :=
  .updateSelf Uuid.nil { Body.empty with
    updateSelf := some { passwd := some ['x'], email := none, phone := none } }

/-- What is stored is `x` itself. -/
theorem plainCall_not_kept : ∃ state',
    Run (UserStep dollarBcrypt)
      (initdb.withDefaultUser (fun _ => .null) dollarAdmin, initialLedger)
      [dollarLabel plainCall] state' ∧ ¬ PasswordsKept dollarBcrypt state' := by
  refine ⟨_, .cons ⟨_, _, rfl, rfl⟩ (.nil _), fun hkept => ?_⟩
  obtain ⟨id, password, -, -, salt, hhash⟩ := hkept.1 _ List.mem_cons_self ['x'] rfl
  simp [dollarBcrypt] at hhash

end WsHyper.Auth
