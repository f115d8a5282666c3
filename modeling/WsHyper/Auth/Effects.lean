import WsHyper.Auth.Handlers

/-!
# What the calls of the repository do

A user that is inserted is one more row; a change sets the given columns of the row
with the given id; a deletion takes that row out.  Buckets are neither inserted nor
changed, since the statements name columns that their table does not have.
-/

namespace WsHyper.Auth

open WsHyper.Lib Sql

@[simp] theorem HashOrder.arrange_singleton (order : HashOrder) {α : Type} (entry : α) :
    order.arrange [entry] = [entry] :=
  List.perm_singleton.1 (order.perm [entry])

theorem HashOrder.mem_arrange (order : HashOrder) {α : Type} {entries : List α} {entry : α} :
    entry ∈ order.arrange entries ↔ entry ∈ entries :=
  (order.perm entries).mem_iff

theorem HashOrder.arrange_eq_nil_iff (order : HashOrder) {α : Type} {entries : List α} :
    order.arrange entries = [] ↔ entries = [] := by
  rw [← List.length_eq_zero_iff, (order.perm entries).length_eq, List.length_eq_zero_iff]

theorem answered_eq_ok {α : Type} {answer : Except SqlError α} {a : α} :
    answered answer = .ok a ↔ answer = .ok a := by
  cases answer <;> simp [answered, Except.mapError]

theorem changed_eq_ok {result : Result RepositoryError (Db × Nat)} {response : Response}
    {db' : Db} : changed result = .ok (response, db') ↔
      ∃ n, result = .ok (db', n) ∧ response = .rowAffect n := by
  cases result with
  | error failure => simp [changed, repository, Except.mapError]
  | ok answer =>
      obtain ⟨db, n⟩ := answer
      simp only [changed, repository, Except.mapError, ok_bind, Except.ok.injEq, Prod.mk.injEq]
      constructor
      · rintro ⟨rfl, rfl⟩
        exact ⟨n, ⟨rfl, rfl⟩, rfl⟩
      · rintro ⟨m, ⟨rfl, rfl⟩, rfl⟩
        exact ⟨rfl, rfl⟩

theorem repository_eq_ok {α : Type} {result : Result RepositoryError α} {a : α} :
    repository result = .ok a ↔ result = .ok a := by
  cases result <;> simp [repository, Except.mapError]

section Effects

variable {db db' : Db} {defaults : Row} {order : HashOrder} {id : Uuid} {n : Nat}

def isRow (id : Uuid) (row : Row) : Bool := row "id" = .uuid id

theorem isRow_iff {row : Row} : isRow id row ↔ row "id" = .uuid id := by
  simp [isRow]

theorem conditions_id {params : List Param} {len : Nat}
    (hparam : params[len]? = some (Types.uuid id).bind) :
    schema.conditions usersTable params
        [{ lead := " WHERE", column := "id", any := false, placeholder := len + 1 }] =
      .ok (isRow id) := by
  rw [conditions_singleton rfl hparam rfl]
  congr 1
  funext row
  simp [isRow, Types.bind]

/-- Nothing but `users_buckets` refers to a user. -/
theorem followAll_users {changes : List (Row × Row)} {tables : Tables} {name : String}
    (hname : name ≠ "users_buckets") : schema.followAll "users" changes tables name =
      tables name := by
  apply followAll_apply
  intro d hd hdname fk hfk
  simp only [schema, List.mem_cons, List.not_mem_nil, or_false] at hd
  rcases hd with rfl | rfl | rfl
  · cases hfk
  · cases hfk
  · exact absurd hdname.symm hname

/-! ## Changes of users -/

def UpdateSelf.columns : List String := ["email", "phone", "passwd"]

theorem key_of_textEntry {entries : List (String × Option Str)} {entry : String × Types}
    (hentry : entry ∈ entries.filterMap textEntry) : entry.1 ∈ entries.map Prod.fst := by
  obtain ⟨⟨column, text⟩, hmem, hentry⟩ := List.mem_filterMap.1 hentry
  obtain ⟨value, -, rfl⟩ := Option.map_eq_some_iff.1 hentry
  exact List.mem_map_of_mem (f := Prod.fst) hmem

theorem UpdateSelf.key_mem {value : UpdateSelf} {entry : String × Types}
    (hentry : entry ∈ value.toMap) : entry.1 ∈ UpdateSelf.columns := key_of_textEntry hentry

theorem UpdateSelf.key_ne {column : String} (hcolumn : column ∉ UpdateSelf.columns)
    {value : UpdateSelf} {entry : String × Types} (hentry : entry ∈ value.toMap) :
    entry.1 ≠ column := by
  rintro rfl
  exact hcolumn (UpdateSelf.key_mem hentry)

theorem mem_put_iff {map : HashMap} {column : String} {value : Types}
    (hnew : ∀ other, (column, other) ∉ map) (entry : String × Types) :
    entry ∈ AssocMap.put column value map ↔ entry ∈ map ∨ entry = (column, value) := by
  rw [AssocMap.put, List.mem_cons, AssocMap.erase, List.mem_filter, or_comm]
  refine or_congr_left (and_iff_left_of_imp fun hentry => ?_)
  rw [bne_iff_ne]
  rintro rfl
  exact hnew entry.2 hentry

theorem mem_filterMap_textEntry {entries : List (String × Option Str)} {column : String}
    {value : Types} : (column, value) ∈ entries.filterMap textEntry ↔
      ∃ text, (column, some text) ∈ entries ∧
        value = .optString (if text ≠ [] then some text else none) := by
  simp only [List.mem_filterMap, textEntry, Prod.exists, Option.map_eq_some_iff, Prod.mk.injEq]
  constructor
  · rintro ⟨column, _, hmem, text, rfl, rfl, rfl⟩
    exact ⟨text, hmem, rfl⟩
  · rintro ⟨text, hmem, rfl⟩
    exact ⟨column, some text, hmem, text, rfl, rfl, rfl⟩

theorem UpdateUser.mem_toMap {value : UpdateUser} {column : String} {new : Types} :
    (column, new) ∈ value.toMap ↔
      (column, new) ∈ [("username", value.username), ("passwd", value.passwd),
          ("email", value.email), ("phone", value.phone), ("resources", value.resources),
          ("description", value.description)].filterMap textEntry ∨
        (column = "role" ∧ ∃ role, value.role = some role ∧ new = .role role) ∨
        (column = "user_state" ∧ ∃ state, value.userState = some state ∧
          new = .userState state) := by
  have htexts : ∀ key ∈ ["role", "user_state"], ∀ new : Types,
      (key, new) ∉ [("username", value.username), ("passwd", value.passwd),
        ("email", value.email), ("phone", value.phone), ("resources", value.resources),
        ("description", value.description)].filterMap textEntry := by
    intro key hkey new hmem
    have hkey' := key_of_textEntry hmem
    rcases List.mem_cons.1 hkey with rfl | hkey
    · simp at hkey'
    · rw [List.mem_singleton.1 hkey] at hkey'
      simp at hkey'
  have hrole := htexts "role" (by simp)
  have hstate := htexts "user_state" (by simp)
  unfold UpdateUser.toMap
  generalize List.filterMap textEntry _ = texts at hrole hstate
  cases value.role with
  | none =>
      cases value.userState with
      | none => simp
      | some state => simp [mem_put_iff hstate]
  | some role =>
      have hput : ∀ entry, entry ∈ AssocMap.put "role" (.role role) texts ↔
          entry ∈ texts ∨ entry = ("role", .role role) := mem_put_iff hrole
      cases value.userState with
      | none => simp [hput]
      | some state =>
          have hstate' : ∀ other,
              ("user_state", other) ∉ AssocMap.put "role" (.role role) texts := by
            intro other hmem
            rcases (hput _).1 hmem with hmem | heq
            · exact hstate other hmem
            · simp at heq
          simp [mem_put_iff hstate', hput, or_assoc]

theorem UpdateUser.key_ne_id {value : UpdateUser} {entry : String × Types}
    (hentry : entry ∈ value.toMap) : entry.1 ≠ "id" := by
  rcases UpdateUser.mem_toMap.1 hentry with htext | ⟨hrole, -⟩ | ⟨hstate, -⟩
  · intro heq
    have hkey := key_of_textEntry htext
    simp [heq] at hkey
  · rw [hrole]
    decide
  · rw [hstate]
    decide

/-- The values of a change, in the order in which they are sent. -/
def setValues (order : HashOrder) (map : HashMap) : List (String × Value) :=
  (order.arrange map).map fun entry => (entry.1, entry.2.bind.value)

theorem map_column_sets (entries : HashMap) :
    (entries.mapIdx UpdateOwn.setAt).map Piece.column = entries.map Prod.fst := by
  apply List.ext_getElem <;> simp [UpdateOwn.setAt]

theorem map_placeholder_sets (entries : HashMap) :
    (entries.mapIdx UpdateOwn.setAt).map Piece.placeholder =
      (List.range entries.length).map (· + 1) := by
  apply List.ext_getElem <;> simp [UpdateOwn.setAt]

theorem query_update {map : HashMap} (hmap : map ≠ []) :
    (((UpdateOwn.new User).from order map).wh "id" (.uuid id)).query order =
      some (.update "users" ((order.arrange map).mapIdx UpdateOwn.setAt)
          [{ lead := " WHERE", column := "id", any := false,
             placeholder := (order.arrange map).length + 1 }],
        (order.arrange map).map (fun entry => entry.2.bind) ++ [(Types.uuid id).bind]) := by
  have hne : order.arrange map ≠ [] := by rwa [Ne, order.arrange_eq_nil_iff]
  have hitems : (order.arrange map).map Prod.snd ≠ [] := by simpa using hne
  simp only [UpdateOwn.query, UpdateOwn.wh, UpdateOwn.from, UpdateOwn.new, AssocMap.put,
    AssocMap.erase, List.filter_nil, List.nil_append, HashOrder.arrange_singleton]
  rw [if_neg hitems]
  simp [UpdateOwn.whereAt, Table.name, Function.comp_def]

theorem updateItems_nil : db.updateItems defaults
    (((UpdateOwn.new User).from order []).wh "id" (.uuid id)) order =
      .error (.panics .unwrapErr) := by
  have hempty : order.arrange ([] : HashMap) = [] := by rw [order.arrange_eq_nil_iff]
  simp [Db.updateItems, UpdateOwn.query, UpdateOwn.wh, UpdateOwn.from, UpdateOwn.new, hempty]

/-- The rows with the id have the new values, and all else is as it was. -/
theorem updateItems_eq_ok {map : HashMap} (hid : ∀ entry ∈ map, entry.1 ≠ "id")
    (h : db.updateItems defaults (((UpdateOwn.new User).from order map).wh "id" (.uuid id))
      order = .ok (db', n)) :
    (∀ entry ∈ map, usersTable.columnType entry.1 = .ok entry.2.bind.type ∧
        entry.2.bind.value.hasType enums entry.2.bind.type) ∧
      db'.tables = Function.update db.tables "users" (db.users.map fun row =>
        if isRow id row then Schema.assign (setValues order map) row else row) := by
  have hmap : map ≠ [] := by
    rintro rfl
    rw [updateItems_nil] at h
    cases h
  unfold Db.updateItems at h
  rw [query_update hmap] at h
  obtain ⟨d, values, chosen, hd, hvalues, hchosen, -, htables⟩ :=
    update_eq_ok (answered_eq_ok.1 h)
  obtain rfl : usersTable = d := Except.ok.inj hd
  rw [map_column_sets, map_placeholder_sets, ← List.length_map (f := Prod.fst)] at hvalues
  obtain ⟨hset, htyped⟩ := assignments_eq_ok hvalues (by simp)
  have hassigned : values = setValues order map := by
    rw [hset, setValues, List.map_map, List.zip_map']
    rfl
  have hparam : ((order.arrange map).map (fun entry => entry.2.bind) ++
      [(Types.uuid id).bind])[(order.arrange map).length]? = some (Types.uuid id).bind := by
    simp
  rw [conditions_id hparam] at hchosen
  obtain rfl := Except.ok.inj hchosen
  constructor
  · intro entry hentry
    refine htyped entry.1 entry.2.bind ?_
    rw [List.zip_map']
    exact List.mem_map_of_mem (order.mem_arrange.2 hentry)
  · rw [htables, hassigned, followAll_eq_self]
    · rfl
    · intro d hd fk hfk htable change hchange
      obtain ⟨row, -, rfl⟩ := List.mem_map.1 hchange
      have hkey : fk.key = "id" := by
        simp only [schema, List.mem_cons, List.not_mem_nil, or_false] at hd
        rcases hd with rfl | rfl | rfl
        · cases hfk
        · cases hfk
        · simp only [usersBucketsTable, List.mem_cons, List.not_mem_nil, or_false] at hfk
          rcases hfk with rfl | rfl
          · rfl
          · exact absurd htable (by decide)
      rw [hkey]
      apply assign_of_notMem
      simp only [setValues, List.map_map, List.mem_map, Function.comp_apply, not_exists, not_and]
      intro entry hentry
      exact hid entry (order.mem_arrange.1 hentry)

theorem users_of_updateItems {map : HashMap} (hid : ∀ entry ∈ map, entry.1 ≠ "id")
    (h : db.updateItems defaults (((UpdateOwn.new User).from order map).wh "id" (.uuid id))
      order = .ok (db', n)) :
    db'.users = db.users.map fun row =>
      if isRow id row then Schema.assign (setValues order map) row else row := by
  rw [Db.users, (updateItems_eq_ok hid h).2, Function.update_self]

theorem tables_of_updateItems {map : HashMap} (hid : ∀ entry ∈ map, entry.1 ≠ "id")
    (h : db.updateItems defaults (((UpdateOwn.new User).from order map).wh "id" (.uuid id))
      order = .ok (db', n)) {name : String} (hname : name ≠ "users") :
    db'.tables name = db.tables name := by
  rw [(updateItems_eq_ok hid h).2, Function.update_of_ne hname]

/-! ## New users -/

def userRow (defaults : Row) (user : User) : Row :=
  Schema.assign ((Table.columns User).zip ((Table.values user).map fun value => value.bind.value))
    defaults

variable {user : User}

@[simp] theorem userRow_id :
    userRow defaults user "id" = .uuid (user.id.getD Uuid.nil) := rfl

@[simp] theorem userRow_passwd : userRow defaults user "passwd" = .text user.passwd := rfl

@[simp] theorem userRow_role : userRow defaults user "role" = .label user.role.label := rfl

@[simp] theorem userRow_userState :
    userRow defaults user "user_state" = .label user.userState.label := rfl

theorem hasType_role_iff {role : Role} :
    (Types.role role).bind.value.hasType enums (Types.role role).bind.type ↔
      role = .superUser := by
  cases role <;> decide

/-- There is one more row, and its role is one that the database knows. -/
theorem insertItem_eq_ok (h : db.insertItem defaults user = .ok (db', n)) :
    db'.tables = Function.update db.tables "users" (db.users ++ [userRow defaults user]) ∧
      user.role = .superUser := by
  obtain ⟨d, values, inserted, hd, hvalues, hinserted, hafter⟩ :=
    insert_eq_ok (answered_eq_ok.1 h)
  obtain rfl : usersTable = d := Except.ok.inj hd
  rw [← List.append_nil ((Table.values user).map Types.bind)] at hvalues
  obtain ⟨hset, htyped⟩ := assignments_eq_ok hvalues rfl
  have hrow : values =
      (Table.columns User).zip ((Table.values user).map fun value => value.bind.value) := by
    rw [hset, List.map_map]
    rfl
  subst hrow
  have htables := Except.ok.inj hafter
  rw [commit_eq_ok_iff] at hinserted
  refine ⟨by rw [← htables, hinserted]; rfl, hasType_role_iff.1 ?_⟩
  exact (htyped "role" (Types.role user.role).bind (by simp [Table.columns, Table.values])).2

theorem users_of_insertItem (h : db.insertItem defaults user = .ok (db', n)) :
    db'.users = db.users ++ [userRow defaults user] := by
  rw [Db.users, (insertItem_eq_ok h).1, Function.update_self]

theorem tables_of_insertItem (h : db.insertItem defaults user = .ok (db', n)) {name : String}
    (hname : name ≠ "users") : db'.tables name = db.tables name := by
  rw [(insertItem_eq_ok h).1, Function.update_of_ne hname]

/-! ## The constraints -/

/-- Only `users_buckets` has a constraint that looks at the users of another table. -/
theorem valid_users {rows : List Row} (hkeeps : usersTable.Keeps enums rows)
    (hrefers : ∀ grant ∈ db.usersBuckets, ∃ row ∈ rows, row "id" = grant "user_id") :
    schema.Valid (Function.update db.tables "users" rows) := by
  intro d hd
  have hbefore := db.valid d hd
  simp only [schema, List.mem_cons, List.not_mem_nil, or_false] at hd
  rcases hd with rfl | rfl | rfl
  · exact ⟨hbefore.1, fun fk hfk => by cases hfk⟩
  · exact ⟨hkeeps, fun fk hfk => by cases hfk⟩
  · refine ⟨hbefore.1, fun fk hfk grant hgrant => ?_⟩
    have hother := hbefore.2 fk hfk grant hgrant
    simp only [usersBucketsTable, List.mem_cons, List.not_mem_nil, or_false] at hfk
    rcases hfk with rfl | rfl
    · exact .inr (hrefers grant hgrant)
    · exact hother

theorem exists_user_of_grant {grant : Row} (hgrant : grant ∈ db.usersBuckets) :
    ∃ row ∈ db.users, row "id" = grant "user_id" := by
  have hvalid := db.valid usersBucketsTable (by simp [schema])
  have hne := hvalid.1.notNull grant hgrant "user_id" (by simp [usersBucketsTable])
  have hrefers := hvalid.2 { column := "user_id", table := "users", key := "id" }
    (by simp [usersBucketsTable]) grant hgrant
  exact hrefers.resolve_left hne

theorem keeps_users (db : Db) : usersTable.Keeps enums db.users :=
  (db.valid usersTable (by simp [schema])).1

theorem nodup_ids (db : Db) : (db.users.map (· "id")).Nodup := by
  have hkeys := (keeps_users db).primaryKey
  have hsingle : (db.users.map fun row => usersTable.primaryKey.map row) =
      (db.users.map (· "id")).map fun value => [value] := by
    rw [List.map_map]
    rfl
  rw [hsingle] at hkeys
  exact hkeys.of_map _

theorem id_ne_of_insertItem (h : db.insertItem defaults user = .ok (db', n)) {row : Row}
    (hrow : row ∈ db.users) : row "id" ≠ .uuid (user.id.getD Uuid.nil) := by
  have hids := nodup_ids db'
  rw [users_of_insertItem h, List.map_append, List.nodup_append] at hids
  apply hids.2.2 (row "id") (List.mem_map_of_mem hrow)
  rw [List.map_singleton, List.mem_singleton, userRow_id]

theorem hasType_optString (s : Option Str) :
    (Types.optString s).bind.value.hasType enums .text := by
  cases s <;> rfl

theorem hasType_userState (s : UserState) :
    (Types.userState s).bind.value.hasType enums (.enum "user_state") := by
  cases s <;> rfl

/-- Every value of a user but the role fits its column. -/
theorem typed_user (hrole : user.role = .superUser) (column : String) (param : Param)
    (hmem : (column, param) ∈ (Table.columns User).zip ((Table.values user).map Types.bind)) :
    usersTable.columnType column = .ok param.type ∧
      param.value.hasType schema.enums param.type := by
  simp only [Table.columns, Table.values, List.map_cons, List.map_nil, List.zip_cons_cons,
    List.zip_nil_right, List.mem_cons, Prod.mk.injEq, List.not_mem_nil, or_false] at hmem
  rcases hmem with h | h | h | h | h | h | h | h
  all_goals obtain ⟨rfl, rfl⟩ := h
  · exact ⟨rfl, rfl⟩
  · exact ⟨rfl, rfl⟩
  · exact ⟨rfl, rfl⟩
  · exact ⟨rfl, hasType_optString user.email⟩
  · exact ⟨rfl, hasType_optString user.phone⟩
  · exact ⟨rfl, hasType_userState user.userState⟩
  · exact ⟨rfl, hasType_role_iff.2 hrole⟩
  · exact ⟨rfl, hasType_optString user.description⟩

theorem userRow_typed (hrole : user.role = .superUser) : ∀ column ∈ usersTable.columns,
    (userRow defaults user column.1).hasType enums column.2 := by
  intro column hcolumn
  simp only [usersTable, List.mem_cons, List.not_mem_nil, or_false] at hcolumn
  rcases hcolumn with rfl | rfl | rfl | rfl | rfl | rfl | rfl | rfl
  · rfl
  · rfl
  · rfl
  · exact hasType_optString user.email
  · exact hasType_userState user.userState
  · exact hasType_optString user.phone
  · exact hasType_role_iff.2 hrole
  · exact hasType_optString user.description

theorem insertItem_ok (defaults : Row) (hrole : user.role = .superUser)
    (hid : ∀ row ∈ db.users, row "id" ≠ .uuid (user.id.getD Uuid.nil))
    (hname : ∀ row ∈ db.users, row "username" ≠ .text user.username) :
    ∃ db', db.insertItem defaults user = .ok (db', 1) := by
  have hlength : ((Table.values user).map Types.bind).length = (Table.columns User).length := rfl
  have hassigned := assignments_ok hlength (by decide) (typed_user hrole)
  have hkeeps : usersTable.Keeps enums (db.users ++ [userRow defaults user]) := by
    refine (keeps_users db).concat ?_ ?_ ?_ ?_
    · exact userRow_typed hrole
    · simp [usersTable]
    · intro other hother heq
      simp only [usersTable, List.map_cons, List.map_nil, List.cons.injEq, and_true] at heq
      exact hid other hother heq
    · intro column hcolumn other hother
      rw [List.mem_singleton.1 hcolumn]
      exact hname other hother
  have hvalid := valid_users hkeeps fun grant hgrant => by
    obtain ⟨row, hrow, heq⟩ := exists_user_of_grant hgrant
    exact ⟨row, List.mem_append_left _ hrow, heq⟩
  let db' : Db := { tables := _, valid := hvalid }
  have hcommit : schema.commit (Function.update db.tables "users"
      (db.tables "users" ++ [userRow defaults user])) = .ok db' := commit_eq_ok_iff.2 rfl
  have htable : schema.table "users" = .ok usersTable := rfl
  have hafter : schema.afterInsert "users" (userRow defaults user) db'.tables =
      .ok db'.tables := rfl
  refine ⟨db', answered_eq_ok.2 ?_⟩
  have hrow : Schema.assign ((Table.columns User).zip
      (((Table.values user).map Types.bind).map Param.value)) defaults = userRow defaults user := by
    rw [List.map_map]
    rfl
  have hcommit' : schema.commit db'.tables = .ok db' := commit_eq_ok_iff.2 rfl
  simp only [Database.execute, Database.insert, Table.name, htable, ok_bind, hassigned, hrow,
    hcommit, hafter, hcommit']

/-! ## The database to start with -/

section Start

variable {hash : Str → Option Str} {admin : User}

theorem defaultAccountAdmin_eq_some (hadmin : defaultAccountAdmin hash = some admin) :
    admin.id = none ∧ admin.username = "admin".toList ∧ admin.role = .superUser ∧
      hash "admin".toList = some admin.passwd := by
  obtain ⟨passwd, hpasswd, rfl⟩ := Option.map_eq_some_iff.1 hadmin
  exact ⟨rfl, rfl, rfl, hpasswd⟩

theorem users_withDefaultUser (hadmin : defaultAccountAdmin hash = some admin) :
    (initdb.withDefaultUser defaults admin).users = [userRow defaults admin] := by
  have hrole := (defaultAccountAdmin_eq_some hadmin).2.2.1
  obtain ⟨db', hok⟩ : ∃ db', initdb.insertItem defaults admin = .ok (db', 1) :=
    insertItem_ok defaults hrole (fun row hrow => by cases hrow) (fun row hrow => by cases hrow)
  rw [Db.withDefaultUser, hok]
  exact users_of_insertItem hok

end Start

/-! ## Deletions -/

def Db.Ungranted (db : Db) (id : Uuid) : Prop :=
  ∀ grant ∈ db.usersBuckets, grant "user_id" ≠ .uuid id

def deleted (db : Db) (id : Uuid) : Tables :=
  schema.followAll "users"
    ((db.users.filter (isRow id)).map fun row => (row, fun _ => Value.null))
    (Function.update db.tables "users" (db.users.filter fun row => !isRow id row))

theorem deleteById_eq : db.deleteById id = answered (do
    let db' ← schema.commit (deleted db id)
    .ok (db', ((db.users.filter (isRow id)).map fun row =>
      (row, fun (_ : String) => Value.null)).length)) := by
  have hchosen : schema.conditions usersTable [(Types.uuid id).bind]
      [{ lead := " WHERE", column := "id", any := false, placeholder := 1 }] =
        .ok (isRow id) := conditions_id rfl
  have htable : schema.table "users" = .ok usersTable := rfl
  simp only [Db.deleteById, Database.delete, htable, ok_bind, hchosen]
  rfl

theorem deleteById_eq_ok_iff :
    db.deleteById id = .ok (db', n) ↔
      db'.tables = deleted db id ∧ n = (db.users.filter (isRow id)).length := by
  rw [deleteById_eq, answered_eq_ok]
  constructor
  · intro h
    obtain ⟨last, hlast, h⟩ := bind_eq_ok h
    obtain ⟨rfl, rfl⟩ := Prod.mk.inj (Except.ok.inj h)
    exact ⟨commit_eq_ok_iff.1 hlast, by rw [List.length_map]⟩
  · rintro ⟨htables, rfl⟩
    rw [commit_eq_ok_iff.2 htables, ok_bind, List.length_map]

theorem users_deleted : deleted db id "users" = db.users.filter fun row => !isRow id row := by
  rw [deleted, followAll_users (by decide), Function.update_self]

theorem buckets_deleted : deleted db id "buckets" = db.buckets := by
  rw [deleted, followAll_users (by decide), Function.update_of_ne (by decide)]
  rfl

theorem usersBuckets_deleted : deleted db id "users_buckets" =
    db.usersBuckets.map (Schema.follow { column := "user_id", table := "users", key := "id" }
      ((db.users.filter (isRow id)).map fun row => (row, fun _ => Value.null))) := rfl

/-- Without a part in a bucket, nothing but the user's row goes. -/
theorem deleted_of_ungranted (hfree : db.Ungranted id) :
    deleted db id =
      Function.update db.tables "users" (db.users.filter fun row => !isRow id row) := by
  funext name
  by_cases hname : name = "users_buckets"
  · subst hname
    rw [usersBuckets_deleted, Function.update_of_ne (by decide)]
    conv_rhs => rw [← List.map_id (db.tables "users_buckets")]
    refine List.map_congr_left fun grant hgrant => follow_of_forall_ne fun change hchange heq => ?_
    obtain ⟨row, hrow, rfl⟩ := List.mem_map.1 hchange
    have hid : row "id" = .uuid id := by simpa [isRow] using (List.mem_filter.1 hrow).2
    exact hfree grant hgrant (heq.symm.trans hid)
  · exact followAll_users hname

/-- The reference of a part that loses its user is `NULL`, which the key forbids. -/
theorem deleteById_of_granted {row grant : Row} (hrow : row ∈ db.users) (hid : isRow id row)
    (hgrant : grant ∈ db.usersBuckets) (huser : grant "user_id" = .uuid id) :
    db.deleteById id = .error (.fails (.sqlxErr .notNullViolation)) := by
  let fk : ForeignKey := { column := "user_id", table := "users", key := "id" }
  have hchange : (row, fun (_ : String) => Value.null) ∈
      (db.users.filter (isRow id)).map fun row => (row, fun _ => Value.null) :=
    List.mem_map_of_mem (List.mem_filter.2 ⟨hrow, hid⟩)
  have hkey : row fk.key = grant fk.column := (isRow_iff.1 hid).trans huser.symm
  have hnotNull : grant fk.column ≠ .null := by
    rw [huser]
    simp
  obtain ⟨change, hmem, hfollow⟩ := follow_of_mem hchange hkey hnotNull
  obtain ⟨other, -, rfl⟩ := List.mem_map.1 hmem
  have hlost : Function.update grant "user_id" Value.null ∈ deleted db id "users_buckets" := by
    rw [usersBuckets_deleted, ← hfollow]
    exact List.mem_map_of_mem hgrant
  have hnull : ¬∀ d ∈ schema.tables, ∀ row ∈ deleted db id d.name, ∀ column ∈ d.primaryKey,
      row column ≠ .null := by
    intro hkeeps
    exact hkeeps usersBucketsTable (by simp [schema]) _ hlost "user_id"
      (by simp [usersBucketsTable]) (Function.update_self ..)
  have hinvalid : ¬schema.Valid (deleted db id) :=
    fun hvalid => hnull fun d hd => (hvalid d hd).1.notNull
  have hcommit : schema.commit (deleted db id) = .error .notNullViolation := by
    rw [Schema.commit, dif_neg hinvalid, if_neg hnull]
  rw [deleteById_eq, hcommit]
  rfl

theorem ungranted_of_deleteById (h : db.deleteById id = .ok (db', n)) {row : Row}
    (hrow : row ∈ db.users) (hid : isRow id row) : db.Ungranted id := by
  intro grant hgrant huser
  rw [deleteById_of_granted hrow hid hgrant huser] at h
  cases h

theorem deleteById_ok (hfree : db.Ungranted id) :
    ∃ db', db.deleteById id = .ok (db', (db.users.filter (isRow id)).length) := by
  have hvalid : schema.Valid (deleted db id) := by
    rw [deleted_of_ungranted hfree]
    refine valid_users ((keeps_users db).sublist List.filter_sublist) fun grant hgrant => ?_
    obtain ⟨row, hrow, heq⟩ := exists_user_of_grant hgrant
    refine ⟨row, List.mem_filter.2 ⟨hrow, ?_⟩, heq⟩
    simpa [isRow, heq] using hfree grant hgrant
  exact ⟨{ tables := _, valid := hvalid }, deleteById_eq_ok_iff.2 ⟨rfl, rfl⟩⟩

/-! ## Buckets -/

/-- The table has no column `id`. -/
theorem insertItem_bucket (bucket : Buckets) :
    db.insertItem defaults bucket = .error (.fails (.sqlxErr (.unknownColumn "id"))) := rfl

theorem updateItems_bucket_ne_ok (map : HashMap) :
    db.updateItems defaults (((UpdateOwn.new Buckets).wh "id" (.uuid id)).from order map) order ≠
      .ok (db', n) := by
  intro h
  unfold Db.updateItems at h
  cases hquery : (((UpdateOwn.new Buckets).wh "id" (.uuid id)).from order map).query order with
  | none =>
      rw [hquery] at h
      cases h
  | some query =>
      rw [hquery] at h
      unfold UpdateOwn.query at hquery
      split_ifs at hquery
      obtain rfl := Option.some.inj hquery
      obtain ⟨d, values, chosen, hd, -, hchosen, -⟩ := update_eq_ok (answered_eq_ok.1 h)
      obtain rfl : bucketsTable = d := Except.ok.inj hd
      have hcolumn : bucketsTable.columns.lookup "id" = none := rfl
      refine conditions_unknown hcolumn (List.mem_map_of_mem (a := ("id", Types.uuid id)) ?_)
        hchosen
      rw [order.mem_arrange]
      exact List.mem_singleton_self _

end Effects

/-! ## Reading users -/

section Reading

variable {db : Db} {order : HashOrder} {user : User} {row : Row}

theorem get_userWith {column : String} {value : Types}
    (hany : (QueryOwn.whereAt 0 (column, value)).any = false)
    (htype : usersTable.columnType column = .ok value.bind.type)
    (hvalue : value.bind.value.hasType enums value.bind.type) :
    db.get (userWith column value) order =
      match db.users.filter fun row =>
        decide (value.bind.value ≠ .null ∧ row column = value.bind.value) with
      | [] => .error (.fails .rowNotFound)
      | row :: _ => (User.fromRow row).mapError .panics := by
  have htable : schema.table "users" = .ok usersTable := rfl
  have hgroup : order.arrange ([] : List String) = [] := by rw [order.arrange_eq_nil_iff]
  have hpiece : QueryOwn.whereAt 0 (column, value) =
      { lead := " WHERE", column, any := false, placeholder := 0 + 1 } := by
    rw [← hany]
    rfl
  have hchosen : schema.conditions usersTable [value.bind]
      [{ lead := " WHERE", column, any := false, placeholder := 0 + 1 }] =
        .ok fun row => value.bind.value ≠ .null ∧ row column = value.bind.value :=
    conditions_singleton htype rfl hvalue
  have hfetch : db.fetch ((userWith column value).build order).1
      ((userWith column value).build order).2 =
        .ok (db.users.filter fun row =>
          decide (value.bind.value ≠ .null ∧ row column = value.bind.value)) := by
    simp only [userWith, QueryOwn.wh, QueryOwn.builder, QueryOwn.build, Option.getD_some,
      HashOrder.arrange_singleton, List.mapIdx_cons, List.mapIdx_nil, hpiece, List.map_cons,
      List.map_nil, Database.fetch, QuerySelect.query, htable, ok_bind, hchosen, hgroup, if_true]
    rfl
  simp only [Db.get, hfetch]
  rfl

theorem get_userWith_id {id : Uuid} (h : db.get (userWith "id" (.uuid id)) order = .ok user) :
    ∃ row ∈ db.users, isRow id row ∧ User.fromRow row = .ok user := by
  rw [get_userWith rfl rfl rfl] at h
  split at h
  · cases h
  · rename_i row rows hfilter
    have hmem := List.mem_filter.1 (by rw [hfilter]; exact List.mem_cons_self)
    refine ⟨row, hmem.1, by simpa [isRow, Types.bind] using hmem.2, ?_⟩
    cases hread : User.fromRow row with
    | error panic =>
        rw [hread] at h
        cases h
    | ok user' =>
        rw [hread] at h
        rw [Except.ok.inj h]

theorem getLabel_eq_ok {α : Type} {column : String} {variants : List α} {label : α → String}
    {variant : α} (h : getLabel row column variants label = .ok variant) :
    row column = .label (label variant) := by
  unfold getLabel at h
  split at h
  · rename_i text hrow
    split at h
    · rename_i variant' hfind
      have hlabel : label variant' = text := by simpa using List.find?_some hfind
      rw [hrow, ← Except.ok.inj h, hlabel]
    · cases h
  · cases h

theorem User.role_of_fromRow (h : User.fromRow row = .ok user) :
    row "role" = .label user.role.label := by
  obtain ⟨id, -, h⟩ := bind_eq_ok h
  obtain ⟨username, -, h⟩ := bind_eq_ok h
  obtain ⟨passwd, -, h⟩ := bind_eq_ok h
  obtain ⟨description, -, h⟩ := bind_eq_ok h
  obtain ⟨email, -, h⟩ := bind_eq_ok h
  obtain ⟨phone, -, h⟩ := bind_eq_ok h
  obtain ⟨userState, -, h⟩ := bind_eq_ok h
  obtain ⟨role, hrole, h⟩ := bind_eq_ok h
  rw [← Except.ok.inj h]
  exact getLabel_eq_ok hrole

end Reading

/-! ## Handlers -/

section Handlers

variable {chance : Chance} {db db' : Db} {response : Response} {id : Uuid}

theorem reading_eq_ok {α : Type} {result : Result ResponseErr α} {f : α → Response}
    (h : (do let a ← result; .ok (f a, db)) = .ok (response, db')) : db' = db := by
  obtain ⟨a, -, h⟩ := bind_eq_ok h
  exact (Prod.mk.inj (Except.ok.inj h)).2.symm

theorem stripPrefix_eq_some_iff {pat text rest : Str} :
    stripPrefix pat text = some rest ↔ text = pat ++ rest := by
  unfold stripPrefix
  constructor
  · intro h
    split_ifs at h with hpre
    obtain ⟨more, rfl⟩ := hpre
    rw [← Option.some.inj h, List.drop_left]
  · rintro rfl
    rw [if_pos (List.prefix_append pat rest), List.drop_left]

theorem routed_eq_ok_iff {request : Request} {path : Str} :
    routed request = .ok path ↔ request.path = prefixPath ++ path := by
  rw [← stripPrefix_eq_some_iff, routed]
  cases stripPrefix prefixPath request.path <;> simp

theorem claimed_eq_ok_iff {request : Request} :
    claimed request = .ok id ↔ request.claim = some id := by
  unfold claimed
  cases request.claim <;> simp

theorem parsed_eq_ok {α : Type} {body : Option α} {status : Nat} {value : α}
    (h : parsed body status = .ok value) : body = some value := by
  unfold parsed at h
  split at h
  · rename_i value'
    rw [Except.ok.inj h]
  · cases h

theorem User.new_eq_ok {body : Body} (h : User.new chance db body = .ok (response, db')) :
    ∃ user passwd n, body.user = some user ∧ chance.hash user.passwd = some passwd ∧
      db.insertItem chance.defaults { user with passwd } = .ok (db', n) := by
  obtain ⟨user, huser, h⟩ := bind_eq_ok h
  split at h
  · cases h
  · rename_i passwd hpasswd
    obtain ⟨n, hok, -⟩ := changed_eq_ok.1 h
    exact ⟨user, passwd, n, parsed_eq_ok huser, hpasswd, hok⟩

theorem User.update_eq_ok {τ : Type} {toMap : τ → HashMap} {body : Option τ}
    (h : User.update chance db toMap body id = .ok (response, db')) :
    ∃ value n, body = some value ∧ db.updateItems chance.defaults
      (((UpdateOwn.new User).from chance.order (toMap value)).wh "id" (.uuid id))
      chance.order = .ok (db', n) := by
  obtain ⟨value, hvalue, h⟩ := bind_eq_ok h
  obtain ⟨n, hok, -⟩ := changed_eq_ok.1 h
  exact ⟨value, n, parsed_eq_ok hvalue, hok⟩

theorem Buckets.new_ne_ok {body : Body} : Buckets.new chance db body ≠ .ok (response, db') := by
  intro h
  obtain ⟨bucket, -, h⟩ := bind_eq_ok h
  obtain ⟨n, hok, -⟩ := changed_eq_ok.1 h
  rw [insertItem_bucket] at hok
  cases hok

theorem Buckets.update_ne_ok {body : Body} :
    Buckets.update chance db body id ≠ .ok (response, db') := by
  intro h
  unfold Buckets.update at h
  split at h
  · cases h
  · obtain ⟨n, hok, -⟩ := changed_eq_ok.1 h
    exact updateItems_bucket_ne_ok _ hok

end Handlers

end WsHyper.Auth
