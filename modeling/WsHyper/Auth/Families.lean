import WsHyper.Auth.Effects

/-!
# The two families of resources

What a request to `endpoint_admin` can do to the database, by the arm that it takes.
The arms under `/user` never touch the buckets.  Those under `/bucket` cannot write
a bucket either; but their deletion is the one of users.
-/

namespace WsHyper.Auth

open WsHyper.Lib Sql

inductive AdminEffect (parseUuid : Str → Option Uuid) (chance : Chance) (db : Db)
    (request : Request) (path : Str) (db' : Db) : Prop
  | reads (hdb : db' = db)
  | newUser (user : User) (n : Nat) (hpath : path = "/user".toList)
      (hok : db.insertItem chance.defaults user = .ok (db', n))
  | changesUser (value : UpdateUser) (id : Uuid) (n : Nat) (hpath : "/user/".toList <+: path)
      (hok : db.updateItems chance.defaults
        (((UpdateOwn.new User).from chance.order value.toMap).wh "id" (.uuid id))
        chance.order = .ok (db', n))
  | deletesUser (id : Uuid) (n : Nat) (hpath : "/user/".toList <+: path)
      (hok : db.deleteById id = .ok (db', n))
  | deletesBucket (text : Str) (id : Uuid) (n : Nat) (hmethod : request.method = .delete)
      (hpath : path = "/bucket/".toList ++ text) (hid : parseUuid text = some id)
      (hok : db.deleteById id = .ok (db', n))

/-! ## Paths -/

theorem userFamily {path : Str} (hpath : "/user/".toList <+: path) : "/user".toList <+: path :=
  List.IsPrefix.trans ⟨['/'], by decide⟩ hpath

theorem bucketFamily (text : Str) : "/bucket".toList <+: "/bucket/".toList ++ text :=
  List.IsPrefix.trans ⟨['/'], by decide⟩ (List.prefix_append _ _)

theorem not_bucketPath {path : Str} (hpath : "/user".toList <+: path) :
    ¬"/bucket".toList <+: path := by
  rintro ⟨rest, rfl⟩
  obtain ⟨rest', heq⟩ := hpath
  have hsecond : some 'u' = some 'b' := congrArg (fun path : Str => path[1]?) heq
  exact absurd hsecond (by decide)

/-! ## Arms -/

section Arms

variable {parseUuid : Str → Option Uuid} {chance : Chance} {db db' : Db} {request : Request}
  {path : Str} {response : Response} {id : Uuid}

theorem identified_eq_ok {text : Option Str} (h : identified parseUuid text = .ok id) :
    text.bind parseUuid = some id := by
  unfold identified at h
  split at h
  · rename_i id' hid
    rw [hid, Except.ok.inj h]
  · cases h

/-- Arm by arm, what there is left of the database. -/
theorem userById_eq_ok (hpath : "/user/".toList <+: path)
    (h : userById parseUuid chance db request path = .ok (response, db')) :
    AdminEffect parseUuid chance db request path db' := by
  obtain ⟨id, -, h⟩ := bind_eq_ok h
  split at h
  · obtain ⟨n, hok, -⟩ := changed_eq_ok.1 h
    exact .deletesUser id n hpath hok
  · obtain ⟨value, n, -, hok⟩ := User.update_eq_ok h
    exact .changesUser value id n hpath hok
  · exact .reads (reading_eq_ok h)

theorem bucketById_eq_ok (h : bucketById parseUuid chance db request path = .ok (response, db')) :
    AdminEffect parseUuid chance db request path db' := by
  unfold bucketById at h
  split at h
  · cases h
  · rename_i text hpath
    obtain ⟨id, hid, h⟩ := bind_eq_ok h
    split at h
    · exact absurd h Buckets.update_ne_ok
    · rename_i hmethod
      obtain ⟨n, hok, -⟩ := changed_eq_ok.1 h
      exact .deletesBucket text id n hmethod (stripPrefix_eq_some_iff.1 hpath)
        (identified_eq_ok hid) hok
    · exact .reads (reading_eq_ok h)

theorem endpointAdmin_eq_ok
    (h : endpointAdmin parseUuid chance db request = .ok (response, db')) :
    ∃ path, request.path = prefixPath ++ path ∧
      AdminEffect parseUuid chance db request path db' := by
  obtain ⟨path, hpath, h⟩ := bind_eq_ok h
  refine ⟨path, ?_, ?_⟩
  · exact routed_eq_ok_iff.1 hpath
  · split_ifs at h with huser husers hdetail hdetails hone hbucket hbuckets hbucketOne
    · obtain ⟨user, passwd, n, -, -, hok⟩ := User.new_eq_ok h
      exact .newUser _ n huser.1 hok
    · exact .reads (reading_eq_ok h)
    · obtain ⟨id, -, h⟩ := bind_eq_ok h
      exact .reads (reading_eq_ok h)
    · exact .reads (reading_eq_ok h)
    · exact userById_eq_ok hone.2 h
    · exact absurd h Buckets.new_ne_ok
    · exact .reads (reading_eq_ok h)
    · exact bucketById_eq_ok h
    · cases h

theorem endpointAdmin_deleteBucket {text : Str} (hmethod : request.method = .delete)
    (hpath : request.path = prefixPath ++ ("/bucket/".toList ++ text))
    (hid : parseUuid text = some id) :
    endpointAdmin parseUuid chance db request = Buckets.delete db id := by
  have hrouted : routed request = .ok ("/bucket/".toList ++ text) := routed_eq_ok_iff.2 hpath
  have hfamily := bucketFamily text
  have hother : ¬"/user/".toList <+: "/bucket/".toList ++ text :=
    fun huser => not_bucketPath (userFamily huser) hfamily
  have hstrip : stripPrefix "/bucket/".toList ("/bucket/".toList ++ text) = some text :=
    stripPrefix_eq_some_iff.2 rfl
  simp only [endpointAdmin, hrouted, ok_bind, hmethod, reduceCtorEq, and_false, false_and, if_false,
    hother, hfamily, and_true, List.mem_cons, true_or, or_true, if_true, bucketById, hstrip,
    identified, Option.bind_some, hid]

end Arms

/-- The request deletes the user whose id stands where the one of a bucket should. -/
def DeletesUser (parseUuid : Str → Option Uuid) (db : Db) (request : Request) : Prop :=
  request.method = .delete ∧ ∃ text id,
    request.path = prefixPath ++ ("/bucket/".toList ++ text) ∧ parseUuid text = some id ∧
      (∃ row ∈ db.users, isRow id row) ∧ db.Ungranted id

theorem AdminEffect.apart {parseUuid : Str → Option Uuid} {chance : Chance} {db db' : Db}
    {request : Request} {path : Str}
    (heffect : AdminEffect parseUuid chance db request path db')
    (hsafe : ¬DeletesUser parseUuid db request) (hpath : request.path = prefixPath ++ path) :
    ("/bucket".toList <+: path → db'.users = db.users) ∧
      ("/user".toList <+: path → db'.buckets = db.buckets) := by
  cases heffect with
  | reads hdb => exact ⟨fun _ => by rw [hdb], fun _ => by rw [hdb]⟩
  | newUser user n huser hok =>
      refine ⟨fun hbucket => absurd hbucket (not_bucketPath (by rw [huser])), fun _ => ?_⟩
      exact tables_of_insertItem hok (by decide)
  | changesUser value id n huser hok =>
      refine ⟨fun hbucket => absurd hbucket (not_bucketPath (userFamily huser)), fun _ => ?_⟩
      exact tables_of_updateItems (fun entry => UpdateUser.key_ne_id) hok (by decide)
  | deletesUser id n huser hok =>
      refine ⟨fun hbucket => absurd hbucket (not_bucketPath (userFamily huser)), fun _ => ?_⟩
      rw [Db.buckets, (deleteById_eq_ok_iff.1 hok).1, buckets_deleted]
  | deletesBucket text id n hmethod hbucket hid hok =>
      subst hbucket
      have htables := (deleteById_eq_ok_iff.1 hok).1
      refine ⟨fun _ => ?_, fun _ => by rw [Db.buckets, htables, buckets_deleted]⟩
      rw [Db.users, htables, users_deleted, List.filter_eq_self]
      intro row hrow
      by_contra hmatch
      have hrowId : isRow id row = true := by simpa using hmatch
      exact hsafe ⟨hmethod, text, id, hpath, hid, ⟨row, hrow, hrowId⟩,
        ungranted_of_deleteById hok hrow hrowId⟩

/-- A request leaves the users to `/user` and the buckets to `/bucket`, unless it
deletes a user in the place of a bucket. -/
theorem families_apart_iff (parseUuid : Str → Option Uuid) (chance : Chance) (db : Db)
    (request : Request) :
    (∀ path, request.path = prefixPath ++ path →
        ("/bucket".toList <+: path →
          ((endpointAdmin parseUuid chance db request).after db).users = db.users) ∧
        ("/user".toList <+: path →
          ((endpointAdmin parseUuid chance db request).after db).buckets = db.buckets)) ↔
      ¬DeletesUser parseUuid db request := by
  constructor
  · rintro hapart ⟨hmethod, text, id, hpath, hid, ⟨row, hrow, hrowId⟩, hfree⟩
    obtain ⟨db', hok⟩ := deleteById_ok hfree
    have hdeleted : endpointAdmin parseUuid chance db request =
        .ok (.rowAffect (db.users.filter (isRow id)).length, db') := by
      rw [endpointAdmin_deleteBucket hmethod hpath hid]
      exact changed_eq_ok.2 ⟨_, hok, rfl⟩
    have husers := (hapart _ hpath).1 (bucketFamily text)
    rw [hdeleted] at husers
    have hgone : db'.users = db.users.filter fun row => !isRow id row := by
      rw [Db.users, (deleteById_eq_ok_iff.1 hok).1, users_deleted]
    rw [← (show db'.users = db.users from husers), hgone] at hrow
    have hkept := (List.mem_filter.1 hrow).2
    rw [hrowId] at hkept
    cases hkept
  · intro hsafe path hpath
    cases hresult : endpointAdmin parseUuid chance db request with
    | error failure => exact ⟨fun _ => rfl, fun _ => rfl⟩
    | ok answer =>
        obtain ⟨response, db'⟩ := answer
        obtain ⟨path', hpath', heffect⟩ := endpointAdmin_eq_ok hresult
        obtain rfl : path = path' := List.append_cancel_left (hpath.symm.trans hpath')
        exact heffect.apart hsafe hpath

def oneUser : Db :=
  initdb.withDefaultUser (fun _ => .null)
    { id := none
      username := ['a']
      passwd := ['h']
      email := none
      phone := none
      userState := .active
      role := .superUser
      description := none }

def nilText : Str := "00000000-0000-0000-0000-000000000000".toList

/-- The user goes with the bucket that there never was. -/
theorem user_deleted_for_bucket :
    let parseUuid := fun text => if text = nilText then some Uuid.nil else none
    let chance : Chance := { order := .inserted, defaults := fun _ => .null, hash := fun _ => none }
    let request : Request := {
      method := .delete
      path := prefixPath ++ ("/bucket/".toList ++ nilText)
      body := .empty
      claim := some Uuid.nil }
    "/bucket".toList <+: "/bucket/".toList ++ nilText ∧ oneUser.users.length = 1 ∧
      ((endpointAdmin parseUuid chance oneUser request).after oneUser).users = [] := by
  refine ⟨by decide, rfl, rfl⟩

end WsHyper.Auth
