import WsHyper.Auth.Effects

/-!
# The permission check

A service asks `BucketIsAllowed` whether a user has a permission for a bucket.  The
query asks for a column `name` that its table does not have, so it fails for every
table, and the reply is always `false`.  Before that, a request whose id or number
is not understood panics; the numbers of the protocol start at zero, the ones that
are understood at one.
-/

namespace WsHyper.Auth

open WsHyper.Lib Sql

structure AllowedBucketReq where
  id : List UInt8
  name : Str
  permissions : Int

/-- `TryFrom<i32>`. -/
def Permissions.tryFrom : Int → Option Permissions
  | 1 => some .put
  | 2 => some .get
  | 3 => some .delete
  | 4 => some .read
  | _ => none

/-- The numbers in `info.proto`. -/
def Permissions.number : Permissions → Int
  | .put => 0
  | .get => 1
  | .delete => 2
  | .read => 3

def allowedQuery (name : Str) (id : Uuid) (permission : Permissions) :
    QueryOwn AllowedBucketReply :=
  ((QueryOwn.builder.wh "name" (.string name)).wh "user_id" (.uuid id)).whVecAny "permissions"
    [permission]

def bucketIsAllowed (order : HashOrder) (db : Db) (request : AllowedBucketReq) :
    Except Panic AllowedBucketReply := do
  let id ← unwrapResult (Uuid.fromSlice request.id)
  let permission ← unwrapResult (Permissions.tryFrom request.permissions)
  match db.get (allowedQuery request.name id permission) order with
  | .ok reply => .ok reply
  | .error (.fails _) => .ok { allowed := false }
  | .error (.panics panic) => .error panic

/-- `ConnectionAuthMS::allowed`, to whom a service that panics is an error. -/
def allowed (order : HashOrder) (db : Db) (id : Uuid) (name : Str) (permission : Permissions) :
    Bool :=
  match bucketIsAllowed order db { id := id.1, name, permissions := permission.number } with
  | .ok reply => reply.allowed
  | .error _ => false

def Grants (db : Db) (name : Str) (id : Uuid) (permission : Permissions) : Prop :=
  ∃ row ∈ db.usersBuckets, row "bucket" = .text name ∧ row "user_id" = .uuid id ∧
    ∃ labels, row "permissions" = .labels labels ∧ some permission.label ∈ labels

def AllowedBucketReq.WellFormed (request : AllowedBucketReq) : Prop :=
  request.id.length = 16 ∧ ∃ permission : Permissions, request.permissions = permission.number

section Check

variable {order : HashOrder} {db : Db} {request : AllowedBucketReq} {id : Uuid} {name : Str}
  {permission : Permissions}

/-- The query names a column that there is not. -/
theorem get_allowedQuery (order : HashOrder) (db : Db) (name : Str) (id : Uuid)
    (permission : Permissions) : ∃ error,
      db.get (allowedQuery name id permission) order = .error (.fails error) := by
  have htable : schema.table "users_buckets" = .ok usersBucketsTable := rfl
  have hfails : ∃ error, db.fetch ((allowedQuery name id permission).build order).1
      ((allowedQuery name id permission).build order).2 = .error error := by
    simp only [Database.fetch, QueryOwn.build, QuerySelect.query, htable, ok_bind]
    cases hchosen : schema.conditions usersBucketsTable _ _ with
    | error error => exact ⟨error, rfl⟩
    | ok chosen =>
        obtain ⟨i, hi, hname⟩ := List.mem_iff_getElem.1
          (order.mem_arrange.2 (List.mem_of_getElem? (i := 2) rfl :
            ("name", Types.string name) ∈ (allowedQuery name id permission).wheres.getD []))
        have hcolumn : usersBucketsTable.columns.lookup
            (QueryOwn.whereAt i ("name", Types.string name)).column = none := rfl
        refine absurd hchosen (conditions_unknown hcolumn ?_)
        rw [← hname, List.mem_mapIdx]
        exact ⟨i, hi, rfl⟩
  obtain ⟨error, hfetch⟩ := hfails
  refine ⟨.ofSql error, ?_⟩
  simp only [Db.get, hfetch]
  rfl

/-- A request that is understood is answered, and never allowed. -/
theorem bucketIsAllowed_eq (hid : Uuid.fromSlice request.id = some id)
    (hpermission : Permissions.tryFrom request.permissions = some permission) :
    bucketIsAllowed order db request = .ok { allowed := false } := by
  obtain ⟨error, hget⟩ := get_allowedQuery order db request.name id permission
  simp only [bucketIsAllowed, hid, hpermission, unwrapResult, ok_bind, hget]

theorem bucketIsAllowed_eq_ok_iff {reply : AllowedBucketReply} :
    bucketIsAllowed order db request = .ok reply ↔
      (Uuid.fromSlice request.id).isSome ∧ (Permissions.tryFrom request.permissions).isSome ∧
        reply = { allowed := false } := by
  constructor
  · intro h
    have hdone := h
    unfold bucketIsAllowed at h
    obtain ⟨id, hid, h⟩ := bind_eq_ok h
    obtain ⟨permission, hpermission, -⟩ := bind_eq_ok h
    rw [unwrapResult_eq_ok_iff] at hid hpermission
    rw [bucketIsAllowed_eq hid hpermission] at hdone
    exact ⟨by rw [hid]; rfl, by rw [hpermission]; rfl, (Except.ok.inj hdone).symm⟩
  · rintro ⟨hid, hpermission, rfl⟩
    obtain ⟨id, hid⟩ := Option.isSome_iff_exists.1 hid
    obtain ⟨permission, hpermission⟩ := Option.isSome_iff_exists.1 hpermission
    exact bucketIsAllowed_eq hid hpermission

theorem allowed_eq_false : allowed order db id name permission = false := by
  unfold allowed
  split
  · rename_i reply hreply
    rw [(bucketIsAllowed_eq_ok_iff.1 hreply).2.2]
  · rfl

theorem fromSlice_isSome_iff {bytes : List UInt8} :
    (Uuid.fromSlice bytes).isSome ↔ bytes.length = 16 := by
  unfold Uuid.fromSlice
  split_ifs with hlength <;> simp [hlength]

theorem tryFrom_isSome_iff {n : Int} : (Permissions.tryFrom n).isSome ↔ 1 ≤ n ∧ n ≤ 4 := by
  unfold Permissions.tryFrom
  split
  · decide
  · decide
  · decide
  · decide
  · rename_i h₁ h₂ h₃ h₄
    have hne₁ : n ≠ 1 := h₁
    have hne₂ : n ≠ 2 := h₂
    have hne₃ : n ≠ 3 := h₃
    have hne₄ : n ≠ 4 := h₄
    simp only [Option.isSome_none, Bool.false_eq_true, false_iff]
    omega

/-- Of the numbers that the protocol does not know, only four is understood. -/
theorem tryFrom_isSome_of_not_number {n : Int}
    (hnumber : ∀ permission : Permissions, n ≠ permission.number) :
    (Permissions.tryFrom n).isSome ↔ n = 4 := by
  have h₁ := hnumber .get
  have h₂ := hnumber .delete
  have h₃ := hnumber .read
  rw [tryFrom_isSome_iff]
  simp only [Permissions.number] at h₁ h₂ h₃
  omega

end Check

/-- A client is told the truth exactly where the table does not give the permission;
and of the other requests, those are answered whose id has sixteen bytes and whose
number is four. -/
theorem allowed_right_iff (order : HashOrder) (db : Db) :
    (∀ name id permission,
        ((allowed order db id name permission = true ↔ Grants db name id permission) ↔
          ¬Grants db name id permission)) ∧
      ∀ request, request.WellFormed ∨
        ((∃ reply, bucketIsAllowed order db request = .ok reply ∧ reply.allowed = false) ↔
          request.id.length = 16 ∧ request.permissions = 4) := by
  constructor
  · intro name id permission
    rw [allowed_eq_false]
    simp
  · intro request
    by_cases hformed : request.WellFormed
    · exact .inl hformed
    · refine .inr ?_
      have hanswered : (∃ reply, bucketIsAllowed order db request = .ok reply ∧
          reply.allowed = false) ↔
            request.id.length = 16 ∧ (Permissions.tryFrom request.permissions).isSome := by
        simp only [bucketIsAllowed_eq_ok_iff, fromSlice_isSome_iff]
        constructor
        · rintro ⟨reply, ⟨hid, hpermission, -⟩, -⟩
          exact ⟨hid, hpermission⟩
        · rintro ⟨hid, hpermission⟩
          exact ⟨_, ⟨hid, hpermission, rfl⟩, rfl⟩
      rw [hanswered]
      refine and_congr_right fun hid => tryFrom_isSome_of_not_number fun permission heq => ?_
      exact hformed ⟨hid, permission, heq⟩

def readerDb : Db :=
  { tables := fun
      | "users" => [fun
          | "id" => .uuid Uuid.nil
          | _ => .null]
      | "buckets" => [fun
          | "name" => .text ['b']
          | _ => .null]
      | "users_buckets" => [fun
          | "bucket" => .text ['b']
          | "user_id" => .uuid Uuid.nil
          | "permissions" => .labels [some "Read"]
          | _ => .null]
      | _ => []
    valid := by decide }

/-- The reader is told no, and a request with an empty id or the number nine makes
the service panic. -/
theorem reader_not_allowed :
    Grants readerDb ['b'] Uuid.nil .read ∧
      allowed .inserted readerDb Uuid.nil ['b'] .read = false ∧
      bucketIsAllowed .inserted readerDb { id := [], name := ['b'], permissions := 3 } =
        .error .unwrapErr ∧
      bucketIsAllowed .inserted readerDb
        { id := Uuid.nil.1, name := ['b'], permissions := 9 } = .error .unwrapErr := by
  refine ⟨⟨_, List.mem_singleton_self _, rfl, rfl, _, rfl, by decide⟩, ?_, rfl, rfl⟩
  exact allowed_eq_false

end WsHyper.Auth
