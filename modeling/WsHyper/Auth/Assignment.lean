import WsHyper.Auth.GrpcInfo

/-!
# New buckets

A bucket that is inserted gives every operator and every administrator a part in it.
The trigger casts the permissions to labels of roles, of which none is one, so its
first round fails and the insertion with it.
-/

namespace WsHyper.Auth

open WsHyper.Lib Sql

/-- `INSERT INTO buckets (name) VALUES ($1)`; the columns have no defaults. -/
def Db.insertBucket (db : Db) (name : Str) : Except SqlError (Db × Nat) :=
  db.insert (fun _ => .null) "buckets" ["name"] [1] [{ type := .text, value := .text name }]

def bucketRow (name : Str) : Row := Schema.assign [("name", .text name)] fun _ => .null

def grantRow (bucket : Str) (labels : List String) (user : Row) : Row := fun
  | "bucket" => .text bucket
  | "user_id" => user "id"
  | "permissions" => .labels (labels.map some)
  | _ => .null

/-- There is a new bucket, and nothing else is new but the parts of the administrators
and the operators. -/
structure Assigned (db : Db) (name : Str) (db' : Db) : Prop where
  buckets : db'.buckets = db.buckets ++ [bucketRow name]
  users : db'.users = db.users
  usersBuckets : db'.usersBuckets.Perm (db.usersBuckets ++
    (db.users.filter fun user => user "role" = .label "Admin").map
      (grantRow name ["Get", "Put", "Delete", "Read"]) ++
    (db.users.filter fun user => user "role" = .label "Operator").map
      (grantRow name ["Get", "Read"]))

/-- A user of one of the two roles that the trigger looks for. -/
def Assignable (user : Row) : Prop :=
  user "role" = .label "Admin" ∨ user "role" = .label "Operator"

section Trigger

variable {bucket user : Row} {labels : List String} {tables tables' : Tables}

theorem castLabels_permissions (hlabels : labels ∈ [["Get", "Read"],
    ["Get", "Put", "Delete", "Read"]]) :
    castLabels "role" labels = .error (.invalidLabel "Get") := by
  simp only [List.mem_cons, List.not_mem_nil, or_false] at hlabels
  rcases hlabels with rfl | rfl
  · rfl
  · rfl

theorem foldlM_assignTo_eq_ok_iff {users : List Row} (hlabels : labels ∈ [["Get", "Read"],
    ["Get", "Put", "Delete", "Read"]]) :
    users.foldlM (assignTo bucket labels) tables = .ok tables' ↔
      users = [] ∧ tables' = tables := by
  cases users with
  | nil =>
      rw [List.foldlM_nil]
      constructor
      · intro h
        exact ⟨rfl, (Except.ok.inj h).symm⟩
      · rintro ⟨-, rfl⟩
        rfl
  | cons user users =>
      have hround : assignTo bucket labels tables user = .error (.invalidLabel "Get") := by
        rw [assignTo, castLabels_permissions hlabels, error_bind]
      rw [List.foldlM_cons, hround, error_bind]
      constructor
      · intro h
        cases h
      · rintro ⟨h, -⟩
        cases h

/-- The trigger lets an insertion pass only if nobody is to be given a part. -/
theorem assignBucketOnUsers_eq_ok_iff :
    assignBucketOnUsers bucket tables = .ok tables' ↔
      (∀ user ∈ tables "users", ¬Assignable user) ∧ tables' = tables := by
  have hnobody : (∀ user ∈ tables "users", ¬Assignable user) ↔
      ((tables "users").filter fun user => user "role" = .label "Operator") = [] ∧
        ((tables "users").filter fun user => user "role" = .label "Admin") = [] := by
    simp only [List.filter_eq_nil_iff, decide_eq_true_eq, Assignable, not_or]
    constructor
    · intro h
      exact ⟨fun user huser => (h user huser).2, fun user huser => (h user huser).1⟩
    · rintro ⟨hoperators, hadmins⟩ user huser
      exact ⟨hadmins user huser, hoperators user huser⟩
  rw [hnobody, assignBucketOnUsers]
  constructor
  · intro h
    obtain ⟨between, hfirst, hsecond⟩ := bind_eq_ok h
    obtain ⟨hoperators, rfl⟩ := (foldlM_assignTo_eq_ok_iff (by simp)).1 hfirst
    obtain ⟨hadmins, rfl⟩ := (foldlM_assignTo_eq_ok_iff (by simp)).1 hsecond
    exact ⟨⟨hoperators, hadmins⟩, rfl⟩
  · rintro ⟨⟨hoperators, hadmins⟩, rfl⟩
    rw [(foldlM_assignTo_eq_ok_iff (by simp)).2 ⟨hoperators, rfl⟩, ok_bind]
    exact (foldlM_assignTo_eq_ok_iff (by simp)).2 ⟨hadmins, rfl⟩

end Trigger

section Insertion

variable {db db' : Db} {name : Str} {n : Nat}

theorem assignments_name : schema.assignments bucketsTable
    [{ type := .text, value := .text name }] ["name"] [1] = .ok [("name", .text name)] := by
  have htyped : ∀ column param, (column, param) ∈ ["name"].zip
      [({ type := .text, value := .text name } : Param)] →
        bucketsTable.columnType column = .ok param.type ∧
          param.value.hasType schema.enums param.type := by
    intro column param hmem
    obtain ⟨rfl, rfl⟩ := Prod.mk.inj (List.mem_singleton.1 hmem)
    exact ⟨rfl, rfl⟩
  exact assignments_ok rfl (List.nodup_singleton _) htyped

theorem valid_buckets {row : Row} (hkeeps : bucketsTable.Keeps enums (db.buckets ++ [row])) :
    schema.Valid (Function.update db.tables "buckets" (db.buckets ++ [row])) := by
  intro d hd
  have hbefore := db.valid d hd
  simp only [schema, List.mem_cons, List.not_mem_nil, or_false] at hd
  rcases hd with rfl | rfl | rfl
  · exact ⟨hkeeps, fun fk hfk => by cases hfk⟩
  · exact ⟨hbefore.1, fun fk hfk => by cases hfk⟩
  · refine ⟨hbefore.1, fun fk hfk grant hgrant => ?_⟩
    rcases hbefore.2 fk hfk grant hgrant with hnull | ⟨target, htarget, hrefers⟩
    · exact .inl hnull
    · refine .inr ⟨target, ?_, hrefers⟩
      simp only [usersBucketsTable, List.mem_cons, List.not_mem_nil, or_false] at hfk
      rcases hfk with rfl | rfl
      · exact htarget
      · exact List.mem_append_left _ htarget

theorem keeps_bucketRow (hnew : ∀ row ∈ db.buckets, row "name" ≠ .text name) :
    bucketsTable.Keeps enums (db.buckets ++ [bucketRow name]) := by
  refine (db.valid bucketsTable (by simp [schema])).1.concat ?_ ?_ ?_ ?_
  · intro column hcolumn
    simp only [bucketsTable, List.mem_cons, List.not_mem_nil, or_false] at hcolumn
    rcases hcolumn with rfl | rfl
    · rfl
    · rfl
  · intro column hcolumn
    rw [List.mem_singleton.1 hcolumn]
    simp [bucketRow, Schema.assign]
  · intro other hother heq
    simp only [bucketsTable, List.map_cons, List.map_nil, List.cons.injEq, and_true] at heq
    exact hnew other hother heq
  · intro column hcolumn other hother
    rw [List.mem_singleton.1 hcolumn]
    exact hnew other hother

theorem insertBucket_eq_ok_iff (hnew : ∀ row ∈ db.buckets, row "name" ≠ .text name) :
    db.insertBucket name = .ok (db', n) ↔ (∀ user ∈ db.users, ¬Assignable user) ∧
      db'.tables = Function.update db.tables "buckets" (db.buckets ++ [bucketRow name]) ∧
        n = 1 := by
  let inserted : Db := { tables := _, valid := valid_buckets (keeps_bucketRow hnew) }
  have htable : schema.table "buckets" = .ok bucketsTable := rfl
  have hinserted : schema.commit (Function.update db.tables "buckets"
      (db.tables "buckets" ++ [bucketRow name])) = .ok inserted := commit_eq_ok_iff.2 rfl
  have hafter : db.insertBucket name = (do
      let tables ← assignBucketOnUsers (bucketRow name) inserted.tables
      let db ← schema.commit tables
      .ok (db, 1)) := by
    rw [Db.insertBucket, Database.insert, htable, ok_bind, assignments_name, ok_bind]
    change (schema.commit (Function.update db.tables "buckets"
      (db.tables "buckets" ++ [bucketRow name])) >>= _) = _
    rw [hinserted]
    rfl
  rw [hafter]
  constructor
  · intro h
    obtain ⟨tables, htrigger, h⟩ := bind_eq_ok h
    obtain ⟨last, hlast, h⟩ := bind_eq_ok h
    obtain ⟨rfl, rfl⟩ := Prod.mk.inj (Except.ok.inj h)
    obtain ⟨hnobody, rfl⟩ := assignBucketOnUsers_eq_ok_iff.1 htrigger
    exact ⟨hnobody, commit_eq_ok_iff.1 hlast, rfl⟩
  · rintro ⟨hnobody, htables, rfl⟩
    have htrigger : assignBucketOnUsers (bucketRow name) inserted.tables = .ok inserted.tables :=
      assignBucketOnUsers_eq_ok_iff.2 ⟨hnobody, rfl⟩
    rw [htrigger, ok_bind, commit_eq_ok_iff.2 htables, ok_bind]

end Insertion

/-- A bucket with a new name is inserted and assigned exactly if nobody is to have a
part in it. -/
theorem bucket_assigned_iff (db : Db) (name : Str)
    (hnew : ∀ row ∈ db.buckets, row "name" ≠ .text name) :
    (∃ db', db.insertBucket name = .ok (db', 1) ∧ Assigned db name db') ↔
      ∀ user ∈ db.users, user "role" ≠ .label "Admin" ∧ user "role" ≠ .label "Operator" := by
  have hnobody : (∀ user ∈ db.users,
      user "role" ≠ .label "Admin" ∧ user "role" ≠ .label "Operator") ↔
        ∀ user ∈ db.users, ¬Assignable user := by
    simp only [Assignable, not_or, ne_eq]
  rw [hnobody]
  constructor
  · rintro ⟨db', hok, -⟩
    exact ((insertBucket_eq_ok_iff hnew).1 hok).1
  · intro hfree
    let db' : Db := { tables := _, valid := valid_buckets (keeps_bucketRow hnew) }
    have hadmins : (db.users.filter fun user => user "role" = .label "Admin") = [] := by
      simp only [List.filter_eq_nil_iff, decide_eq_true_eq]
      exact fun user huser hrole => hfree user huser (.inl hrole)
    have hoperators : (db.users.filter fun user => user "role" = .label "Operator") = [] := by
      simp only [List.filter_eq_nil_iff, decide_eq_true_eq]
      exact fun user huser hrole => hfree user huser (.inr hrole)
    refine ⟨db', (insertBucket_eq_ok_iff hnew).2 ⟨hfree, rfl, rfl⟩, rfl, rfl, ?_⟩
    rw [hadmins, hoperators, List.map_nil, List.map_nil, List.append_nil, List.append_nil]
    exact List.Perm.refl _

def adminDb : Db :=
  { tables := fun
      | "users" => [fun
          | "id" => .uuid Uuid.nil
          | "role" => .label "Admin"
          | _ => .null]
      | _ => []
    valid := by decide }

/-- An administrator keeps the first bucket from being inserted. -/
theorem admin_not_assigned :
    ¬∃ db', adminDb.insertBucket ['b'] = .ok (db', 1) ∧ Assigned adminDb ['b'] db' := by
  rintro ⟨db', hok, -⟩
  have hnew : ∀ row ∈ adminDb.buckets, row "name" ≠ .text ['b'] := fun row hrow => by cases hrow
  exact ((insertBucket_eq_ok_iff hnew).1 hok).1 _ (List.mem_singleton_self _) (.inl rfl)

/-- A second bucket beside the one of the reader, who has no role. -/
theorem reader_assigned :
    ∃ db', readerDb.insertBucket ['c'] = .ok (db', 1) ∧ Assigned readerDb ['c'] db' := by
  refine (bucket_assigned_iff readerDb ['c'] fun row hrow => ?_).2 fun user huser => ?_
  · rw [List.mem_singleton.1 hrow]
    decide
  · rw [List.mem_singleton.1 huser]
    decide

end WsHyper.Auth
