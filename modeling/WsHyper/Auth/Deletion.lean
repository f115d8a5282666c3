import WsHyper.Auth.GrpcInfo

/-!
# Deletion of users

A part in a bucket refers to its user, and `ON DELETE SET NULL` takes the reference
away; but the column is one of the primary key.  So a user goes exactly when there
is no part to lose its user.
-/

namespace WsHyper.Auth

open WsHyper.Lib Sql

/-- What is left of a database without a user and the parts of this user. -/
structure GoneFrom (db db' : Db) (id : Uuid) : Prop where
  users : db'.users = db.users.filter fun row => row "id" ≠ .uuid id
  usersBuckets : db'.usersBuckets = db.usersBuckets.filter fun grant => grant "user_id" ≠ .uuid id
  others : ∀ name, name ≠ "users" → name ≠ "users_buckets" → db'.tables name = db.tables name

section Deletion

variable {db db' : Db} {id : Uuid} {n : Nat}

theorem filter_not_isRow (rows : List Row) :
    (rows.filter fun row => !isRow id row) = rows.filter fun row => row "id" ≠ .uuid id := by
  apply List.filter_congr
  intro row _
  simp [isRow]

theorem filter_isRow_length {row : Row} (hrow : row ∈ db.users) (hid : isRow id row) :
    (db.users.filter (isRow id)).length = 1 := by
  have hnodup : ((db.users.filter (isRow id)).map (· "id")).Nodup :=
    (nodup_ids db).sublist (List.filter_sublist.map _)
  have hall : ∀ value ∈ (db.users.filter (isRow id)).map (· "id"), value = .uuid id := by
    intro value hvalue
    obtain ⟨other, hother, rfl⟩ := List.mem_map.1 hvalue
    exact isRow_iff.1 (List.mem_filter.1 hother).2
  have hpos : 0 < (db.users.filter (isRow id)).length :=
    List.length_pos_of_mem (List.mem_filter.2 ⟨hrow, hid⟩)
  have hle : ((db.users.filter (isRow id)).map (· "id")).length ≤ 1 := by
    rw [List.eq_replicate_of_mem hall, List.nodup_replicate] at hnodup
    exact hnodup
  rw [List.length_map] at hle
  omega

/-- A deletion takes one user out and leaves all else, as there is no part to take. -/
theorem goneFrom_of_deleteById (h : db.deleteById id = .ok (db', n)) (hfree : db.Ungranted id) :
    GoneFrom db db' id := by
  have htables : db'.tables =
      Function.update db.tables "users" (db.users.filter fun row => !isRow id row) := by
    rw [(deleteById_eq_ok_iff.1 h).1, deleted_of_ungranted hfree]
  constructor
  · rw [Db.users, htables, Function.update_self, filter_not_isRow]
  · have hsame : db'.usersBuckets = db.usersBuckets := by
      rw [Db.usersBuckets, htables, Function.update_of_ne (by decide)]
      rfl
    rw [hsame, eq_comm, List.filter_eq_self]
    intro grant hgrant
    simpa using hfree grant hgrant
  · intro name hname _
    rw [htables, Function.update_of_ne hname]

end Deletion

/-- A user with a row is deleted, with the parts in buckets, exactly if there are no
such parts. -/
theorem user_deleted_iff (db : Db) (id : Uuid) (hexists : ∃ row ∈ db.users, row "id" = .uuid id) :
    (∃ db', db.deleteById id = .ok (db', 1) ∧ GoneFrom db db' id) ↔
      ∀ grant ∈ db.usersBuckets, grant "user_id" ≠ .uuid id := by
  obtain ⟨row, hrow, hid⟩ := hexists
  constructor
  · rintro ⟨db', hok, -⟩ grant hgrant huser
    rw [deleteById_of_granted hrow (isRow_iff.2 hid) hgrant huser] at hok
    cases hok
  · intro hfree
    obtain ⟨db', hok⟩ := deleteById_ok hfree
    rw [filter_isRow_length hrow (isRow_iff.2 hid)] at hok
    exact ⟨db', hok, goneFrom_of_deleteById hok hfree⟩

/-- The reader of the bucket `b` stays. -/
theorem reader_not_deleted :
    ¬∃ db', readerDb.deleteById Uuid.nil = .ok (db', 1) ∧ GoneFrom readerDb db' Uuid.nil := by
  rintro ⟨db', hok, -⟩
  rw [deleteById_of_granted (List.mem_singleton_self _) rfl (List.mem_singleton_self _) rfl] at hok
  cases hok

def lonerDb : Db :=
  { tables := fun name =>
      if name = "users" then [fun column => if column = "id" then .uuid Uuid.nil else .null]
      else []
    valid := by decide }

theorem loner_deleted :
    ∃ db', lonerDb.deleteById Uuid.nil = .ok (db', 1) ∧ GoneFrom lonerDb db' Uuid.nil := by
  refine (user_deleted_iff lonerDb Uuid.nil ⟨_, List.mem_singleton_self _, rfl⟩).2 ?_
  intro grant hgrant
  cases hgrant

end WsHyper.Auth
