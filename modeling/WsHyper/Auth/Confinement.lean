import WsHyper.Auth.Effects
import WsHyper.Lib.Run

/-!
# What users can change

A user who is no administrator gets no further than `/user`.  So over any sequence
of requests of such users the tables stay as they are, but for the columns that a
user may change of the user's own row.
-/

namespace WsHyper.Auth

open WsHyper.Lib Sql

abbrev Asked := Chance × Request

def ApiStep (parseUuid : Str → Option Uuid) (db : Db) (asked : Asked) (db' : Db) : Prop :=
  db' = (api parseUuid asked.1 db asked.2).after db

/-- The request has a subject, who is no administrator at this moment. -/
def FromUser (db : Db) (asked : Asked) : Prop :=
  ∃ id, asked.2.claim = some id ∧ ∀ row ∈ db.users, isRow id row →
    row "role" ≠ .label Role.administrator.label ∧ row "role" ≠ .label Role.superUser.label

def PatchesSelf (request : Request) (row : Row) : Prop :=
  request.method = .patch ∧ request.path = prefixPath ++ "/user".toList ∧
    ∃ id, request.claim = some id ∧ isRow id row

/-- A row differs in no more than its user asked for. -/
def KeptBut (requests : List Request) (row row' : Row) : Prop :=
  ∀ column, row' column ≠ row column →
    column ∈ UpdateSelf.columns ∧ ∃ request ∈ requests, PatchesSelf request row

def TablesKeptBut (requests : List Request) (db db' : Db) : Prop :=
  List.Forall₂ (KeptBut requests) db.users db'.users ∧
    ∀ name ≠ "users", db'.tables name = db.tables name

section Rows

variable {requests requests' : List Request} {row row' row'' : Row} {db db' db'' : Db}

theorem KeptBut.refl (requests : List Request) (row : Row) : KeptBut requests row row :=
  fun _ hne => absurd rfl hne

theorem KeptBut.id_eq (hkept : KeptBut requests row row') : row' "id" = row "id" := by
  by_contra hne
  exact absurd (hkept "id" hne).1 (by decide)

theorem KeptBut.trans (hfirst : KeptBut requests row row')
    (hsecond : KeptBut requests' row' row'') : KeptBut (requests ++ requests') row row'' := by
  intro column hne
  by_cases hfirstNe : row' column = row column
  · rw [← hfirstNe] at hne
    obtain ⟨hcolumn, request, hrequest, hmethod, hpath, id, hclaim, hid⟩ := hsecond column hne
    refine ⟨hcolumn, request, List.mem_append_right _ hrequest, hmethod, hpath, id, hclaim, ?_⟩
    rwa [isRow, hfirst.id_eq] at hid
  · obtain ⟨hcolumn, request, hrequest, hpatches⟩ := hfirst column hfirstNe
    exact ⟨hcolumn, request, List.mem_append_left _ hrequest, hpatches⟩

theorem TablesKeptBut.refl (requests : List Request) (db : Db) :
    TablesKeptBut requests db db :=
  ⟨List.forall₂_same.2 fun row _ => .refl requests row, fun _ _ => rfl⟩

theorem forall₂_trans {α : Type} {R S T : α → α → Prop} {as bs cs : List α}
    (htrans : ∀ a b c, R a b → S b c → T a c) (hfirst : List.Forall₂ R as bs)
    (hsecond : List.Forall₂ S bs cs) : List.Forall₂ T as cs := by
  induction hfirst generalizing cs with
  | nil =>
      cases hsecond
      exact .nil
  | cons h _ ih =>
      cases hsecond with
      | cons h' hrest => exact .cons (htrans _ _ _ h h') (ih hrest)

theorem TablesKeptBut.trans (hfirst : TablesKeptBut requests db db')
    (hsecond : TablesKeptBut requests' db' db'') :
    TablesKeptBut (requests ++ requests') db db'' := by
  have htrans : ∀ row row' row'', KeptBut requests row row' → KeptBut requests' row' row'' →
      KeptBut (requests ++ requests') row row'' := fun _ _ _ => KeptBut.trans
  exact ⟨forall₂_trans htrans hfirst.1 hsecond.1,
    fun name hname => (hsecond.2 name hname).trans (hfirst.2 name hname)⟩

end Rows

section Requests

variable {parseUuid : Str → Option Uuid} {chance : Chance} {db db' : Db} {request : Request}
  {response : Response} {next : Handled}

theorem middlewareUserAdmin_ne_ok (huser : FromUser db (chance, request)) :
    middlewareUserAdmin chance db request next ≠ .ok (response, db') := by
  intro h
  obtain ⟨id, hclaim, hrole⟩ := huser
  obtain ⟨id', hid', h⟩ := bind_eq_ok h
  obtain rfl : id = id' := Option.some.inj (hclaim.symm.trans (claimed_eq_ok_iff.1 hid'))
  obtain ⟨user, hget, h⟩ := bind_eq_ok h
  split_ifs at h with hadmin
  obtain ⟨row, hrow, hid, hread⟩ := get_userWith_id (repository_eq_ok.1 hget)
  obtain ⟨hne, hne'⟩ := hrole row hrow hid
  rw [User.role_of_fromRow hread] at hne hne'
  simp only [User.isAdmin, decide_eq_true_eq] at hadmin
  rcases hadmin with hadmin | hadmin
  · rw [hadmin] at hne
    exact hne rfl
  · rw [hadmin] at hne'
    exact hne' rfl

/-- What a user's request can do: nothing, or change the user. -/
theorem api_eq_ok (huser : FromUser db (chance, request))
    (h : api parseUuid chance db request = .ok (response, db')) :
    db' = db ∨ ∃ id value n, request.method = .patch ∧
      request.path = prefixPath ++ "/user".toList ∧ request.claim = some id ∧
      db.updateItems chance.defaults
        (((UpdateOwn.new User).from chance.order (UpdateSelf.toMap value)).wh "id" (.uuid id))
        chance.order = .ok (db', n) := by
  obtain ⟨path, hpath, h⟩ := bind_eq_ok h
  split_ifs at h with hself
  · obtain ⟨id, hid, h⟩ := bind_eq_ok h
    split at h
    · rename_i hmethod
      obtain ⟨value, n, -, hok⟩ := User.update_eq_ok h
      subst hself
      exact .inr ⟨id, value, n, hmethod, routed_eq_ok_iff.1 hpath, claimed_eq_ok_iff.1 hid, hok⟩
    · exact .inl (reading_eq_ok h)
    · cases h
  · exact absurd h (middlewareUserAdmin_ne_ok huser)

theorem keptBut_of_api (huser : FromUser db (chance, request))
    (hstep : ApiStep parseUuid db (chance, request) db') : TablesKeptBut [request] db db' := by
  rw [ApiStep] at hstep
  cases hresult : api parseUuid chance db request with
  | error failure =>
      rw [hresult] at hstep
      rw [hstep]
      exact .refl _ _
  | ok answer =>
      obtain ⟨response, db''⟩ := answer
      rw [hresult] at hstep
      obtain rfl : db' = db'' := hstep
      rcases api_eq_ok huser hresult with rfl | ⟨id, value, n, hmethod, hpath, hclaim, hok⟩
      · exact .refl _ _
      · have hkeys : ∀ entry ∈ value.toMap, entry.1 ≠ "id" :=
          fun entry => UpdateSelf.key_ne (by decide)
        constructor
        · rw [users_of_updateItems hkeys hok, List.forall₂_map_right_iff, List.forall₂_same]
          intro row hrow column hne
          split_ifs at hne with hid
          · refine ⟨?_, request, List.mem_singleton_self _, hmethod, hpath, id, hclaim, hid⟩
            by_contra hcolumn
            refine hne (assign_of_notMem fun hmem => hcolumn ?_)
            rw [setValues, List.map_map] at hmem
            obtain ⟨entry, hentry, rfl⟩ := List.mem_map.1 hmem
            exact UpdateSelf.key_mem (chance.order.mem_arrange.1 hentry)
          · exact absurd rfl hne
        · intro name hname
          exact tables_of_updateItems hkeys hok hname

end Requests

/-- Over every sequence of requests of users who are no administrators, the tables
are kept but for the email, phone and password of users who asked for it. -/
theorem users_confined (parseUuid : Str → Option Uuid) (db db' : Db) (asked : List Asked)
    (husers : EachStep (ApiStep parseUuid) FromUser db asked)
    (hrun : Run (ApiStep parseUuid) db asked db') :
    TablesKeptBut (asked.map Prod.snd) db db' := by
  induction hrun with
  | nil db => exact .refl _ db
  | cons hstep _ ih =>
      obtain ⟨hfirst, hlater⟩ := eachStep_cons.1 husers
      exact (keptBut_of_api hfirst hstep).trans (ih (hlater _ hstep))

def memberRow : Row
  | "id" => .uuid Uuid.nil
  | "username" => .text ['a']
  | "passwd" => .text ['h']
  | "role" => .label "User"
  | _ => .null

def memberDb : Db :=
  { tables := fun
      | "users" => [memberRow]
      | _ => []
    valid := by decide }

def patchEmail : Asked :=
  ({ order := .inserted, defaults := fun _ => .null, hash := fun _ => none },
    { method := .patch
      path := prefixPath ++ "/user".toList
      body := { Body.empty with
        updateSelf := some { passwd := none, email := some ['e'], phone := none } }
      claim := some Uuid.nil })

theorem users_confined_memberDb :
    ∃ db', Run (ApiStep fun _ => none) memberDb [patchEmail] db' ∧
      db'.users.map (· "email") = [.text ['e']] ∧
      TablesKeptBut [patchEmail.2] memberDb db' := by
  have hrun : Run (ApiStep fun _ => none) memberDb [patchEmail] _ := .cons rfl (.nil _)
  refine ⟨_, hrun, rfl, users_confined _ _ _ _ ?_ hrun⟩
  refine eachStep_cons.2 ⟨⟨Uuid.nil, rfl, ?_⟩, fun _ _ => eachStep_nil⟩
  intro row hrow _
  rw [List.mem_singleton.1 hrow]
  exact ⟨by decide, by decide⟩

end WsHyper.Auth
