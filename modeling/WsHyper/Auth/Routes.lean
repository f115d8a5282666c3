import WsHyper.Auth.Families

/-!
# The grammar of the routes

`apiRoute` is the choice that `api` and `endpoint_admin` make for an administrator:
a handler with the identifier it is given, or an error.  `Meant` is the grammar of
the interface.
-/

namespace WsHyper.Auth

open WsHyper.Lib

inductive Route
  | ownUpdate
  | ownInfo
  | newUser
  | allUsers
  | userInfo (id : Option Uuid)
  | getUser (id : Uuid)
  | updateUser (id : Uuid)
  | deleteUser (id : Uuid)
  | newBucket
  | allBuckets
  | getBucket (id : Uuid)
  | updateBucket (id : Uuid)
  | deleteBucket (id : Uuid)
  deriving DecidableEq

/-- The handler itself, where `own` is the subject of the claim. -/
def Route.run (chance : Chance) (db : Db) (body : Body) (own : Uuid) : Route → Handled
  | ownUpdate => User.update chance db UpdateSelf.toMap body.updateSelf own
  | ownInfo => User.getUserInfo chance db (some own)
  | newUser => User.new chance db body
  | allUsers => User.getAll chance db
  | userInfo id => User.getUserInfo chance db id
  | getUser id => User.getOne chance db id
  | updateUser id => User.update chance db UpdateUser.toMap body.updateUser id
  | deleteUser id => User.delete db id
  | newBucket => Buckets.new chance db body
  | allBuckets => Buckets.getAll chance db
  | getBucket id => Buckets.getOne chance db id
  | updateBucket id => Buckets.update chance db body id
  | deleteBucket id => Buckets.delete db id

def Route.named : Route → Option Uuid
  | userInfo id => id
  | getUser id | updateUser id | deleteUser id => some id
  | getBucket id | updateBucket id | deleteBucket id => some id
  | _ => none

section Choice

variable (parseUuid : Str → Option Uuid) (method : Method) (path : Str)

def badRequest (text : String) : ResponseErr := { detail := some (.text text), status := 400 }

def routeById (route : Uuid → Route) (text : Option Str) : Except ResponseErr Route :=
  match text.bind parseUuid with
  | some id => .ok (route id)
  | none => .error (badRequest "Invalid format")

def userRoute : Method → Uuid → Route
  | .delete => .deleteUser
  | .patch => .updateUser
  | _ => .getUser

def bucketRoute : Method → Uuid → Route
  | .patch => .updateBucket
  | .delete => .deleteBucket
  | _ => .getBucket

def bucketByIdRoute : Except ResponseErr Route :=
  match stripPrefix "/bucket/".toList path with
  | none => .error { detail := none, status := 400 }
  | some text => routeById parseUuid (bucketRoute method) (some text)

def endpointRoute : Except ResponseErr Route :=
  if path = "/user".toList ∧ method = .post then .ok .newUser
  else if path = "/users".toList ∧ method = .get then .ok .allUsers
  else if method = .get ∧ "user/".toList <+: path ∧ "/detail".toList <:+ path then
    routeById parseUuid (fun id => .userInfo (some id))
      ((splitNth1 "/user/".toList path).bind (stripSuffix "/detail".toList))
  else if path = "/users/detail".toList ∧ method = .get then .ok (.userInfo none)
  else if method ∈ [.delete, .patch, .get] ∧ "/user/".toList <+: path then
    routeById parseUuid (userRoute method) (splitNth1 "/user/".toList path)
  else if path = "/bucket".toList ∧ method = .post then .ok .newBucket
  else if path = "/bucket".toList ∧ method = .get then .ok .allBuckets
  else if method ∈ [.patch, .get, .delete] ∧ "/bucket".toList <+: path then
    bucketByIdRoute parseUuid method path
  else .error (badRequest "Path Not Found")

def apiRoute : Except ResponseErr Route :=
  if path = "/user".toList then
    match method with
    | .patch => .ok .ownUpdate
    | .get => .ok .ownInfo
    | _ => .error (badRequest "Path not found")
  else endpointRoute parseUuid method path

/-! ## The grammar -/

def EndsIn (front : String) (id : Uuid) : Prop :=
  ∃ text, parseUuid text = some id ∧ path = front.toList ++ text

/-- The requests that a handler is for. -/
def Meant : Route → Prop
  | .ownUpdate => method = .patch ∧ path = "/user".toList
  | .ownInfo => method = .get ∧ path = "/user".toList
  | .newUser => method = .post ∧ path = "/user".toList
  | .allUsers => method = .get ∧ path = "/users".toList
  | .userInfo none => method = .get ∧ path = "/users/detail".toList
  | .userInfo (some id) => method = .get ∧
      ∃ text, parseUuid text = some id ∧ path = "/user/".toList ++ text ++ "/detail".toList
  | .getUser id => method = .get ∧ EndsIn parseUuid path "/user/" id
  | .updateUser id => method = .patch ∧ EndsIn parseUuid path "/user/" id
  | .deleteUser id => method = .delete ∧ EndsIn parseUuid path "/user/" id
  | .newBucket => method = .post ∧ path = "/bucket".toList
  | .allBuckets => method = .get ∧ path = "/bucket".toList
  | .getBucket id => method = .get ∧ EndsIn parseUuid path "/bucket/" id
  | .updateBucket id => method = .patch ∧ EndsIn parseUuid path "/bucket/" id
  | .deleteBucket id => method = .delete ∧ EndsIn parseUuid path "/bucket/" id

/-- The handlers run exactly on the requests they are for, and everything else is
rejected. -/
structure FollowsGrammar : Prop where
  runs_iff : ∀ route, apiRoute parseUuid method path = .ok route ↔
    Meant parseUuid method path route
  rejected : (∀ route, ¬Meant parseUuid method path route) →
    ∃ error, apiRoute parseUuid method path = .error error ∧ error.status = 400

/-- The requests that go wrong. -/
inductive Misrouted : Prop
  /-- `api` keeps `/user` for the users themselves. -/
  | newUser (hmethod : method = .post) (hpath : path = "/user".toList)
  /-- The arm for `/detail` asks for `user/` where the path has `/user/`. -/
  | detail (text : Str) (id : Uuid) (hmethod : method = .get) (hid : parseUuid text = some id)
      (hpath : path = "/user/".toList ++ text ++ "/detail".toList)
  /-- It takes a path without the slash that has `/user/` further on. -/
  | stray (text : Str) (id : Uuid) (hmethod : method = .get) (hid : parseUuid text = some id)
      (hfront : "user/".toList <+: path) (hback : "/detail".toList <:+ path)
      (hpiece : splitNth1 "/user/".toList path = some (text ++ "/detail".toList))
  /-- The identifier is cut out before another `/user/`. -/
  | trailing (text rest : Str) (id : Uuid) (hmethod : method ∈ [.delete, .patch, .get])
      (hid : parseUuid text = some id)
      (hpath : path = "/user/".toList ++ text ++ "/user/".toList ++ rest)

end Choice

section Choice

variable {parseUuid : Str → Option Uuid} {method : Method} {path : Str} {route : Route}

/-! ## Which requests reach a handler -/

theorem routeById_eq_ok_iff {make : Uuid → Route} {text : Option Str} :
    routeById parseUuid make text = .ok route ↔
      ∃ id, text.bind parseUuid = some id ∧ make id = route := by
  rw [routeById]
  cases text.bind parseUuid with
  | none => simp
  | some id => simp

def CutOut (parseUuid : Str → Option Uuid) (path : Str) (id : Uuid) : Prop :=
  "/user/".toList <+: path ∧ (splitNth1 "/user/".toList path).bind parseUuid = some id

def DetailTaken (parseUuid : Str → Option Uuid) (path : Str) (id : Uuid) : Prop :=
  "user/".toList <+: path ∧ "/detail".toList <:+ path ∧
    ((splitNth1 "/user/".toList path).bind (stripSuffix "/detail".toList)).bind parseUuid = some id

def Reached (parseUuid : Str → Option Uuid) (method : Method) (path : Str) : Route → Prop
  | .newUser => False
  | .userInfo (some id) => method = .get ∧ DetailTaken parseUuid path id
  | .getUser id => method = .get ∧ CutOut parseUuid path id
  | .updateUser id => method = .patch ∧ CutOut parseUuid path id
  | .deleteUser id => method = .delete ∧ CutOut parseUuid path id
  | route => Meant parseUuid method path route

theorem reached_userRoute {id : Uuid} (hmethod : method ∈ [.delete, .patch, .get])
    (hcut : CutOut parseUuid path id) : Reached parseUuid method path (userRoute method id) := by
  cases method with
  | get => exact ⟨rfl, hcut⟩
  | patch => exact ⟨rfl, hcut⟩
  | delete => exact ⟨rfl, hcut⟩
  | post => exact absurd hmethod (by decide)
  | other => exact absurd hmethod (by decide)

theorem reached_bucketRoute {id : Uuid} (hmethod : method ∈ [.patch, .get, .delete])
    (hends : EndsIn parseUuid path "/bucket/" id) :
    Reached parseUuid method path (bucketRoute method id) := by
  cases method with
  | get => exact ⟨rfl, hends⟩
  | patch => exact ⟨rfl, hends⟩
  | delete => exact ⟨rfl, hends⟩
  | post => exact absurd hmethod (by decide)
  | other => exact absurd hmethod (by decide)

theorem reached_of_apiRoute (h : apiRoute parseUuid method path = .ok route) :
    Reached parseUuid method path route := by
  unfold apiRoute at h
  split_ifs at h with hown
  · subst hown
    split at h
    · obtain rfl := Except.ok.inj h
      exact ⟨rfl, rfl⟩
    · obtain rfl := Except.ok.inj h
      exact ⟨rfl, rfl⟩
    · cases h
  unfold endpointRoute at h
  split_ifs at h with hnew hall hdetail hinfos huser hbucket hbuckets hid
  · exact absurd hnew.1 hown
  · obtain rfl := Except.ok.inj h
    exact ⟨hall.2, hall.1⟩
  · obtain ⟨id, hparse, rfl⟩ := routeById_eq_ok_iff.1 h
    exact ⟨hdetail.1, hdetail.2.1, hdetail.2.2, hparse⟩
  · obtain rfl := Except.ok.inj h
    exact ⟨hinfos.2, hinfos.1⟩
  · obtain ⟨id, hparse, rfl⟩ := routeById_eq_ok_iff.1 h
    exact reached_userRoute huser.1 ⟨huser.2, hparse⟩
  · obtain rfl := Except.ok.inj h
    exact ⟨hbucket.2, hbucket.1⟩
  · obtain rfl := Except.ok.inj h
    exact ⟨hbuckets.2, hbuckets.1⟩
  · unfold bucketByIdRoute at h
    split at h
    · cases h
    · rename_i text hstrip
      obtain ⟨id, hparse, rfl⟩ := routeById_eq_ok_iff.1 h
      have hends : EndsIn parseUuid path "/bucket/" id :=
        ⟨text, hparse, stripPrefix_eq_some_iff.1 hstrip⟩
      exact reached_bucketRoute hid.1 hends

theorem apiRoute_user (hmethod : method ∈ [.delete, .patch, .get])
    (hpath : "/user/".toList <+: path) :
    apiRoute parseUuid method path =
      routeById parseUuid (userRoute method) (splitNth1 "/user/".toList path) := by
  obtain ⟨rest, rfl⟩ := hpath
  have hdetail : ¬"user/".toList <+: "/user/".toList ++ rest :=
    Text.not_prefix_append (by decide) (by decide) rest
  have hother : ∀ other, ¬"/user/".toList <+: other → "/user/".toList ++ rest ≠ other :=
    fun other hother => Text.append_ne hother rest
  unfold apiRoute endpointRoute
  rw [if_neg (hother _ (by decide)), if_neg fun h => hother _ (by decide) h.1,
    if_neg fun h => hother _ (by decide) h.1,
    if_neg fun h => hdetail h.2.1, if_neg fun h => hother _ (by decide) h.1,
    if_pos ⟨hmethod, List.prefix_append _ _⟩]

theorem apiRoute_detail (hfront : "user/".toList <+: path) (hback : "/detail".toList <:+ path) :
    apiRoute parseUuid .get path =
      routeById parseUuid (fun id => .userInfo (some id))
        ((splitNth1 "/user/".toList path).bind (stripSuffix "/detail".toList)) := by
  have htaken : Method.get = .get ∧ "user/".toList <+: path ∧ "/detail".toList <:+ path :=
    ⟨rfl, hfront, hback⟩
  have hother : ∀ other : Str, other.head? = some '/' → path ≠ other := by
    rintro other hother rfl
    obtain ⟨rest, rfl⟩ := hfront
    simp at hother
  rw [apiRoute, if_neg (hother _ rfl), endpointRoute, if_neg fun h => hother _ rfl h.1,
    if_neg fun h => hother _ rfl h.1, if_pos htaken]

theorem apiRoute_bucket (hmethod : method ∈ [.patch, .get, .delete]) (text : Str) :
    apiRoute parseUuid method ("/bucket/".toList ++ text) =
      routeById parseUuid (bucketRoute method) (some text) := by
  have hdetail : ¬"user/".toList <+: "/bucket/".toList ++ text :=
    Text.not_prefix_append (by decide) (by decide) text
  have huser : ¬"/user/".toList <+: "/bucket/".toList ++ text :=
    Text.not_prefix_append (by decide) (by decide) text
  have hother : ∀ other, ¬"/bucket/".toList <+: other → "/bucket/".toList ++ text ≠ other :=
    fun other hother => Text.append_ne hother text
  have hbucket : "/bucket".toList <+: "/bucket/".toList ++ text := ⟨'/' :: text, rfl⟩
  have hstrip := stripPrefix_eq_some_iff.2 (rfl : "/bucket/".toList ++ text = _)
  unfold apiRoute endpointRoute
  rw [if_neg (hother _ (by decide)), if_neg fun h => hother _ (by decide) h.1,
    if_neg fun h => hother _ (by decide) h.1,
    if_neg fun h => hdetail h.2.1, if_neg fun h => hother _ (by decide) h.1,
    if_neg fun h => huser h.2, if_neg fun h => hother _ (by decide) h.1,
    if_neg fun h => hother _ (by decide) h.1, if_pos ⟨hmethod, hbucket⟩, bucketByIdRoute, hstrip]

theorem apiRoute_of_cutOut {id : Uuid} (hmethod : method ∈ [.delete, .patch, .get])
    (hcut : CutOut parseUuid path id) :
    apiRoute parseUuid method path = .ok (userRoute method id) := by
  rw [apiRoute_user hmethod hcut.1, routeById, hcut.2]

theorem apiRoute_of_endsIn {id : Uuid} (hmethod : method ∈ [.patch, .get, .delete])
    (hends : EndsIn parseUuid path "/bucket/" id) :
    apiRoute parseUuid method path = .ok (bucketRoute method id) := by
  obtain ⟨text, hparse, rfl⟩ := hends
  rw [apiRoute_bucket hmethod, routeById, Option.bind_some, hparse]

theorem apiRoute_eq_ok_iff :
    apiRoute parseUuid method path = .ok route ↔ Reached parseUuid method path route := by
  refine ⟨reached_of_apiRoute, fun h => ?_⟩
  cases route with
  | ownUpdate => obtain ⟨rfl, rfl⟩ := h; rfl
  | ownInfo => obtain ⟨rfl, rfl⟩ := h; rfl
  | newUser => exact h.elim
  | allUsers => obtain ⟨rfl, rfl⟩ := h; rfl
  | userInfo id =>
      cases id with
      | none => obtain ⟨rfl, rfl⟩ := h; rfl
      | some id =>
          obtain ⟨rfl, hfront, hback, hparse⟩ := h
          rw [apiRoute_detail hfront hback, routeById, hparse]
  | getUser id => obtain ⟨rfl, hcut⟩ := h; exact apiRoute_of_cutOut (by decide) hcut
  | updateUser id => obtain ⟨rfl, hcut⟩ := h; exact apiRoute_of_cutOut (by decide) hcut
  | deleteUser id => obtain ⟨rfl, hcut⟩ := h; exact apiRoute_of_cutOut (by decide) hcut
  | newBucket => obtain ⟨rfl, rfl⟩ := h; rfl
  | allBuckets => obtain ⟨rfl, rfl⟩ := h; rfl
  | getBucket id => obtain ⟨rfl, hends⟩ := h; exact apiRoute_of_endsIn (by decide) hends
  | updateBucket id => obtain ⟨rfl, hends⟩ := h; exact apiRoute_of_endsIn (by decide) hends
  | deleteBucket id => obtain ⟨rfl, hends⟩ := h; exact apiRoute_of_endsIn (by decide) hends

/-! ## The handlers that run -/

def chosen (chance : Chance) (db : Db) (body : Body) (own : Uuid) :
    Except ResponseErr Route → Handled
  | .ok route => route.run chance db body own
  | .error error => .error (.fails error)

section Requests

variable {chance : Chance} {db : Db} {request : Request} {own : Uuid}

theorem chosen_routeById (make : Uuid → Route) (text : Option Str) :
    chosen chance db request.body own (routeById parseUuid make text) =
      identified parseUuid text >>= fun id => (make id).run chance db request.body own := by
  rw [routeById, identified]
  cases text.bind parseUuid with
  | none => rfl
  | some id => rfl

theorem userById_eq :
    userById parseUuid chance db request path =
      chosen chance db request.body own
        (routeById parseUuid (userRoute request.method) (splitNth1 "/user/".toList path)) := by
  rw [chosen_routeById, userById]
  congr 1
  funext id
  cases request.method <;> rfl

theorem bucketById_eq :
    bucketById parseUuid chance db request path =
      chosen chance db request.body own (bucketByIdRoute parseUuid request.method path) := by
  rw [bucketById, bucketByIdRoute]
  cases stripPrefix "/bucket/".toList path with
  | none => rfl
  | some text =>
      dsimp only
      rw [chosen_routeById]
      congr 1
      funext id
      cases request.method <;> rfl

theorem endpointAdmin_eq (hpath : routed request = .ok path) :
    endpointAdmin parseUuid chance db request =
      chosen chance db request.body own (endpointRoute parseUuid request.method path) := by
  unfold endpointAdmin endpointRoute
  rw [hpath, ok_bind]
  split_ifs
  · rfl
  · rfl
  · rw [chosen_routeById]
    rfl
  · rfl
  · exact userById_eq
  · rfl
  · rfl
  · exact bucketById_eq
  · rfl

theorem api_own (hpath : request.path = prefixPath ++ path) (hclaim : request.claim = some own)
    (hown : path = "/user".toList) :
    api parseUuid chance db request =
      chosen chance db request.body own (apiRoute parseUuid request.method path) := by
  unfold api apiRoute
  rw [routed_eq_ok_iff.2 hpath, ok_bind, if_pos hown, if_pos hown, claimed_eq_ok_iff.2 hclaim,
    ok_bind]
  cases request.method <;> rfl

theorem api_gate (hpath : request.path = prefixPath ++ path) (hown : path ≠ "/user".toList) :
    api parseUuid chance db request =
      middlewareUserAdmin chance db request
        (chosen chance db request.body own (apiRoute parseUuid request.method path)) := by
  have hrouted := routed_eq_ok_iff.2 hpath
  unfold api apiRoute
  rw [hrouted, ok_bind, if_neg hown, if_neg hown, endpointAdmin_eq hrouted]

/-- `api` runs the handler that is chosen, for an administrator. -/
theorem api_eq {user : User} (hpath : request.path = prefixPath ++ path)
    (hclaim : request.claim = some own)
    (huser : db.get (userWith "id" (.uuid own)) chance.order = .ok user)
    (hadmin : user.isAdmin = true) :
    api parseUuid chance db request =
      chosen chance db request.body own (apiRoute parseUuid request.method path) := by
  by_cases hown : path = "/user".toList
  · exact api_own hpath hclaim hown
  · rw [api_gate hpath hown, middlewareUserAdmin, claimed_eq_ok_iff.2 hclaim, ok_bind, huser]
    exact if_pos hadmin

end Requests

/-! ## Code and grammar -/

theorem apiRoute_error_status {error : ResponseErr}
    (h : apiRoute parseUuid method path = .error error) : error.status = 400 := by
  have hbyId : ∀ make text, routeById parseUuid make text = .error error →
      error.status = 400 := by
    intro make text h
    rw [routeById] at h
    split at h
    · cases h
    · obtain rfl := Except.error.inj h
      rfl
  unfold apiRoute endpointRoute bucketByIdRoute at h
  split_ifs at h
  · split at h
    · cases h
    · cases h
    · obtain rfl := Except.error.inj h
      rfl
  · exact hbyId _ _ h
  · exact hbyId _ _ h
  · split at h
    · obtain rfl := Except.error.inj h
      rfl
    · exact hbyId _ _ h
  · obtain rfl := Except.error.inj h
    rfl

section Identifiers

variable (hslash : ∀ text id, parseUuid text = some id → '/' ∉ text)

theorem stripSuffix_eq_some_iff {pat text rest : Str} :
    stripSuffix pat text = some rest ↔ text = rest ++ pat := by
  rw [stripSuffix]
  constructor
  · intro h
    split_ifs at h with hpat
    obtain ⟨rest', rfl⟩ := hpat
    simpa using h
  · rintro rfl
    simp

theorem splitNth1_of_not_mem {front : Str} (hfront : '/' ∉ front) (rest : Str) :
    splitNth1 "/user/".toList (front ++ ("/user/".toList ++ rest)) =
      some (match Text.splitOnce "/user/".toList rest with
        | none => rest
        | some (before, _) => before) := by
  have hfirst : Text.splitOnce "/user/".toList (front ++ ("/user/".toList ++ rest)) =
      some (front, rest) := Text.splitOnce_append_of_not_mem hfront rest
  rw [splitNth1, hfirst]
  rfl

theorem splitNth1_user (rest : Str) :
    splitNth1 "/user/".toList ("/user/".toList ++ rest) =
      some (match Text.splitOnce "/user/".toList rest with
        | none => rest
        | some (before, _) => before) :=
  splitNth1_of_not_mem List.not_mem_nil rest

include hslash in
theorem not_infix_of_parse {text : Str} {id : Uuid} (hid : parseUuid text = some id) :
    ¬"/user/".toList <:+: text :=
  fun hoccurs => hslash text id hid (hoccurs.subset (by decide))

include hslash in
theorem cutOut_of_endsIn {id : Uuid} (hends : EndsIn parseUuid path "/user/" id) :
    CutOut parseUuid path id := by
  obtain ⟨text, hid, rfl⟩ := hends
  refine ⟨List.prefix_append _ _, ?_⟩
  rw [splitNth1_user, Text.splitOnce_eq_none_iff.2 (not_infix_of_parse hslash hid)]
  exact hid

include hslash in
theorem cutOut_of_trailing {text rest : Str} {id : Uuid} (hid : parseUuid text = some id)
    (hpath : path = "/user/".toList ++ text ++ "/user/".toList ++ rest) :
    CutOut parseUuid path id := by
  have hsplit : Text.splitOnce "/user/".toList (text ++ ("/user/".toList ++ rest)) =
      some (text, rest) := Text.splitOnce_append_of_not_mem (hslash text id hid) rest
  rw [List.append_assoc, List.append_assoc] at hpath
  rw [hpath]
  refine ⟨List.prefix_append _ _, ?_⟩
  rw [splitNth1_user, hsplit]
  exact hid

/-- What is cut out is the whole rest, unless something follows that is not looked at. -/
theorem endsIn_of_cutOut {id : Uuid} (hmethod : method ∈ [.delete, .patch, .get])
    (hright : ¬Misrouted parseUuid method path) (hcut : CutOut parseUuid path id) :
    EndsIn parseUuid path "/user/" id := by
  obtain ⟨⟨rest, rfl⟩, hid⟩ := hcut
  rw [splitNth1_user, Option.bind_some] at hid
  cases hsplit : Text.splitOnce "/user/".toList rest with
  | none =>
      rw [hsplit] at hid
      exact ⟨rest, hid, rfl⟩
  | some parts =>
      rw [hsplit] at hid
      refine absurd (.trailing parts.1 parts.2 id hmethod hid ?_) hright
      rw [Text.append_of_splitOnce hsplit]
      simp only [List.append_assoc]

theorem stray_of_detailTaken {id : Uuid} (htaken : DetailTaken parseUuid path id) :
    Misrouted parseUuid .get path := by
  obtain ⟨hfront, hback, hid⟩ := htaken
  rw [Option.bind_eq_some_iff] at hid
  obtain ⟨text, htext, hid⟩ := hid
  obtain ⟨piece, hpiece, hstrip⟩ := Option.bind_eq_some_iff.1 htext
  rw [stripSuffix_eq_some_iff] at hstrip
  exact .stray text id rfl hid hfront hback (hstrip ▸ hpiece)

include hslash in
/-- Away from the requests that go wrong, the code hands out what is meant. -/
theorem reached_iff_meant (hright : ¬Misrouted parseUuid method path) (route : Route) :
    Reached parseUuid method path route ↔ Meant parseUuid method path route := by
  have huser : ∀ id, method ∈ [.delete, .patch, .get] →
      (CutOut parseUuid path id ↔ EndsIn parseUuid path "/user/" id) :=
    fun id hmethod => ⟨endsIn_of_cutOut hmethod hright, cutOut_of_endsIn hslash⟩
  cases route with
  | newUser => exact iff_of_false not_false fun h => hright (.newUser h.1 h.2)
  | userInfo id =>
      cases id with
      | none => rfl
      | some id =>
          refine iff_of_false ?_ ?_
          · rintro ⟨rfl, htaken⟩
            exact hright (stray_of_detailTaken htaken)
          · rintro ⟨rfl, text, hid, hpath⟩
            exact hright (.detail text id rfl hid hpath)
  | getUser id =>
      refine and_congr_right fun hmethod => huser id ?_
      rw [hmethod]
      decide
  | updateUser id =>
      refine and_congr_right fun hmethod => huser id ?_
      rw [hmethod]
      decide
  | deleteUser id =>
      refine and_congr_right fun hmethod => huser id ?_
      rw [hmethod]
      decide
  | _ => rfl

include hslash in
theorem not_misrouted (hfollows : FollowsGrammar parseUuid method path) :
    ¬Misrouted parseUuid method path := by
  have hruns : ∀ route, Reached parseUuid method path route ↔
      Meant parseUuid method path route :=
    fun route => apiRoute_eq_ok_iff.symm.trans (hfollows.runs_iff route)
  intro hwrong
  cases hwrong with
  | newUser hmethod hpath => exact (hruns .newUser).2 ⟨hmethod, hpath⟩
  | detail text id hmethod hid hpath =>
      obtain ⟨-, hfront, -⟩ := (hruns (.userInfo (some id))).2 ⟨hmethod, text, hid, hpath⟩
      rw [hpath] at hfront
      simp at hfront
  | stray text id hmethod hid hfront hback hpiece =>
      have htaken : DetailTaken parseUuid path id := by
        refine ⟨hfront, hback, ?_⟩
        rw [hpiece, Option.bind_some, stripSuffix_eq_some_iff.2 rfl]
        exact hid
      obtain ⟨-, text', -, hpath⟩ := (hruns (.userInfo (some id))).1 ⟨hmethod, htaken⟩
      rw [hpath] at hfront
      simp at hfront
  | trailing text rest id hmethod hid hpath =>
      have hcut := cutOut_of_trailing hslash hid hpath
      have hends : EndsIn parseUuid path "/user/" id := by
        cases method with
        | get => exact ((hruns (.getUser id)).1 ⟨rfl, hcut⟩).2
        | patch => exact ((hruns (.updateUser id)).1 ⟨rfl, hcut⟩).2
        | delete => exact ((hruns (.deleteUser id)).1 ⟨rfl, hcut⟩).2
        | post => exact absurd hmethod (by decide)
        | other => exact absurd hmethod (by decide)
      obtain ⟨text', hid', hpath'⟩ := hends
      apply hslash text' id hid'
      rw [hpath, List.append_assoc, List.append_assoc, List.append_cancel_left_eq] at hpath'
      rw [← hpath']
      simp

include hslash in
theorem followsGrammar_iff :
    FollowsGrammar parseUuid method path ↔ ¬Misrouted parseUuid method path := by
  refine ⟨not_misrouted hslash, fun hright => ?_⟩
  have hruns : ∀ route, apiRoute parseUuid method path = .ok route ↔
      Meant parseUuid method path route :=
    fun route => apiRoute_eq_ok_iff.trans (reached_iff_meant hslash hright route)
  refine ⟨hruns, fun hnone => ?_⟩
  cases hchoice : apiRoute parseUuid method path with
  | ok route => exact absurd ((hruns route).1 hchoice) (hnone route)
  | error error => exact ⟨error, rfl, apiRoute_error_status hchoice⟩

include hslash in
theorem detailTaken_of_stray {text : Str} {id : Uuid} (hid : parseUuid text = some id) :
    DetailTaken parseUuid ("user/user/".toList ++ (text ++ "/detail".toList)) id := by
  have habsent : ¬"/user/".toList <:+: text ++ "/detail".toList := by
    intro hoccurs
    exact absurd (Text.infix_of_infix_append (hslash text id hid) hoccurs) (by decide)
  have hpiece : splitNth1 "/user/".toList ("user/user/".toList ++ (text ++ "/detail".toList)) =
      some (text ++ "/detail".toList) := by
    have hsplit := splitNth1_of_not_mem (show '/' ∉ "user".toList by decide)
      (text ++ "/detail".toList)
    rw [Text.splitOnce_eq_none_iff.2 habsent] at hsplit
    exact hsplit
  refine ⟨⟨"user/".toList ++ (text ++ "/detail".toList), rfl⟩,
    ⟨"user/user/".toList ++ text, List.append_assoc _ _ _⟩, ?_⟩
  rw [hpiece, Option.bind_some, stripSuffix_eq_some_iff.2 rfl]
  exact hid

theorem exists_parse_of_reached (h : Reached parseUuid method path route) {id : Uuid}
    (hnamed : route.named = some id) : ∃ text, parseUuid text = some id := by
  have hcut : ∀ id, CutOut parseUuid path id → ∃ text, parseUuid text = some id := by
    rintro id ⟨-, hid⟩
    obtain ⟨text, -, hid⟩ := Option.bind_eq_some_iff.1 hid
    exact ⟨text, hid⟩
  have hends : ∀ id, EndsIn parseUuid path "/bucket/" id → ∃ text, parseUuid text = some id :=
    fun id ⟨text, hid, _⟩ => ⟨text, hid⟩
  cases route with
  | userInfo id' =>
      obtain rfl : id' = some id := hnamed
      obtain ⟨-, -, -, hid⟩ := h
      obtain ⟨text, -, hid⟩ := Option.bind_eq_some_iff.1 hid
      exact ⟨text, hid⟩
  | getUser _ => exact Option.some.inj hnamed ▸ hcut _ h.2
  | updateUser _ => exact Option.some.inj hnamed ▸ hcut _ h.2
  | deleteUser _ => exact Option.some.inj hnamed ▸ hcut _ h.2
  | getBucket _ => exact Option.some.inj hnamed ▸ hends _ h.2
  | updateBucket _ => exact Option.some.inj hnamed ▸ hends _ h.2
  | deleteBucket _ => exact Option.some.inj hnamed ▸ hends _ h.2
  | ownUpdate => cases hnamed
  | ownInfo => cases hnamed
  | newUser => cases hnamed
  | allUsers => cases hnamed
  | newBucket => cases hnamed
  | allBuckets => cases hnamed

include hslash in
theorem exists_reached (hnew : route ≠ .newUser)
    (hnamed : ∀ id, route.named = some id → ∃ text, parseUuid text = some id) :
    ∃ method path, Reached parseUuid method path route := by
  have huser : ∀ method ∈ [.delete, .patch, .get], ∀ id, (∃ text, parseUuid text = some id) →
      ∃ path, Reached parseUuid method path (userRoute method id) := by
    rintro method hmethod id ⟨text, hid⟩
    exact ⟨_, reached_userRoute hmethod (cutOut_of_endsIn hslash ⟨text, hid, rfl⟩)⟩
  have hbucket : ∀ method ∈ [.patch, .get, .delete], ∀ id, (∃ text, parseUuid text = some id) →
      ∃ path, Reached parseUuid method path (bucketRoute method id) := by
    rintro method hmethod id ⟨text, hid⟩
    exact ⟨_, reached_bucketRoute hmethod ⟨text, hid, rfl⟩⟩
  cases route with
  | ownUpdate => exact ⟨.patch, _, rfl, rfl⟩
  | ownInfo => exact ⟨.get, _, rfl, rfl⟩
  | newUser => exact absurd rfl hnew
  | allUsers => exact ⟨.get, _, rfl, rfl⟩
  | userInfo id =>
      cases id with
      | none => exact ⟨.get, _, rfl, rfl⟩
      | some id =>
          obtain ⟨text, hid⟩ := hnamed id rfl
          exact ⟨.get, _, rfl, detailTaken_of_stray hslash hid⟩
  | getUser id => exact ⟨.get, huser .get (by decide) id (hnamed id rfl)⟩
  | updateUser id => exact ⟨.patch, huser .patch (by decide) id (hnamed id rfl)⟩
  | deleteUser id => exact ⟨.delete, huser .delete (by decide) id (hnamed id rfl)⟩
  | newBucket => exact ⟨.post, _, rfl, rfl⟩
  | allBuckets => exact ⟨.get, _, rfl, rfl⟩
  | getBucket id => exact ⟨.get, hbucket .get (by decide) id (hnamed id rfl)⟩
  | updateBucket id => exact ⟨.patch, hbucket .patch (by decide) id (hnamed id rfl)⟩
  | deleteBucket id => exact ⟨.delete, hbucket .delete (by decide) id (hnamed id rfl)⟩

include hslash in
theorem reachable_iff (route : Route) :
    (∃ method path, apiRoute parseUuid method path = .ok route) ↔
      route ≠ .newUser ∧ ∀ id, route.named = some id → ∃ text, parseUuid text = some id := by
  simp only [apiRoute_eq_ok_iff]
  constructor
  · rintro ⟨method, path, h⟩
    refine ⟨?_, fun id => exists_parse_of_reached h⟩
    rintro rfl
    exact h
  · rintro ⟨hnew, hnamed⟩
    exact exists_reached hslash hnew hnamed

end Identifiers

end Choice

/-- For an administrator `api` runs what `apiRoute` chooses; the choice follows the grammar
exactly away from the requests that go wrong; and only `user::new` is never reached. -/
theorem api_followsGrammar_iff (parseUuid : Str → Option Uuid) (chance : Chance) (db : Db)
    (request : Request) (path : Str) (own : Uuid) (user : User)
    (hslash : ∀ text id, parseUuid text = some id → '/' ∉ text)
    (hpath : request.path = prefixPath ++ path) (hclaim : request.claim = some own)
    (huser : db.get (userWith "id" (.uuid own)) chance.order = .ok user)
    (hadmin : user.isAdmin = true) :
    api parseUuid chance db request =
        chosen chance db request.body own (apiRoute parseUuid request.method path) ∧
      (FollowsGrammar parseUuid request.method path ↔
        ¬Misrouted parseUuid request.method path) ∧
      ∀ route, (∃ method path, apiRoute parseUuid method path = .ok route) ↔
        route ≠ .newUser ∧ ∀ id, route.named = some id → ∃ text, parseUuid text = some id :=
  ⟨api_eq hpath hclaim huser hadmin, followsGrammar_iff hslash, reachable_iff hslash⟩

def stillChance : Chance := { order := .inserted, defaults := fun _ => .null, hash := some }

def nilRequest (method : Method) (path : Str) : Request :=
  { method, path := prefixPath ++ path, body := .empty, claim := some Uuid.nil }

def parseNil (text : Str) : Option Uuid := if text = nilText then some Uuid.nil else none

theorem parseNil_eq_some_iff {text : Str} {id : Uuid} :
    parseNil text = some id ↔ text = nilText ∧ Uuid.nil = id := by
  rw [parseNil]
  split_ifs with htext <;> simp [htext]

theorem slash_not_mem_nilText : '/' ∉ nilText := by decide

theorem nilUser_not_misrouted : ¬Misrouted parseNil .get ("/user/".toList ++ nilText) := by
  intro hwrong
  cases hwrong with
  | newUser hmethod => cases hmethod
  | detail text id _ _ hpath =>
      rw [List.append_assoc, List.append_cancel_left_eq] at hpath
      exact slash_not_mem_nilText (hpath ▸ by simp)
  | stray _ _ _ _ hfront => simp at hfront
  | trailing text rest id _ _ hpath =>
      rw [List.append_assoc, List.append_assoc, List.append_cancel_left_eq] at hpath
      exact slash_not_mem_nilText (hpath ▸ by simp)

/-- An administrator reads itself by its identifier. -/
theorem nilUser_followsGrammar :
    api parseNil stillChance oneUser (nilRequest .get ("/user/".toList ++ nilText)) =
        User.getOne stillChance oneUser Uuid.nil ∧
      FollowsGrammar parseNil .get ("/user/".toList ++ nilText) := by
  have hslash : ∀ text id, parseNil text = some id → '/' ∉ text := by
    intro text id hid
    rw [(parseNil_eq_some_iff.1 hid).1]
    exact slash_not_mem_nilText
  obtain ⟨hruns, hfollows, -⟩ := api_followsGrammar_iff parseNil stillChance oneUser
    (nilRequest .get ("/user/".toList ++ nilText)) _ Uuid.nil _ hslash rfl rfl rfl rfl
  have hright := hfollows.2 nilUser_not_misrouted
  refine ⟨?_, hright⟩
  rw [hruns, (hright.runs_iff (.getUser Uuid.nil)).2 ⟨rfl, nilText, ?_, rfl⟩]
  · rfl
  · exact parseNil_eq_some_iff.2 ⟨rfl, rfl⟩

/-- An administrator who posts a user is told that there is no such path. -/
theorem newUser_rejected :
    api parseNil stillChance oneUser (nilRequest .post "/user".toList) =
        refuse "Path not found" 400 ∧
      ¬FollowsGrammar parseNil .post "/user".toList := by
  refine ⟨rfl, fun hfollows => ?_⟩
  have hchoice := (hfollows.runs_iff .newUser).2 ⟨rfl, rfl⟩
  cases hchoice

end WsHyper.Auth
