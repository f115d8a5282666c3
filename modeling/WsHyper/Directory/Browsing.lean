import WsHyper.Directory.FlatView

/-!
# Browsing

`entry` lists what a path under `/tree` addresses.  The path is a bucket and a key as
they are, and what is looked up is unwrapped.  An upgrade gets a websocket to the broker
of the entry instead, for which `entry` waits before it answers.
-/

namespace WsHyper.Directory

open WsHyper.Lib WsHyper.Lib.Text

/-! ## Listings -/

inductive Fhs
  | branch (key : Option Segment) (innerKey : Option (List Fhs)) (objects : Option (List Object))
  | leaf (segment : Segment)

namespace Fhs

/-- `From<&KeyEntry>`. -/
def ofEntry (entry : KeyEntry) : Fhs :=
  .branch none (entry.keys.map fun keys => keys.map fun key => .leaf key.1) entry.objects

def names : Fhs → Option (List Segment)
  | branch _ innerKey _ => innerKey.map fun inner => inner.map fun
      | leaf segment => segment
      | branch key _ _ => key.getD []
  | leaf _ => none

def objects : Fhs → Option (List Object)
  | branch _ _ objects => objects
  | leaf _ => none

end Fhs

def KeyEntry.names (entry : KeyEntry) : Option (List Segment) :=
  entry.keys.map fun keys => keys.map Prod.fst

/-! ## The handler -/

inductive HttpMethod
  | get
  | other
  deriving DecidableEq

structure TreeRequest where
  method : HttpMethod
  path : Str
  /-- `is_upgrade_request`. -/
  isUpgrade : Bool
  /-- The handshake of an upgrade can be done. -/
  upgrades : Bool
  /-- What the future of `upgrade` gives, once it is ready. -/
  websocket : Option (Except Str Unit)

inductive TreeAnswer
  | response (status : Nat) (body : Option Fhs)
  /-- The answer to a handshake, and the broker of the websocket, if it has got one. -/
  | switches (broker : Option Broker)

def stripTree (path : Str) : Option Str :=
  if "/tree".toList <+: path then some (stripPrefix ['/'] (path.drop "/tree".toList.length))
  else none

def addressed (path : Str) : Bucket × Key := (splitOnce ['/'] path).getD (path, Key.root)

/-- `subscriber`, by the broker that a websocket is started with. -/
def BucketMap.subscriber (m : BucketMap) (bucket : Option Bucket) (key : Option Key) :
    Option (Except Str Unit) → Except Panic (Option Broker)
  | none => .error .pending
  | some (.error _) => .ok none
  | some (.ok ()) =>
      match bucket with
      | some bucket => .ok ((m.getEntry bucket (key.getD Key.root)).map KeyEntry.broker)
      | none => .ok (some m.broker)

section Entry

variable (rfc3339 : OffsetDateTime → Option Str)

def Object.Writable (object : Object) : Prop :=
  ∀ time ∈ [object.modified, object.accessed, object.created], ∀ t ∈ time, (rfc3339 t).isSome

instance (object : Object) : Decidable (Object.Writable rfc3339 object) :=
  inferInstanceAs
    (Decidable (∀ time ∈ [object.modified, object.accessed, object.created], ∀ t ∈ time, _))

/-- `json!`, which unwraps the serialization. -/
def json (body : Fhs) : Except Panic Fhs :=
  if ∀ object ∈ body.objects.getD [], object.Writable rfc3339 then .ok body
  else .error .unwrapErr

def entry (m : BucketMap) (request : TreeRequest) : Except Panic TreeAnswer :=
  match stripTree request.path with
  | none => .ok (.response 400 none)
  | some path =>
      if request.method ≠ .get then .ok (.response 405 none)
      else if path = [] then .error .todo
      else
        let (bucket, key) := addressed path
        if request.isUpgrade then
          if request.upgrades then do
            let broker ← m.subscriber (some bucket) (some key) request.websocket
            .ok (.switches broker)
          else .error .unwrapErr
        else do
          let found ← unwrap (m.getEntry bucket key)
          let body ← json rfc3339 (.ofEntry found)
          .ok (.response 200 (some body))

/-! ## What is addressed -/

/-- Names of a path: there is none between two slashes. -/
def ArePieces (names : List Segment) : Prop := ∀ name ∈ names, name ≠ [] ∧ '/' ∉ name

def joined (bucket : Bucket) (keys : List Segment) : Str := ['/'].intercalate (bucket :: keys)

/-- The path is `bucket` or `bucket/k1/../kn`, maybe with a slash behind it, of an entry. -/
def Addresses (m : BucketMap) (path : Str) (found : KeyEntry) : Prop :=
  ∃ bucket keys, ArePieces (bucket :: keys) ∧
    (path = joined bucket keys ∨ path = joined bucket keys ++ ['/']) ∧
    m.entryAt bucket keys = some found

def Lists (answer : Except Panic TreeAnswer) (found : KeyEntry) : Prop :=
  ∃ body, answer = .ok (.response 200 (some body)) ∧ body.names = found.names ∧
    body.objects = found.objects

/-- The entry that is addressed is listed, and if there is none the answer is an error. -/
structure Browses (m : BucketMap) (path : Str) (answer : Except Panic TreeAnswer) : Prop where
  lists : ∀ found, Addresses m path found → Lists answer found
  refuses : (∀ found, ¬Addresses m path found) →
    ∃ status, answer = .ok (.response status none) ∧ 400 ≤ status

def SameListing (found other : KeyEntry) : Prop :=
  found.names = other.names ∧ found.objects = other.objects

inductive LookedUp (m : BucketMap) (path : Str) (found : KeyEntry) : Prop
  /-- The key `.` is taken for the bucket. -/
  | named (bucket : Bucket) (keys : List Segment) (hpieces : ArePieces (bucket :: keys))
      (hpath : path = joined bucket keys) (hfound : m.entryAt bucket keys = some found)
      (hdot : keys = [['.']] → ∃ other, m.entryAt bucket [] = some other ∧ SameListing other found)
  /-- Behind the last slash a key without a name is looked up. -/
  | nameless (bucket : Bucket) (keys : List Segment) (other : KeyEntry)
      (hpieces : ArePieces (bucket :: keys)) (hpath : path = joined bucket keys ++ ['/'])
      (hfound : m.entryAt bucket keys = some found)
      (hother : m.entryAt bucket (keys ++ [[]]) = some other) (hsame : SameListing other found)

/-! ## What is looked up -/

section Paths

variable {m : BucketMap} {path : Str} {bucket : Bucket} {keys : List Segment}

theorem joined_slash (bucket : Bucket) (keys : List Segment) :
    joined bucket keys ++ ['/'] = joined bucket (keys ++ [[]]) := by
  rw [joined, joined, ← List.cons_append, intercalate_append _ (by simp) (by simp)]
  simp

theorem addressed_joined (hslash : ∀ name ∈ bucket :: keys, '/' ∉ name) :
    addressed (joined bucket keys) = (bucket, Key.ofPath keys) := by
  have hbucket := hslash bucket List.mem_cons_self
  cases keys with
  | nil =>
      have hnone : splitOnce ['/'] bucket = none := by
        rw [splitOnce_eq_none_iff]
        exact fun hoccurs => hbucket (hoccurs.subset (List.mem_singleton_self _))
      rw [addressed, joined, List.intercalate_singleton, hnone]
      rfl
  | cons key keys =>
      have hsplit : splitOnce ['/'] (bucket ++ (['/'] ++ ['/'].intercalate (key :: keys))) =
          some (bucket, ['/'].intercalate (key :: keys)) :=
        splitOnce_append_of_not_mem hbucket _
      rw [addressed, joined, List.intercalate_cons_cons, List.append_assoc, hsplit,
        Key.ofPath_of_ne_nil (by simp)]
      rfl

theorem getEntry_joined (m : BucketMap) (hslash : ∀ name ∈ bucket :: keys, '/' ∉ name) :
    m.getEntry (addressed (joined bucket keys)).1 (addressed (joined bucket keys)).2 =
      m.entryAt bucket (if keys = [['.']] then [] else keys) := by
  rw [addressed_joined hslash, BucketMap.getEntry_eq]
  split_ifs with hdot
  · rw [hdot]
    rfl
  · by_cases hkeys : keys = []
    · rw [hkeys]
      rfl
    · have hkeysSlash : ∀ name ∈ keys, '/' ∉ name := fun name hname =>
        hslash name (List.mem_cons_of_mem _ hname)
      have hroot : Key.ofPath keys ≠ Key.root := by
        intro hroot
        apply hdot
        rw [Key.ofPath_of_ne_nil hkeys] at hroot
        rw [← List.splitOn_intercalate '/' hkeysSlash hkeys, hroot]
        decide
      rw [Key.path_ofPath_of_ne_root hkeysSlash hroot]

theorem stripTree_tree (path : Str) : stripTree ("/tree/".toList ++ path) = some path := by
  rw [stripTree, if_pos (by simp)]
  simp [stripPrefix]

end Paths

section Answers

variable {m : BucketMap} {request : TreeRequest} {path : Str} {bucket : Bucket}
  {keys : List Segment}

theorem entry_joined (hmethod : request.method = .get) (hupgrade : request.isUpgrade = false)
    (hpath : request.path = "/tree/".toList ++ joined bucket keys)
    (hne : joined bucket keys ≠ []) (hslash : ∀ name ∈ bucket :: keys, '/' ∉ name) :
    entry rfc3339 m request = (do
      let found ← unwrap (m.entryAt bucket (if keys = [['.']] then [] else keys))
      let body ← json rfc3339 (.ofEntry found)
      .ok (.response 200 (some body))) := by
  rw [entry, hpath, stripTree_tree]
  dsimp only
  rw [if_neg (by simp [hmethod]), if_neg hne, ← getEntry_joined m hslash,
    if_neg (by simp [hupgrade])]

theorem names_ofEntry (found : KeyEntry) : (Fhs.ofEntry found).names = found.names := by
  rw [Fhs.ofEntry, Fhs.names, KeyEntry.names]
  cases found.keys with
  | none => rfl
  | some keys => simp [Function.comp_def]

def KeyEntry.Writable (found : KeyEntry) : Prop :=
  ∀ object ∈ found.objects.getD [], object.Writable rfc3339

theorem lists_iff {other found : KeyEntry} :
    Lists (do
      let body ← json rfc3339 (.ofEntry other)
      .ok (.response 200 (some body))) found ↔
      other.Writable rfc3339 ∧ SameListing other found := by
  rw [json]
  split_ifs with hwritable
  · constructor
    · rintro ⟨body, hbody, hnames, hobjects⟩
      obtain rfl : Fhs.ofEntry other = body := by
        simpa only [ok_bind, Except.ok.injEq, TreeAnswer.response.injEq, Option.some.injEq,
          true_and] using hbody
      exact ⟨hwritable, (names_ofEntry other).symm.trans hnames, hobjects⟩
    · rintro ⟨-, hnames, hobjects⟩
      exact ⟨.ofEntry other, rfl, (names_ofEntry other).trans hnames, hobjects⟩
  · constructor
    · rintro ⟨body, hbody, -⟩
      cases hbody
    · exact fun h => absurd h.1 hwritable

end Answers

section Addressing

variable {m : BucketMap} {path : Str} {bucket : Bucket} {keys : List Segment}
  {found other : KeyEntry}

theorem ArePieces.slash (hpieces : ArePieces keys) : ∀ name ∈ keys, '/' ∉ name :=
  fun name hname => (hpieces name hname).2

theorem splitOn_joined (hslash : ∀ name ∈ bucket :: keys, '/' ∉ name) :
    (joined bucket keys).splitOn '/' = bucket :: keys :=
  List.splitOn_intercalate '/' hslash (by simp)

theorem splitOn_joined_slash (hpieces : ArePieces (bucket :: keys)) :
    (joined bucket keys ++ ['/']).splitOn '/' = bucket :: (keys ++ [[]]) := by
  rw [joined_slash, splitOn_joined]
  intro name hname
  rw [← List.cons_append, List.mem_append, List.mem_singleton] at hname
  rcases hname with hname | rfl
  · exact hpieces.slash name hname
  · exact List.not_mem_nil

/-- What a path splits into is its names, or its names and the empty rest behind a slash. -/
theorem addresses_iff : Addresses m path found ↔
    ∃ bucket keys, ArePieces (bucket :: keys) ∧ m.entryAt bucket keys = some found ∧
      (path.splitOn '/' = bucket :: keys ∨ path.splitOn '/' = bucket :: (keys ++ [[]])) := by
  constructor
  · rintro ⟨bucket, keys, hpieces, rfl | rfl, hfound⟩
    · exact ⟨bucket, keys, hpieces, hfound, .inl (splitOn_joined hpieces.slash)⟩
    · exact ⟨bucket, keys, hpieces, hfound, .inr (splitOn_joined_slash hpieces)⟩
  · rintro ⟨bucket, keys, hpieces, hfound, hsplit⟩
    refine ⟨bucket, keys, hpieces, ?_, hfound⟩
    have hjoin : ['/'].intercalate (path.splitOn '/') = path := List.intercalate_splitOn '/'
    rcases hsplit with hsplit | hsplit
    · rw [hsplit] at hjoin
      exact .inl hjoin.symm
    · rw [hsplit] at hjoin
      exact .inr (by rw [joined_slash, joined, hjoin])

theorem addresses_unique (hfound : Addresses m path found) (hother : Addresses m path other) :
    found = other := by
  obtain ⟨bucket, keys, hpieces, hfound, hsplit⟩ := addresses_iff.1 hfound
  obtain ⟨bucket', keys', hpieces', hother, hsplit'⟩ := addresses_iff.1 hother
  -- no name is empty, so the two readings of a path do not meet
  have hlast : ∀ {names : List Segment} {bucket keys}, ArePieces names →
      names ≠ bucket :: (keys ++ [[]]) := by
    rintro names bucket keys hnames rfl
    exact (hnames [] (by simp)).1 rfl
  rcases hsplit with hsplit | hsplit
  · rcases hsplit' with hsplit' | hsplit'
    · obtain ⟨rfl, rfl⟩ := List.cons.inj (hsplit.symm.trans hsplit')
      exact Option.some.inj (hfound.symm.trans hother)
    · exact absurd (hsplit.symm.trans hsplit') (hlast hpieces)
  · rcases hsplit' with hsplit' | hsplit'
    · exact absurd (hsplit'.symm.trans hsplit) (hlast hpieces')
    · obtain ⟨rfl, hkeys⟩ := List.cons.inj (hsplit.symm.trans hsplit')
      obtain rfl := List.append_cancel_right hkeys
      exact Option.some.inj (hfound.symm.trans hother)

theorem Addresses.ne_nil (haddresses : Addresses m path found) : path ≠ [] := by
  rintro rfl
  obtain ⟨bucket, keys, hpieces, -, hsplit | hsplit⟩ := addresses_iff.1 haddresses
  · obtain ⟨hbucket, -⟩ := List.cons.inj hsplit
    exact (hpieces bucket List.mem_cons_self).1 hbucket.symm
  · obtain ⟨hbucket, -⟩ := List.cons.inj hsplit
    exact (hpieces bucket List.mem_cons_self).1 hbucket.symm

theorem LookedUp.addresses (h : LookedUp m path found) : Addresses m path found := by
  cases h with
  | named bucket keys hpieces hpath hfound => exact ⟨bucket, keys, hpieces, .inl hpath, hfound⟩
  | nameless bucket keys other hpieces hpath hfound =>
      exact ⟨bucket, keys, hpieces, .inr hpath, hfound⟩

theorem exists_joined (path : Str) : ∃ bucket keys, path = joined bucket keys ∧
    ∀ name ∈ bucket :: keys, '/' ∉ name := by
  obtain ⟨bucket, keys, hsplit⟩ := List.exists_cons_of_ne_nil (List.splitOn_ne_nil '/' path)
  have hjoin : ['/'].intercalate (path.splitOn '/') = path := List.intercalate_splitOn '/'
  rw [hsplit] at hjoin
  refine ⟨bucket, keys, hjoin.symm, fun name hname => ?_⟩
  rw [← hsplit] at hname
  exact not_mem_of_mem_splitOn hname

/-- The entry that is found lists the same as the one that is addressed exactly if the path is
looked up as it is meant. -/
theorem lookedUp_iff (hslash : ∀ name ∈ bucket :: keys, '/' ∉ name)
    (haddresses : Addresses m (joined bucket keys) found) :
    LookedUp m (joined bucket keys) found ↔
      ∃ other, m.entryAt bucket (if keys = [['.']] then [] else keys) = some other ∧
        SameListing other found := by
  have hsplit := splitOn_joined hslash
  have hnameless : ∀ keys : List Segment, keys ++ [[]] ≠ [['.']] := by
    intro keys heq
    have hlast := congrArg List.getLast? heq
    simp at hlast
  constructor
  · intro hlooked
    cases hlooked with
    | named bucket' keys' hpieces hpath hfound hdot =>
        rw [hpath, splitOn_joined hpieces.slash] at hsplit
        obtain ⟨rfl, rfl⟩ := List.cons.inj hsplit
        split_ifs with hroot
        · exact hdot hroot
        · exact ⟨found, hfound, rfl, rfl⟩
    | nameless bucket' keys' other hpieces hpath hfound hother hsame =>
        rw [hpath, splitOn_joined_slash hpieces] at hsplit
        obtain ⟨rfl, rfl⟩ := List.cons.inj hsplit
        rw [if_neg (hnameless keys')]
        exact ⟨other, hother, hsame⟩
  · rintro ⟨other, hother, hsame⟩
    obtain ⟨bucket', keys', hpieces, hfound, hsplit' | hsplit'⟩ := addresses_iff.1 haddresses
    · obtain ⟨rfl, rfl⟩ := List.cons.inj (hsplit.symm.trans hsplit')
      refine .named bucket keys hpieces rfl hfound fun hroot => ?_
      rw [if_pos hroot] at hother
      exact ⟨other, hother, hsame⟩
    · obtain ⟨rfl, rfl⟩ := List.cons.inj (hsplit.symm.trans hsplit')
      rw [if_neg (hnameless keys')] at hother
      have hpath := (joined_slash bucket keys').symm
      exact .nameless bucket keys' other hpieces hpath hfound hother hsame

end Addressing

section Browsing

variable {m : BucketMap} {request : TreeRequest} {path : Str} {found : KeyEntry}

theorem SameListing.writable_iff {other : KeyEntry} (hsame : SameListing other found) :
    other.Writable rfc3339 ↔ found.Writable rfc3339 := by
  rw [KeyEntry.Writable, KeyEntry.Writable, hsame.2]

theorem lists_entry_iff (hmethod : request.method = .get) (hupgrade : request.isUpgrade = false)
    (hpath : request.path = "/tree/".toList ++ path) (haddresses : Addresses m path found) :
    Lists (entry rfc3339 m request) found ↔
      LookedUp m path found ∧ found.Writable rfc3339 := by
  obtain ⟨bucket, keys, rfl, hslash⟩ := exists_joined path
  rw [entry_joined rfc3339 hmethod hupgrade hpath haddresses.ne_nil hslash,
    lookedUp_iff hslash haddresses]
  cases m.entryAt bucket (if keys = [['.']] then [] else keys) with
  | none =>
      refine iff_of_false ?_ ?_
      · rintro ⟨body, hbody, -⟩
        cases hbody
      · rintro ⟨⟨other, hother, -⟩, -⟩
        cases hother
  | some other =>
      rw [unwrap_some, ok_bind, lists_iff]
      constructor
      · rintro ⟨hwritable, hsame⟩
        exact ⟨⟨other, rfl, hsame⟩, (hsame.writable_iff rfc3339).1 hwritable⟩
      · rintro ⟨⟨other', hother, hsame⟩, hwritable⟩
        obtain rfl := Option.some.inj hother
        exact ⟨(hsame.writable_iff rfc3339).2 hwritable, hsame⟩

theorem entry_not_error (hmethod : request.method = .get)
    (hpath : request.path = "/tree/".toList ++ path) {status : Nat} :
    entry rfc3339 m request ≠ .ok (.response status none) := by
  intro hanswer
  rw [entry, hpath, stripTree_tree] at hanswer
  dsimp only at hanswer
  rw [if_neg (by simp [hmethod])] at hanswer
  split_ifs at hanswer
  · obtain ⟨broker, -, hanswer⟩ := bind_eq_ok hanswer
    cases hanswer
  · obtain ⟨found, -, hanswer⟩ := bind_eq_ok hanswer
    obtain ⟨body, -, hanswer⟩ := bind_eq_ok hanswer
    cases hanswer

theorem not_lists_of_upgrade (hupgrade : request.isUpgrade = true)
    (hpath : request.path = "/tree/".toList ++ path) (hmethod : request.method = .get) :
    ¬Lists (entry rfc3339 m request) found := by
  rintro ⟨body, hanswer, -⟩
  rw [entry, hpath, stripTree_tree] at hanswer
  dsimp only at hanswer
  rw [if_neg (by simp [hmethod]), if_pos hupgrade] at hanswer
  split_ifs at hanswer
  obtain ⟨broker, -, hanswer⟩ := bind_eq_ok hanswer
  cases hanswer

end Browsing

/-- A path is browsed exactly if the request is no upgrade, and the path is looked up as it is
meant and leads to an entry whose times can be written. -/
theorem browses_iff (rfc3339 : OffsetDateTime → Option Str) (m : BucketMap)
    (request : TreeRequest) (path : Str) (hmethod : request.method = .get)
    (hpath : request.path = "/tree/".toList ++ path) :
    Browses m path (entry rfc3339 m request) ↔
      request.isUpgrade = false ∧
        ∃ found, LookedUp m path found ∧ found.Writable rfc3339 := by
  constructor
  · rintro ⟨hlists, hrefuses⟩
    by_cases haddressed : ∃ found, Addresses m path found
    · obtain ⟨found, haddresses⟩ := haddressed
      have hlisted := hlists found haddresses
      cases hupgrade : request.isUpgrade with
      | true => exact absurd hlisted (not_lists_of_upgrade rfc3339 hupgrade hpath hmethod)
      | false =>
          exact ⟨rfl, found,
            (lists_entry_iff rfc3339 hmethod hupgrade hpath haddresses).1 hlisted⟩
    · obtain ⟨status, hanswer, -⟩ := hrefuses (not_exists.1 haddressed)
      exact absurd hanswer (entry_not_error rfc3339 hmethod hpath)
  · rintro ⟨hupgrade, found, hlooked, hwritable⟩
    refine ⟨fun other hother => ?_, fun hnone => absurd hlooked.addresses (hnone found)⟩
    obtain rfl := addresses_unique hlooked.addresses hother
    exact (lists_entry_iff rfc3339 hmethod hupgrade hpath hother).2 ⟨hlooked, hwritable⟩

end Entry

def mapOfB : BucketMap :=
  { path := []
    tree := [(['b'], .default 0)]
    broker := 1 }

def getTree (path : String) : TreeRequest :=
  { method := .get
    path := "/tree/".toList ++ path.toList
    isUpgrade := false
    upgrades := false
    websocket := none }

/-- The bucket is listed. -/
theorem mapOfB_browsed :
    Browses mapOfB "b".toList (entry (fun _ => none) mapOfB (getTree "b")) := by
  refine (browses_iff (fun _ => none) mapOfB (getTree "b") _ rfl rfl).2
    ⟨rfl, .default 0, .named ['b'] [] ?_ rfl rfl ?_, ?_⟩
  · intro name hname
    rw [List.mem_singleton.1 hname]
    decide
  · exact fun hkeys => absurd hkeys (by decide)
  · intro object hobject
    cases hobject

/-- With a slash behind it the handler panics. -/
theorem mapOfB_slash_panics :
    entry (fun _ => none) mapOfB (getTree "b/") = .error .unwrapNone ∧
      ¬Browses mapOfB "b/".toList (entry (fun _ => none) mapOfB (getTree "b/")) := by
  have hpanics : entry (fun _ => none) mapOfB (getTree "b/") = .error .unwrapNone := rfl
  refine ⟨hpanics, fun hbrowses => ?_⟩
  have haddresses : Addresses mapOfB "b/".toList (.default 0) := by
    refine ⟨['b'], [], ?_, .inr rfl, rfl⟩
    intro name hname
    rw [List.mem_singleton.1 hname]
    decide
  obtain ⟨body, hanswer, -⟩ := hbrowses.lists _ haddresses
  rw [hpanics] at hanswer
  cases hanswer

end WsHyper.Directory
