import WsHyper.Directory.KeyPieces

/-!
# Objects created over gRPC

`create_object` pushes the bucket, the key and the name of a request to the path of the
watched root, one after the other, and creates a file there.  The watcher reads the
address of a new file back from its path.
-/

namespace WsHyper.Directory

open WsHyper.Lib

structure FileNameReq where
  bucket : Str
  key : Str
  name : Str

structure FileNameReply where
  fileName : Str

/-- `tonic::Status`; its message is the text of the error. -/
inductive Status
  | cancelled (message : CreateError)

structure BucketGrpcSrv where
  path : CanonicalPath

namespace BucketGrpcSrv

/-- The path that `create_object` builds. -/
def objectPath (server : BucketGrpcSrv) (request : FileNameReq) : OsStr :=
  (((OsStr.ofPath server.path.path).push (.ofStr request.bucket)).push
    (.ofStr request.key)).push (.ofStr request.name)

/-- The reply, and what is there after the call; `refusal` is what else stands against it. -/
def createObject (server : BucketGrpcSrv) (fs : FileSystem) (refusal : Option CreateError)
    (request : FileNameReq) : Except Panic (Except Status FileNameReply) × FileSystem :=
  let path := server.objectPath request
  match fs.createNew refusal path with
  | .error er => (.ok (.error (.cancelled er)), fs)
  | .ok fs' => (do return .ok { fileName := ← unwrap path.toStr }, fs')

end BucketGrpcSrv

/-! ## Addresses -/

/-- The file lies below the root, and its bucket, its key and its name, as the watcher
reads them, are those of the request. -/
structure Addressed (root : Path) (request : FileNameReq) (file : Path) : Prop where
  below : ∃ rest, rest ≠ [] ∧ file = root ++ rest
  bucket : Bucket.findBucket root file = .ok (some request.bucket)
  key : file.parent.bind (Key.fromBucket request.bucket) = some request.key
  name : file.fileName = some (.ofStr request.name)

/-- What is created is found under the address that was asked for; where nothing is
created, the reply is an error and everything stays as it was. -/
def CreatesAddressed (server : BucketGrpcSrv) (fs : FileSystem) (refusal : Option CreateError)
    (request : FileNameReq) : Prop :=
  let result := server.createObject fs refusal request
  (∀ file, fs.Created result.2 file → Addressed server.path.path request file) ∧
    ((∀ file, ¬fs.Created result.2 file) →
      result.2 = fs ∧ ∃ status, result.1 = .ok (.error status))

/-- The requests whose path leads to the address that is read back from it: the bucket and
the name can be entries of a directory, and the key is `.` or names joined by `/`, while
the bucket's name is not in the text of the root.  If it is, with `..` behind it at the end
of that text, the key has to go up to the root and down again. -/
structure Fits (root : Path) (request : FileNameReq) : Prop where
  bucket : IsName request.bucket
  name : IsName request.name
  key : ∃ text, root.toStr = some text ∧ ∃ segments : List Name,
    (¬request.bucket <:+: text ∧ request.key = Key.ofPath (segments.map Name.text)) ∨
    (∃ before, Text.splitOnce request.bucket text = some (before, ['.', '.'])) ∧
      request.key = ['.', '.', '/'] ++ request.bucket ++ Path.below (segments.map Name.text)

/-! ## Where the path leads -/

section Created

variable {server : BucketGrpcSrv} {fs : FileSystem} {request : FileNameReq}
  {dir : fs.Directory} {name : OsStr}

def BucketGrpcSrv.keyPath (server : BucketGrpcSrv) (request : FileNameReq) : OsStr :=
  ((OsStr.ofPath server.path.path).push (.ofStr request.bucket)).push (.ofStr request.key)

theorem keyPath_ne_nil : server.keyPath request ≠ [] :=
  PathText.push_ne_nil (PathText.push_ne_nil (OsStr.ofPath_ne_nil _) _) _

theorem pieces_keyPath (hbucket : IsName request.bucket)
    (hkey : PathText.isAbsolute '/' request.key = false) :
    OsStr.pieces (server.keyPath request) =
      server.path.path ++ .ofStr request.bucket :: OsStr.pieces (.ofStr request.key) := by
  have hname := OsStr.isComponent_ofStr_iff.2 hbucket
  have hrelative := PathText.isAbsolute_eq_false_of_not_mem hname.1.2.1
  rw [← isAbsolute_ofStr] at hkey
  calc
    _ = OsStr.pieces ((OsStr.ofPath server.path.path).push (.ofStr request.bucket)) ++
          OsStr.pieces (.ofStr request.key) := PathText.pieces_push hkey
    _ = OsStr.pieces (OsStr.ofPath server.path.path) ++ OsStr.pieces (.ofStr request.bucket) ++
          OsStr.pieces (.ofStr request.key) := by
        rw [show OsStr.pieces ((OsStr.ofPath server.path.path).push (.ofStr request.bucket)) = _
          from PathText.pieces_push hrelative]
        rfl
    _ = _ := by
        rw [OsStr.pieces_ofPath server.path.components, pieces_name ⟨request.bucket, hbucket⟩,
          List.append_assoc, List.singleton_append]

theorem exists_bucketDir (hbucket : IsName request.bucket)
    (hkey : PathText.isAbsolute '/' request.key = false)
    (hwalk : fs.walk fs.root (OsStr.pieces (server.keyPath request)) = some dir) :
    ∃ bucketDir : fs.Directory,
      bucketDir.path = server.path.path ++ [.ofStr request.bucket] ∧
        fs.walk bucketDir (OsStr.pieces (.ofStr request.key)) = some dir := by
  have hcomponents : ∀ piece ∈ server.path.path ++ [.ofStr request.bucket],
      piece ≠ OsStr.dotDot := by
    intro piece hpiece
    rcases List.mem_append.1 hpiece with hroot | hlast
    · exact (server.path.components piece hroot).2
    · rw [List.mem_singleton.1 hlast]
      exact (OsStr.isComponent_ofStr_iff.2 hbucket).2
  rw [pieces_keyPath hbucket hkey, ← List.singleton_append, ← List.append_assoc,
    FileSystem.walk_append, Option.bind_eq_some_iff] at hwalk
  obtain ⟨bucketDir, hbelow, hrest⟩ := hwalk
  exact ⟨bucketDir, FileSystem.walk_of_ne_dotDot hcomponents hbelow, hrest⟩

/-- The name of a bucket that is found in the root with `..` behind it. -/
theorem fromBucket_of_dots {root : List Name} (bucket : Name) {before : Str}
    (hsplit : Text.splitOnce bucket.text (Path.render (root.map Name.text)) =
      some (before, ['.', '.'])) (segments : List Name) :
    Key.fromBucket bucket.text (Path.ofNames (root ++ bucket :: segments)) =
      some (['.', '.', '/'] ++ bucket.text ++ Path.below (segments.map Name.text)) := by
  rw [splitOnce_render] at hsplit
  rw [Key.fromBucket_below, Key.decoded, Key.leftover_of_splitOnce root bucket hsplit,
    ofRest_of_head (by simp) (by simp)]
  simp

theorem dir_of_up {bucketDir : fs.Directory} (root : Path) {child : OsStr}
    {names : List Name}
    (hbucketDir : bucketDir.path = root ++ [child])
    (hwalk : fs.walk bucketDir (OsStr.dotDot :: Path.ofNames names) = some dir) :
    dir.path = root ++ Path.ofNames names := by
  rw [FileSystem.walk_cons, Option.bind_eq_some_iff] at hwalk
  obtain ⟨up, hup, hdown⟩ := hwalk
  rw [FileSystem.walk_of_ne_dotDot ne_dotDot_ofNames hdown, FileSystem.enter_dotDot hup, hbucketDir,
    List.dropLast_concat]

theorem dir_of_dots {bucketDir : fs.Directory} {root : Path} (bucket : Name)
    {segments : List Name} (hbucketDir : bucketDir.path = root ++ [.ofStr bucket.text])
    (hwalk : fs.walk bucketDir (OsStr.pieces (.ofStr
      (['.', '.', '/'] ++ bucket.text ++ Path.below (segments.map Name.text)))) = some dir) :
    dir.path = root ++ .ofStr bucket.text :: Path.ofNames segments := by
  have hpieces : OsStr.pieces (.ofStr
      (['.', '.', '/'] ++ bucket.text ++ Path.below (segments.map Name.text))) =
        OsStr.dotDot :: Path.ofNames (bucket :: segments) := by
    rw [pieces_append_below, show ['.', '.', '/'] ++ bucket.text = ['.', '.'] ++ '/' :: bucket.text
      from rfl, pieces_append_slash, pieces_dots, pieces_name]
    rfl
  rw [hpieces] at hwalk
  exact dir_of_up root hbucketDir hwalk

theorem read_back_of_fits (hfits : Fits server.path.path request)
    (hwalk : fs.walk fs.root (OsStr.pieces (server.keyPath request)) = some dir) :
    ∃ segments, dir.path = server.path.path ++ .ofStr request.bucket :: segments ∧
      Key.fromBucket request.bucket dir.path = some request.key := by
  obtain ⟨hbucket, -, text, htext, segments, hkey⟩ := hfits
  obtain ⟨root, hroot⟩ := names_of_components server.path.components (by rw [htext]; rfl)
  rw [hroot, Path.toStr_ofNames, Option.some.injEq] at htext
  subst htext
  have hread : Key.fromBucket request.bucket
      (Path.ofNames (root ++ ⟨request.bucket, hbucket⟩ :: segments)) = some request.key := by
    rcases hkey with ⟨habsent, hkey⟩ | ⟨⟨before, hsplit⟩, hkey⟩
    · rw [hkey]
      exact (Key.fromBucket_eq_ofPath_iff root ⟨request.bucket, hbucket⟩ segments).2 habsent
    · rw [hkey]
      exact fromBucket_of_dots ⟨request.bucket, hbucket⟩ hsplit segments
  obtain ⟨bucketDir, hbucketDir, hbelow⟩ :=
    exists_bucketDir hbucket (isAbsolute_of_fromBucket hread) hwalk
  have hdir : dir.path = server.path.path ++ .ofStr request.bucket :: Path.ofNames segments := by
    rcases hkey with ⟨-, hkey⟩ | ⟨-, hkey⟩
    · rw [hkey, pieces_ofPath_key] at hbelow
      rw [FileSystem.walk_of_ne_dotDot ne_dotDot_ofNames hbelow, hbucketDir, List.append_assoc,
        List.singleton_append]
    · rw [hkey] at hbelow
      exact dir_of_dots ⟨request.bucket, hbucket⟩ hbucketDir hbelow
  refine ⟨_, hdir, ?_⟩
  rw [hdir, hroot, ← hread, Path.ofNames, Path.ofNames, Path.ofNames, List.map_append,
    List.map_cons]

theorem path_ne_of_plain {root more segments : List Name} {bucket : Name} {first : List OsStr}
    {bucketDir : fs.Directory} (hplain : ∀ piece ∈ first, piece ≠ OsStr.dotDot)
    (hbucketDir : bucketDir.path = Path.ofNames (root ++ [bucket]))
    (hwalk : fs.walk bucketDir (first ++ Path.ofNames (more ++ bucket :: segments)) = some dir) :
    dir.path ≠ Path.ofNames (root ++ bucket :: segments) := by
  intro hdir
  have hall : ∀ piece ∈ first ++ Path.ofNames (more ++ bucket :: segments),
      piece ≠ OsStr.dotDot := by
    intro piece hpiece
    rcases List.mem_append.1 hpiece with hfirst | hlater
    · exact hplain piece hfirst
    · exact ne_dotDot_ofNames piece hlater
  have hdown := congrArg List.length (FileSystem.walk_of_ne_dotDot hall hwalk)
  rw [hdir, hbucketDir] at hdown
  simp only [Path.ofNames, List.length_append, List.length_map, List.length_cons] at hdown
  omega

/-- The converse: a directory whose key is read back is one that the request fits. -/
theorem key_of_read_back {root segments : List Name} {bucket : Name} {key : Key}
    {bucketDir : fs.Directory}
    (hread : Key.fromBucket bucket.text (Path.ofNames (root ++ bucket :: segments)) = some key)
    (hbucketDir : bucketDir.path = Path.ofNames (root ++ [bucket]))
    (hwalk : fs.walk bucketDir (OsStr.pieces (.ofStr key)) = some dir)
    (hdir : dir.path = Path.ofNames (root ++ bucket :: segments)) :
    (¬bucket.text <:+: Path.render (root.map Name.text) ∧
        key = Key.ofPath (segments.map Name.text)) ∨
      (∃ before, Text.splitOnce bucket.text (Path.render (root.map Name.text)) =
        some (before, ['.', '.'])) ∧
      key = ['.', '.', '/'] ++ bucket.text ++ Path.below (segments.map Name.text) := by
  rw [Key.fromBucket_below, Option.some.injEq] at hread
  by_cases hoccurs : bucket.text <:+: Path.render (root.map Name.text)
  · right
    obtain ⟨before, part, more, hpart, hsplit⟩ := exists_rest_of_occurs hoccurs
    rw [Key.decoded, Key.leftover_of_splitOnce root bucket hsplit] at hread
    have hpieces : OsStr.pieces (.ofStr key) =
        OsStr.pieces (.ofStr part) ++ Path.ofNames (more ++ bucket :: segments) := by
      rw [← hread, pieces_ofRest, pieces_append_below, pieces_append_slash,
        pieces_append_below, pieces_name]
      simp [Path.ofNames]
    rw [hpieces] at hwalk
    by_cases hdots : part = ['.', '.']
    · -- up to the root, and down over what is behind the name there
      subst hdots
      rw [pieces_dots, List.singleton_append] at hwalk
      have hdown := dir_of_up (Path.ofNames root) (by rw [hbucketDir, ofNames_append]; rfl)
        hwalk
      rw [hdir, ← ofNames_append, Path.ofNames_injective.eq_iff, List.append_cancel_left_eq,
        List.self_eq_append_left] at hdown
      subst hdown
      refine ⟨⟨before, by rw [splitOnce_render, hsplit]; rfl⟩, ?_⟩
      rw [← hread, ofRest_of_head (by simp) (by simp)]
      simp
    · have hplain : ∀ piece ∈ OsStr.pieces (.ofStr part), piece ≠ OsStr.dotDot := by
        intro piece hpiece
        obtain rfl := eq_of_mem_pieces hpart hpiece
        exact (OsStr.ofStr_injective.ne_iff' rfl).2 hdots
      exact absurd hdir (path_ne_of_plain hplain hbucketDir hwalk)
  · left
    exact ⟨hoccurs, by rw [← hread, Key.decoded_of_not_occurs hoccurs]⟩

theorem exists_below_bucketDir {bucketDir : fs.Directory} {root more : Path} {bucket : OsStr}
    (hbucketDir : bucketDir.path = root ++ [bucket])
    (hfree : fs.entry (dir.path ++ [name]) = none)
    (hfile : dir.path ++ [name] = root ++ bucket :: more) :
    ∃ segments, dir.path = root ++ bucket :: segments := by
  rcases List.eq_nil_or_concat more with rfl | ⟨segments, last, rfl⟩
  · rw [hfile, ← hbucketDir, bucketDir.isDir] at hfree
    cases hfree
  · rw [List.concat_eq_append, ← List.cons_append, ← List.append_assoc] at hfile
    exact ⟨segments, (List.append_inj' hfile rfl).1⟩

theorem fits_of_read_back {bucketDir : fs.Directory} {names : List Name} {more : Path}
    (hbucket : IsName request.bucket) (hname : IsName request.name)
    (hnames : dir.path = Path.ofNames names)
    (hdir : dir.path = server.path.path ++ .ofStr request.bucket :: more)
    (hkey : Key.fromBucket request.bucket dir.path = some request.key)
    (hbucketDir : bucketDir.path = server.path.path ++ [.ofStr request.bucket])
    (hwalk : fs.walk bucketDir (OsStr.pieces (.ofStr request.key)) = some dir) :
    Fits server.path.path request := by
  obtain ⟨root, rest, rfl, hroot, hrest⟩ := List.map_eq_append_iff.1 (hnames.symm.trans hdir)
  obtain ⟨bucket, segments, rfl, hsame, -⟩ := List.map_eq_cons_iff.1 hrest
  have hsame : bucket.text = request.bucket := OsStr.ofStr_injective hsame
  have hroot : Path.ofNames root = server.path.path := hroot
  rw [hnames, ← hsame] at hkey
  rw [← hroot, ← hsame] at hbucketDir
  have hkeys := key_of_read_back hkey (hbucketDir.trans (ofNames_append root [bucket]).symm)
    hwalk hnames
  refine ⟨hbucket, hname, Path.render (root.map Name.text), ?_, segments, ?_⟩
  · rw [← hroot, Path.toStr_ofNames]
  · rwa [← hsame]

theorem addressed_iff_fits
    (hlocate : fs.locate (server.objectPath request) = .ok (dir, name))
    (hfree : fs.entry (dir.path ++ [name]) = none) :
    Addressed server.path.path request (dir.path ++ [name]) ↔
      Fits server.path.path request := by
  constructor
  · rintro ⟨⟨rest, hrest, hfile⟩, hbucket, hkey, hname⟩
    rw [Path.parent_append_singleton, Option.bind_some] at hkey
    rw [Path.fileName_append_singleton, Option.some.injEq] at hname
    subst hname
    obtain ⟨front, -, hcomponent, -⟩ := FileSystem.locate_eq_ok_iff.1 hlocate
    obtain ⟨-, -, hwalk⟩ := (FileSystem.locate_push_iff keyPath_ne_nil hcomponent.1.2.1).1 hlocate
    have hcomponents := FileSystem.components_of_walk
      (fun piece hpiece => PathText.isPiece_of_mem_pieces hpiece) (by simp [FileSystem.root]) hwalk
    obtain ⟨names, hnames⟩ := names_of_components hcomponents
      (Key.isSome_toStr_of_fromBucket hkey)
    have hrelative : PathText.isAbsolute '/' request.key = false := by
      rw [hnames] at hkey
      exact isAbsolute_of_fromBucket hkey
    obtain ⟨child, more, rfl⟩ := List.exists_cons_of_ne_nil hrest
    rw [hfile] at hbucket
    obtain rfl := Bucket.eq_of_findBucket_append hbucket
    have hisName : IsName request.bucket := by
      rw [← OsStr.isComponent_ofStr_iff]
      have hmem : OsStr.ofStr request.bucket ∈ dir.path ++ [.ofStr request.name] := by
        simp [hfile]
      rcases List.mem_append.1 hmem with hdir | hlast
      · exact hcomponents _ hdir
      · rwa [List.mem_singleton.1 hlast]
    obtain ⟨bucketDir, hbucketDir, hbelow⟩ := exists_bucketDir hisName hrelative hwalk
    obtain ⟨more, hdir⟩ := exists_below_bucketDir hbucketDir hfree hfile
    exact fits_of_read_back hisName (OsStr.isComponent_ofStr_iff.1 hcomponent) hnames hdir hkey
      hbucketDir hbelow
  · intro hfits
    have hcomponent := OsStr.isComponent_ofStr_iff.2 hfits.name
    obtain ⟨rfl, -, hwalk⟩ :=
      (FileSystem.locate_push_iff keyPath_ne_nil hcomponent.1.2.1).1 hlocate
    obtain ⟨segments, hdir, hkey⟩ := read_back_of_fits hfits hwalk
    refine ⟨⟨.ofStr request.bucket :: segments ++ [.ofStr request.name], by simp, ?_⟩, ?_, ?_, ?_⟩
    · rw [hdir, List.append_assoc]
    · rw [hdir, List.append_assoc, List.cons_append, Bucket.findBucket_append, OsStr.toStr_ofStr]
      rfl
    · rwa [Path.parent_append_singleton, Option.bind_some]
    · exact Path.fileName_append_singleton _ _

end Created

/-! ## Every request -/

/-- What a call creates keeps to the address exactly if it creates nothing or fits. -/
theorem createsAddressed_iff (server : BucketGrpcSrv) (fs : FileSystem)
    (refusal : Option CreateError) (request : FileNameReq) :
    CreatesAddressed server fs refusal request ↔
      ¬fs.CanCreate refusal (server.objectPath request) ∨
        Fits server.path.path request := by
  rw [← FileSystem.exists_createNew_iff]
  cases hcreate : fs.createNew refusal (server.objectPath request) with
  | error error =>
      have hresult : server.createObject fs refusal request =
          (.ok (.error (.cancelled error)), fs) := by
        rw [BucketGrpcSrv.createObject]
        simp only [hcreate]
      refine iff_of_true ?_ (.inl (by simp))
      rw [CreatesAddressed, hresult]
      exact ⟨fun file hcreated => absurd hcreated (fs.not_created_self file),
        fun _ => ⟨rfl, _, rfl⟩⟩
  | ok fs' =>
      obtain ⟨-, dir, name, hfree, hlocate, rfl⟩ := FileSystem.createNew_eq_ok_iff.1 hcreate
      have hresult : (server.createObject fs refusal request).2 =
          fs.withFile dir name hfree := by
        rw [BucketGrpcSrv.createObject]
        simp only [hcreate]
      rw [← addressed_iff_fits hlocate hfree, CreatesAddressed, hresult]
      simp only [FileSystem.created_withFile_iff]
      constructor
      · rintro ⟨haddressed, -⟩
        exact .inr (haddressed _ rfl)
      · intro haddressed
        have haddressed := haddressed.resolve_left fun hnone => hnone ⟨_, rfl⟩
        refine ⟨?_, fun hnone => absurd rfl (hnone (dir.path ++ [name]))⟩
        rintro file rfl
        exact haddressed

def oneDirSystem : FileSystem where
  entry path := if path = [] ∨ path = [.ofStr ['d']] then some .dir else none
  rooted := rfl
  parents := by
    intro path name hentry
    have hpath : path = [] := by
      by_contra hne
      rw [if_neg (by rintro (h | h) <;> cases path <;> simp_all)] at hentry
      exact hentry rfl
    simp [hpath]

def oneDirServer : BucketGrpcSrv where
  path := {
    path := [.ofStr ['d']]
    components := by
      intro comp hcomp
      rw [List.mem_singleton.1 hcomp]
      exact OsStr.isComponent_ofStr_iff.2 (by decide) }

/-- The object `x` of the bucket `..` is created beside the watched root. -/
theorem object_beside_root :
    ¬CreatesAddressed oneDirServer oneDirSystem none
      { bucket := ['.', '.'], key := ['.'], name := ['x'] } := by
  rintro ⟨haddressed, -⟩
  have hcreated := haddressed [.ofStr ['x']] ⟨rfl, by decide⟩
  exact absurd hcreated.bucket (by decide)

end WsHyper.Directory
