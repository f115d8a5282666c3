import WsHyper.Lib.Panic
import WsHyper.Lib.Path
import Mathlib.Data.Fin.Basic

/-!
# Objects

An object describes a file: its name and the checksum and times read from disk.
`Object.new` reads them; it panics on a time that `fromSystemtime` cannot express.
In a document the times stand as RFC 3339 texts, which have fewer years.
-/

namespace WsHyper.Directory

open WsHyper.Lib

/-- A point in time, in seconds and nanoseconds after the Unix epoch. -/
structure SystemTime where
  secs : Int
  nanos : Fin 1000000000
  deriving DecidableEq, Repr

/-- A point in time and the offset, in hours, it is expressed at. -/
structure OffsetDateTime where
  unixTimestamp : Int
  nanosecond : Fin 1000000000
  offset : Int
  deriving DecidableEq, Repr

namespace OffsetDateTime

/-- The last second of the year 999999, up to which `time` counts with its large dates. -/
def maxTimestamp : Int := 31494784780799

def epoch : OffsetDateTime := { unixTimestamp := 0, nanosecond := 0, offset := 0 }

/-- RFC 3339 writes the year that the clock shows with four digits, and at most 23
hours of offset. -/
def hasRfc3339 (time : OffsetDateTime) : Bool :=
  decide (-62167219200 ≤ time.unixTimestamp + 3600 * time.offset ∧
    time.unixTimestamp + 3600 * time.offset ≤ 253402300799 ∧ time.offset.natAbs ≤ 23)

end OffsetDateTime

abbrev ObjectModified := Option OffsetDateTime

abbrev ObjectAccessed := Option OffsetDateTime

abbrev ObjectCreated := Option OffsetDateTime

/-- Whether `bson::to_bson` succeeds on a time. -/
def encodesTime : Option OffsetDateTime → Bool
  | some time => time.hasRfc3339
  | none => true

inductive OwnerFile
  | system
  | user (name : Str)
  deriving DecidableEq

structure Object where
  size : Int64
  owner : OwnerFile
  fileName : Str
  checksum : Str
  seenBy : Option (List Str)
  takenBy : Option (List Str)
  modified : ObjectModified
  accessed : ObjectAccessed
  created : ObjectCreated
  deriving DecidableEq

/-- Whether `bson` serialises the object. -/
def Object.encodes (object : Object) : Bool :=
  encodesTime object.modified && encodesTime object.accessed && encodesTime object.created

def Object.named (fileName : Str) : Object :=
  { size := 0, owner := .system, fileName, checksum := [], seenBy := none, takenBy := none,
    modified := none, accessed := none, created := none }

structure Metadata where
  modified : Option SystemTime
  accessed : Option SystemTime
  created : Option SystemTime
  size : UInt64
  deriving DecidableEq

/-- A file as `Object.new` reads it; what cannot be read is `none`. -/
structure FileInfo where
  metadata : Option Metadata
  checkSum : Option Str
  deriving DecidableEq

/-- `duration_since(UNIX_EPOCH)` fails before the epoch, and
`OffsetDateTime::from_unix_timestamp` after the year 999999. -/
def fromSystemtime (value : SystemTime) : Except Panic OffsetDateTime :=
  if value.secs < 0 then .error .unwrapErr
  else if OffsetDateTime.maxTimestamp < value.secs then .error .unwrapErr
  else .ok { unixTimestamp := value.secs, nanosecond := value.nanos, offset := -3 }

/-- The times and the size, with the local time `now` where there is no metadata. -/
def getInfoMetadata (now : OffsetDateTime) :
    Option Metadata →
      Except Panic (ObjectModified × ObjectAccessed × ObjectCreated × Int64)
  | some metadata => do
      let modified ← metadata.modified.mapM fromSystemtime
      let accessed ← metadata.accessed.mapM fromSystemtime
      let created ← metadata.created.mapM fromSystemtime
      return (modified, accessed, created, metadata.size.toInt64)
  | none => .ok (some now, some now, some now, 0)

def Object.new (now : OffsetDateTime) (path : Path) (file : FileInfo) (owner : OwnerFile) :
    Except Panic Object := do
  let (modified, accessed, created, size) ← getInfoMetadata now file.metadata
  let checksum := file.checkSum.getD []
  let fileName ← unwrap (path.fileName.bind OsStr.toStr)
  return {
    size, owner, fileName, checksum, modified, accessed, created
    seenBy := none
    takenBy := none }

def SystemTime.Expressible (value : SystemTime) : Prop :=
  0 ≤ value.secs ∧ value.secs ≤ OffsetDateTime.maxTimestamp

def Metadata.Expressible (metadata : Metadata) : Prop :=
  ∀ time ∈ [metadata.modified, metadata.accessed, metadata.created],
    ∀ value ∈ time, value.Expressible

def FileInfo.Expressible (file : FileInfo) : Prop :=
  ∀ metadata ∈ file.metadata, metadata.Expressible

theorem completes_fromSystemtime_iff (value : SystemTime) :
    Completes (fromSystemtime value) ↔ value.Expressible := by
  unfold fromSystemtime SystemTime.Expressible
  split_ifs <;> simp <;> omega

theorem completes_mapM_fromSystemtime_iff (time : Option SystemTime) :
    Completes (time.mapM fromSystemtime) ↔
      ∀ value, time = some value → value.Expressible := by
  cases time with
  | none => simp [pure, Except.pure]
  | some value =>
      rw [Option.mapM_some]
      simp only [Option.some.injEq, forall_eq']
      rw [← completes_fromSystemtime_iff]
      cases fromSystemtime value <;> simp [Functor.map, Except.map]

theorem completes_getInfoMetadata_iff (now : OffsetDateTime) (metadata : Option Metadata) :
    Completes (getInfoMetadata now metadata) ↔ ∀ m ∈ metadata, m.Expressible := by
  cases metadata with
  | none => simp [getInfoMetadata]
  | some metadata =>
      rw [getInfoMetadata]
      simp only [completes_bind, Option.mem_def, Option.some.injEq, forall_eq',
        Metadata.Expressible, List.forall_mem_cons, List.not_mem_nil, false_imp_iff,
        implies_true, and_true, ← completes_mapM_fromSystemtime_iff]
      constructor
      · rintro ⟨m, hm, a, ha, c, hc, -⟩
        exact ⟨⟨m, hm⟩, ⟨a, ha⟩, ⟨c, hc⟩⟩
      · rintro ⟨⟨m, hm⟩, ⟨a, ha⟩, ⟨c, hc⟩⟩
        exact ⟨m, hm, a, ha, c, hc, completes_ok _⟩

theorem Object.fileName_of_new {now : OffsetDateTime} {path : Path} {file : FileInfo}
    {owner : OwnerFile} {object : Object}
    (hnew : Object.new now path file owner = .ok object) :
    path.fileName.bind OsStr.toStr = some object.fileName := by
  obtain ⟨⟨modified, accessed, created, size⟩, -, hname⟩ := bind_eq_ok hnew
  obtain ⟨name, hunwrap, hobject⟩ := bind_eq_ok hname
  cases hpath : path.fileName.bind OsStr.toStr with
  | none => simp [hpath] at hunwrap
  | some text =>
      obtain rfl : text = name := by simpa [hpath] using hunwrap
      cases hobject
      rfl

theorem Object.fileName_of_new_join {now : OffsetDateTime} {parent : Path} {name : Str}
    {file : FileInfo} {owner : OwnerFile} {object : Object}
    (hnew : Object.new now (parent.join (OsStr.ofStr name)) file owner = .ok object) :
    object.fileName = name := by
  have hpath := Object.fileName_of_new hnew
  rw [Path.join, Path.fileName_append_singleton, Option.bind_some, OsStr.toStr_ofStr] at hpath
  exact (Option.some.inj hpath).symm

/-- Reading a file with a name of valid text goes through unless one of its
times cannot be expressed. -/
theorem Object.completes_new_iff (now : OffsetDateTime) (path : Path) (name : Str)
    (file : FileInfo) (owner : OwnerFile) :
    Completes (Object.new now (path ++ [OsStr.ofStr name]) file owner) ↔
      file.Expressible := by
  rw [FileInfo.Expressible, ← completes_getInfoMetadata_iff now]
  unfold Object.new
  simp only [completes_bind, Path.fileName_append_singleton, Option.bind_some,
    OsStr.toStr_ofStr, unwrap_some]
  constructor
  · rintro ⟨info, hinfo, -⟩
    exact ⟨info, hinfo⟩
  · rintro ⟨info, hinfo⟩
    exact ⟨info, hinfo, name, rfl, completes_ok _⟩

end WsHyper.Directory
