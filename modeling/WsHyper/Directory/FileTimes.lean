import WsHyper.Directory.Object

/-!
# The times of a file

`from_systemtime` takes the duration since the epoch apart into seconds and
nanoseconds, builds a time from the seconds, moves it to the offset -03:00 and
sets the nanoseconds.  Step by step this is `fromSystemtime`: the instant is
kept, unless the time lies before the epoch and there is no such duration.
-/

namespace WsHyper.Directory

open WsHyper.Lib

structure Duration where
  asSecs : UInt64
  subsecNanos : UInt32
  deriving DecidableEq

/-- `SystemTime::duration_since(UNIX_EPOCH)`. -/
def SystemTime.durationSinceEpoch (value : SystemTime) : Option Duration :=
  if value.secs < 0 then none
  else some { asSecs := .ofNat value.secs.toNat, subsecNanos := .ofNat value.nanos }

namespace OffsetDateTime

/-- The first second of the year -999999. -/
def minTimestamp : Int := -31619087596800

/-- `OffsetDateTime::from_unix_timestamp`. -/
def fromUnixTimestamp (timestamp : Int64) : Option OffsetDateTime :=
  if minTimestamp ≤ timestamp.toInt ∧ timestamp.toInt ≤ maxTimestamp then
    some { epoch with unixTimestamp := timestamp.toInt }
  else none

/-- `OffsetDateTime::to_offset`; the time that is then on the clock has to be in range too. -/
def toOffset (time : OffsetDateTime) (hours : Int) : Option OffsetDateTime :=
  if minTimestamp ≤ time.unixTimestamp + 3600 * hours ∧
      time.unixTimestamp + 3600 * hours ≤ maxTimestamp then
    some { time with offset := hours }
  else none

/-- `OffsetDateTime::replace_nanosecond`. -/
def replaceNanosecond (time : OffsetDateTime) (nanosecond : UInt32) : Option OffsetDateTime :=
  if hbound : nanosecond.toNat < 1000000000 then
    some { time with nanosecond := ⟨nanosecond.toNat, hbound⟩ }
  else none

end OffsetDateTime

/-- `from_systemtime`, step by step. -/
def fromSystemtimeSteps (value : SystemTime) : Except Panic OffsetDateTime := do
  let tmp ← unwrapResult value.durationSinceEpoch
  let time ← unwrapResult (OffsetDateTime.fromUnixTimestamp tmp.asSecs.toInt64)
  let time ← unwrap (time.toOffset (-3))
  return (time.replaceNanosecond tmp.subsecNanos).getD .epoch

def SystemTime.InRange (value : SystemTime) : Prop :=
  OffsetDateTime.minTimestamp ≤ value.secs ∧ value.secs ≤ OffsetDateTime.maxTimestamp

instance (value : SystemTime) : Decidable value.InRange := inferInstanceAs (Decidable (_ ∧ _))

theorem toInt_toInt64_ofNat {n : Nat} (hn : n < 9223372036854775808) :
    (UInt64.ofNat n).toInt64.toInt = n := by
  rw [UInt64.toInt64_ofNat', Int64.toInt_ofNat_of_lt hn]

theorem replaceNanosecond_nanos (time : OffsetDateTime) (nanos : Fin 1000000000) :
    time.replaceNanosecond (.ofNat nanos) = some { time with nanosecond := nanos } := by
  have hnanos : (UInt32.ofNat nanos).toNat = nanos := by
    rw [UInt32.toNat_ofNat']
    exact Nat.mod_eq_of_lt (by omega)
  simp only [OffsetDateTime.replaceNanosecond, hnanos, nanos.isLt, dif_pos]

theorem fromSystemtimeSteps_of_neg {value : SystemTime} (hneg : value.secs < 0) :
    fromSystemtimeSteps value = .error .unwrapErr := by
  rw [fromSystemtimeSteps, SystemTime.durationSinceEpoch, if_pos hneg]
  rfl

theorem fromSystemtimeSteps_of_nonneg {value : SystemTime} (hnonneg : 0 ≤ value.secs)
    (hmax : value.secs ≤ OffsetDateTime.maxTimestamp) :
    fromSystemtimeSteps value =
      .ok { unixTimestamp := value.secs, nanosecond := value.nanos, offset := -3 } := by
  have hsecs : (value.secs.toNat : Int) = value.secs := Int.toNat_of_nonneg hnonneg
  have hcast : (UInt64.ofNat value.secs.toNat).toInt64.toInt = value.secs := by
    rw [toInt_toInt64_ofNat, hsecs]
    rw [OffsetDateTime.maxTimestamp] at hmax
    omega
  have hbounds : OffsetDateTime.minTimestamp ≤ value.secs + 3600 * -3 ∧
      value.secs + 3600 * -3 ≤ OffsetDateTime.maxTimestamp := by
    rw [OffsetDateTime.minTimestamp]
    omega
  have hmin : OffsetDateTime.minTimestamp ≤ value.secs := by omega
  rw [fromSystemtimeSteps, SystemTime.durationSinceEpoch, if_neg (not_lt.2 hnonneg),
    unwrapResult_some, ok_bind, OffsetDateTime.fromUnixTimestamp, hcast, if_pos ⟨hmin, hmax⟩,
    unwrapResult_some, ok_bind, OffsetDateTime.toOffset, if_pos hbounds, unwrap_some, ok_bind,
    replaceNanosecond_nanos]
  rfl

/-- For the times in range the steps give what `Object.new` is modelled with. -/
theorem fromSystemtimeSteps_eq {value : SystemTime} (hrange : value.InRange) :
    fromSystemtimeSteps value = fromSystemtime value := by
  unfold fromSystemtime
  split_ifs with hneg hmax
  · exact fromSystemtimeSteps_of_neg hneg
  · exact absurd hrange.2 (not_le.2 hmax)
  · exact fromSystemtimeSteps_of_nonneg (not_lt.1 hneg) (not_lt.1 hmax)

/-- The time is the same instant, at the offset -03:00. -/
def SystemTime.ConvertedFaithfully (value : SystemTime) : Prop :=
  ∃ time, fromSystemtimeSteps value = .ok time ∧
    time.unixTimestamp = value.secs ∧ time.nanosecond = value.nanos ∧ time.offset = -3

theorem SystemTime.convertedFaithfully_iff {value : SystemTime} (hrange : value.InRange) :
    value.ConvertedFaithfully ↔ 0 ≤ value.secs := by
  constructor
  · rintro ⟨time, htime, -⟩
    by_contra hneg
    rw [fromSystemtimeSteps_of_neg (not_le.1 hneg)] at htime
    cases htime
  · intro hnonneg
    exact ⟨_, fromSystemtimeSteps_of_nonneg hnonneg hrange.2, rfl, rfl, rfl⟩

def FileInfo.EachTime (P : SystemTime → Prop) (file : FileInfo) : Prop :=
  ∀ metadata ∈ file.metadata, ∀ time ∈ [metadata.modified, metadata.accessed, metadata.created],
    ∀ value ∈ time, P value

theorem FileInfo.eachTime_congr {P Q : SystemTime → Prop} {file : FileInfo}
    (hiff : file.EachTime fun value => P value ↔ Q value) : file.EachTime P ↔ file.EachTime Q := by
  constructor
  · intro hP metadata hmetadata time htime value hvalue
    exact (hiff metadata hmetadata time htime value hvalue).1 (hP metadata hmetadata time htime
      value hvalue)
  · intro hQ metadata hmetadata time htime value hvalue
    exact (hiff metadata hmetadata time htime value hvalue).2 (hQ metadata hmetadata time htime
      value hvalue)

theorem FileInfo.expressible_iff {file : FileInfo} (hrange : file.EachTime SystemTime.InRange) :
    file.Expressible ↔ file.EachTime fun value => 0 ≤ value.secs := by
  apply FileInfo.eachTime_congr
  intro metadata hmetadata time htime value hvalue
  have hmax := (hrange metadata hmetadata time htime value hvalue).2
  exact ⟨fun hexpressible => hexpressible.1, fun hnonneg => ⟨hnonneg, hmax⟩⟩

/-- A time is converted faithfully, and the object of a file is read without a panic, exactly
when no time lies before the epoch. -/
theorem file_times_iff (value : SystemTime) (hvalue : value.InRange) (now : OffsetDateTime)
    (path : Path) (name : Str) (file : FileInfo) (owner : OwnerFile)
    (hrange : file.EachTime SystemTime.InRange) :
    (value.ConvertedFaithfully ↔ 0 ≤ value.secs) ∧
    (Completes (getInfoMetadata now file.metadata) ↔
      file.EachTime fun value => 0 ≤ value.secs) ∧
    (Completes (Object.new now (path ++ [OsStr.ofStr name]) file owner) ↔
      file.EachTime fun value => 0 ≤ value.secs) := by
  refine ⟨SystemTime.convertedFaithfully_iff hvalue, ?_, ?_⟩
  · rw [completes_getInfoMetadata_iff, ← FileInfo.expressible_iff hrange]
    rfl
  · rw [Object.completes_new_iff, FileInfo.expressible_iff hrange]

private def modifiedAt (value : SystemTime) : FileInfo :=
  { metadata := some { modified := some value, accessed := none, created := none, size := 0 }
    checkSum := some [] }

private theorem eachTime_modifiedAt {P : SystemTime → Prop} {value : SystemTime} :
    (modifiedAt value).EachTime P ↔ P value := by
  simp [FileInfo.EachTime, modifiedAt]

/-- The last nanosecond of the first second after the epoch. -/
theorem file_times_first_second :
    Completes (Object.new .epoch ([] ++ [OsStr.ofStr ['f']]) (modifiedAt ⟨0, 999999999⟩) .system) :=
  ((file_times_iff ⟨0, 999999999⟩ (by decide) .epoch [] ['f'] (modifiedAt ⟨0, 999999999⟩) .system
    (eachTime_modifiedAt.2 (by decide))).2.2).2 (eachTime_modifiedAt.2 (by decide))

/-- A file that was modified one second before the epoch aborts the reading of its object. -/
theorem file_times_before_epoch :
    SystemTime.InRange ⟨-1, 0⟩ ∧ ¬SystemTime.ConvertedFaithfully ⟨-1, 0⟩ ∧
      ¬Completes (getInfoMetadata .epoch (modifiedAt ⟨-1, 0⟩).metadata) ∧
      ¬Completes (Object.new .epoch [OsStr.ofStr ['f']] (modifiedAt ⟨-1, 0⟩) .system) := by
  refine ⟨by decide, ?_, ?_, ?_⟩
  · rw [SystemTime.convertedFaithfully_iff (by decide)]
    decide
  · rw [completes_getInfoMetadata_iff]
    simp [modifiedAt, Metadata.Expressible, SystemTime.Expressible]
  · have hnew := Object.completes_new_iff .epoch [] ['f'] (modifiedAt ⟨-1, 0⟩) .system
    rw [List.nil_append] at hnew
    rw [hnew]
    simp [modifiedAt, FileInfo.Expressible, Metadata.Expressible, SystemTime.Expressible]

end WsHyper.Directory
