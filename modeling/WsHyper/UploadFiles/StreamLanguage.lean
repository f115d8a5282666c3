import WsHyper.Lib.Language
import WsHyper.UploadFiles.StreamUpload

/-!
# What a stream tells

A stream tells of each field that it is new, of its chunks and of its end, until an
error or the end of the body, after which there is nothing more to tell.  A field
with a file name but without a type breaks this: it is refused, but the stream goes
on with the next one.
-/

namespace WsHyper.UploadFiles

open WsHyper.Lib

abbrev Told := Poll (Option (Except UploadError ResultStream))

inductive Place
  | between
  | inside
  | ended

/-- The place after a poll, if it may give this here: `(New Bytes* Eof)*`, then an error
or the end, and nothing but the end afterwards. -/
def Place.next : Place → Told → Option Place
  | .between, .pending => some .between
  | .between, .ready (some (.ok (.new _))) => some .inside
  | .between, .ready none => some .ended
  | .inside, .pending => some .inside
  | .inside, .ready (some (.ok (.bytes _))) => some .inside
  | .inside, .ready (some (.ok .eof)) => some .between
  | .between, .ready (some (.error _)) => some .ended
  | .inside, .ready (some (.error _)) => some .ended
  | .ended, .ready none => some .ended
  | _, _ => none

/-- What so many polls give; the body waits at some of them. -/
abbrev StreamUpload.polls (stream : StreamUpload) (waits : List Bool) : List Told :=
  tells StreamUpload.pollNext stream waits

def Field.ReadThrough (allowed : List MimeAllowed) (field : Field) : Prop :=
  field.fileName ≠ none ∧ (∃ mime, field.contentType = some mime ∧ allowed.any (·.matches mime)) ∧
    field.failure = none

def ReachesUntyped (allowed : List MimeAllowed) (fields : List Field) : Prop :=
  ∃ before field after, fields = before ++ field :: after ∧
    (∀ other ∈ before, other.ReadThrough allowed) ∧
      field.fileName ≠ none ∧ field.contentType = none

/-- All that the stream gives from a place on is in the language. -/
abbrev StreamUpload.Speaks (place : Place) (stream : StreamUpload) : Prop :=
  Lib.Speaks Place.next pollNext place stream

section Language

variable {allowed : List MimeAllowed} {field : Field} {fields : List Field}
  {stream : StreamUpload} {place : Place}

theorem reachesUntyped_cons_iff :
    ReachesUntyped allowed (field :: fields) ↔
      (field.fileName ≠ none ∧ field.contentType = none) ∨
        (field.ReadThrough allowed ∧ ReachesUntyped allowed fields) := by
  constructor
  · rintro ⟨before, untyped, after, hfields, hbefore, hname, htype⟩
    cases before with
    | nil =>
        obtain ⟨rfl, rfl⟩ := List.cons.inj hfields
        exact .inl ⟨hname, htype⟩
    | cons first before =>
        obtain ⟨rfl, rfl⟩ := List.cons.inj hfields
        refine .inr ⟨hbefore field List.mem_cons_self, before, untyped, after, rfl, ?_, hname,
          htype⟩
        exact fun other hother => hbefore other (List.mem_cons_of_mem _ hother)
  · rintro (⟨hname, htype⟩ | ⟨hthrough, before, untyped, after, rfl, hbefore, hname, htype⟩)
    · exact ⟨[], field, fields, rfl, fun other hother => (List.not_mem_nil hother).elim, hname,
        htype⟩
    · refine ⟨field :: before, untyped, after, rfl, ?_, hname, htype⟩
      intro other hother
      rcases List.mem_cons.1 hother with rfl | hother
      · exact hthrough
      · exact hbefore other hother

/-! ## A stream that keeps to the language -/

inductive Good : Place → StreamUpload → Prop
  | between {stream : StreamUpload} (hstate : stream.state = .waitingField)
      (hfields : ¬ReachesUntyped stream.allowed stream.multipart.fields) :
      Good .between stream
  | inside {stream : StreamUpload} {left : Field} (hstate : stream.state = .readingField left)
      (hfields : left.failure = none →
        ¬ReachesUntyped stream.allowed stream.multipart.fields) : Good .inside stream
  | ended {stream : StreamUpload} (hstate : stream.state = .done) : Good .ended stream

theorem Good.openField (hfields : ¬ReachesUntyped stream.allowed (field :: fields)) :
    ∃ place', Place.between.next (.ready (some (stream.openField field fields).1)) = some place' ∧
      Good place' (stream.openField field fields).2 := by
  rw [reachesUntyped_cons_iff, not_or] at hfields
  obtain ⟨htyped, hlater⟩ := hfields
  unfold StreamUpload.openField
  cases hname : field.fileName with
  | none => exact ⟨.ended, rfl, .ended rfl⟩
  | some name =>
      cases htype : field.contentType with
      | none => exact absurd ⟨by rw [hname]; simp, htype⟩ htyped
      | some mime =>
          simp only
          split_ifs with hallowed
          · refine ⟨.inside, rfl, .inside rfl fun hfailure hreaches => ?_⟩
            exact hlater ⟨⟨by rw [hname]; simp, ⟨mime, htype, hallowed⟩, hfailure⟩, hreaches⟩
          · exact ⟨.ended, rfl, .ended rfl⟩

theorem Good.pollNext (hgood : Good place stream) (waits : Bool) :
    ∃ place', place.next (stream.pollNext waits).1 = some place' ∧
      Good place' (stream.pollNext waits).2 := by
  unfold StreamUpload.pollNext
  cases hgood with
  | between hstate hfields =>
      simp only [hstate]
      split_ifs
      · exact ⟨.between, rfl, .between hstate hfields⟩
      · cases hrest : stream.multipart.fields with
        | nil =>
            cases hfailure : stream.multipart.failure with
            | none => exact ⟨.ended, rfl, .ended rfl⟩
            | some text => exact ⟨.ended, rfl, .ended rfl⟩
        | cons field fields =>
            rw [hrest] at hfields
            exact Good.openField hfields
  | @inside _ left hstate hfields =>
      simp only [hstate]
      split_ifs
      · exact ⟨.inside, rfl, .inside hstate hfields⟩
      · cases hchunks : left.chunks with
        | cons chunk chunks => exact ⟨.inside, rfl, .inside rfl hfields⟩
        | nil =>
            cases hfailure : left.failure with
            | none => exact ⟨.between, rfl, .between rfl (hfields hfailure)⟩
            | some text => exact ⟨.ended, rfl, .ended rfl⟩
  | ended hstate =>
      simp only [hstate]
      exact ⟨.ended, rfl, .ended hstate⟩

/-! ## A stream that does not -/

/-- After a refusal for want of a type, the body may wait. -/
theorem not_speaks_of_untyped (hstate : stream.state = .waitingField)
    (hfields : stream.multipart.fields = field :: fields) (hname : field.fileName ≠ none)
    (htype : field.contentType = none) : ¬StreamUpload.Speaks .between stream := by
  intro hspeaks
  obtain ⟨name, hname⟩ := Option.ne_none_iff_exists'.1 hname
  have hopened : stream.pollNext false = (.ready (some (.error (.mimeNotFound name))),
      { stream with multipart := { stream.multipart with fields } }) := by
    simp only [StreamUpload.pollNext, hstate, hfields, Bool.false_eq_true, if_false,
      StreamUpload.openField, hname, htype]
  obtain ⟨place, hplace, hafter⟩ := exists_next_of_speaks hspeaks false
  rw [hopened] at hplace hafter
  obtain rfl := Option.some.inj hplace
  obtain ⟨place', hwaits, -⟩ := exists_next_of_speaks hafter true
  simp [StreamUpload.pollNext, hstate, Place.next] at hwaits

theorem speaks_of_chunks {left : Field} (hspeaks : StreamUpload.Speaks .inside stream)
    (hstate : stream.state = .readingField left) (hfailure : left.failure = none) :
    StreamUpload.Speaks .between { stream with state := .waitingField } := by
  obtain ⟨fileName, contentType, chunks, failure⟩ := left
  simp only at hfailure
  subst hfailure
  induction chunks generalizing stream with
  | nil =>
      obtain ⟨place, hplace, hlater⟩ := exists_next_of_speaks hspeaks false
      simp only [StreamUpload.pollNext, hstate, Bool.false_eq_true, if_false] at hplace hlater
      obtain rfl := Option.some.inj hplace
      exact hlater
  | cons chunk chunks ih =>
      obtain ⟨place, hplace, hlater⟩ := exists_next_of_speaks hspeaks false
      simp only [StreamUpload.pollNext, hstate, Bool.false_eq_true, if_false] at hplace hlater
      obtain rfl := Option.some.inj hplace
      have hnext := ih hlater rfl
      exact hnext

theorem speaks_of_readThrough (hspeaks : StreamUpload.Speaks .between stream)
    (hstate : stream.state = .waitingField) (hfields : stream.multipart.fields = field :: fields)
    (hthrough : field.ReadThrough stream.allowed) :
    StreamUpload.Speaks .between { stream with multipart := { stream.multipart with fields } } := by
  obtain ⟨hname, ⟨mime, htype, hallowed⟩, hfailure⟩ := hthrough
  obtain ⟨name, hname⟩ := Option.ne_none_iff_exists'.1 hname
  obtain ⟨place, hplace, hlater⟩ := exists_next_of_speaks hspeaks false
  simp only [StreamUpload.pollNext, hstate, hfields, Bool.false_eq_true, if_false,
    StreamUpload.openField, hname, htype, hallowed, if_true] at hplace hlater
  obtain rfl := Option.some.inj hplace
  have hnext := speaks_of_chunks hlater rfl hfailure
  rwa [← hstate] at hnext

theorem not_speaks_of_reachesUntyped (hstate : stream.state = .waitingField)
    (hreaches : ReachesUntyped stream.allowed stream.multipart.fields) :
    ¬StreamUpload.Speaks .between stream := by
  obtain ⟨before, untyped, after, hfields, hbefore, hname, htype⟩ := hreaches
  induction before generalizing stream with
  | nil => exact not_speaks_of_untyped hstate hfields hname htype
  | cons first before ih =>
      intro hspeaks
      have hnext := speaks_of_readThrough hspeaks hstate hfields (hbefore first List.mem_cons_self)
      refine absurd hnext (ih hstate ?_ fun other hother => ?_)
      · rfl
      · exact hbefore other (List.mem_cons_of_mem _ hother)

end Language

/-- Whenever it is polled and however often, a stream keeps to the language exactly if
it comes to no field that has a file name but no type. -/
theorem stream_speaks_iff (body : Multipart) (allowed : List MimeAllowed) :
    (∀ waits, Spoken Place.next .between ((StreamUpload.new body allowed).polls waits)) ↔
      ¬∃ before field after, body.fields = before ++ field :: after ∧
        (∀ other ∈ before, other.ReadThrough allowed) ∧
          field.fileName ≠ none ∧ field.contentType = none := by
  constructor
  · exact fun hspeaks hreaches => absurd hspeaks (not_speaks_of_reachesUntyped rfl hreaches)
  · intro hreaches
    have hgood : Good .between (StreamUpload.new body allowed) := .between rfl hreaches
    exact speaks_of_simulation (fun _ _ waits hgood => Good.pollNext hgood waits) hgood

def untypedBody : Multipart :=
  { fields := [
      { fileName := some ['f'], contentType := none, chunks := [], failure := none },
      { fileName := some ['g']
        contentType := some { type_ := ['t'], subtype := ['s'], rest := [] }
        chunks := []
        failure := none }]
    failure := none }

/-- The second field is told of after an error. -/
theorem untyped_not_spoken :
    (StreamUpload.new untypedBody [.any]).polls [false, false] =
        [.ready (some (.error (.mimeNotFound ['f']))),
          .ready (some (.ok (.new {
            fileName := ['g'], mime := { type_ := ['t'], subtype := ['s'], rest := [] } })))] ∧
      ¬∀ waits, Spoken Place.next .between ((StreamUpload.new untypedBody [.any]).polls waits) :=
  ⟨rfl, fun hspeaks => hspeaks [false, false]⟩

end WsHyper.UploadFiles
