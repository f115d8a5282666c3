import WsHyper.UploadFiles.Fused
import WsHyper.UploadFiles.StreamLanguage

/-!
# Sound bodies

In a sound body each field has a name and an allowed type, and nothing is cut off or
malformed.  As long as no error is told, what is left of a body is sound exactly if
the whole body was; and the upload of a sound body fails only where a file does.
-/

namespace WsHyper.UploadFiles

open WsHyper.Lib

/-- Each field is read to its end, and so is the body. -/
structure Multipart.Sound (allowed : List MimeAllowed) (body : Multipart) : Prop where
  fields : ∀ field ∈ body.fields, field.ReadThrough allowed
  failure : body.failure = none

/-- What the stream has still to read is sound. -/
structure StreamUpload.Sound (stream : StreamUpload) : Prop where
  body : stream.multipart.Sound stream.allowed
  field : ∀ left, stream.state = .readingField left → left.failure = none

theorem Multipart.sound_cons_iff {allowed : List MimeAllowed} {field : Field}
    {fields : List Field} {failure : Option Str} :
    Sound allowed { fields := field :: fields, failure } ↔
      field.ReadThrough allowed ∧ Sound allowed { fields, failure } := by
  constructor
  · rintro ⟨hfields, hfailure⟩
    exact ⟨hfields field List.mem_cons_self,
      fun other hother => hfields other (List.mem_cons_of_mem _ hother), hfailure⟩
  · rintro ⟨hfirst, hlater, hfailure⟩
    refine ⟨fun other hother => ?_, hfailure⟩
    rcases List.mem_cons.1 hother with rfl | hother
    · exact hfirst
    · exact hlater other hother

namespace StreamUpload

variable {stream : StreamUpload} {waits : Bool} {field : Field} {fields : List Field}

theorem sound_iff_of_readingField {left : Field} (hstate : stream.state = .readingField left) :
    stream.Sound ↔ stream.multipart.Sound stream.allowed ∧ left.failure = none := by
  constructor
  · rintro ⟨hbody, hfield⟩
    exact ⟨hbody, hfield left hstate⟩
  · rintro ⟨hbody, hfailure⟩
    refine ⟨hbody, fun left' hstate' => ?_⟩
    obtain rfl := State.readingField.inj (hstate.symm.trans hstate')
    exact hfailure

theorem sound_iff_of_ne (hstate : ∀ left, stream.state ≠ .readingField left) :
    stream.Sound ↔ stream.multipart.Sound stream.allowed :=
  ⟨Sound.body, fun hbody => ⟨hbody, fun left hleft => absurd hleft (hstate left)⟩⟩

theorem sound_openField_iff (hclean : ∀ e, (stream.openField field fields).1 ≠ .error e) :
    (stream.openField field fields).2.Sound ↔
      field.ReadThrough stream.allowed ∧
        Multipart.Sound stream.allowed { stream.multipart with fields } := by
  unfold openField at hclean ⊢
  cases hname : field.fileName with
  | none =>
      rw [hname] at hclean
      exact absurd rfl (hclean _)
  | some name =>
      cases htype : field.contentType with
      | none =>
          rw [hname, htype] at hclean
          exact absurd rfl (hclean _)
      | some mime =>
          simp only [hname, htype] at hclean ⊢
          split_ifs at hclean ⊢ with hallowed
          · have hthrough : field.ReadThrough stream.allowed ↔ field.failure = none := by
              refine ⟨fun h => h.2.2, fun h => ⟨?_, ⟨mime, htype, hallowed⟩, h⟩⟩
              rw [hname]
              simp
            rw [sound_iff_of_readingField rfl, hthrough, and_comm]
          · exact absurd rfl (hclean _)

/-- Unless an error is told, what is left is sound exactly if it was before. -/
theorem sound_pollNext_iff (hclean : ∀ e, (stream.pollNext waits).1 ≠ .ready (some (.error e))) :
    (stream.pollNext waits).2.Sound ↔ stream.Sound := by
  unfold pollNext at hclean ⊢
  cases hstate : stream.state with
  | done => rfl
  | waitingField =>
      have hwaiting : stream.Sound ↔ stream.multipart.Sound stream.allowed :=
        sound_iff_of_ne (by simp [hstate])
      simp only [hstate] at hclean ⊢
      split_ifs at hclean ⊢
      · rfl
      · obtain ⟨⟨fields, failure⟩, allowed, state⟩ := stream
        cases fields with
        | cons field fields =>
            rw [hwaiting, Multipart.sound_cons_iff]
            refine sound_openField_iff fun e he => hclean e ?_
            simp only [he]
        | nil =>
            cases failure with
            | none => rw [hwaiting, sound_iff_of_ne (by simp)]
            | some text => exact absurd rfl (hclean _)
  | readingField left =>
      rw [sound_iff_of_readingField hstate]
      simp only [hstate] at hclean ⊢
      split_ifs at hclean ⊢
      · exact sound_iff_of_readingField hstate
      · cases hchunks : left.chunks with
        | cons chunk chunks => exact @sound_iff_of_readingField _ { left with chunks } rfl
        | nil =>
            cases hfailure : left.failure with
            | none =>
                rw [and_iff_left rfl]
                exact sound_iff_of_ne (by simp)
            | some text =>
                rw [hchunks, hfailure] at hclean
                exact absurd rfl (hclean _)

theorem Sound.pollNext_ne_error (hsound : stream.Sound) (e : UploadError) :
    (stream.pollNext waits).1 ≠ .ready (some (.error e)) := by
  intro herror
  unfold pollNext at herror
  cases hstate : stream.state with
  | done =>
      rw [hstate] at herror
      cases herror
  | waitingField =>
      simp only [hstate] at herror
      split_ifs at herror
      cases hfields : stream.multipart.fields with
      | cons field fields =>
          obtain ⟨hname, ⟨mime, htype, hallowed⟩, -⟩ :=
            hsound.body.fields field (by rw [hfields]; exact List.mem_cons_self)
          obtain ⟨name, hname⟩ := Option.ne_none_iff_exists'.1 hname
          simp only [hfields, openField, hname, htype, hallowed, if_true] at herror
          cases herror
      | nil =>
          rw [hfields, hsound.body.failure] at herror
          cases herror
  | readingField left =>
      simp only [hstate] at herror
      split_ifs at herror
      cases hchunks : left.chunks with
      | cons chunk chunks =>
          rw [hchunks] at herror
          cases herror
      | nil =>
          rw [hchunks, hsound.field left hstate] at herror
          cases herror

end StreamUpload

/-! ## The upload of a sound body -/

section Uploads

variable {upload upload' : Upload} {world world' : World} {polled : Polled} {e : UploadError}
  {body : Multipart} {path : Mime → PathBuf} {results : List UploadResult} {k : Nat}
  {machine machine' : Machine} {polls : List Polled}

theorem stream_read {item : Option (Except UploadError ResultStream)} :
    (upload.read world item).2.1.stream = upload.stream := by
  unfold Upload.read
  split <;> rfl

/-- What a round of the loop does to the stream: nothing, or a poll whose error it tells. -/
theorem stream_turn_cases (upload : Upload) (world : World) :
    (upload.turn world).2.1.stream = upload.stream ∨
      ∃ waits, (upload.turn world).2.1.stream = (upload.stream.pollNext waits).2 ∧
        ∀ e, (upload.stream.pollNext waits).1 = .ready (some (.error e)) →
          (upload.turn world).1 = .ends (.ready (some (.error e))) := by
  unfold Upload.turn
  cases upload.state with
  | writting buf =>
      left
      simp only [Upload.turnWritting]
      split
      · rfl
      · split <;> rfl
  | reading =>
      right
      refine ⟨(Answer.next world.answers).1.waits, ?_⟩
      simp only [Upload.turnReading]
      generalize upload.stream.pollNext (Answer.next world.answers).1.waits = next
      obtain ⟨polled, stream⟩ := next
      cases polled with
      | pending => exact ⟨rfl, fun e he => by cases he⟩
      | ready item =>
          refine ⟨stream_read, fun e he => ?_⟩
          obtain rfl := Poll.ready.inj he
          rfl
  | create path =>
      left
      simp only [Upload.turnCreate]
      split <;> rfl
  | flush =>
      left
      simp only [Upload.turnFlush]
      split
      · rfl
      · split <;> rfl
  | done => exact .inl rfl

theorem sound_turn_iff (upload : Upload) (world : World)
    (hclean : ∀ e, (upload.turn world).1 ≠ .ends (.ready (some (.error e)))) :
    (upload.turn world).2.1.stream.Sound ↔ upload.stream.Sound := by
  rcases stream_turn_cases upload world with hsame | ⟨waits, hnext, herror⟩
  · rw [hsame]
  · rw [hnext]
    exact StreamUpload.sound_pollNext_iff fun e he => hclean e (herror e he)

theorem sound_again_iff (hagain : upload.turn world = (.again, upload', world')) :
    upload'.stream.Sound ↔ upload.stream.Sound := by
  have hiff := sound_turn_iff upload world (by simp [hagain])
  rwa [hagain] at hiff

theorem Phase.exists_last_turn {J : Upload → Prop} (hphase : Phase body k upload world.files)
    (hkeeps : ∀ upload world upload' world', upload.turn world = (.again, upload', world') →
      J upload → J upload')
    (hfirst : J upload) (hends : upload.pollNext world = (.ends polled, upload', world')) :
    ∃ last lastWorld, Phase body k last lastWorld.files ∧ J last ∧
      last.turn lastWorld = (.ends polled, upload', world') := by
  obtain ⟨last, lastWorld, ⟨hlast, hkept⟩, hturn⟩ := Upload.exists_last_turn
    (I := fun upload world => Phase body k upload world.files ∧ J upload)
    (fun _ _ _ _ h hagain => ⟨h.1.of_again hagain, hkeeps _ _ _ _ hagain h.2⟩)
    ⟨hphase, hfirst⟩ hends
  exact ⟨last, lastWorld, hlast, hkept, hturn⟩

theorem Phase.exists_last_sound (hphase : Phase body k upload world.files)
    (hends : upload.pollNext world = (.ends polled, upload', world')) :
    ∃ last lastWorld, Phase body k last lastWorld.files ∧
      (last.stream.Sound ↔ upload.stream.Sound) ∧
        last.turn lastWorld = (.ends polled, upload', world') :=
  hphase.exists_last_turn (J := fun next => next.stream.Sound ↔ upload.stream.Sound)
    (fun _ _ _ _ hagain hiff => (sound_again_iff hagain).trans hiff) Iff.rfl hends

theorem Progress.sound_iff_of_polls (hprogress : Progress body path results machine)
    (hpolls : Polls machine polled machine') (hclean : ∀ e, polled ≠ .ready (some (.error e))) :
    machine'.1.stream.Sound ↔ machine.1.stream.Sound := by
  obtain ⟨last, lastWorld, -, hsound, hturn⟩ := hprogress.phase.exists_last_sound hpolls
  have hiff := sound_turn_iff last lastWorld (by simpa [hturn] using hclean)
  rw [hturn] at hiff
  exact hiff.trans hsound

/-- What fails in a sound body is a file. -/
theorem Progress.io_of_error (hprogress : Progress body path results machine)
    (hsound : machine.1.stream.Sound)
    (hpolls : Polls machine (.ready (some (.error e))) machine') : ∃ io, e = .ofIo io := by
  obtain ⟨last, lastWorld, hphase, hiff, hturn⟩ := hprogress.phase.exists_last_sound hpolls
  rcases hphase.error_of_turn (congrArg Prod.fst hturn) with ⟨waits, hstream⟩ | hio
  · exact absurd hstream ((hiff.2 hsound).pollNext_ne_error e)
  · exact hio

theorem Progress.sound_iff_of_run (hprogress : Progress body path results machine)
    (hrun : Run Polls machine polls machine')
    (hclean : ∀ e, .ready (some (.error e)) ∉ polls) :
    machine'.1.stream.Sound ↔ machine.1.stream.Sound := by
  induction hrun generalizing results with
  | nil machine => rfl
  | cons hpolls _ ih =>
      have hlater := ih (hprogress.of_polls hpolls) fun e he =>
        hclean e (List.mem_cons_of_mem _ he)
      refine hlater.trans (hprogress.sound_iff_of_polls hpolls fun e he => ?_)
      exact hclean e (he ▸ List.mem_cons_self)

theorem Progress.not_error_of_run (hprogress : Progress body path results machine)
    (hsound : machine.1.stream.Sound) (hrun : Run Polls machine polls machine')
    (hfiles : ∀ io, .ready (some (.error (.ofIo io))) ∉ polls) :
    .ready (some (.error e)) ∉ polls := by
  induction hrun generalizing results with
  | nil machine => exact List.not_mem_nil
  | @cons machine _ _ polled polls hpolls _ ih =>
      have hclean (e : UploadError) : polled ≠ .ready (some (.error e)) := by
        rintro rfl
        obtain ⟨io, rfl⟩ := hprogress.io_of_error hsound hpolls
        exact hfiles io List.mem_cons_self
      have hsound' := (hprogress.sound_iff_of_polls hpolls hclean).2 hsound
      have hlater := ih (hprogress.of_polls hpolls) hsound' fun io hio =>
        hfiles io (List.mem_cons_of_mem _ hio)
      intro hmem
      rcases List.mem_cons.1 hmem with heq | hmem
      · exact hclean e heq.symm
      · exact hlater hmem

theorem sound_start_iff (body : Multipart) (allowed : List MimeAllowed) (path : Mime → PathBuf)
    (answers : List Answer) :
    (Machine.start body allowed path answers).1.stream.Sound ↔ body.Sound allowed :=
  StreamUpload.sound_iff_of_ne (by simp [Machine.start, Upload.new, StreamUpload.new])

end Uploads

end WsHyper.UploadFiles
