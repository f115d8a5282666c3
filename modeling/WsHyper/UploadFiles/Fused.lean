import WsHyper.UploadFiles.Stored

/-!
# The end of an upload

Nothing is written or flushed before a file was created, so the machine always has
the buffer that it asks for.  An error and the end of the body leave it in a state
that it does not get out of.
-/

namespace WsHyper.UploadFiles

open WsHyper.Lib

/-- The poll gave an error or the end of the stream. -/
def Stops : Polled → Bool
  | .ready none => true
  | .ready (some (.error _)) => true
  | _ => false

section Fused

variable {upload upload' : Upload} {world world' : World} {polled : Polled} {fuel : Nat}

/-! ## What ends the stream -/

theorem done_iff_of_read {item : Option (Except UploadError ResultStream)}
    (hends : upload.read world item = (.ends polled, upload', world')) :
    upload'.state = .done ↔ Stops polled := by
  unfold Upload.read at hends
  split at hends
  · cases hends
  · cases hends
  · cases hends
  · cases hends
    exact iff_of_true rfl rfl
  · cases hends
    exact iff_of_true rfl rfl

theorem done_iff_of_turnWritting {buf : Bytes} (hstate : upload.state = .writting buf)
    (hends : upload.turnWritting world buf = (.ends polled, upload', world')) :
    upload'.state = .done ↔ Stops polled := by
  unfold Upload.turnWritting at hends
  cases hbuffer : upload.buffer with
  | none =>
      rw [hbuffer] at hends
      cases hends
  | some buffer =>
      simp only [hbuffer] at hends
      split at hends
      · cases hends
      · cases hends
        exact iff_of_true rfl rfl
      · cases hends
        exact iff_of_false (by simp [hstate]) (by simp [Stops])

theorem done_iff_of_turnReading (hstate : upload.state = .reading)
    (hends : upload.turnReading world = (.ends polled, upload', world')) :
    upload'.state = .done ↔ Stops polled := by
  unfold Upload.turnReading at hends
  simp only at hends
  split at hends
  · exact done_iff_of_read hends
  · cases hends
    exact iff_of_false (by simp [hstate]) (by simp [Stops])

theorem done_iff_of_turnCreate {path : PathBuf} (hstate : upload.state = .create path)
    (hends : upload.turnCreate world path = (.ends polled, upload', world')) :
    upload'.state = .done ↔ Stops polled := by
  unfold Upload.turnCreate at hends
  simp only at hends
  split at hends
  · cases hends
    exact iff_of_false (by simp [hstate]) (by simp [Stops])
  · cases hends
    exact iff_of_true rfl rfl
  · cases hends
  · cases hends

theorem done_iff_of_turnFlush (hstate : upload.state = .flush)
    (hends : upload.turnFlush world = (.ends polled, upload', world')) :
    upload'.state = .done ↔ Stops polled := by
  unfold Upload.turnFlush at hends
  cases hbuffer : upload.buffer with
  | none =>
      simp only [hbuffer] at hends
      cases hends
      exact iff_of_true rfl rfl
  | some buffer =>
      simp only [hbuffer] at hends
      split at hends
      · cases hends
        exact iff_of_false (by simp) (by simp [Stops])
      · cases hends
        exact iff_of_true rfl rfl
      · cases hends
        exact iff_of_false (by simp [hstate]) (by simp [Stops])

theorem done_iff_of_turn (hends : upload.turn world = (.ends polled, upload', world')) :
    upload'.state = .done ↔ Stops polled := by
  unfold Upload.turn at hends
  cases hstate : upload.state with
  | writting buf =>
      rw [hstate] at hends
      exact done_iff_of_turnWritting hstate hends
  | reading =>
      rw [hstate] at hends
      exact done_iff_of_turnReading hstate hends
  | create path =>
      rw [hstate] at hends
      exact done_iff_of_turnCreate hstate hends
  | flush =>
      rw [hstate] at hends
      exact done_iff_of_turnFlush hstate hends
  | done =>
      rw [hstate] at hends
      cases hends
      exact iff_of_true hstate rfl

theorem done_iff_of_pollNext (hends : upload.pollNext world = (.ends polled, upload', world')) :
    upload'.state = .done ↔ Stops polled := by
  obtain ⟨last, lastWorld, -, hlast⟩ := Upload.exists_last_turn (I := fun _ _ => True)
    (fun _ _ _ _ _ _ => trivial) trivial hends
  exact done_iff_of_turn hlast

theorem ne_done_of_again (hagain : upload.turn world = (.again, upload', world')) :
    upload'.state ≠ .done := by
  unfold Upload.turn at hagain
  cases hstate : upload.state with
  | writting buf =>
      simp only [hstate, Upload.turnWritting] at hagain
      split at hagain
      · cases hagain
      · split at hagain
        · cases hagain
          simp only
          split_ifs <;> simp
        · cases hagain
        · cases hagain
  | reading =>
      simp only [hstate, Upload.turnReading] at hagain
      split at hagain
      · unfold Upload.read at hagain
        split at hagain
        · cases hagain
          simp
        · cases hagain
          simp
        · cases hagain
          simp
        · cases hagain
        · cases hagain
      · cases hagain
  | create path =>
      simp only [hstate, Upload.turnCreate] at hagain
      split at hagain
      · cases hagain
      · cases hagain
      · cases hagain
        simp
      · cases hagain
        simp
  | flush =>
      rw [hstate] at hagain
      exact absurd hagain Upload.not_again_turnFlush
  | done =>
      rw [hstate] at hagain
      cases hagain

theorem pollNext_of_done (hdone : upload.state = .done) :
    upload.pollNext world = (.ends (.ready none), upload, world) := by
  apply Upload.pollNext_of_ends
  rw [Upload.turn, hdone]

/-! ## Where an error comes from -/

section Errors

variable {e : UploadError}

theorem error_of_turnReading
    (hends : (upload.turnReading world).1 = .ends (.ready (some (.error e)))) :
    ∃ waits, (upload.stream.pollNext waits).1 = .ready (some (.error e)) := by
  refine ⟨(Answer.next world.answers).1.waits, ?_⟩
  unfold Upload.turnReading at hends
  simp only at hends
  generalize upload.stream.pollNext (Answer.next world.answers).1.waits = next at hends
  obtain ⟨polled, stream⟩ := next
  cases polled with
  | pending => cases hends
  | ready item =>
      unfold Upload.read at hends
      simp only at hends
      split at hends
      · cases hends
      · cases hends
      · cases hends
      · cases hends
        rfl
      · cases hends

theorem error_of_turnWritting {buf : Bytes}
    (hends : (upload.turnWritting world buf).1 = .ends (.ready (some (.error e)))) :
    ∃ io, e = .ofIo io := by
  unfold Upload.turnWritting at hends
  split at hends
  · cases hends
  · simp only at hends
    split at hends
    · cases hends
    · cases hends
      exact ⟨_, rfl⟩
    · cases hends

theorem error_of_turnCreate {path : PathBuf}
    (hends : (upload.turnCreate world path).1 = .ends (.ready (some (.error e)))) :
    ∃ io, e = .ofIo io := by
  unfold Upload.turnCreate at hends
  simp only at hends
  split at hends
  · cases hends
  · cases hends
    exact ⟨_, rfl⟩
  · cases hends
  · cases hends

theorem error_of_turnFlush {buffer : Buffer} (hbuffer : upload.buffer = some buffer)
    (hends : (upload.turnFlush world).1 = .ends (.ready (some (.error e)))) :
    ∃ io, e = .ofIo io := by
  unfold Upload.turnFlush at hends
  simp only [hbuffer] at hends
  split at hends
  · cases hends
  · cases hends
    exact ⟨_, rfl⟩
  · cases hends

/-- A flush comes after all else of its field, so there is a buffer: every error is one
of the body or of a file. -/
theorem Phase.error_of_turn {body : Multipart} {k : Nat}
    (hphase : Phase body k upload world.files)
    (hends : (upload.turn world).1 = .ends (.ready (some (.error e)))) :
    (∃ waits, (upload.stream.pollNext waits).1 = .ready (some (.error e))) ∨
      ∃ io, e = .ofIo io := by
  unfold Upload.turn at hends
  cases hphase with
  | between hstate _ _ _ _ =>
      rw [hstate] at hends
      exact .inl (error_of_turnReading hends)
  | creating _ _ _ _ _ hstate _ _ _ _ _ =>
      rw [hstate] at hends
      exact .inr (error_of_turnCreate hends)
  | reading _ _ _ _ _ hstate _ _ _ =>
      rw [hstate] at hends
      exact .inl (error_of_turnReading hends)
  | writting _ _ _ _ _ _ hstate _ _ _ =>
      rw [hstate] at hends
      exact .inr (error_of_turnWritting hends)
  | flushing _ _ _ _ hstate _ _ hfilling =>
      rw [hstate] at hends
      exact .inr (error_of_turnFlush hfilling.buffer_eq hends)
  | stopped hstate _ =>
      rw [hstate] at hends
      cases hends

end Errors

/-! ## The buffer that is there -/

/-- Neither the file nor the body reports that there is no buffer. -/
theorem ofIo_ne_bufferNotDefined (e : IoError) : UploadError.ofIo e ≠ .bufferNotDefined := by
  cases e <;> simp [UploadError.ofIo]

theorem openField_ne_bufferNotDefined {stream : StreamUpload} {field : Field}
    {fields : List Field} :
    (stream.openField field fields).1 ≠ .error .bufferNotDefined := by
  unfold StreamUpload.openField
  simp only
  split
  · simp
  · split
    · simp
    · split_ifs <;> simp

theorem pollNext_ne_bufferNotDefined {stream : StreamUpload} {waits : Bool} :
    (stream.pollNext waits).1 ≠ .ready (some (.error .bufferNotDefined)) := by
  unfold StreamUpload.pollNext
  split
  · simp
  · split_ifs
    · simp
    · split
      · intro heq
        simp only [Poll.ready.injEq, Option.some.injEq] at heq
        exact openField_ne_bufferNotDefined heq
      · split <;> simp
  · split_ifs
    · simp
    · split
      · simp
      · split <;> simp

abbrev missing : Polled := .ready (some (.error .bufferNotDefined))

theorem Phase.turn_ne_missing {body : Multipart} {k : Nat}
    (hphase : Phase body k upload world.files) : (upload.turn world).1 ≠ .ends missing := by
  intro hmissing
  rcases hphase.error_of_turn hmissing with ⟨waits, hstream⟩ | ⟨io, hio⟩
  · exact pollNext_ne_bufferNotDefined hstream
  · exact ofIo_ne_bufferNotDefined io hio.symm

theorem Phase.of_again {body : Multipart} {k : Nat} (hphase : Phase body k upload world.files)
    (hagain : upload.turn world = (.again, upload', world')) :
    Phase body k upload' world'.files := by
  have hadvances := hphase.advances
  rw [hagain] at hadvances
  cases hadvances with
  | goesOn _ _ hphase' => exact hphase'

theorem Phase.pollNext_ne_missing {body : Multipart} {k : Nat}
    (hphase : Phase body k upload world.files) : (upload.pollNext world).1 ≠ .ends missing := by
  intro hmissing
  obtain ⟨last, lastWorld, hlast, hends⟩ := Upload.exists_last_turn
    (I := fun upload world => Phase body k upload world.files)
    (fun _ _ _ _ hphase hagain => hphase.of_again hagain) hphase (Prod.ext hmissing rfl)
  exact hlast.turn_ne_missing (by rw [hends])

end Fused

/-! ## Every run of polls -/

section Runs

variable {machine machine' : Machine} {polls : List Polled}

theorem ready_none_of_done (hdone : machine.1.state = .done)
    (hrun : Run Polls machine polls machine') {polled : Polled} (hmem : polled ∈ polls) :
    polled = .ready none := by
  induction hrun with
  | nil machine => cases hmem
  | cons hpolls _ ih =>
      rw [Polls, pollNext_of_done hdone, Prod.mk.injEq, Flow.ends.injEq] at hpolls
      obtain ⟨rfl, rfl⟩ := hpolls
      rcases List.mem_cons.1 hmem with rfl | hmem
      · rfl
      · exact ih hdone hmem

theorem ready_none_of_stops (hrun : Run Polls machine polls machine') {before after : List Polled}
    {polled : Polled} (hsplit : polls = before ++ polled :: after) (hstops : Stops polled)
    {later : Polled} (hlater : later ∈ after) : later = .ready none := by
  induction hrun generalizing before with
  | nil machine => simp at hsplit
  | cons hpolls hrun ih =>
      cases before with
      | nil =>
          obtain ⟨rfl, rfl⟩ := List.cons.inj hsplit
          exact ready_none_of_done ((done_iff_of_pollNext hpolls).2 hstops) hrun hlater
      | cons _ before =>
          obtain ⟨-, rfl⟩ := List.cons.inj hsplit
          exact ih rfl

end Runs

/-- After any polls, the next one neither panics nor finds the buffer missing; and
after an error or the end each poll gives the end. -/
theorem upload_fused (body : Multipart) (allowed : List MimeAllowed) (path : Mime → PathBuf)
    (answers : List Answer) (polls : List Polled) (machine : Machine)
    (hrun : Run Polls (.start body allowed path answers) polls machine) :
    (machine.1.pollNext machine.2).1 ≠ .panics ∧
      (machine.1.pollNext machine.2).1 ≠ .ends (.ready (some (.error .bufferNotDefined))) ∧
      ∀ before polled after, polls = before ++ polled :: after → Stops polled →
        ∀ later ∈ after, later = .ready none := by
  have hprogress := (Progress.start body allowed path answers).run hrun
  refine ⟨?_, hprogress.phase.pollNext_ne_missing,
    fun before polled after hsplit hstops later => ?_⟩
  · obtain ⟨polled, machine', hpolls, -⟩ := hprogress.pollNext
    rw [hpolls]
    simp
  · exact ready_none_of_stops hrun hsplit hstops

/-- A body whose only field is refused. -/
theorem upload_fused_refused :
    ∃ machine, Run Polls (.start smallBody [] (fun _ => ['d']) slowAnswers)
        [.ready (some (.error (.mimeNotAllowed ['f']
            { type_ := ['t'], subtype := ['s'], rest := [] }))), .ready none] machine ∧
      (machine.1.pollNext machine.2).1 ≠ .panics := by
  have hrun : Run Polls (.start smallBody [] (fun _ => ['d']) slowAnswers)
      [.ready (some (.error (.mimeNotAllowed ['f']
          { type_ := ['t'], subtype := ['s'], rest := [] }))), .ready none] _ :=
    .cons rfl (.cons rfl (.nil _))
  exact ⟨_, hrun, (upload_fused _ _ _ _ _ _ hrun).1⟩

end WsHyper.UploadFiles
