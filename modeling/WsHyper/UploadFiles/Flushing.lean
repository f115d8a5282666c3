import WsHyper.UploadFiles.Buffer

/-!
# Whether a flush comes back

A file answers each call of a flush; how far the loop of `poll_flush` comes depends
on its answers and on the length of the buffer.  A write that takes nothing leaves
the loop where it is, so a file that takes nothing for ever keeps it for ever.
-/

namespace WsHyper.UploadFiles

open WsHyper.Lib

namespace Buffer

/-- `poll_flush` on a file that answers `writer i`, `writer (i + 1)` and so on, with so
many rounds at most. -/
def pollFlushOn (writer : Nat → Answer) :
    Nat → Nat → Buffer → Files → Option (Poll (Except IoError Unit) × Buffer × Files)
  | 0, _, _, _ => none
  | fuel + 1, i, buffer, files =>
      if buffer.bytes = [] then
        let (result, files) := files.pollFlush buffer.inner (writer i)
        some (result, buffer, files)
      else
        match files.pollWrite buffer.inner buffer.bytes (writer i) with
        | (.ready (.ok n), files) =>
            pollFlushOn writer fuel (i + 1) { buffer with bytes := buffer.bytes.drop n } files
        | (.ready (.error e), files) => some (.ready (.error e), buffer, files)
        | (.pending, files) => some (.pending, buffer, files)

def answersFrom (writer : Nat → Answer) : Nat → Nat → List Answer
  | _, 0 => []
  | i, n + 1 => writer i :: answersFrom writer (i + 1) n

end Buffer

/-! ## How far a flush comes -/

def succeeds : Answer → Bool
  | .done | .accepted _ => true
  | .pending | .failed _ => false

def amount (len : Nat) : Answer → Nat
  | .done => len
  | .accepted n => n
  | .pending | .failed _ => 0

def total (writer : Nat → Answer) (len : Nat) : Nat → Nat
  | 0 => 0
  | k + 1 => total writer len k + amount len (writer k)

/-- Before the `k`-th call, each is a write that succeeds and is not the last one that
is needed. -/
def Comes (writer : Nat → Answer) (len k : Nat) : Prop :=
  ∀ i < k, succeeds (writer i) ∧ total writer len i < len

def Stalls (writer : Nat → Answer) (len : Nat) : Prop :=
  ∃ k, Comes writer len k ∧ total writer len k < len ∧ writer k = .accepted 0

def Fails (writer : Nat → Answer) (len : Nat) : Prop :=
  ∃ k, Comes writer len k ∧ ∃ e, writer k = .failed e

def Ends (writer : Nat → Answer) (len k : Nat) : Prop :=
  Comes writer len k ∧ (succeeds (writer k) → len ≤ total writer len k)

def outcome : Answer → Poll (Except IoError Unit)
  | .pending => .pending
  | .done | .accepted _ => .ready (.ok ())
  | .failed e => .ready (.error e)

section Flushing

variable {writer : Nat → Answer} {len fuel i k : Nat} {buffer : Buffer} {files : Files}

theorem Buffer.pollFlush_of_pollFlushOn {result : Poll (Except IoError Unit)} {buffer' : Buffer}
    {files' : Files} (h : pollFlushOn writer fuel i buffer files = some (result, buffer', files')) :
    (pollFlush (answersFrom writer i fuel) buffer files).result = result ∧
      (pollFlush (answersFrom writer i fuel) buffer files).buffer = buffer' ∧
      (pollFlush (answersFrom writer i fuel) buffer files).files = files' := by
  induction fuel generalizing i buffer files with
  | zero => cases h
  | succ fuel ih =>
      rw [pollFlushOn] at h
      rw [answersFrom, pollFlush]
      split_ifs at h ⊢ with hempty
      · rw [flushInner]
        simp only [Option.some.injEq, Prod.mk.injEq] at h
        exact h
      · rcases Sinks.pollWrite_cases files buffer.inner buffer.bytes (writer i) with
          hwrite | ⟨e, hwrite⟩ | ⟨n, -, hwrite⟩
        · rw [hwrite] at h ⊢
          simp only [Option.some.injEq, Prod.mk.injEq] at h
          exact h
        · rw [hwrite] at h ⊢
          simp only [Option.some.injEq, Prod.mk.injEq] at h
          exact h
        · rw [hwrite] at h ⊢
          exact ih h

theorem pollWrite_of_succeeds (files : Files) (hlen : buffer.bytes.length ≤ len)
    (hsucceeds : succeeds (writer i)) :
    ∃ n, files.pollWrite buffer.inner buffer.bytes (writer i) = (.ready (.ok n),
        files.receive buffer.inner (buffer.bytes.take (amount len (writer i)))) ∧
      buffer.bytes.drop n = buffer.bytes.drop (amount len (writer i)) := by
  cases hanswer : writer i with
  | pending => simp [hanswer, succeeds] at hsucceeds
  | failed e => simp [hanswer, succeeds] at hsucceeds
  | done =>
      refine ⟨buffer.bytes.length, ?_, ?_⟩
      · rw [Sinks.pollWrite, amount, List.take_of_length_le hlen]
      · rw [amount, List.drop_length, List.drop_of_length_le hlen]
  | accepted n =>
      refine ⟨min n buffer.bytes.length, rfl, ?_⟩
      rcases Nat.le_total n buffer.bytes.length with hle | hle
      · rw [Nat.min_eq_left hle, amount]
      · rw [Nat.min_eq_right hle, amount, List.drop_length, List.drop_of_length_le hle]

theorem Buffer.pollFlushOn_of_succeeds (hlen : buffer.bytes.length ≤ len)
    (hrest : buffer.bytes ≠ []) (hsucceeds : succeeds (writer i)) :
    pollFlushOn writer (fuel + 1) i buffer files =
      pollFlushOn writer fuel (i + 1)
        { buffer with bytes := buffer.bytes.drop (amount len (writer i)) }
        (files.receive buffer.inner (buffer.bytes.take (amount len (writer i)))) := by
  obtain ⟨n, hwrite, hdrop⟩ := pollWrite_of_succeeds files hlen hsucceeds
  rw [pollFlushOn, if_neg hrest, hwrite]
  simp only
  rw [hdrop]

theorem comes_succ_iff :
    Comes writer len (k + 1) ↔
      Comes writer len k ∧ succeeds (writer k) ∧ total writer len k < len := by
  constructor
  · intro h
    exact ⟨fun i hi => h i (Nat.lt_succ_of_lt hi), h k (Nat.lt_succ_self k)⟩
  · rintro ⟨hbefore, hlast⟩ i hi
    rcases Nat.lt_succ_iff_lt_or_eq.1 hi with hlt | rfl
    · exact hbefore i hlt
    · exact hlast

theorem Buffer.pollFlushOn_of_comes (fuel : Nat) (files : Files)
    (hcomes : Comes writer buffer.bytes.length k) :
    pollFlushOn writer (k + fuel) 0 buffer files =
      pollFlushOn writer fuel k
        { buffer with bytes := buffer.bytes.drop (total writer buffer.bytes.length k) }
        (files.receive buffer.inner (buffer.bytes.take (total writer buffer.bytes.length k))) := by
  induction k generalizing fuel with
  | zero =>
      rw [total, List.drop_zero, List.take_zero, Sinks.receive_nil, Nat.zero_add]
  | succ k ih =>
      obtain ⟨hbefore, hsucceeds, hlt⟩ := comes_succ_iff.1 hcomes
      have hrest : buffer.bytes.drop (total writer buffer.bytes.length k) ≠ [] := by
        rw [ne_eq, List.drop_eq_nil_iff]
        omega
      have hlength : (buffer.bytes.drop (total writer buffer.bytes.length k)).length ≤
          buffer.bytes.length := by
        rw [List.length_drop]
        omega
      rw [Nat.succ_add_eq_add_succ, ih (fuel + 1) hbefore,
        pollFlushOn_of_succeeds hlength hrest hsucceeds]
      simp only [List.drop_drop, Sinks.receive_receive, total]
      rw [List.take_add]

theorem Buffer.pollFlushOn_of_ends (fuel : Nat) (files : Files)
    (hends : Ends writer buffer.bytes.length k) :
    ∃ buffer' files', pollFlushOn writer (k + (fuel + 1)) 0 buffer files =
      some (outcome (writer k), buffer', files') := by
  obtain ⟨hcomes, hlast⟩ := hends
  rw [pollFlushOn_of_comes (fuel + 1) files hcomes, pollFlushOn]
  simp only [List.drop_eq_nil_iff]
  split_ifs with hempty
  · cases hanswer : writer k with
    | pending => exact ⟨_, _, rfl⟩
    | failed e => exact ⟨_, _, rfl⟩
    | done => exact ⟨_, _, rfl⟩
    | accepted n => exact ⟨_, _, rfl⟩
  · cases hanswer : writer k with
    | pending => exact ⟨_, _, rfl⟩
    | failed e => exact ⟨_, _, rfl⟩
    | done => exact absurd (hlast (by rw [hanswer]; rfl)) hempty
    | accepted n => exact absurd (hlast (by rw [hanswer]; rfl)) hempty

theorem comes_or_ends (writer : Nat → Answer) (len k : Nat) :
    Comes writer len k ∨ ∃ i < k, Ends writer len i := by
  induction k with
  | zero => exact .inl fun i hi => absurd hi (Nat.not_lt_zero i)
  | succ k ih =>
      rcases ih with hcomes | ⟨i, hi, hends⟩
      · by_cases hgoes : succeeds (writer k) ∧ total writer len k < len
        · exact .inl (comes_succ_iff.2 ⟨hcomes, hgoes⟩)
        · refine .inr ⟨k, Nat.lt_succ_self k, hcomes, fun hsucceeds => ?_⟩
          exact Nat.not_lt.1 fun hlt => hgoes ⟨hsucceeds, hlt⟩
      · exact .inr ⟨i, Nat.lt_succ_of_lt hi, hends⟩

theorem ends_of_pollFlushOn {result : Poll (Except IoError Unit)} {buffer' : Buffer}
    {files' : Files}
    (h : Buffer.pollFlushOn writer fuel 0 buffer files = some (result, buffer', files')) :
    ∃ k, Ends writer buffer.bytes.length k ∧ result = outcome (writer k) := by
  rcases comes_or_ends writer buffer.bytes.length fuel with hcomes | ⟨k, hk, hends⟩
  · have hgoes := Buffer.pollFlushOn_of_comes 0 files hcomes
    rw [Nat.add_zero, h] at hgoes
    cases hgoes
  · obtain ⟨rest, rfl⟩ := Nat.exists_eq_add_of_lt hk
    obtain ⟨last, sent, hlast⟩ := Buffer.pollFlushOn_of_ends rest files hends
    rw [Nat.add_assoc, hlast] at h
    obtain ⟨rfl, -⟩ := Prod.mk.inj (Option.some.inj h)
    exact ⟨k, hends, rfl⟩

theorem ends_of_failed {e : IoError} (hcomes : Comes writer len k) (hfails : writer k = .failed e) :
    Ends writer len k := by
  refine ⟨hcomes, fun hsucceeds => ?_⟩
  simp [hfails, succeeds] at hsucceeds

theorem le_total (hstalls : ¬Stalls writer len) (hcomes : Comes writer len k) :
    k ≤ total writer len k := by
  induction k with
  | zero => exact Nat.zero_le _
  | succ k ih =>
      obtain ⟨hbefore, hsucceeds, hlt⟩ := comes_succ_iff.1 hcomes
      have hle := ih hbefore
      have htakes : 0 < amount len (writer k) := by
        cases hanswer : writer k with
        | pending => simp [hanswer, succeeds] at hsucceeds
        | failed e => simp [hanswer, succeeds] at hsucceeds
        | done =>
            rw [amount]
            omega
        | accepted n =>
            refine Nat.pos_of_ne_zero fun hzero => hstalls ⟨k, hbefore, hlt, ?_⟩
            rw [amount] at hzero
            rw [hanswer, hzero]
      rw [total]
      omega

theorem exists_ends (hstalls : ¬Stalls writer len) : ∃ k ≤ len, Ends writer len k := by
  rcases comes_or_ends writer len (len + 1) with hcomes | ⟨k, hk, hends⟩
  · obtain ⟨hbefore, -, hlt⟩ := comes_succ_iff.1 hcomes
    exact absurd (le_total hstalls hbefore) (Nat.not_le.2 hlt)
  · exact ⟨k, Nat.lt_succ_iff.1 hk, hends⟩

theorem outcome_eq_error_iff {answer : Answer} {e : IoError} :
    outcome answer = .ready (.error e) ↔ answer = .failed e := by
  cases answer <;> simp [outcome]

end Flushing

theorem pollFlush_returns_iff (writer : Nat → Answer) (buffer : Buffer) (files : Files) :
    (∃ fuel result buffer' files',
        Buffer.pollFlushOn writer fuel 0 buffer files = some (result, buffer', files') ∧
          (Stalls writer buffer.bytes.length → ∃ e, result = .ready (.error e))) ↔
      (¬Stalls writer buffer.bytes.length ∨ Fails writer buffer.bytes.length) := by
  constructor
  · rintro ⟨fuel, result, buffer', files', hreturns, herror⟩
    by_cases hstalls : Stalls writer buffer.bytes.length
    · obtain ⟨e, rfl⟩ := herror hstalls
      obtain ⟨k, hends, houtcome⟩ := ends_of_pollFlushOn hreturns
      exact .inr ⟨k, hends.1, e, outcome_eq_error_iff.1 houtcome.symm⟩
    · exact .inl hstalls
  · rintro (hstalls | ⟨k, hcomes, e, hfails⟩)
    · obtain ⟨k, -, hends⟩ := exists_ends hstalls
      obtain ⟨buffer', files', hreturns⟩ := Buffer.pollFlushOn_of_ends 0 files hends
      exact ⟨_, _, _, _, hreturns, fun h => absurd h hstalls⟩
    · obtain ⟨buffer', files', hreturns⟩ :=
        Buffer.pollFlushOn_of_ends 0 files (ends_of_failed hcomes hfails)
      exact ⟨_, _, _, _, hreturns, fun _ => ⟨e, outcome_eq_error_iff.2 hfails⟩⟩

def oneByte : Buffer := { Buffer.new 0 with bytes := [1] }

def emptyFile : Files := Sinks.create [] ['f']

/-- If the file takes nothing, `poll_flush` asks for ever where `write_flush` gives up. -/
theorem pollFlush_never_returns :
    (∀ fuel, Buffer.pollFlushOn (fun _ => .accepted 0) fuel 0 oneByte emptyFile = none) ∧
      (Buffer.writeFlush [.accepted 0] oneByte emptyFile).result =
        .ready (.error .unexpectedEof) := by
  refine ⟨fun fuel => ?_, rfl⟩
  have hround (fuel i : Nat) :
      Buffer.pollFlushOn (fun _ => .accepted 0) fuel i oneByte emptyFile = none := by
    induction fuel generalizing i with
    | zero => rfl
    | succ fuel ih => exact ih (i + 1)
  exact hround fuel 0

end WsHyper.UploadFiles
