import Allgres.Bytes
import Mathlib.Algebra.Group.Nat.Defs
import Mathlib.Data.List.TakeWhile

/-! The transport of an outbound call. Its waits are cut into slices, so that a cancellation is noticed
between them; the transport it wraps is given by what its calls report. Times are in nanoseconds. -/

namespace Allgres

/-- ureq's own `Duration`. -/
inductive UreqDuration where
  | exactly (nanos : Nat)
  | notHappening
  deriving DecidableEq

/-- The `std::time::Duration` it derefs to. -/
def UreqDuration.nanos : UreqDuration → Nat
  | exactly n => n
  | notHappening => (2 ^ 64 - 1) * 1000000000

structure NextTimeout where
  after : UreqDuration
  reason : String
  deriving DecidableEq

inductive UreqError where
  | timeout (reason : String)
  | other (text : String)
  deriving DecidableEq

/-- The seconds of an instant are 63 bits wide. -/
def instantBound : Nat :=
  2 ^ 63 * 1000000000

/-- `Instant + Duration` panics on overflow. -/
def addToInstant (t d : Nat) : Option Nat :=
  if t + d < instantBound then some (t + d) else none

def cancelPollInterval : Nat :=
  150 * 1000000

/-- `CancellableTransport::sliced`. -/
def sliced (after : Nat) (reason : String) : NextTimeout where
  after := .exactly (min after cancelPollInterval)
  reason := reason

/-- One turn of a loop: the time until it reads the clock, the cancellation flag, what the inner
transport reports, and how long that takes. -/
structure LoopTurn (ρ : Type) where
  waited : Nat := 0
  cancelled : Bool := false
  report : ρ
  took : Nat := 0
  deriving DecidableEq

/-- How a call ends; it is pending when the reports at hand do not suffice. -/
inductive Fate (α : Type) where
  | panics
  | pending
  | returns (a : α)
  deriving DecidableEq

def Fate.map {α β : Type} (f : α → β) : Fate α → Fate β
  | panics => .panics
  | pending => .pending
  | returns a => .returns (f a)

/-- The calls of the inner transport, and the report that is handed on; none when the loop is cancelled. -/
structure Polled (ρ : Type) where
  calls : List (NextTimeout × ρ) := []
  last : Option ρ
  deriving DecidableEq

section Poll

variable {ρ : Type}

/-- The loop of `transmit_output` and `await_input`; `retries` says on which reports it goes on. -/
def poll (retries : ρ → Bool) (timeout : NextTimeout) (deadline : Nat) : Nat → List (LoopTurn ρ) → Fate (Polled ρ)
  | _, [] => .pending
  | now, t :: ts =>
    let remaining := deadline - (now + t.waited)
    if t.cancelled then .returns { last := none }
    else if remaining = 0 then .returns { calls := [(timeout, t.report)], last := some t.report }
    else if retries t.report then
      (poll retries timeout deadline (now + t.waited + t.took) ts).map fun p =>
        { p with calls := (sliced remaining timeout.reason, t.report) :: p.calls }
    else .returns { calls := [(sliced remaining timeout.reason, t.report)], last := some t.report }

/-- The loop with the deadline of the caller's timeout. -/
def pollUntil (retries : ρ → Bool) (start : Nat) (timeout : NextTimeout) (turns : List (LoopTurn ρ)) :
    Fate (Polled ρ) :=
  match addToInstant start timeout.after.nanos with
  | none => .panics
  | some deadline => poll retries timeout deadline start turns

end Poll

/-- What `transmit_output` of the inner transport reports, with the number of bytes written before a
failure. -/
inductive SendReport where
  | sent
  | timeout (written : Nat)
  | failed (written : Nat) (e : String)
  deriving DecidableEq

namespace SendReport

def timesOut : SendReport → Bool
  | timeout _ => true
  | _ => false

/-- What reaches the peer. -/
def written (output : List Bytes.Byte) : SendReport → List Bytes.Byte
  | sent => output
  | timeout n => output.take n
  | failed n _ => output.take n

end SendReport

def cancelledByOperator : UreqError :=
  .other "cancelled by operator"

def transmitOutput (start : Nat) (timeout : NextTimeout) (turns : List (LoopTurn SendReport)) :
    Fate (Polled SendReport) :=
  pollUntil SendReport.timesOut start timeout turns

def sendResult (reason : String) (p : Polled SendReport) : Except UreqError Unit :=
  match p.last with
  | none => .error cancelledByOperator
  | some .sent => .ok ()
  | some (.timeout _) => .error (.timeout reason)
  | some (.failed _ e) => .error (.other e)

/-- All that reaches the peer in a call that is to transmit `amount` bytes. -/
def delivered (output : List Bytes.Byte) (amount : Nat) (p : Polled SendReport) : List Bytes.Byte :=
  p.calls.flatMap fun c => c.2.written (output.take amount)

/-- What `await_input` of the inner transport reports. -/
inductive WaitReport where
  | input
  | endOfStream
  | timeout
  | failed (e : String)
  deriving DecidableEq

def WaitReport.result (reason : String) : WaitReport → Except UreqError Bool
  | input => .ok true
  | endOfStream => .ok false
  | timeout => .error (.timeout reason)
  | failed e => .error (.other e)

/-- The loop of `await_input` goes on. -/
def goesOn : WaitReport → Bool
  | .endOfStream | .timeout => true
  | _ => false

def awaitInput (start : Nat) (timeout : NextTimeout) (turns : List (LoopTurn WaitReport)) :
    Fate (Polled WaitReport) :=
  pollUntil goesOn start timeout turns

def awaitResult (reason : String) (p : Polled WaitReport) : Except UreqError Bool :=
  match p.last with
  | none => .error cancelledByOperator
  | some r => r.result reason

/-- `canUseInput` is what the buffers say. -/
def maybeAwaitInput (canUseInput : Bool) (start : Nat) (timeout : NextTimeout)
    (turns : List (LoopTurn WaitReport)) : Fate (Except UreqError Bool) :=
  if canUseInput then .returns (.ok true)
  else (awaitInput start timeout turns).map (awaitResult timeout.reason)

/-- What one wait of the inner transport would report with the whole timeout: the end of a slice is not
noticed before the deadline. The number counts the reports it comes from. -/
def unsliced (deadline : Nat) : Nat → List (LoopTurn WaitReport) → Fate (Nat × WaitReport)
  | _, [] => .pending
  | now, t :: ts => match t.report with
    | .timeout =>
      if deadline ≤ now + t.waited + t.took then .returns (1, .timeout)
      else (unsliced deadline (now + t.waited + t.took) ts).map fun r => (r.1 + 1, r.2)
    | r => .returns (1, r)

/-- The call returns what the unsliced wait would, and the end of the stream without a further wait. -/
def Transparent (start : Nat) (timeout : NextTimeout) (turns : List (LoopTurn WaitReport)) : Prop :=
  (awaitInput start timeout turns).map (awaitResult timeout.reason) =
      (unsliced (start + timeout.after.nanos) start turns).map (fun r => r.2.result timeout.reason) ∧
    ∀ n, unsliced (start + timeout.after.nanos) start turns = .returns (n, .endOfStream) →
      ∃ p, awaitInput start timeout turns = .returns p ∧ p.calls.length = n

/-- The first report before the deadline that is not the end of a slice is not the end of the stream; and
after a slice that begins before the deadline and ends behind it, the next wait reports nothing either. -/
def Straight (deadline : Nat) : Nat → List (LoopTurn WaitReport) → Prop
  | _, [] => True
  | now, t :: ts => match t.report with
    | .timeout => if deadline ≤ now + t.waited then True
      else if deadline ≤ now + t.waited + t.took then ts.head?.map (·.report) = some .timeout
      else Straight deadline (now + t.waited + t.took) ts
    | .endOfStream => deadline ≤ now + t.waited
    | _ => True

section Sending

variable {ρ : Type} {retries : ρ → Bool} {timeout : NextTimeout} {deadline : Nat}

theorem Fate.map_eq_returns {α β : Type} {f : α → β} {x : Fate α} {b : β} :
    x.map f = .returns b ↔ ∃ a, x = .returns a ∧ f a = b := by
  cases x <;> simp [Fate.map]

/-- The loop makes the calls that are retried and the one it returns from. -/
theorem calls_of_poll {now : Nat} {turns : List (LoopTurn ρ)} {p : Polled ρ} {r : ρ}
    (h : poll retries timeout deadline now turns = .returns p) (hlast : p.last = some r) (hr : retries r = false) :
    p.calls.map (·.2) = (turns.takeWhile fun t => retries t.report).map (·.report) ++ [r] := by
  induction turns generalizing now p with
  | nil => simp [poll] at h
  | cons t ts ih =>
    simp only [poll] at h
    by_cases hcancelled : t.cancelled = true
    · simp only [hcancelled, if_true, Fate.returns.injEq] at h
      subst h
      cases hlast
    · simp only [hcancelled, Bool.false_eq_true, if_false] at h
      by_cases hover : deadline - (now + t.waited) = 0
      · simp only [hover, if_true, Fate.returns.injEq] at h
        subst h
        obtain rfl : t.report = r := Option.some.inj hlast
        simp [hr]
      · by_cases hagain : retries t.report = true
        · simp only [hover, hagain, if_true, if_false] at h
          obtain ⟨q, hq, rfl⟩ := Fate.map_eq_returns.mp h
          simpa [hagain] using ih hq hlast
        · simp only [hover, hagain, Bool.false_eq_true, if_false, Fate.returns.injEq] at h
          subst h
          obtain rfl : t.report = r := Option.some.inj hlast
          simp [hr]

theorem sent_of_ok {reason : String} {p : Polled SendReport} (h : sendResult reason p = .ok ()) :
    p.last = some .sent := by
  unfold sendResult at h
  split at h <;> simp_all

/-- A call that returns `Ok` has written the output once just if no slice that timed out had written
anything. -/
theorem transmitOutput_once_iff {start : Nat} {timeout : NextTimeout} {turns : List (LoopTurn SendReport)}
    {p : Polled SendReport} (output : List Bytes.Byte) (amount : Nat)
    (h : transmitOutput start timeout turns = .returns p) (hok : sendResult timeout.reason p = .ok ()) :
    delivered output amount p = output.take amount ↔
      ∀ t ∈ turns.takeWhile (·.report.timesOut), t.report.written (output.take amount) = [] := by
  have hcalls : p.calls.map (·.2) =
      (turns.takeWhile (·.report.timesOut)).map (·.report) ++ [SendReport.sent] := by
    unfold transmitOutput pollUntil at h
    split at h
    · cases h
    · exact calls_of_poll h (sent_of_ok hok) rfl
  have hbytes : delivered output amount p =
      (turns.takeWhile (·.report.timesOut)).flatMap (fun t => t.report.written (output.take amount)) ++
        output.take amount := by
    have hmap : delivered output amount p =
        (p.calls.map (·.2)).flatMap fun r => r.written (output.take amount) := by
      simp [delivered, List.flatMap_map]
    rw [hmap, hcalls, List.flatMap_append, List.flatMap_map]
    simp [SendReport.written]
  rw [hbytes, List.append_left_eq_self, List.flatMap_eq_nil_iff]

end Sending

def bodySlice : NextTimeout :=
  ⟨.exactly 30000000000, "send body"⟩

/-- Half of the output is written when a slice runs out. -/
def halfSent : List (LoopTurn SendReport) :=
  [{ report := .timeout 1, took := cancelPollInterval }, { report := .sent }]

theorem unwritten_slice_once :
    delivered [7, 8] 2
        ⟨[(sliced 30000000000 "send body", .timeout 0), (sliced 29850000000 "send body", .sent)], some .sent⟩ = [7, 8] ↔
      ∀ t ∈ ([{ report := .timeout 0, took := cancelPollInterval }, { report := .sent }] :
          List (LoopTurn SendReport)).takeWhile (·.report.timesOut), t.report.written ([7, 8].take 2) = [] :=
  @transmitOutput_once_iff 0 bodySlice [{ report := .timeout 0, took := cancelPollInterval }, { report := .sent }] _
    [7, 8] 2 (by decide) rfl

theorem half_sent_twice :
    ¬ ∀ (start : Nat) (timeout : NextTimeout) (turns : List (LoopTurn SendReport)) (p : Polled SendReport)
        (output : List Bytes.Byte) (amount : Nat), (∀ t ∈ turns, t.cancelled = false) →
      transmitOutput start timeout turns = .returns p → sendResult timeout.reason p = .ok () →
        delivered output amount p = output.take amount := by
  intro h
  have honce := h 0 bodySlice halfSent
    ⟨[(sliced 30000000000 "send body", .timeout 1), (sliced 29850000000 "send body", .sent)], some .sent⟩ [7, 8] 2
    (by decide) (by decide) rfl
  exact absurd honce (by decide)

section Waiting

variable {timeout : NextTimeout} {deadline now : Nat}

theorem WaitReport.result_injective (reason : String) : Function.Injective (WaitReport.result reason) := by
  intro a b h
  cases a <;> cases b <;> simp_all [WaitReport.result]

theorem Fate.map_map {α β γ : Type} (f : α → β) (g : β → γ) (x : Fate α) : (x.map f).map g = x.map (g ∘ f) := by
  cases x <;> rfl

theorem Fate.map_eq_panics {α β : Type} {f : α → β} {x : Fate α} : x.map f = .panics ↔ x = .panics := by
  cases x <;> simp [Fate.map]

theorem unsliced_ne_panics (turns : List (LoopTurn WaitReport)) : unsliced deadline now turns ≠ .panics := by
  induction turns generalizing now with
  | nil => simp [unsliced]
  | cons t ts ih =>
    unfold unsliced
    split
    · split
      · simp
      · exact fun h => ih (Fate.map_eq_panics.mp h)
    · simp

theorem calls_pos {ρ : Type} {retries : ρ → Bool} {turns : List (LoopTurn ρ)} {p : Polled ρ}
    (hcancel : ∀ t ∈ turns, t.cancelled = false) (h : poll retries timeout deadline now turns = .returns p) :
    0 < p.calls.length := by
  cases turns with
  | nil => simp [poll] at h
  | cons t ts =>
    simp only [poll, hcancel t List.mem_cons_self, Bool.false_eq_true, if_false] at h
    split_ifs at h
    · obtain rfl := Fate.returns.inj h
      simp
    · obtain ⟨q, -, rfl⟩ := Fate.map_eq_returns.mp h
      simp
    · obtain rfl := Fate.returns.inj h
      simp

/-- `Transparent`, from any reading of the clock on. -/
def TransparentFrom (timeout : NextTimeout) (deadline now : Nat) (turns : List (LoopTurn WaitReport)) : Prop :=
  (poll goesOn timeout deadline now turns).map (awaitResult timeout.reason) =
      (unsliced deadline now turns).map (fun r => r.2.result timeout.reason) ∧
    ∀ n, unsliced deadline now turns = .returns (n, .endOfStream) →
      ∃ p, poll goesOn timeout deadline now turns = .returns p ∧ p.calls.length = n

section Step

variable {t : LoopTurn WaitReport} {ts : List (LoopTurn WaitReport)} (hcancel : t.cancelled = false)
include hcancel

/-- A report the loop and the unsliced wait both end with. -/
theorem transparentFrom_of_last (hpoll : deadline ≤ now + t.waited ∨ goesOn t.report = false)
    (hend : unsliced deadline now (t :: ts) = .returns (1, t.report)) :
    TransparentFrom timeout deadline now (t :: ts) := by
  obtain ⟨c, hc⟩ : ∃ c, poll goesOn timeout deadline now (t :: ts) = .returns ⟨[(c, t.report)], some t.report⟩ := by
    simp only [poll, hcancel, Bool.false_eq_true, if_false]
    by_cases hover : deadline - (now + t.waited) = 0
    · exact ⟨_, if_pos hover⟩
    · have hstops : goesOn t.report = false := hpoll.resolve_left (by omega)
      simp only [hover, hstops, Bool.false_eq_true, if_false]
      exact ⟨_, rfl⟩
  refine ⟨by rw [hc, hend]; rfl, ?_⟩
  intro n hn
  rw [hend, Fate.returns.injEq, Prod.mk.injEq] at hn
  exact ⟨_, hc, hn.1⟩

theorem poll_again (hover : now + t.waited < deadline) (hagain : goesOn t.report = true) :
    poll goesOn timeout deadline now (t :: ts) =
      (poll goesOn timeout deadline (now + t.waited + t.took) ts).map fun p =>
        { p with calls := (sliced (deadline - (now + t.waited)) timeout.reason, t.report) :: p.calls } := by
  have hleft : ¬ deadline - (now + t.waited) = 0 := by omega
  simp only [poll, hcancel, hleft, hagain, Bool.false_eq_true, if_false, if_true]

end Step

theorem transparentFrom_iff (turns : List (LoopTurn WaitReport)) (hcancel : ∀ t ∈ turns, t.cancelled = false) :
    TransparentFrom timeout deadline now turns ↔ Straight deadline now turns := by
  induction turns generalizing now with
  | nil => simp [TransparentFrom, poll, unsliced, Straight, Fate.map]
  | cons t ts ih =>
    have ht := hcancel t List.mem_cons_self
    have hts : ∀ u ∈ ts, u.cancelled = false := fun u hu => hcancel u (List.mem_cons_of_mem _ hu)
    cases hr : t.report with
    | input =>
      have hstraight : Straight deadline now (t :: ts) := by simp [Straight, hr]
      exact iff_of_true (transparentFrom_of_last ht (.inr (by rw [hr]; rfl)) (by simp [unsliced, hr])) hstraight
    | failed e =>
      have hstraight : Straight deadline now (t :: ts) := by simp [Straight, hr]
      exact iff_of_true (transparentFrom_of_last ht (.inr (by rw [hr]; rfl)) (by simp [unsliced, hr])) hstraight
    | endOfStream =>
      have hend : unsliced deadline now (t :: ts) = .returns (1, .endOfStream) := by simp [unsliced, hr]
      have hstraight : Straight deadline now (t :: ts) ↔ deadline ≤ now + t.waited := by simp [Straight, hr]
      rw [hstraight]
      constructor
      · rintro ⟨-, hreads⟩
        by_contra hover
        obtain ⟨p, hp, hlength⟩ := hreads 1 hend
        rw [poll_again ht (by omega) (by rw [hr]; rfl)] at hp
        obtain ⟨q, hq, rfl⟩ := Fate.map_eq_returns.mp hp
        have hpos := calls_pos hts hq
        simp only [List.length_cons] at hlength
        omega
      · intro hover
        exact transparentFrom_of_last ht (.inl hover) (by rw [hr]; exact hend)
    | timeout =>
      by_cases hover : deadline ≤ now + t.waited
      · have hlate : deadline ≤ now + t.waited + t.took := by omega
        have hstraight : Straight deadline now (t :: ts) := by simp [Straight, hr, hover]
        exact iff_of_true (transparentFrom_of_last ht (.inl hover) (by simp [unsliced, hr, hlate])) hstraight
      · have hpoll : poll goesOn timeout deadline now (t :: ts) = _ :=
          poll_again ht (Nat.lt_of_not_le hover) (by rw [hr]; rfl)
        by_cases hlate : deadline ≤ now + t.waited + t.took
        · have hend : unsliced deadline now (t :: ts) = .returns (1, .timeout) := by simp [unsliced, hr, hlate]
          have hstraight : Straight deadline now (t :: ts) ↔ ts.head?.map (·.report) = some .timeout := by
            simp [Straight, hr, hover, hlate]
          rw [hstraight]
          cases ts with
          | nil =>
            have hnil : poll goesOn timeout deadline (now + t.waited + t.took) [] = .pending := rfl
            simp [TransparentFrom, hpoll, hend, hnil, Fate.map]
          | cons u us =>
            have hzero : deadline - (now + t.waited + t.took + u.waited) = 0 := by omega
            have hu := hts u List.mem_cons_self
            have hlast : poll goesOn timeout deadline (now + t.waited + t.took) (u :: us) =
                .returns ⟨[(timeout, u.report)], some u.report⟩ := by
              simp [poll, hu, hzero]
            simp [TransparentFrom, hpoll, hend, hlast, Fate.map, awaitResult,
              (WaitReport.result_injective timeout.reason).eq_iff]
        · have hrest : unsliced deadline now (t :: ts) =
              (unsliced deadline (now + t.waited + t.took) ts).map fun r => (r.1 + 1, r.2) := by
            simp [unsliced, hr, hlate]
          have hstraight : Straight deadline now (t :: ts) ↔ Straight deadline (now + t.waited + t.took) ts := by
            simp [Straight, hr, hover, hlate]
          rw [hstraight, ← ih hts]
          simp only [TransparentFrom, hpoll, hrest, Fate.map_map, Fate.map_eq_returns]
          refine and_congr Iff.rfl ?_
          constructor
          · intro h n hn
            obtain ⟨p, ⟨q, hq, rfl⟩, hlength⟩ := h (n + 1) ⟨(n, .endOfStream), hn, rfl⟩
            exact ⟨q, hq, by simpa using hlength⟩
          · rintro h n ⟨⟨m, r⟩, hm, hn⟩
            cases hn
            obtain ⟨q, hq, hlength⟩ := h m hm
            exact ⟨_, ⟨q, hq, rfl⟩, by simp [hlength]⟩

theorem awaitInput_eq_poll {start : Nat} (turns : List (LoopTurn WaitReport))
    (hfits : start + timeout.after.nanos < instantBound) :
    awaitInput start timeout turns = poll goesOn timeout (start + timeout.after.nanos) start turns := by
  simp [awaitInput, pollUntil, addToInstant, hfits]

/-- With nothing in the buffers the wait of `maybe_await_input` is the unsliced one, too. -/
theorem maybeAwaitInput_straight {start : Nat} {turns : List (LoopTurn WaitReport)} (canUseInput : Bool)
    (hcancel : ∀ t ∈ turns, t.cancelled = false) (hfits : start + timeout.after.nanos < instantBound)
    (hstraight : Straight (start + timeout.after.nanos) start turns) :
    maybeAwaitInput canUseInput start timeout turns = if canUseInput then .returns (.ok true)
      else (unsliced (start + timeout.after.nanos) start turns).map fun r => r.2.result timeout.reason := by
  unfold maybeAwaitInput
  rw [awaitInput_eq_poll turns hfits, ((transparentFrom_iff turns hcancel).mpr hstraight).1]

/-- A wait that is never cancelled is transparent just if its deadline can be computed and the reports
come straight. -/
theorem awaitInput_transparent_iff (start : Nat) (timeout : NextTimeout) (turns : List (LoopTurn WaitReport))
    (hcancel : ∀ t ∈ turns, t.cancelled = false) :
    Transparent start timeout turns ↔ start + timeout.after.nanos < instantBound ∧
      Straight (start + timeout.after.nanos) start turns := by
  by_cases hfits : start + timeout.after.nanos < instantBound
  · have hiff : TransparentFrom timeout (start + timeout.after.nanos) start turns ↔
        Straight (start + timeout.after.nanos) start turns := transparentFrom_iff turns hcancel
    rw [Transparent, awaitInput_eq_poll turns hfits, ← hiff]
    simp [hfits, TransparentFrom]
  · have hpanics : awaitInput start timeout turns = .panics := by
      simp [awaitInput, pollUntil, addToInstant, hfits]
    have hsane : unsliced (start + timeout.after.nanos) start turns ≠ .panics := unsliced_ne_panics turns
    simp only [hfits, false_and, iff_false]
    rintro ⟨h, -⟩
    rw [hpanics] at h
    exact hsane (Fate.map_eq_panics.mp h.symm)

/-- The reader of a response without a length finds the end of the stream. -/
def closedStream : List (LoopTurn WaitReport) :=
  [{ report := .endOfStream }, { waited := 30000000000, report := .endOfStream }]

def headSlice : NextTimeout :=
  ⟨.exactly 30000000000, "receive body"⟩

theorem late_data_transparent :
    Transparent 5 headSlice [{ report := .timeout, took := cancelPollInterval }, { report := .input }] :=
  (awaitInput_transparent_iff 5 headSlice _ (by decide)).mpr ⟨by decide, by simp [Straight, headSlice]; decide⟩

theorem closed_stream_read_again :
    ¬ ∀ (start : Nat) (timeout : NextTimeout) (turns : List (LoopTurn WaitReport)),
      (∀ t ∈ turns, t.cancelled = false) → Transparent start timeout turns := by
  intro h
  obtain ⟨p, hp, hlength⟩ := (h 0 headSlice closedStream (by decide)).2 1 (by decide)
  have htwice : awaitInput 0 headSlice closedStream =
      .returns ⟨[(sliced 30000000000 "receive body", .endOfStream), (headSlice, .endOfStream)], some .endOfStream⟩ := by
    decide
  rw [htwice] at hp
  obtain rfl := Fate.returns.inj hp
  exact absurd hlength (by decide)

end Waiting

end Allgres
