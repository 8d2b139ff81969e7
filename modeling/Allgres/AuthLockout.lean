import Allgres.WebServer

/-! The lockout after failed authentications: how many wrong tokens of one address get past it. -/

namespace Allgres

open Runs

/-- The bearer token of the request is compared with the token of the dashboard, and differs. -/
def wrongToken (cfg : WebConfig) (r : HttpRequest) : Bool :=
  cfg.token != "" && r.bearerToken.any (· != cfg.token)

/-- A request with a wrong token that has passed the lockout check and is not recorded yet. -/
def Phase.awaits (cfg : WebConfig) : Phase → Bool
  | unlocked r | refused r => wrongToken cfg r
  | _ => false

/-- The address and time of a request with a wrong token that passes the lockout check. -/
def attempt (cfg : WebConfig) (w : WebServer) (op : WebOp) : Option (IpAddr × Instant) :=
  match op with
  | .lockout i => match w.phase? i, w.ip? i with
    | some (.admitted r), some ip =>
      if wrongToken cfg r && !w.authFailuresExceeded ip then some (ip, w.clock) else none
    | _, _ => none
  | _ => none

/-- The web worker with the attempts so far. -/
structure Lockout where
  server : WebServer := {}
  attempts : List (IpAddr × Instant) := []

def lockoutStep (cfg : WebConfig) (parse : String → Option Json) (x : Lockout) (e : WebEvent) : Lockout :=
  let w := { x.server with clock := x.server.clock + e.elapsed }
  { server := webStep cfg parse x.server e
    attempts := (attempt cfg w e.op).toList ++ x.attempts }

def attemptsFrom (attempts : List (IpAddr × Instant)) (ip : IpAddr) (start : Instant) : Nat :=
  attempts.countP fun p => p.1 = ip ∧ start ≤ p.2

def attemptsWithin (attempts : List (IpAddr × Instant)) (ip : IpAddr) (start : Instant) : Nat :=
  attempts.countP fun p => p.1 = ip ∧ start ≤ p.2 ∧ p.2 < start + rateAuthFailWindow

/-- In no window do more than the permitted number of wrong tokens of an address get past the check. -/
def Limited (attempts : List (IpAddr × Instant)) : Prop :=
  ∀ ip start, attemptsWithin attempts ip start ≤ rateAuthFailLimit

namespace WebServer

def pending (cfg : WebConfig) (w : WebServer) (ip : IpAddr) : Nat :=
  w.connections.countP fun k => k.ip = some ip ∧ k.phase.awaits cfg = true

/-- No wrong token passes the check while the failures of its address, with those on their way to be
recorded, have reached the limit, and none comes with a ticket that lets it in. -/
def roomy (cfg : WebConfig) (w : WebServer) (op : WebOp) : Bool :=
  match op with
  | .lockout i => match w.phase? i, w.ip? i with
    | some (.admitted r), some ip => !wrongToken cfg r || w.authFailuresExceeded ip ||
        (w.failures ip).length + w.pending cfg ip < rateAuthFailLimit
    | _, _ => true
  | .authorize i waited => match w.phase? i with
    | some (.unlocked r) => !wrongToken cfg r || !(cfg.authorized w.tickets (w.clock - waited) r).2
    | _ => true
  | _ => true

end WebServer

/-- Every attempt a window can still hold is recorded as a failure or about to be. -/
structure Covered (cfg : WebConfig) (w : WebServer) (attempts : List (IpAddr × Instant)) : Prop where
  past : ∀ p ∈ attempts, p.2 ≤ w.clock
  recorded : ∀ ip start, w.clock < start + rateAuthFailWindow →
    attemptsFrom attempts ip start ≤ (w.rate.authFail ip).countP (start ≤ ·) + w.pending cfg ip
  limited : Limited attempts

section Lockout

variable {cfg : WebConfig} {parse : String → Option Json} {w w' : WebServer}
  {attempts : List (IpAddr × Instant)} {ip : IpAddr} {i : Nat} {old : Phase}

theorem pending_enter (cfg : WebConfig) (ip : IpAddr) (new : Phase) (h : w.phase? i = some old) :
    (w.enter i new).pending cfg ip + (if w.ip? i = some ip ∧ old.awaits cfg = true then 1 else 0) =
      w.pending cfg ip + (if w.ip? i = some ip ∧ new.awaits cfg = true then 1 else 0) := by
  obtain ⟨k, hk, hp⟩ := Option.map_eq_some_iff.mp h
  have hip : w.ip? i = k.ip := by
    unfold WebServer.ip?
    rw [hk]
    rfl
  have hcount := WebServer.countP_modify (fun k : Connection => decide (k.ip = some ip ∧ k.phase.awaits cfg = true))
    (fun k => { k with phase := new }) hk
  simp only [decide_eq_true_eq, hp] at hcount
  rw [hip]
  exact hcount

/-- A move between phases that await nothing. -/
theorem pending_of_idle (new : Phase) (h : w.phase? i = some old) (hold : old.awaits cfg = false)
    (hnew : new.awaits cfg = false) : (w.enter i new).pending cfg ip = w.pending cfg ip := by
  have hcount := pending_enter cfg ip new h
  simpa [hold, hnew] using hcount

theorem attemptsWithin_le (attempts : List (IpAddr × Instant)) (ip : IpAddr) (start : Instant) :
    attemptsWithin attempts ip start ≤ attemptsFrom attempts ip start := by
  apply List.countP_mono_left
  intro p _ hp
  simp only [decide_eq_true_eq] at hp ⊢
  exact ⟨hp.1, hp.2.1⟩

/-- The failures a window can still hold survive the sweep. -/
theorem countP_failures {start : Instant} (hs : w.clock < start + rateAuthFailWindow) :
    (w.failures ip).countP (start ≤ ·) = (w.rate.authFail ip).countP (start ≤ ·) := by
  unfold WebServer.failures recent
  rw [List.countP_filter]
  apply List.countP_congr
  intro t _
  simp only [Bool.and_eq_true, decide_eq_true_eq, and_iff_left_iff_imp]
  intro ht
  have hlt : ∀ a b c d : Nat, a < b + c → b ≤ d → 0 < c → a - d < c := fun a b c d => by omega
  exact hlt _ _ _ _ hs ht (by decide)

theorem attemptsFrom_of_lt {start : Instant} (hpast : ∀ p ∈ attempts, p.2 ≤ w.clock) (hs : w.clock < start) :
    attemptsFrom attempts ip start = 0 := by
  apply List.countP_eq_zero.mpr
  intro p hp
  simp only [decide_eq_true_eq, not_and]
  intro _ hle
  exact absurd (hpast p hp) (Nat.not_le.mpr (Nat.lt_of_lt_of_le hs hle))

/-- A step that neither sees an attempt nor takes a failure out of the account. -/
theorem Covered.keep (h : Covered cfg w attempts) (hclock : w'.clock = w.clock)
    (hmore : ∀ ip start, w.clock < start + rateAuthFailWindow → start ≤ w.clock →
      (w.rate.authFail ip).countP (start ≤ ·) + w.pending cfg ip ≤
        (w'.rate.authFail ip).countP (start ≤ ·) + w'.pending cfg ip) : Covered cfg w' attempts where
  past := fun p hp => hclock ▸ h.past p hp
  recorded := by
    intro ip start hs
    rw [hclock] at hs
    by_cases hle : start ≤ w.clock
    · exact Nat.le_trans (h.recorded ip start hs) (hmore ip start hs hle)
    · rw [attemptsFrom_of_lt h.past (Nat.lt_of_not_le hle)]
      exact Nat.zero_le _
  limited := h.limited

theorem Covered.enter (new : Phase) (h : Covered cfg w attempts) (hp : w.phase? i = some old) (hold : old.awaits cfg = false)
    (hnew : new.awaits cfg = false) : Covered cfg (w.enter i new) attempts := by
  refine h.keep rfl fun ip start _ _ => ?_
  rw [pending_of_idle new hp hold hnew]
  exact Nat.le_refl _

theorem Covered.sweep (h : Covered cfg w attempts) (ip : IpAddr) : Covered cfg (w.sweepFailures ip) attempts := by
  refine h.keep rfl fun other start hs _ => ?_
  apply Nat.add_le_add_right
  unfold WebServer.sweepFailures
  dsimp only
  by_cases he : other = ip
  · subst he
    apply Nat.le_of_eq
    rw [Function.update_self, countP_failures hs]
  · apply Nat.le_of_eq
    rw [Function.update_of_ne he]

/-- A failure is recorded for a thread that waits for it. -/
theorem Covered.record (h : Covered cfg w attempts) {r : HttpRequest} (hp : w.phase? i = some (.refused r))
    (hip : w.ip? i = some ip) : Covered cfg ((w.recordAuthFailure ip).enter i .returned) attempts := by
  refine h.keep rfl fun other start _ hle => ?_
  have hp' : (w.recordAuthFailure ip).phase? i = some (.refused r) := hp
  have hcount := pending_enter cfg other .returned hp'
  have hsame : (w.recordAuthFailure ip).pending cfg other = w.pending cfg other := rfl
  have hipsame : (w.recordAuthFailure ip).ip? i = some ip := hip
  have hidle : Phase.awaits cfg .returned = false := rfl
  rw [hsame, hipsame, hidle] at hcount
  by_cases he : other = ip
  · subst he
    have hhits : (((w.recordAuthFailure other).enter i .returned).rate.authFail other).countP (start ≤ ·) =
        (w.rate.authFail other).countP (start ≤ ·) + 1 := by
      change (Function.update w.rate.authFail other (w.rate.authFail other ++ [w.clock]) other).countP _ = _
      rw [Function.update_self, List.countP_append, List.countP_singleton, if_pos (decide_eq_true hle)]
    rw [hhits]
    have hone : (if some other = some other ∧ Phase.awaits cfg (.refused r) = true then 1 else 0) ≤ 1 := by
      split
      · exact Nat.le_refl _
      · exact Nat.zero_le _
    rw [if_neg (by simp : ¬ (some other = some other ∧ false = true))] at hcount
    omega
  · have hhits : (((w.recordAuthFailure ip).enter i .returned).rate.authFail other).countP (start ≤ ·) =
        (w.rate.authFail other).countP (start ≤ ·) := by
      change (Function.update w.rate.authFail ip (w.rate.authFail ip ++ [w.clock]) other).countP _ = _
      rw [Function.update_of_ne he]
    rw [hhits]
    have hne : ¬ some ip = some other := fun h => he (Option.some.inj h).symm
    simp only [hne, false_and, if_false, Nat.add_zero] at hcount
    omega

theorem awaits_of_plain {new : Phase} (cfg : WebConfig) (h : Plain old new) :
    old.awaits cfg = false ∧ new.awaits cfg = false := by
  cases h <;> exact ⟨rfl, rfl⟩

theorem pending_unnamed (cfg : WebConfig) (ip : IpAddr) (new : Phase) (h : w.phase? i = some old) (hip : w.ip? i = none) :
    (w.enter i new).pending cfg ip = w.pending cfg ip := by
  have hcount := pending_enter cfg ip new h
  simpa [hip] using hcount

/-- The steps other than a lockout check with an address see no attempt. -/
theorem covered_quiet (h : Covered cfg w attempts) {op : WebOp} (hs : WebServer.Served cfg parse w op w')
    (hroom : w.roomy cfg op = true) (hop : ∀ i, op ≠ .lockout i) : Covered cfg w' attempts := by
  cases hs with
  | idle _ _ => exact h
  | opens ip =>
    refine h.keep rfl fun other start _ _ => ?_
    apply Nat.add_le_add_left
    exact (List.sublist_append_left _ _).countP_le
  | moves _ i old new hold hmove _ =>
    obtain ⟨ho, hn⟩ := awaits_of_plain cfg hmove
    exact h.enter new hold ho hn
  | unnamed _ i old new hold hip hmove _ =>
    refine h.keep rfl fun other start _ _ => ?_
    rw [pending_unnamed cfg other new hold hip]
    exact Nat.le_refl _
  | limits i ip new hold hip hnew =>
    have hnew' : new.awaits cfg = false := by rcases hnew with rfl | rfl <;> rfl
    refine (h.enter new hold rfl hnew').keep rfl fun other start _ _ => ?_
    have hsame : (w.rateLimited ip).1.authFail = w.rate.authFail := by
      unfold WebServer.rateLimited
      dsimp only
      split
      · rfl
      · rfl
    dsimp only
    rw [hsame]
    exact Nat.le_refl _
  | lockedOut i r ip hold hip => exact absurd rfl (hop i)
  | unlocks i r ip hold hip hroom => exact absurd rfl (hop i)
  | authorizes i waited r hold hok =>
    have hright : wrongToken cfg r = false := by
      simpa [WebServer.roomy, hold, hok] using hroom
    refine (h.enter (.authorized r) hold hright rfl).keep rfl fun other start _ _ => ?_
    exact Nat.le_refl _
  | refuses i waited r hold hno =>
    refine h.keep rfl fun other start _ _ => ?_
    have hcount := pending_enter cfg other (.refused r) hold
    apply Nat.add_le_add_left
    exact Nat.le_of_eq (Nat.add_right_cancel hcount).symm
  | records i r ip hold hip => exact h.record hold hip
  | mints i waited nonce r hold hroute hmethod =>
    refine (h.enter .returned hold rfl rfl).keep rfl fun other start _ _ => ?_
    exact Nat.le_refl _
  | redeems i waited r t hold hroute hticket =>
    have hnew : Phase.awaits cfg (((w.tickets.consume (w.clock - waited) t).2.map Phase.streaming).getD .returned) =
        false := by
      cases (w.tickets.consume (w.clock - waited) t).2 with
      | none => rfl
      | some session => rfl
    refine (h.enter _ hold rfl hnew).keep rfl fun other start _ _ => ?_
    exact Nat.le_refl _
  | releases _ i old hold hend _ =>
    have hidle : old.awaits cfg = false := by rcases hend with rfl | rfl <;> rfl
    refine (h.enter .finished hold hidle rfl).keep rfl fun other start _ _ => ?_
    exact Nat.le_refl _
  | breaks _ i r hold hpanics => exact h.enter .unwound hold rfl rfl

/-- A wrong token passes the check while there is room. -/
theorem Covered.attempt (h : Covered cfg w attempts) {r : HttpRequest} (hp : w.phase? i = some (.admitted r))
    (hip : w.ip? i = some ip) (hwrong : wrongToken cfg r = true)
    (hroom : (w.failures ip).length + w.pending cfg ip < rateAuthFailLimit) :
    Covered cfg ((w.sweepFailures ip).enter i (.unlocked r)) ((ip, w.clock) :: attempts) := by
  have hs := h.sweep ip
  have hpending : ∀ other, ((w.sweepFailures ip).enter i (.unlocked r)).pending cfg other =
      w.pending cfg other + if ip = other then 1 else 0 := by
    intro other
    have hp' : (w.sweepFailures ip).phase? i = some (.admitted r) := hp
    have hcount := pending_enter cfg other (.unlocked r) hp'
    have hsame : (w.sweepFailures ip).pending cfg other = w.pending cfg other := rfl
    have hipsame : (w.sweepFailures ip).ip? i = some ip := hip
    have hidle : Phase.awaits cfg (.admitted r) = false := rfl
    have hawaits : Phase.awaits cfg (.unlocked r) = true := hwrong
    rw [hsame, hipsame, hidle, hawaits] at hcount
    simpa using hcount
  constructor
  · intro p hmem
    rcases List.mem_cons.mp hmem with rfl | hmem
    · exact Nat.le_refl _
    · exact h.past p hmem
  · intro other start hstart
    have hold := hs.recorded other start hstart
    have hsame : (w.sweepFailures ip).pending cfg other = w.pending cfg other := rfl
    rw [hsame] at hold
    rw [hpending]
    have hnew : attemptsFrom ((ip, w.clock) :: attempts) other start ≤
        attemptsFrom attempts other start + if ip = other then 1 else 0 := by
      unfold attemptsFrom
      rw [List.countP_cons]
      apply Nat.add_le_add_left
      by_cases he : ip = other
      · rw [if_pos he]
        split <;> omega
      · simp [he]
    exact Nat.le_trans hnew (by rw [← Nat.add_assoc]; exact Nat.add_le_add_right hold _)
  · intro other start
    unfold attemptsWithin
    rw [List.countP_cons]
    by_cases hin : ip = other ∧ start ≤ w.clock ∧ w.clock < start + rateAuthFailWindow
    · obtain ⟨rfl, hle, hlt⟩ := hin
      rw [if_pos (decide_eq_true ⟨rfl, hle, hlt⟩)]
      have hbefore := Nat.le_trans (attemptsWithin_le attempts ip start) (h.recorded ip start hlt)
      have hhits : (w.rate.authFail ip).countP (start ≤ ·) ≤ (w.failures ip).length := by
        rw [← countP_failures hlt]
        exact List.countP_le_length
      unfold attemptsWithin at hbefore
      omega
    · rw [if_neg (by simpa using hin)]
      exact h.limited other start

theorem covered_lockout (h : Covered cfg w attempts) (i : Nat) (hroom : w.roomy cfg (.lockout i) = true) :
    Covered cfg (serve cfg parse w (.lockout i)) ((attempt cfg w (.lockout i)).toList ++ attempts) := by
  have hidle : serve cfg parse w (.lockout i) = w → attempt cfg w (.lockout i) = none →
      Covered cfg (serve cfg parse w (.lockout i)) ((attempt cfg w (.lockout i)).toList ++ attempts) := by
    intro hserve hnone
    rw [hserve, hnone]
    exact h
  cases hp : w.phase? i with
  | none => exact hidle (by simp only [serve, hp]) (by simp only [attempt, hp])
  | some p =>
    cases p with
    | admitted r =>
      cases hip : w.ip? i with
      | none =>
        have hserve : serve cfg parse w (.lockout i) = w.enter i (.unlocked r) := by
          simp only [serve, hp, hip]
        have hnone : attempt cfg w (.lockout i) = none := by simp only [attempt, hp, hip]
        rw [hserve, hnone]
        refine h.keep rfl fun other start _ _ => ?_
        rw [pending_unnamed cfg other (.unlocked r) hp hip]
        exact Nat.le_refl _
      | some ip =>
        have hp' : (w.sweepFailures ip).phase? i = some (.admitted r) := hp
        by_cases hlocked : w.authFailuresExceeded ip = true
        · have hserve : serve cfg parse w (.lockout i) = (w.sweepFailures ip).enter i .returned := by
            simp only [serve, hp, hip, if_pos hlocked]
          have hnone : attempt cfg w (.lockout i) = none := by simp [attempt, hp, hip, hlocked]
          rw [hserve, hnone]
          exact (h.sweep ip).enter .returned hp' rfl rfl
        · have hserve : serve cfg parse w (.lockout i) = (w.sweepFailures ip).enter i (.unlocked r) := by
            simp only [serve, hp, hip, if_neg hlocked]
          rw [hserve]
          by_cases hwrong : wrongToken cfg r = true
          · have hsome : attempt cfg w (.lockout i) = some (ip, w.clock) := by
              simp [attempt, hp, hip, hwrong, hlocked]
            rw [hsome]
            apply h.attempt hp hip hwrong
            simpa [WebServer.roomy, hp, hip, hwrong, hlocked] using hroom
          · have hnone : attempt cfg w (.lockout i) = none := by simp [attempt, hp, hip, hwrong]
            rw [hnone]
            exact (h.sweep ip).enter (.unlocked r) hp' rfl (Bool.eq_false_iff.mpr hwrong)
    | _ => exact hidle (by simp only [serve, hp]) (by simp only [attempt, hp])

theorem covered_serve (h : Covered cfg w attempts) (op : WebOp) (hroom : w.roomy cfg op = true) :
    Covered cfg (serve cfg parse w op) ((attempt cfg w op).toList ++ attempts) := by
  cases op with
  | lockout i => exact covered_lockout h i hroom
  | _ => exact covered_quiet h (WebServer.serve_served cfg parse w _) hroom (by simp)

theorem Covered.advance (h : Covered cfg w attempts) (elapsed : Nat) :
    Covered cfg { w with clock := w.clock + elapsed } attempts where
  past := fun p hp => Nat.le_trans (h.past p hp) (Nat.le_add_right _ _)
  recorded := fun ip start hs => h.recorded ip start (Nat.lt_of_le_of_lt (Nat.le_add_right _ _) hs)
  limited := h.limited

end Lockout

theorem run_limited (cfg : WebConfig) (parse : String → Option Json) (es : List WebEvent)
    (h : Along (lockoutStep cfg parse)
      (fun x e => ({ x.server with clock := x.server.clock + e.elapsed } : WebServer).roomy cfg e.op = true)
      {} es) : Limited (run (lockoutStep cfg parse) {} es).attempts := by
  have hstep : ∀ (x : Lockout) e, Covered cfg x.server x.attempts →
      ({ x.server with clock := x.server.clock + e.elapsed } : WebServer).roomy cfg e.op = true →
        Covered cfg (lockoutStep cfg parse x e).server (lockoutStep cfg parse x e).attempts :=
    fun x e hx hroom => covered_serve (hx.advance e.elapsed) e.op hroom
  have hstart : Covered cfg ({} : Lockout).server ({} : Lockout).attempts :=
    ⟨nofun, fun _ _ _ => Nat.zero_le _, fun _ _ => Nat.zero_le _⟩
  have hend : Covered cfg (run (lockoutStep cfg parse) {} es).server (run (lockoutStep cfg parse) {} es).attempts :=
    invariant hstep hstart h
  exact hend.limited

def guardedConfig : WebConfig where
  token := "s3cr3t"

def guessRequest : HttpRequest where
  method := "POST"
  path := "/api/v1/run"
  headers := [("x-allgres-client", "1"), ("authorization", "Bearer guess")]
  body := ""

def upToCheck (i : Nat) : List WebEvent :=
  [⟨1, .accept (some 1)⟩, ⟨1, .spawn i true⟩, ⟨1, .limit i⟩, ⟨1, .read i (some guessRequest)⟩, ⟨1, .lockout i⟩]

/-- The first guess is recorded before the second one is checked. -/
def guessRun : List WebEvent :=
  upToCheck 0 ++ [⟨1, .authorize 0 0⟩, ⟨1, .record 0⟩, ⟨1, .finish 0⟩] ++ upToCheck 1

theorem guesses_limited : Limited (run (lockoutStep guardedConfig fun _ => none) {} guessRun).attempts :=
  run_limited guardedConfig (fun _ => none) guessRun (by decide +kernel)

theorem guesses_at_once_pass :
    ¬ ∀ (cfg : WebConfig) (parse : String → Option Json) (es : List WebEvent),
      Limited (run (lockoutStep cfg parse) {} es).attempts := by
  intro h
  have hlimit := h guardedConfig (fun _ => none) ((List.range 21).flatMap upToCheck) 1 0
  revert hlimit
  decide +kernel

end Allgres
