import Allgres.Runs
import Allgres.WebRequest
import Mathlib.Data.List.Count

/-! The web worker: its accept loop, and one thread for each connection. A step of a thread is what
it does up to the next lock or the next use of the thread counter, so that the threads interleave
in every order these allow. -/

namespace Allgres

open Runs

/-- Nanoseconds. -/
abbrev Instant := Nat

abbrev IpAddr := Nat

def seconds (n : Nat) : Nat :=
  n * 1000000000

def sseTicketTtl : Nat := seconds 30

def maxWebThreads : Nat := 64

def rateGeneralLimit : Nat := 120

def rateGeneralWindow : Nat := seconds 60

def rateAuthFailLimit : Nat := 20

def rateAuthFailWindow : Nat := seconds 300

/-- The entries of a list of instants that a window ending now still holds. -/
def recent (window now : Nat) (hits : List Instant) : List Instant :=
  hits.filter fun t => now - t < window

/-- `SSE_TICKETS`. -/
abbrev Tickets := String → Option (Instant × String)

namespace Tickets

def sweep (m : Tickets) (now : Instant) : Tickets :=
  fun t => (m t).filter fun e => now - e.1 < sseTicketTtl

def mint (m : Tickets) (now : Instant) (ticket session : String) : Tickets :=
  Function.update (m.sweep now) ticket (some (now, session))

def valid (m : Tickets) (now : Instant) (ticket : String) : Bool :=
  (m.sweep now ticket).isSome

def consume (m : Tickets) (now : Instant) (ticket : String) : Tickets × Option String :=
  (Function.update (m.sweep now) ticket none, (m.sweep now ticket).map (·.2))

end Tickets

/-- The two maps of `RATE_LIMIT`; an address without an entry has no hits. -/
structure RateWindows where
  general : IpAddr → List Instant := fun _ => []
  authFail : IpAddr → List Instant := fun _ => []

/-- Where a connection thread is. -/
inductive Phase where
  | spawning
  | accepted
  | reading
  /-- Past the checks that need no lock. -/
  | admitted (r : HttpRequest)
  /-- Past the lockout check. -/
  | unlocked (r : HttpRequest)
  /-- Refused by the token comparison. -/
  | refused (r : HttpRequest)
  | authorized (r : HttpRequest)
  | streaming (session : String)
  /-- Back from `handle_web_connection`. -/
  | returned
  | finished
  | unwound

structure Connection where
  ip : Option IpAddr
  phase : Phase

structure WebServer where
  clock : Instant := 0
  webThreads : Nat := 0
  rate : RateWindows := {}
  tickets : Tickets := fun _ => none
  connections : List Connection := []

inductive WebOp where
  | accept (ip : Option IpAddr)
  | spawn (i : Nat) (ok : Bool)
  | limit (i : Nat)
  | read (i : Nat) (request : Option HttpRequest)
  | lockout (i : Nat)
  /-- A thread reads the clock before it waits for the lock of the tickets. -/
  | authorize (i : Nat) (waited : Nat)
  | record (i : Nat)
  | mint (i : Nat) (waited : Nat) (nonce : String)
  | consume (i : Nat) (waited : Nat)
  | streamed (i : Nat)
  | answer (i : Nat)
  | finish (i : Nat)

structure WebEvent where
  elapsed : Nat
  op : WebOp

/-- `authorized`, with the tickets it leaves. -/
def WebConfig.authorized (cfg : WebConfig) (m : Tickets) (now : Instant) (r : HttpRequest) : Tickets × Bool :=
  if cfg.token = "" then (m, true)
  else if tokenMatches cfg r then (m, true)
  else if r.route = eventsRoute then
    match r.ticket with
    | some t => (m.sweep now, m.valid now t)
    | none => (m, false)
  else (m, false)

namespace WebServer

def phase? (w : WebServer) (i : Nat) : Option Phase :=
  w.connections[i]?.map (·.phase)

def enter (w : WebServer) (i : Nat) (phase : Phase) : WebServer :=
  { w with connections := w.connections.modify i fun k => { k with phase } }

def ip? (w : WebServer) (i : Nat) : Option IpAddr :=
  w.connections[i]?.bind (·.ip)

/-- `rate_limited`: the windows after the check, and whether the request is rejected. -/
def rateLimited (w : WebServer) (ip : IpAddr) : RateWindows × Bool :=
  let hits := recent rateGeneralWindow w.clock (w.rate.general ip)
  if rateGeneralLimit ≤ hits.length then
    ({ w.rate with general := Function.update w.rate.general ip hits }, true)
  else ({ w.rate with general := Function.update w.rate.general ip (hits ++ [w.clock]) }, false)

/-- The failures `auth_failures_exceeded` counts. -/
def failures (w : WebServer) (ip : IpAddr) : List Instant :=
  recent rateAuthFailWindow w.clock (w.rate.authFail ip)

def authFailuresExceeded (w : WebServer) (ip : IpAddr) : Bool :=
  rateAuthFailLimit ≤ (w.failures ip).length

def sweepFailures (w : WebServer) (ip : IpAddr) : WebServer :=
  { w with rate := { w.rate with authFail := Function.update w.rate.authFail ip (w.failures ip) } }

def recordAuthFailure (w : WebServer) (ip : IpAddr) : WebServer :=
  { w with
    rate := { w.rate with
      authFail := Function.update w.rate.authFail ip (w.rate.authFail ip ++ [w.clock]) } }

end WebServer

def serve (cfg : WebConfig) (parse : String → Option Json) (w : WebServer) (op : WebOp) : WebServer :=
  match op with
  | .accept ip =>
    if maxWebThreads ≤ w.webThreads then w
    else { w with
      webThreads := w.webThreads + 1
      connections := w.connections ++ [⟨ip, .spawning⟩] }
  | .spawn i ok => match w.phase? i with
    | some .spawning =>
      if ok then w.enter i .accepted
      else { w.enter i .finished with webThreads := w.webThreads - 1 }
    | _ => w
  | .limit i => match w.phase? i with
    | some .accepted => match w.ip? i with
      | none => w.enter i .reading
      | some ip =>
        { w.enter i (if (w.rateLimited ip).2 then .returned else .reading) with rate := (w.rateLimited ip).1 }
    | _ => w
  | .read i request => match w.phase? i with
    | some .reading => match request with
      | none => w.enter i .returned
      | some r => w.enter i (if reachesApi r then .admitted r else .returned)
    | _ => w
  | .lockout i => match w.phase? i with
    | some (.admitted r) => match w.ip? i with
      | none => w.enter i (.unlocked r)
      | some ip =>
        (w.sweepFailures ip).enter i (if w.authFailuresExceeded ip then .returned else .unlocked r)
    | _ => w
  | .authorize i waited => match w.phase? i with
    | some (.unlocked r) =>
      { w.enter i (if (cfg.authorized w.tickets (w.clock - waited) r).2 then .authorized r else .refused r) with
        tickets := (cfg.authorized w.tickets (w.clock - waited) r).1 }
    | _ => w
  | .record i => match w.phase? i with
    | some (.refused _) => match w.ip? i with
      | none => w.enter i .returned
      | some ip => (w.recordAuthFailure ip).enter i .returned
    | _ => w
  | .mint i waited nonce => match w.phase? i with
    | some (.authorized r) =>
      if r.route = ticketRoute then
        if r.method = "POST" then
          { w.enter i .returned with tickets := w.tickets.mint (w.clock - waited) nonce r.session }
        else w.enter i .returned
      else w
    | _ => w
  | .consume i waited => match w.phase? i with
    | some (.authorized r) =>
      if r.route = eventsRoute then
        match r.ticket with
        | none => w.enter i .returned
        | some t =>
          { w.enter i (((w.tickets.consume (w.clock - waited) t).2.map Phase.streaming).getD .returned) with
            tickets := (w.tickets.consume (w.clock - waited) t).1 }
      else w
    | _ => w
  | .streamed i => match w.phase? i with
    | some (.streaming _) => w.enter i .returned
    | _ => w
  | .answer i => match w.phase? i with
    | some (.authorized r) =>
      if r.route = ticketRoute ∨ r.route = eventsRoute then w
      else w.enter i (if apiPanics parse r then .unwound else .returned)
    | _ => w
  | .finish i => match w.phase? i with
    | some .returned => { w.enter i .finished with webThreads := w.webThreads - 1 }
    | _ => w

def webStep (cfg : WebConfig) (parse : String → Option Json) (w : WebServer) (e : WebEvent) : WebServer :=
  serve cfg parse { w with clock := w.clock + e.elapsed } e.op

/-- The moves of a thread that touch nothing but its own phase. -/
inductive Plain : Phase → Phase → Prop where
  | started : Plain .spawning .accepted
  | admits (r : HttpRequest) : Plain .reading (.admitted r)
  | turnsAway : Plain .reading .returned
  | replies (r : HttpRequest) : Plain (.authorized r) .returned
  | streamed (session : String) : Plain (.streaming session) .returned

/-- The moves of a thread whose peer has no address. -/
inductive Unnamed : Phase → Phase → Prop where
  | limits : Unnamed .accepted .reading
  | checks (r : HttpRequest) : Unnamed (.admitted r) (.unlocked r)
  | records (r : HttpRequest) : Unnamed (.refused r) .returned

namespace WebServer

/-- The step answers a request whose handler panics. -/
def panics (parse : String → Option Json) (w : WebServer) (op : WebOp) : Bool :=
  match op with
  | .answer i => match w.phase? i with
    | some (.authorized r) => r.route != ticketRoute && r.route != eventsRoute && apiPanics parse r
    | _ => false
  | _ => false

theorem countP_modify {α : Type} (p : α → Bool) (f : α → α) {l : List α} {i : Nat} {a : α}
    (h : l[i]? = some a) : (l.modify i f).countP p + (if p a then 1 else 0) =
      l.countP p + (if p (f a) then 1 else 0) := by
  induction l generalizing i with
  | nil => simp at h
  | cons b l ih =>
    cases i with
    | zero =>
      obtain rfl : b = a := by simpa using h
      simp only [List.modify_zero_cons, List.countP_cons]
      omega
    | succ i =>
      have hrest := ih (by simpa using h)
      simp only [List.modify_succ_cons, List.countP_cons]
      omega

theorem mem_enter {w : WebServer} {i : Nat} {p : Phase} {k : Connection}
    (hk : k ∈ (w.enter i p).connections) : k ∈ w.connections ∨ k.phase = p := by
  obtain ⟨j, hj⟩ := List.mem_iff_getElem?.mp hk
  unfold enter at hj
  rw [List.getElem?_modify] at hj
  obtain ⟨k₀, hk₀, he⟩ := Option.map_eq_some_iff.mp hj
  split at he
  · subst he
    exact .inr rfl
  · subst he
    exact .inl (List.mem_of_getElem? hk₀)

/-- What a step can do. -/
inductive Served (cfg : WebConfig) (parse : String → Option Json) (w : WebServer) :
    WebOp → WebServer → Prop where
  | idle (op : WebOp) (hcalm : w.panics parse op = false) : Served cfg parse w op w
  | opens (ip : Option IpAddr) : Served cfg parse w (.accept ip)
      { w with
        webThreads := w.webThreads + 1
        connections := w.connections ++ [⟨ip, .spawning⟩] }
  | moves (op : WebOp) (i : Nat) (old new : Phase) (hold : w.phase? i = some old) (hmove : Plain old new)
      (hcalm : w.panics parse op = false) : Served cfg parse w op (w.enter i new)
  | unnamed (op : WebOp) (i : Nat) (old new : Phase) (hold : w.phase? i = some old) (hip : w.ip? i = none)
      (hmove : Unnamed old new) (hcalm : w.panics parse op = false) : Served cfg parse w op (w.enter i new)
  | limits (i : Nat) (ip : IpAddr) (new : Phase) (hold : w.phase? i = some .accepted)
      (hip : w.ip? i = some ip) (hnew : new = .returned ∨ new = .reading) :
      Served cfg parse w (.limit i) { w.enter i new with rate := (w.rateLimited ip).1 }
  | lockedOut (i : Nat) (r : HttpRequest) (ip : IpAddr) (hold : w.phase? i = some (.admitted r))
      (hip : w.ip? i = some ip) : Served cfg parse w (.lockout i) ((w.sweepFailures ip).enter i .returned)
  | unlocks (i : Nat) (r : HttpRequest) (ip : IpAddr) (hold : w.phase? i = some (.admitted r))
      (hip : w.ip? i = some ip) (hroom : (w.failures ip).length < rateAuthFailLimit) :
      Served cfg parse w (.lockout i) ((w.sweepFailures ip).enter i (.unlocked r))
  | authorizes (i waited : Nat) (r : HttpRequest) (hold : w.phase? i = some (.unlocked r))
      (hok : (cfg.authorized w.tickets (w.clock - waited) r).2 = true) :
      Served cfg parse w (.authorize i waited)
        { w.enter i (.authorized r) with tickets := (cfg.authorized w.tickets (w.clock - waited) r).1 }
  | refuses (i waited : Nat) (r : HttpRequest) (hold : w.phase? i = some (.unlocked r))
      (hno : (cfg.authorized w.tickets (w.clock - waited) r).2 = false) :
      Served cfg parse w (.authorize i waited)
        { w.enter i (.refused r) with tickets := (cfg.authorized w.tickets (w.clock - waited) r).1 }
  | records (i : Nat) (r : HttpRequest) (ip : IpAddr) (hold : w.phase? i = some (.refused r))
      (hip : w.ip? i = some ip) : Served cfg parse w (.record i) ((w.recordAuthFailure ip).enter i .returned)
  | mints (i waited : Nat) (nonce : String) (r : HttpRequest) (hold : w.phase? i = some (.authorized r))
      (hroute : r.route = ticketRoute) (hmethod : r.method = "POST") :
      Served cfg parse w (.mint i waited nonce)
        { w.enter i .returned with tickets := w.tickets.mint (w.clock - waited) nonce r.session }
  | redeems (i waited : Nat) (r : HttpRequest) (t : String) (hold : w.phase? i = some (.authorized r))
      (hroute : r.route = eventsRoute) (hticket : r.ticket = some t) :
      Served cfg parse w (.consume i waited)
        { w.enter i (((w.tickets.consume (w.clock - waited) t).2.map Phase.streaming).getD .returned) with
          tickets := (w.tickets.consume (w.clock - waited) t).1 }
  | releases (op : WebOp) (i : Nat) (old : Phase) (hold : w.phase? i = some old)
      (hend : old = .spawning ∨ old = .returned) (hcalm : w.panics parse op = false) :
      Served cfg parse w op { w.enter i .finished with webThreads := w.webThreads - 1 }
  | breaks (op : WebOp) (i : Nat) (r : HttpRequest) (hold : w.phase? i = some (.authorized r))
      (hpanics : w.panics parse op = true) : Served cfg parse w op (w.enter i .unwound)

theorem serve_served (cfg : WebConfig) (parse : String → Option Json) (w : WebServer) (op : WebOp) :
    Served cfg parse w op (serve cfg parse w op) := by
  have hidle : w.panics parse op = false → Served cfg parse w op w := .idle op
  unfold serve
  cases op with
  | accept ip =>
    dsimp only
    split
    · exact hidle rfl
    · exact .opens ip
  | spawn i ok =>
    dsimp only
    split
    · rename_i hp
      split
      · exact .moves _ i _ _ hp .started rfl
      · exact .releases _ i _ hp (.inl rfl) rfl
    · exact hidle rfl
  | limit i =>
    dsimp only
    split
    · rename_i hp
      split
      · rename_i hip
        exact .unnamed _ i _ _ hp hip .limits rfl
      · rename_i ip hip
        refine .limits i ip _ hp hip ?_
        split
        · exact .inl rfl
        · exact .inr rfl
    · exact hidle rfl
  | read i request =>
    dsimp only
    split
    · rename_i hp
      split
      · exact .moves _ i _ _ hp .turnsAway rfl
      · split
        · exact .moves _ i _ _ hp (.admits _) rfl
        · exact .moves _ i _ _ hp .turnsAway rfl
    · exact hidle rfl
  | lockout i =>
    dsimp only
    split
    · rename_i r hp
      split
      · rename_i hip
        exact .unnamed _ i _ _ hp hip (.checks r) rfl
      · rename_i ip hip
        split
        · exact .lockedOut i r ip hp hip
        · rename_i hroom
          exact .unlocks i r ip hp hip (by simpa [authFailuresExceeded] using hroom)
    · exact hidle rfl
  | authorize i waited =>
    dsimp only
    split
    · rename_i r hp
      split
      · rename_i hok
        exact .authorizes i waited r hp hok
      · rename_i hno
        exact .refuses i waited r hp (by simpa using hno)
    · exact hidle rfl
  | record i =>
    dsimp only
    split
    · rename_i r hp
      split
      · rename_i hip
        exact .unnamed _ i _ _ hp hip (.records r) rfl
      · rename_i ip hip
        exact .records i r ip hp hip
    · exact hidle rfl
  | mint i waited nonce =>
    dsimp only
    split
    · rename_i r hp
      split
      · rename_i hroute
        split
        · rename_i hmethod
          exact .mints i waited nonce r hp hroute hmethod
        · exact .moves _ i _ _ hp (.replies r) rfl
      · exact hidle rfl
    · exact hidle rfl
  | consume i waited =>
    dsimp only
    split
    · rename_i r hp
      split
      · rename_i hroute
        split
        · exact .moves _ i _ _ hp (.replies r) rfl
        · rename_i t ht
          exact .redeems i waited r t hp hroute ht
      · exact hidle rfl
    · exact hidle rfl
  | streamed i =>
    dsimp only
    split
    · rename_i session hp
      exact .moves _ i _ _ hp (.streamed session) rfl
    · exact hidle rfl
  | answer i =>
    dsimp only
    cases hp : w.phase? i with
    | none => exact hidle (by simp [panics, hp])
    | some p =>
      cases p with
      | authorized r =>
        dsimp only
        split
        · rename_i hroute
          apply hidle
          rcases hroute with h | h
          · simp [panics, hp, h]
          · simp [panics, hp, h]
        · rename_i hroute
          obtain ⟨ht, he⟩ := not_or.mp hroute
          split
          · rename_i hpanics
            exact .breaks _ i r hp (by simp [panics, hp, ht, he, hpanics])
          · rename_i hcalm
            exact .moves _ i _ _ hp (.replies r) (by simp [panics, hp, hcalm])
      | _ => exact hidle (by simp [panics, hp])
  | finish i =>
    dsimp only
    split
    · rename_i hp
      exact .releases _ i _ hp (.inr rfl) rfl
    · exact hidle rfl

end WebServer

end Allgres
