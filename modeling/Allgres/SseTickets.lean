import Allgres.WebServer

/-! The tickets of the event stream, over every order of the lock sections of the threads. -/

namespace Allgres

open Runs

/-- What concerns a ticket in a run of the web worker. -/
inductive Sighting where
  | minted (ticket session : String) (issued : Instant) (request : HttpRequest)
  | opened (ticket session : String) (now : Instant)

/-- A ticket is seen when it is minted, and when a thread that holds it begins to stream. -/
def sighting (cfg : WebConfig) (parse : String → Option Json) (w : WebServer) (op : WebOp) :
    Option Sighting :=
  match op with
  | .mint i waited nonce => match w.phase? i with
    | some (.authorized r) =>
      if r.route = ticketRoute ∧ r.method = "POST" then
        some (.minted nonce r.session (w.clock - waited) r)
      else none
    | _ => none
  | .consume i waited => match w.phase? i, (serve cfg parse w op).phase? i with
    | some (.authorized r), some (.streaming session) =>
      r.ticket.map fun t => .opened t session (w.clock - waited)
    | _, _ => none
  | _ => none

/-- The web worker with the tickets seen so far, the last one first. -/
structure Watch where
  server : WebServer := {}
  seen : List Sighting := []

def watchStep (cfg : WebConfig) (parse : String → Option Json) (x : Watch) (e : WebEvent) : Watch :=
  let w := { x.server with clock := x.server.clock + e.elapsed }
  { server := webStep cfg parse x.server e
    seen := (sighting cfg parse w e.op).toList ++ x.seen }

def mintedTickets (seen : List Sighting) : List String :=
  seen.filterMap fun s => match s with
    | .minted t _ _ _ => some t
    | .opened .. => none

def openedTickets (seen : List Sighting) : List String :=
  seen.filterMap fun s => match s with
    | .opened t _ _ => some t
    | .minted .. => none

/-- Minted with a session for a request that carries the token of the dashboard. -/
def MintedFor (cfg : WebConfig) (seen : List Sighting) (ticket session : String) (issued : Instant) : Prop :=
  ∃ r : HttpRequest, .minted ticket session issued r ∈ seen ∧ r.bearerToken = some cfg.token ∧
    r.session = session

/-- Every stream was opened with a ticket that was minted before for its session, by a request that
carries the token, less than the lifetime of a ticket ago, and that had opened no stream. -/
def Redeemed (cfg : WebConfig) : List Sighting → Prop
  | [] => True
  | .minted .. :: seen => Redeemed cfg seen
  | .opened t session now :: seen =>
    (∃ issued, MintedFor cfg seen t session issued ∧ now < issued + sseTicketTtl) ∧
      t ∉ openedTickets seen ∧ Redeemed cfg seen

/-- A thread that has been let through on another route than the event stream serves a request that
carries the token. -/
def Vouched (cfg : WebConfig) (p : Phase) : Prop :=
  match p with
  | .authorized r => r.route ≠ eventsRoute → r.bearerToken = some cfg.token
  | _ => True

structure SoundTickets (cfg : WebConfig) (w : WebServer) (seen : List Sighting) : Prop where
  stored : ∀ t issued session, w.tickets t = some (issued, session) →
    MintedFor cfg seen t session issued ∧ t ∉ openedTickets seen
  redeemed : Redeemed cfg seen
  vouched : ∀ k ∈ w.connections, Vouched cfg k.phase

section Tickets

variable {cfg : WebConfig} {parse : String → Option Json} {w w' : WebServer} {seen : List Sighting}
  {m : Tickets} {now issued : Instant} {t session : String}

theorem sweep_eq_some {e : Instant × String} : m.sweep now t = some e ↔
    m t = some e ∧ now - e.1 < sseTicketTtl := by
  unfold Tickets.sweep
  rw [Option.filter_eq_some_iff]
  simp

theorem MintedFor.cons (s : Sighting) (h : MintedFor cfg seen t session issued) :
    MintedFor cfg (s :: seen) t session issued := by
  obtain ⟨r, hmem, hr⟩ := h
  exact ⟨r, List.mem_cons_of_mem _ hmem, hr⟩

theorem mem_mintedTickets (h : MintedFor cfg seen t session issued) : t ∈ mintedTickets seen := by
  obtain ⟨r, hmem, -⟩ := h
  exact List.mem_filterMap.mpr ⟨_, hmem, rfl⟩

theorem minted_of_opened (h : Redeemed cfg seen) (ht : t ∈ openedTickets seen) : t ∈ mintedTickets seen := by
  induction seen with
  | nil => cases ht
  | cons s seen ih =>
    cases s with
    | minted u session issued r =>
      exact List.mem_cons_of_mem _ (ih h ht)
    | opened u session now =>
      obtain ⟨⟨issued, hminted, -⟩, -, hrest⟩ := h
      rcases List.mem_cons.mp ht with rfl | ht
      · have hmem : t ∈ mintedTickets seen := mem_mintedTickets hminted
        exact hmem
      · exact ih hrest ht

theorem tokenMatches_of_authorized (htoken : cfg.token ≠ "") {r : HttpRequest} (hroute : r.route ≠ eventsRoute)
    (h : (cfg.authorized m now r).2 = true) : r.bearerToken = some cfg.token := by
  unfold WebConfig.authorized at h
  rw [if_neg htoken] at h
  split at h
  · rename_i hmatch
    exact tokenMatches_iff.mp hmatch
  · cases h

theorem tickets_of_authorized {e : Instant × String} {r : HttpRequest}
    (h : (cfg.authorized m now r).1 t = some e) : m t = some e := by
  unfold WebConfig.authorized at h
  split at h
  · exact h
  · split at h
    · exact h
    · split at h
      · split at h
        · exact (sweep_eq_some.mp h).1
        · exact h
      · exact h

/-- A step that lets nobody in, keeps or drops the tickets it finds and sees none. -/
theorem SoundTickets.keep (h : SoundTickets cfg w seen)
    (htickets : ∀ t e, w'.tickets t = some e → w.tickets t = some e)
    (hphases : ∀ k ∈ w'.connections, k ∈ w.connections ∨ Vouched cfg k.phase) :
    SoundTickets cfg w' seen where
  stored := fun t issued session ht => h.stored t issued session (htickets t _ ht)
  redeemed := h.redeemed
  vouched := fun k hk => (hphases k hk).elim (h.vouched k) id

theorem vouched_of_enter {i : Nat} {p : Phase} (hp : Vouched cfg p) :
    ∀ k ∈ (w.enter i p).connections, k ∈ w.connections ∨ Vouched cfg k.phase := by
  intro k hk
  rcases WebServer.mem_enter hk with hk | he
  · exact .inl hk
  · rw [he]
    exact .inr hp

theorem sound_quiet (htoken : cfg.token ≠ "") (h : SoundTickets cfg w seen) {op : WebOp}
    (hs : WebServer.Served cfg parse w op w') (hmint : ∀ i waited nonce, op ≠ .mint i waited nonce)
    (hconsume : ∀ i waited, op ≠ .consume i waited) : SoundTickets cfg w' seen := by
  cases hs with
  | idle _ _ => exact h
  | opens ip =>
    refine h.keep (fun _ _ he => he) ?_
    intro k hk
    rcases List.mem_append.mp hk with hk | hk
    · exact .inl hk
    · obtain rfl := List.mem_singleton.mp hk
      exact .inr trivial
  | moves _ i old new hold hmove _ =>
    refine h.keep (fun _ _ he => he) ?_
    apply vouched_of_enter
    cases hmove <;> trivial
  | unnamed _ i old new hold hip hmove _ =>
    refine h.keep (fun _ _ he => he) ?_
    apply vouched_of_enter
    cases hmove <;> trivial
  | limits i ip new hold hip hnew =>
    refine h.keep (fun _ _ he => he) ?_
    apply vouched_of_enter
    rcases hnew with rfl | rfl <;> trivial
  | lockedOut i r ip hold hip => exact h.keep (fun _ _ he => he) (vouched_of_enter (w := w.sweepFailures ip) trivial)
  | unlocks i r ip hold hip hroom => exact h.keep (fun _ _ he => he) (vouched_of_enter (w := w.sweepFailures ip) trivial)
  | authorizes i waited r hold hok =>
    apply h.keep fun _ _ => tickets_of_authorized
    exact vouched_of_enter fun hroute => tokenMatches_of_authorized htoken hroute hok
  | refuses i waited r hold hno =>
    apply h.keep fun _ _ => tickets_of_authorized
    exact vouched_of_enter (p := .refused r) trivial
  | records i r ip hold hip => exact h.keep (fun _ _ he => he) (vouched_of_enter (w := w.recordAuthFailure ip) trivial)
  | mints i waited nonce r hold hroute hmethod => exact absurd rfl (hmint i waited nonce)
  | redeems i waited r t hold hroute hticket => exact absurd rfl (hconsume i waited)
  | releases _ i old hold hend _ => exact h.keep (fun _ _ he => he) (vouched_of_enter (p := .finished) trivial)
  | breaks _ i r hold hpanics => exact h.keep (fun _ _ he => he) (vouched_of_enter (p := .unwound) trivial)

theorem vouched_phase (h : SoundTickets cfg w seen) {i : Nat} {p : Phase} (hp : w.phase? i = some p) :
    Vouched cfg p := by
  obtain ⟨k, hk, rfl⟩ := Option.map_eq_some_iff.mp hp
  exact h.vouched k (List.mem_of_getElem? hk)

theorem sound_mint (h : SoundTickets cfg w seen) {i waited : Nat} {nonce : String} {r : HttpRequest}
    (hold : w.phase? i = some (.authorized r)) (hroute : r.route = ticketRoute)
    (hfresh : nonce ∉ mintedTickets seen) :
    SoundTickets cfg
      { w.enter i .returned with tickets := w.tickets.mint (w.clock - waited) nonce r.session }
      (.minted nonce r.session (w.clock - waited) r :: seen) := by
  constructor
  · intro t issued session ht
    dsimp only [Tickets.mint] at ht
    by_cases hn : t = nonce
    · subst hn
      rw [Function.update_self] at ht
      cases ht
      have hevents : r.route ≠ eventsRoute := by
        rw [hroute]
        decide
      have hbearer := vouched_phase h hold hevents
      exact ⟨⟨r, List.mem_cons_self, hbearer, rfl⟩, fun ho => hfresh (minted_of_opened h.redeemed ho)⟩
    · rw [Function.update_of_ne hn] at ht
      obtain ⟨hminted, hunopened⟩ := h.stored t issued session (sweep_eq_some.mp ht).1
      exact ⟨hminted.cons _, hunopened⟩
  · exact h.redeemed
  · intro k hk
    exact (vouched_of_enter (w := w) (i := i) (p := .returned) trivial k hk).elim (h.vouched k) id

theorem sound_consume (h : SoundTickets cfg w seen) (i waited : Nat) (t : String) :
    SoundTickets cfg
      { w.enter i (((w.tickets.consume (w.clock - waited) t).2.map Phase.streaming).getD .returned) with
        tickets := (w.tickets.consume (w.clock - waited) t).1 }
      (((w.tickets.consume (w.clock - waited) t).2.map fun s => Sighting.opened t s (w.clock - waited)).toList ++
        seen) := by
  have hleft : ∀ u e, (w.tickets.consume (w.clock - waited) t).1 u = some e → u ≠ t ∧ w.tickets u = some e := by
    intro u e hu
    dsimp only [Tickets.consume] at hu
    by_cases hut : u = t
    · subst hut
      rw [Function.update_self] at hu
      cases hu
    · rw [Function.update_of_ne hut] at hu
      exact ⟨hut, (sweep_eq_some.mp hu).1⟩
  cases hc : (w.tickets.consume (w.clock - waited) t).2 with
  | none =>
    apply h.keep fun u e hu => (hleft u e hu).2
    exact vouched_of_enter (p := .returned) trivial
  | some session =>
    obtain ⟨e, he, hes⟩ := Option.map_eq_some_iff.mp hc
    obtain ⟨hstored, hfresh⟩ := sweep_eq_some.mp he
    obtain ⟨issued, session'⟩ := e
    subst hes
    obtain ⟨hminted, hunopened⟩ := h.stored t issued session' hstored
    constructor
    · intro u issued' session hu
      obtain ⟨hut, hu⟩ := hleft u _ hu
      obtain ⟨hm, ho⟩ := h.stored u issued' session hu
      refine ⟨hm.cons _, fun hmem => ?_⟩
      rcases List.mem_cons.mp hmem with he | hmem
      · exact hut he
      · exact ho hmem
    · refine ⟨⟨issued, hminted, ?_⟩, hunopened, h.redeemed⟩
      have hlt : ∀ a b c : Nat, a - b < c → a < b + c := fun a b c => by omega
      exact hlt _ _ _ hfresh
    · intro k hk
      exact (vouched_of_enter (w := w) (i := i) (p := .streaming session') trivial k hk).elim (h.vouched k) id

theorem phase_enter {i : Nat} {old new : Phase} (hp : w.phase? i = some old) :
    (w.enter i new).phase? i = some new := by
  obtain ⟨k, hk, _⟩ := Option.map_eq_some_iff.mp hp
  unfold WebServer.phase? WebServer.enter
  dsimp only
  rw [List.getElem?_modify_eq, hk]
  rfl

theorem sound_consume_step (h : SoundTickets cfg w seen) {i waited : Nat} {r : HttpRequest}
    (hp : w.phase? i = some (.authorized r)) :
    SoundTickets cfg (serve cfg parse w (.consume i waited))
      ((sighting cfg parse w (.consume i waited)).toList ++ seen) := by
  by_cases hroute : r.route = eventsRoute
  · cases hticket : r.ticket with
    | none =>
      have hserve : serve cfg parse w (.consume i waited) = w.enter i .returned := by
        simp only [serve, hp, if_pos hroute, hticket]
      have hseen : sighting cfg parse w (.consume i waited) = none := by
        simp only [sighting, hserve, hp, phase_enter hp]
      rw [hserve, hseen]
      exact h.keep (fun _ _ he => he) (vouched_of_enter (p := .returned) trivial)
    | some t =>
      have hsound := sound_consume h i waited t
      have hserve : serve cfg parse w (.consume i waited) =
          { w.enter i (((w.tickets.consume (w.clock - waited) t).2.map Phase.streaming).getD .returned) with
            tickets := (w.tickets.consume (w.clock - waited) t).1 } := by
        simp only [serve, hp, if_pos hroute, hticket]
      have hphase : (serve cfg parse w (.consume i waited)).phase? i =
          some (((w.tickets.consume (w.clock - waited) t).2.map Phase.streaming).getD .returned) := by
        rw [hserve]
        exact phase_enter hp
      have hseen : sighting cfg parse w (.consume i waited) =
          (w.tickets.consume (w.clock - waited) t).2.map fun s => .opened t s (w.clock - waited) := by
        simp only [sighting, hp, hphase]
        cases (w.tickets.consume (w.clock - waited) t).2 with
        | none => rfl
        | some session =>
          change (r.ticket.map fun t => Sighting.opened t session (w.clock - waited)) = _
          rw [hticket]
          rfl
      rw [hserve, hseen]
      exact hsound
  · have hserve : serve cfg parse w (.consume i waited) = w := by
      simp only [serve, hp, if_neg hroute]
    have hseen : sighting cfg parse w (.consume i waited) = none := by
      simp only [sighting, hserve, hp]
    rw [hserve, hseen]
    exact h

theorem sound_mint_step (h : SoundTickets cfg w seen) {i waited : Nat} {nonce : String} {r : HttpRequest}
    (hp : w.phase? i = some (.authorized r))
    (hfresh : (mintedTickets ((sighting cfg parse w (.mint i waited nonce)).toList ++ seen)).Nodup) :
    SoundTickets cfg (serve cfg parse w (.mint i waited nonce))
      ((sighting cfg parse w (.mint i waited nonce)).toList ++ seen) := by
  by_cases hroute : r.route = ticketRoute
  · by_cases hmethod : r.method = "POST"
    · have hserve : serve cfg parse w (.mint i waited nonce) =
          { w.enter i .returned with tickets := w.tickets.mint (w.clock - waited) nonce r.session } := by
        simp only [serve, hp, if_pos hroute, if_pos hmethod]
      have hseen : sighting cfg parse w (.mint i waited nonce) =
          some (.minted nonce r.session (w.clock - waited) r) := by
        simp only [sighting, hp, hroute, hmethod, and_self, if_true]
      rw [hseen] at hfresh
      rw [hserve, hseen]
      exact sound_mint h hp hroute (List.nodup_cons.mp hfresh).1
    · have hserve : serve cfg parse w (.mint i waited nonce) = w.enter i .returned := by
        simp only [serve, hp, if_pos hroute, if_neg hmethod]
      have hseen : sighting cfg parse w (.mint i waited nonce) = none := by
        simp only [sighting, hp, hmethod, and_false, if_false]
      rw [hserve, hseen]
      exact h.keep (fun _ _ he => he) (vouched_of_enter (p := .returned) trivial)
  · have hserve : serve cfg parse w (.mint i waited nonce) = w := by
      simp only [serve, hp, if_neg hroute]
    have hseen : sighting cfg parse w (.mint i waited nonce) = none := by
      simp only [sighting, hp, hroute, false_and, if_false]
    rw [hserve, hseen]
    exact h

theorem sound_serve (htoken : cfg.token ≠ "") (h : SoundTickets cfg w seen) (op : WebOp)
    (hfresh : (mintedTickets ((sighting cfg parse w op).toList ++ seen)).Nodup) :
    SoundTickets cfg (serve cfg parse w op) ((sighting cfg parse w op).toList ++ seen) := by
  cases op with
  | mint i waited nonce =>
    cases hp : w.phase? i with
    | none =>
      have hserve : serve cfg parse w (.mint i waited nonce) = w := by simp only [serve, hp]
      have hseen : sighting cfg parse w (.mint i waited nonce) = none := by simp only [sighting, hp]
      rw [hserve, hseen]
      exact h
    | some p =>
      cases p with
      | authorized r => exact sound_mint_step h hp hfresh
      | _ =>
        have hserve : serve cfg parse w (.mint i waited nonce) = w := by simp only [serve, hp]
        have hseen : sighting cfg parse w (.mint i waited nonce) = none := by simp only [sighting, hp]
        rw [hserve, hseen]
        exact h
  | consume i waited =>
    cases hp : w.phase? i with
    | none =>
      have hserve : serve cfg parse w (.consume i waited) = w := by simp only [serve, hp]
      have hseen : sighting cfg parse w (.consume i waited) = none := by simp only [sighting, hp]
      rw [hserve, hseen]
      exact h
    | some p =>
      cases p with
      | authorized r => exact sound_consume_step h hp
      | _ =>
        have hserve : serve cfg parse w (.consume i waited) = w := by simp only [serve, hp]
        have hseen : sighting cfg parse w (.consume i waited) = none := by simp only [sighting, hp]
        rw [hserve, hseen]
        exact h
  | _ => exact sound_quiet htoken h (WebServer.serve_served cfg parse w _) (by simp) (by simp)

end Tickets

theorem nodup_of_seen {cfg : WebConfig} {parse : String → Option Json} {x : Watch} (es : List WebEvent)
    (h : (mintedTickets (run (watchStep cfg parse) x es).seen).Nodup) : (mintedTickets x.seen).Nodup := by
  induction es generalizing x with
  | nil => exact h
  | cons e es ih =>
    have hstep : (mintedTickets ((sighting cfg parse _ e.op).toList ++ x.seen)).Nodup := ih h
    unfold mintedTickets at hstep
    rw [List.filterMap_append] at hstep
    exact (List.nodup_append.mp hstep).2.1

/-- With a token, and no nonce drawn twice, every stream is opened with a ticket of its own. -/
theorem run_redeemed (cfg : WebConfig) (parse : String → Option Json) (es : List WebEvent)
    (htoken : cfg.token ≠ "")
    (hnonces : (mintedTickets (run (watchStep cfg parse) {} es).seen).Nodup) :
    Redeemed cfg (run (watchStep cfg parse) {} es).seen ∧
      ∀ k ∈ (run (watchStep cfg parse) {} es).server.connections, Vouched cfg k.phase := by
  have hrun : ∀ (es : List WebEvent) (x : Watch), SoundTickets cfg x.server x.seen →
      (mintedTickets (run (watchStep cfg parse) x es).seen).Nodup →
        SoundTickets cfg (run (watchStep cfg parse) x es).server (run (watchStep cfg parse) x es).seen := by
    intro es
    induction es with
    | nil => exact fun x hx _ => hx
    | cons e es ih =>
      intro x hx hn
      have hclock : SoundTickets cfg { x.server with clock := x.server.clock + e.elapsed } x.seen :=
        hx.keep (fun _ _ he => he) fun _ hk => .inl hk
      exact ih _ (sound_serve htoken hclock e.op (nodup_of_seen es hn)) hn
  have hsound := hrun es {} ⟨nofun, trivial, nofun⟩ hnonces
  exact ⟨hsound.redeemed, hsound.vouched⟩

def ticketConfig : WebConfig where
  token := "s3cr3t"

def ticketRequest : HttpRequest where
  method := "POST"
  path := ticketRoute
  headers := [("x-allgres-client", "1"), ("authorization", "Bearer s3cr3t"), ("x-allgres-session", "a")]
  body := ""

def streamRequest : HttpRequest where
  method := "GET"
  path := eventsRoute ++ "?ticket=0f"
  headers := []
  body := ""

/-- A ticket is minted, and a second connection opens its stream. -/
def streamRun : List WebEvent :=
  [⟨1, .accept (some 1)⟩, ⟨1, .spawn 0 true⟩, ⟨1, .limit 0⟩, ⟨1, .read 0 (some ticketRequest)⟩,
    ⟨1, .lockout 0⟩, ⟨1, .authorize 0 0⟩, ⟨1, .mint 0 0 "0f"⟩,
    ⟨1, .accept (some 1)⟩, ⟨1, .spawn 1 true⟩, ⟨1, .limit 1⟩, ⟨1, .read 1 (some streamRequest)⟩,
    ⟨1, .lockout 1⟩, ⟨1, .authorize 1 0⟩, ⟨1, .consume 1 0⟩]

theorem stream_redeemed :
    openedTickets (run (watchStep ticketConfig fun _ => none) {} streamRun).seen = ["0f"] ∧
      Redeemed ticketConfig (run (watchStep ticketConfig fun _ => none) {} streamRun).seen ∧
        ∀ k ∈ (run (watchStep ticketConfig fun _ => none) {} streamRun).server.connections,
          Vouched ticketConfig k.phase :=
  ⟨by decide +kernel, run_redeemed ticketConfig (fun _ => none) streamRun (by decide) (by decide +kernel)⟩

end Allgres
