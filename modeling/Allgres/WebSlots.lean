import Allgres.WebServer

/-! The counter of connection threads against the threads that run. -/

namespace Allgres

open Runs

namespace Phase

/-- The thread is there, and has not released its slot. -/
def isRunning : Phase → Bool
  | finished | unwound => false
  | _ => true

def isUnwound : Phase → Bool
  | unwound => true
  | _ => false

end Phase

namespace WebServer

def census (w : WebServer) (p : Phase → Bool) : Nat :=
  w.connections.countP fun k => p k.phase

def running (w : WebServer) : Nat :=
  w.census Phase.isRunning

def Accounted (w : WebServer) : Prop :=
  w.webThreads = w.running

instance (w : WebServer) : Decidable w.Accounted :=
  inferInstanceAs (Decidable (_ = _))

/-- What a step does to the threads and their counter. -/
inductive Turn : Bool → WebServer → WebServer → Prop where
  | stay {w w' : WebServer} (hc : w'.connections = w.connections) (hn : w'.webThreads = w.webThreads) :
      Turn false w w'
  | opens {w w' : WebServer} (ip : Option IpAddr)
      (hc : w'.connections = w.connections ++ [⟨ip, .spawning⟩])
      (hn : w'.webThreads = w.webThreads + 1) : Turn false w w'
  | moves {w w' : WebServer} {i : Nat} {old new : Phase} (hold : w.phase? i = some old)
      (hc : w'.connections = (w.enter i new).connections) (hn : w'.webThreads = w.webThreads)
      (hrun : old.isRunning = true) (hrun' : new.isRunning = true) : Turn false w w'
  | closes {w w' : WebServer} {i : Nat} {old : Phase} (hold : w.phase? i = some old)
      (hc : w'.connections = (w.enter i .finished).connections)
      (hn : w'.webThreads = w.webThreads - 1) (hrun : old.isRunning = true) : Turn false w w'
  | unwinds {w w' : WebServer} {i : Nat} {old : Phase} (hold : w.phase? i = some old)
      (hc : w'.connections = (w.enter i .unwound).connections)
      (hn : w'.webThreads = w.webThreads) (hrun : old.isRunning = true) : Turn true w w'

section Census

variable {w w' : WebServer} {i : Nat} {old new : Phase}

theorem census_enter (p : Phase → Bool) (h : w.phase? i = some old)
    (hc : w'.connections = (w.enter i new).connections) :
    w'.census p + (if p old then 1 else 0) = w.census p + (if p new then 1 else 0) := by
  obtain ⟨k, hk, hp⟩ := Option.map_eq_some_iff.mp h
  have hcount := countP_modify (fun k : Connection => p k.phase) (fun k => { k with phase := new }) hk
  rw [hp] at hcount
  unfold census
  rw [hc]
  exact hcount

theorem census_congr (p : Phase → Bool) (hc : w'.connections = w.connections) :
    w'.census p = w.census p := by
  unfold census
  rw [hc]

/-- A slot is taken by every thread that has not finished. -/
def Occupied (w : WebServer) : Prop :=
  w.webThreads = w.running + w.census Phase.isUnwound

theorem isUnwound_of_isRunning {p : Phase} (h : p.isRunning = true) : p.isUnwound = false := by
  cases p <;> first | rfl | cases h

theorem Turn.occupied {b : Bool} (h : Turn b w w') (hw : w.Occupied) : w'.Occupied := by
  unfold Occupied running at hw ⊢
  cases h with
  | stay hc hn => rw [census_congr _ hc, census_congr _ hc, hn, hw]
  | opens ip hc hn =>
    have hone : ∀ p : Phase → Bool, w'.census p = w.census p + if p .spawning then 1 else 0 := by
      intro p
      unfold census
      rw [hc, List.countP_append, List.countP_singleton]
    rw [hone, hone, hn, hw]
    simp only [Phase.isRunning, Phase.isUnwound]
    simp only [if_true, Bool.false_eq_true, if_false]
    omega
  | moves hold hc hn hrun hrun' =>
    have hr := census_enter Phase.isRunning hold hc
    have hu := census_enter Phase.isUnwound hold hc
    rw [hrun, hrun'] at hr
    rw [isUnwound_of_isRunning hrun, isUnwound_of_isRunning hrun'] at hu
    omega
  | closes hold hc hn hrun =>
    have hr := census_enter Phase.isRunning hold hc
    have hu := census_enter Phase.isUnwound hold hc
    rw [hrun] at hr
    rw [isUnwound_of_isRunning hrun] at hu
    simp only [Phase.isRunning, Phase.isUnwound, if_true, Bool.false_eq_true, if_false] at hr hu
    omega
  | unwinds hold hc hn hrun =>
    have hr := census_enter Phase.isRunning hold hc
    have hu := census_enter Phase.isUnwound hold hc
    rw [hrun] at hr
    rw [isUnwound_of_isRunning hrun] at hu
    simp only [Phase.isRunning, Phase.isUnwound, if_true, Bool.false_eq_true, if_false] at hr hu
    omega

/-- A slot is lost by the steps that panic, and only by these. -/
theorem Turn.unwound {b : Bool} (h : Turn b w w') :
    w'.census Phase.isUnwound = w.census Phase.isUnwound + if b then 1 else 0 := by
  cases h with
  | stay hc hn => exact census_congr _ hc
  | opens ip hc hn =>
    unfold census
    rw [hc, List.countP_append, List.countP_singleton]
    rfl
  | moves hold hc hn hrun hrun' =>
    have hu := census_enter Phase.isUnwound hold hc
    rw [isUnwound_of_isRunning hrun, isUnwound_of_isRunning hrun'] at hu
    exact hu
  | closes hold hc hn hrun =>
    have hu := census_enter Phase.isUnwound hold hc
    rw [isUnwound_of_isRunning hrun] at hu
    exact hu
  | unwinds hold hc hn hrun =>
    have hu := census_enter Phase.isUnwound hold hc
    rw [isUnwound_of_isRunning hrun] at hu
    exact hu

theorem serve_turn (cfg : WebConfig) (parse : String → Option Json) (w : WebServer) (op : WebOp) :
    Turn (w.panics parse op) w (serve cfg parse w op) := by
  have hserved := serve_served cfg parse w op
  generalize serve cfg parse w op = w' at hserved ⊢
  cases hserved with
  | idle _ hcalm =>
    rw [hcalm]
    exact .stay rfl rfl
  | opens ip => exact .opens ip rfl rfl
  | moves _ i old new hold hmove hcalm =>
    rw [hcalm]
    cases hmove <;> exact .moves hold rfl rfl rfl rfl
  | unnamed _ i old new hold hip hmove hcalm =>
    rw [hcalm]
    cases hmove <;> exact .moves hold rfl rfl rfl rfl
  | limits i ip new hold hip hnew =>
    rcases hnew with rfl | rfl <;> exact .moves hold rfl rfl rfl rfl
  | lockedOut i r ip hold hip => exact .moves hold rfl rfl rfl rfl
  | unlocks i r ip hold hip hroom => exact .moves hold rfl rfl rfl rfl
  | authorizes i waited r hold hok => exact .moves hold rfl rfl rfl rfl
  | refuses i waited r hold hno => exact .moves hold rfl rfl rfl rfl
  | records i r ip hold hip => exact .moves hold rfl rfl rfl rfl
  | mints i waited nonce r hold hroute hmethod => exact .moves hold rfl rfl rfl rfl
  | redeems i waited r t hold hroute hticket =>
    refine .moves hold rfl rfl rfl ?_
    cases (w.tickets.consume (w.clock - waited) t).2 with
    | none => rfl
    | some session => rfl
  | releases _ i old hold hend hcalm =>
    rw [hcalm]
    rcases hend with rfl | rfl <;> exact .closes hold rfl rfl rfl
  | breaks _ i r hold hpanics =>
    rw [hpanics]
    exact .unwinds hold rfl rfl rfl

end Census

theorem webStep_turn (cfg : WebConfig) (parse : String → Option Json) (w : WebServer) (e : WebEvent) :
    Turn (w.panics parse e.op) w (webStep cfg parse w e) := by
  have hturn := serve_turn cfg parse { w with clock := w.clock + e.elapsed } e.op
  have hsame : ({ w with clock := w.clock + e.elapsed } : WebServer).panics parse e.op = w.panics parse e.op := rfl
  rw [hsame] at hturn
  unfold webStep
  generalize serve cfg parse { w with clock := w.clock + e.elapsed } e.op = w' at hturn ⊢
  generalize w.panics parse e.op = b at hturn ⊢
  cases hturn with
  | stay hc hn => exact .stay hc hn
  | opens ip hc hn => exact .opens ip hc hn
  | moves hold hc hn hrun hrun' => exact .moves hold hc hn hrun hrun'
  | closes hold hc hn hrun => exact .closes hold hc hn hrun
  | unwinds hold hc hn hrun => exact .unwinds hold hc hn hrun

theorem accounted_iff {w : WebServer} (h : w.Occupied) : w.Accounted ↔ w.census Phase.isUnwound = 0 := by
  unfold Occupied at h
  unfold Accounted
  omega

end WebServer

/-- The counter is right in every state of a run exactly if no step answers a request whose handler
panics. -/
theorem run_accounted_iff_calm (cfg : WebConfig) (parse : String → Option Json) (es : List WebEvent) :
    (∀ fs, fs <+: es → (run (webStep cfg parse) {} fs).Accounted) ↔
      Along (webStep cfg parse) (fun w e => w.panics parse e.op = false) {} es := by
  have hrun : ∀ (es : List WebEvent) (w : WebServer), w.Occupied → w.census Phase.isUnwound = 0 →
      ((∀ fs, fs <+: es → (run (webStep cfg parse) w fs).Accounted) ↔
        Along (webStep cfg parse) (fun w e => w.panics parse e.op = false) w es) := by
    intro es
    induction es with
    | nil =>
      intro w hw hz
      refine ⟨fun _ => trivial, fun _ fs hfs => ?_⟩
      rw [List.prefix_nil.mp hfs]
      exact (WebServer.accounted_iff hw).mpr hz
    | cons e es ih =>
      intro w hw hz
      have hturn := WebServer.webStep_turn cfg parse w e
      have hw' := hturn.occupied hw
      have hlost := hturn.unwound
      rw [hz, Nat.zero_add] at hlost
      constructor
      · intro h
        have hone : (webStep cfg parse w e).Accounted := h [e] (by simp)
        have hz' := (WebServer.accounted_iff hw').mp hone
        have hcalm : w.panics parse e.op = false := by
          cases hb : w.panics parse e.op with
          | false => rfl
          | true =>
            rw [hb, hz'] at hlost
            cases hlost
        exact ⟨hcalm, (ih _ hw' hz').mp fun fs hfs => h (e :: fs) ((List.prefix_cons_inj e).mpr hfs)⟩
      · rintro ⟨hcalm, hes⟩ fs hfs
        rw [hcalm] at hlost
        cases fs with
        | nil => exact (WebServer.accounted_iff hw).mpr hz
        | cons f fs =>
          obtain ⟨rfl, hrest⟩ := List.cons_prefix_cons.mp hfs
          exact (ih _ hw' hlost).mpr hes fs hrest
  exact hrun es {} rfl rfl

/-- A body that is an array on a route that writes its action. -/
def arrayRequest : HttpRequest where
  method := "POST"
  path := "/api/v1/run"
  headers := [("x-allgres-client", "1")]
  body := "[]"

theorem array_body_loses_a_slot :
    ¬ ∀ (cfg : WebConfig) (parse : String → Option Json) (es : List WebEvent),
      (run (webStep cfg parse) {} es).Accounted := by
  intro h
  have hlost := h { token := "" } (fun _ => some (.arr []))
    [⟨1, .accept (some 1)⟩, ⟨1, .spawn 0 true⟩, ⟨1, .limit 0⟩, ⟨1, .read 0 (some arrayRequest)⟩,
      ⟨1, .lockout 0⟩, ⟨1, .authorize 0 0⟩, ⟨1, .answer 0⟩]
  revert hlost
  decide +kernel

end Allgres
