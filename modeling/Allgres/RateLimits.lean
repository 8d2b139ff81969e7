import Allgres.SlidingWindow
import Allgres.WebServer

/-! The maps of `RATE_LIMIT` with their keys. `rate_limited` decides as a sliding window over the whole
history would; which addresses stay in the maps is another matter. -/

namespace Allgres

open Runs SlidingWindow

abbrev HitMap := IpAddr → Option (List Instant)

namespace HitMap

/-- `map.entry(ip).or_default()`. -/
def orDefault (m : HitMap) (ip : IpAddr) : List Instant :=
  (m ip).getD []

def insert (m : HitMap) (ip : IpAddr) (hits : List Instant) : HitMap :=
  Function.update m ip (some hits)

/-- `map.retain(|_, v| !v.is_empty())`. -/
def dropEmpty (m : HitMap) : HitMap :=
  fun ip => (m ip).filter fun hits => !hits.isEmpty

end HitMap

def rateCheck (m : HitMap) (ip : IpAddr) (now : Instant) (window limit : Nat) : HitMap × Bool :=
  let hits := recent window now (m.orDefault ip)
  if limit ≤ hits.length then (m.insert ip hits, false)
  else ((m.insert ip (hits ++ [now])).dropEmpty, true)

structure RateMaps where
  general : HitMap := fun _ => none
  authFail : HitMap := fun _ => none

namespace RateMaps

def rateLimited (w : RateMaps) (ip : IpAddr) (now : Instant) : RateMaps × Bool :=
  let checked := rateCheck w.general ip now rateGeneralWindow rateGeneralLimit
  ({ w with general := checked.1 }, !checked.2)

def authFailuresExceeded (w : RateMaps) (ip : IpAddr) (now : Instant) : RateMaps × Bool :=
  let hits := recent rateAuthFailWindow now (w.authFail.orDefault ip)
  ({ w with authFail := w.authFail.insert ip hits }, rateAuthFailLimit ≤ hits.length)

def recordAuthFailure (w : RateMaps) (ip : IpAddr) (now : Instant) : RateMaps :=
  { w with authFail := w.authFail.insert ip (w.authFail.orDefault ip ++ [now]) }

end RateMaps

inductive RateFn where
  | rateLimited
  | authFailuresExceeded
  | recordAuthFailure
  deriving DecidableEq

structure RateCall where
  fn : RateFn
  ip : IpAddr
  now : Instant

def rateStep (w : RateMaps) (c : RateCall) : RateMaps :=
  match c.fn with
  | .rateLimited => (w.rateLimited c.ip c.now).1
  | .authFailuresExceeded => (w.authFailuresExceeded c.ip c.now).1
  | .recordAuthFailure => w.recordAuthFailure c.ip c.now

def Ordered (cs : List RateCall) : Prop :=
  cs.Pairwise fun a b => a.now ≤ b.now

def callsOf (fn : RateFn) (cs : List RateCall) : List (IpAddr × Instant) :=
  (cs.filter (·.fn = fn)).map fun c => (c.ip, c.now)

def passes (w : RateMaps) (c : RateCall) : List (IpAddr × Instant) :=
  if c.fn = .rateLimited ∧ (w.rateLimited c.ip c.now).2 = false then [(c.ip, c.now)] else []

/-- The requests that `rate_limited` lets through. -/
def passed (w : RateMaps) : List RateCall → List (IpAddr × Instant)
  | [] => []
  | c :: cs => passes w c ++ passed (rateStep w c) cs

theorem passed_snoc (w : RateMaps) (cs : List RateCall) (c : RateCall) :
    passed w (cs ++ [c]) = passed w cs ++ passes (run rateStep w cs) c := by
  induction cs generalizing w with
  | nil => simp [passed, run]
  | cons a cs ih =>
    have hrun : run rateStep w (a :: cs) = run rateStep (rateStep w a) cs := rfl
    rw [List.cons_append, passed, ih, passed, hrun, List.append_assoc]

theorem callsOf_snoc (fn : RateFn) (cs : List RateCall) (c : RateCall) :
    callsOf fn (cs ++ [c]) = callsOf fn cs ++ if c.fn = fn then [(c.ip, c.now)] else [] := by
  by_cases h : c.fn = fn <;> simp [callsOf, List.filter_append, h]

/-- The times of the requests of an address. -/
def timesOf (ip : IpAddr) (past : List (IpAddr × Instant)) : List Instant :=
  (past.filter (·.1 = ip)).map (·.2)

theorem timesOf_snoc (ip : IpAddr) (past : List (IpAddr × Instant)) (r : IpAddr × Instant) :
    timesOf ip (past ++ [r]) = timesOf ip past ++ if r.1 = ip then [r.2] else [] := by
  by_cases h : r.1 = ip <;> simp [timesOf, List.filter_append, h]

theorem length_recent_timesOf (window : Nat) (past : List (IpAddr × Instant)) (ip : IpAddr) (now : Instant) :
    (recent window now (timesOf ip past)).length = held window past ip now := by
  unfold recent timesOf held
  rw [← List.countP_eq_length_filter, List.countP_map, List.countP_filter]
  apply List.countP_congr
  intro r _
  simp only [Function.comp_apply, Bool.and_eq_true, decide_eq_true_eq]
  tauto

theorem recent_append (window : Nat) (now : Instant) (a b : List Instant) :
    recent window now (a ++ b) = recent window now a ++ recent window now b :=
  List.filter_append _ _

/-- What an earlier window has dropped is not missed later. -/
theorem recent_recent {window : Nat} {t now : Instant} (h : t ≤ now) (hits : List Instant) :
    recent window now (recent window t hits) = recent window now hits := by
  unfold recent
  rw [List.filter_filter]
  apply List.filter_congr
  intro a _
  have hdropped : ∀ a t now window : Nat, t ≤ now → now - a < window → t - a < window := by omega
  simpa only [← Bool.decide_and, decide_eq_decide, and_iff_left_iff_imp] using hdropped a t now window h

section Maps

variable {window : Nat} {m : HitMap} {ip : IpAddr} {past : List (IpAddr × Instant)} {last now : Instant}
  {hits : List Instant}

@[simp] theorem HitMap.orDefault_insert_self : (m.insert ip hits).orDefault ip = hits := by
  simp [HitMap.orDefault, HitMap.insert]

@[simp] theorem HitMap.orDefault_insert_ne {other : IpAddr} (h : other ≠ ip) :
    (m.insert ip hits).orDefault other = m.orDefault other := by
  simp [HitMap.orDefault, HitMap.insert, h]

@[simp] theorem HitMap.insert_insert (first : List Instant) : (m.insert ip first).insert ip hits = m.insert ip hits :=
  Function.update_idem _ _ _

@[simp] theorem HitMap.orDefault_dropEmpty : m.dropEmpty.orDefault = m.orDefault := by
  funext ip
  unfold HitMap.orDefault HitMap.dropEmpty
  cases hm : m ip with
  | none => rfl
  | some hits => cases hits <;> rfl

/-- From `last` on, a window over the map holds what it would hold over the whole history. -/
def Shows (window : Nat) (m : HitMap) (past : List (IpAddr × Instant)) (last : Instant) : Prop :=
  ∀ ip now, last ≤ now → recent window now (m.orDefault ip) = recent window now (timesOf ip past)

theorem Shows.later (h : Shows window m past last) (hle : last ≤ now) : Shows window m past now :=
  fun ip t ht => h ip t (Nat.le_trans hle ht)

theorem Shows.prune (h : Shows window m past last) (hle : last ≤ now) (ip : IpAddr) :
    Shows window (m.insert ip (recent window now (m.orDefault ip))) past now := by
  intro other t ht
  by_cases he : other = ip
  · subst he
    rw [HitMap.orDefault_insert_self, recent_recent ht]
    exact h other t (Nat.le_trans hle ht)
  · rw [HitMap.orDefault_insert_ne he]
    exact h other t (Nat.le_trans hle ht)

theorem Shows.push (h : Shows window m past now) (ip : IpAddr) :
    Shows window (m.insert ip (m.orDefault ip ++ [now])) (past ++ [(ip, now)]) now := by
  intro other t ht
  rw [timesOf_snoc, recent_append, ← h other t ht]
  by_cases he : other = ip
  · subst he
    simp [recent_append]
  · have hne : ¬ ip = other := fun h => he h.symm
    simp [HitMap.orDefault_insert_ne he, hne, recent]

theorem Shows.length (h : Shows window m past last) (hle : last ≤ now) (ip : IpAddr) :
    (recent window now (m.orDefault ip)).length = held window past ip now := by
  rw [h ip now hle, length_recent_timesOf]

end Maps

/-- The maps without their keys, as the web worker's own steps see them. -/
def RateMaps.hits (w : RateMaps) : RateWindows where
  general := w.general.orDefault
  authFail := w.authFail.orDefault

theorem HitMap.orDefault_insert (m : HitMap) (ip : IpAddr) (hits : List Instant) :
    (m.insert ip hits).orDefault = Function.update m.orDefault ip hits := by
  funext other
  by_cases h : other = ip
  · subst h
    simp
  · simp [h]

section WebWorker

variable {s : WebServer} {w : RateMaps}

theorem rateLimited_hits (h : s.rate = w.hits) (ip : IpAddr) :
    s.rateLimited ip = ((w.rateLimited ip s.clock).1.hits, (w.rateLimited ip s.clock).2) := by
  have hgeneral : s.rate.general ip = w.general.orDefault ip := by rw [h]; rfl
  unfold WebServer.rateLimited RateMaps.rateLimited rateCheck
  rw [hgeneral]
  by_cases hfull : rateGeneralLimit ≤ (recent rateGeneralWindow s.clock (w.general.orDefault ip)).length
  · simp [hfull, h, RateMaps.hits, HitMap.orDefault_insert]
  · simp [hfull, h, RateMaps.hits, HitMap.orDefault_insert]

theorem authFailuresExceeded_hits (h : s.rate = w.hits) (ip : IpAddr) :
    (s.sweepFailures ip).rate = (w.authFailuresExceeded ip s.clock).1.hits ∧
      s.authFailuresExceeded ip = (w.authFailuresExceeded ip s.clock).2 := by
  have hfailures : s.failures ip = recent rateAuthFailWindow s.clock (w.authFail.orDefault ip) := by
    rw [WebServer.failures, h]
    rfl
  simp [WebServer.sweepFailures, WebServer.authFailuresExceeded, RateMaps.authFailuresExceeded, hfailures, h,
    RateMaps.hits, HitMap.orDefault_insert]

theorem recordAuthFailure_hits (h : s.rate = w.hits) (ip : IpAddr) :
    (s.recordAuthFailure ip).rate = (w.recordAuthFailure ip s.clock).hits := by
  simp [WebServer.recordAuthFailure, RateMaps.recordAuthFailure, h, RateMaps.hits, HitMap.orDefault_insert]

end WebWorker

theorem ordered_snoc {cs : List RateCall} {c : RateCall} :
    Ordered (cs ++ [c]) ↔ Ordered cs ∧ ∀ a ∈ cs, a.now ≤ c.now := by
  simp [Ordered, List.pairwise_append]

/-- `rate_check` on a map that shows its history. -/
theorem rateCheck_shows (limit : Nat) {window : Nat} {m : HitMap} {past : List (IpAddr × Instant)} {now : Instant}
    (h : Shows window m past now) (ip : IpAddr) :
    (rateCheck m ip now window limit).2 = admits window limit past (ip, now) ∧
      Shows window (rateCheck m ip now window limit).1 (grant window limit past (ip, now)) now := by
  have hlength := h.length (Nat.le_refl now) ip
  have hpruned := h.prune (Nat.le_refl now) ip
  unfold rateCheck
  dsimp only
  rw [hlength]
  by_cases hfull : limit ≤ held window past ip now
  · have hno : admits window limit past (ip, now) = false := by simp [admits, hfull]
    simp only [if_pos hfull, grant, hno, Bool.false_eq_true, if_false, true_and]
    exact hpruned
  · have hyes : admits window limit past (ip, now) = true := by simpa [admits] using hfull
    have hpushed := hpruned.push ip
    rw [HitMap.orDefault_insert_self, HitMap.insert_insert] at hpushed
    simp only [if_neg hfull, grant, hyes, if_true, true_and]
    intro other t ht
    rw [HitMap.orDefault_dropEmpty]
    exact hpushed other t ht

section Steps

variable (w : RateMaps) (ip : IpAddr) (now : Instant)

@[simp] theorem authFail_rateLimited : (rateStep w ⟨.rateLimited, ip, now⟩).authFail = w.authFail := rfl

@[simp] theorem general_authFailuresExceeded : (rateStep w ⟨.authFailuresExceeded, ip, now⟩).general = w.general := rfl

@[simp] theorem general_recordAuthFailure : (rateStep w ⟨.recordAuthFailure, ip, now⟩).general = w.general := rfl

end Steps

theorem general_shows {cs : List RateCall} (h : Ordered cs) {now : Instant} (hlast : ∀ c ∈ cs, c.now ≤ now) :
    Shows rateGeneralWindow (run rateStep {} cs).general
        (accepted rateGeneralWindow rateGeneralLimit (callsOf .rateLimited cs)) now ∧
      passed {} cs = accepted rateGeneralWindow rateGeneralLimit (callsOf .rateLimited cs) := by
  induction cs using List.reverseRecOn generalizing now with
  | nil => exact ⟨fun _ _ _ => rfl, rfl⟩
  | append_singleton cs c ih =>
    obtain ⟨hcs, hbefore⟩ := ordered_snoc.mp h
    have hc : c.now ≤ now := hlast c (by simp)
    obtain ⟨hshows, hpassed⟩ := ih hcs hbefore
    obtain ⟨fn, ip, t⟩ := c
    rw [run_snoc, passed_snoc, callsOf_snoc, hpassed]
    cases fn with
    | rateLimited =>
      obtain ⟨hanswer, hafter⟩ := rateCheck_shows rateGeneralLimit hshows ip
      simp only [if_true, accepted_snoc]
      refine ⟨hafter.later hc, ?_⟩
      simp only [passes, RateMaps.rateLimited, hanswer, grant]
      by_cases hroom : admits rateGeneralWindow rateGeneralLimit
          (accepted rateGeneralWindow rateGeneralLimit (callsOf .rateLimited cs)) (ip, t) = true <;>
        simp [hroom]
    | authFailuresExceeded =>
      simpa [passes] using hshows.later hc
    | recordAuthFailure =>
      simpa [passes] using hshows.later hc

theorem authFail_shows {cs : List RateCall} (h : Ordered cs) {now : Instant} (hlast : ∀ c ∈ cs, c.now ≤ now) :
    Shows rateAuthFailWindow (run rateStep {} cs).authFail (callsOf .recordAuthFailure cs) now := by
  induction cs using List.reverseRecOn generalizing now with
  | nil => exact fun _ _ _ => rfl
  | append_singleton cs c ih =>
    obtain ⟨hcs, hbefore⟩ := ordered_snoc.mp h
    have hc : c.now ≤ now := hlast c (by simp)
    have hshows := ih hcs hbefore
    obtain ⟨fn, ip, t⟩ := c
    rw [run_snoc, callsOf_snoc]
    cases fn with
    | rateLimited =>
      simpa using hshows.later hc
    | authFailuresExceeded =>
      simp only [reduceCtorEq, if_false, List.append_nil]
      exact (hshows.prune (Nat.le_refl t) ip).later hc
    | recordAuthFailure => exact (hshows.push ip).later hc

/-- `rate_limited` lets a request through just if the window that ends with it holds fewer requests of
its address that were let through than the limit; so no window ever holds more, and the requests of
other addresses do not matter. -/
theorem rateLimited_slidingWindow (cs : List RateCall) (ip : IpAddr) (now : Instant)
    (h : Ordered (cs ++ [⟨.rateLimited, ip, now⟩])) :
    (((run rateStep {} cs).rateLimited ip now).2 = false ↔
        held rateGeneralWindow (passed {} cs) ip now < rateGeneralLimit) ∧
      (∀ other start, within rateGeneralWindow (passed {} (cs ++ [⟨.rateLimited, ip, now⟩])) other start ≤
        rateGeneralLimit) ∧
      ((run rateStep {} cs).rateLimited ip now).2 =
        ((run rateStep {} (cs.filter (·.ip = ip))).rateLimited ip now).2 := by
  have hanswer : ∀ ds : List RateCall, Ordered ds → (∀ c ∈ ds, c.now ≤ now) →
      ((run rateStep {} ds).rateLimited ip now).2 = !admits rateGeneralWindow rateGeneralLimit
        (accepted rateGeneralWindow rateGeneralLimit (callsOf .rateLimited ds)) (ip, now) := by
    intro ds hds hbefore
    simp only [RateMaps.rateLimited, (rateCheck_shows _ (general_shows hds hbefore).1 ip).1]
  obtain ⟨hcs, hbefore⟩ := ordered_snoc.mp h
  have hlast : ∀ c ∈ cs ++ [⟨.rateLimited, ip, now⟩], c.now ≤ now := by
    intro c hc
    rcases List.mem_append.mp hc with hc | hc
    · exact hbefore c hc
    · exact Nat.le_of_eq (congrArg RateCall.now (List.mem_singleton.mp hc))
  refine ⟨?_, ?_, ?_⟩
  · rw [hanswer cs hcs hbefore, (general_shows hcs hbefore).2]
    simp [admits]
  · intro other start
    rw [(general_shows h hlast).2]
    exact within_accepted_le _ other start
  · have hown : callsOf .rateLimited (cs.filter (·.ip = ip)) = (callsOf .rateLimited cs).filter (·.1 = ip) := by
      simp only [callsOf, List.filter_map, List.filter_filter]
      congr 1
      apply List.filter_congr
      intro c _
      exact Bool.and_comm _ _
    rw [hanswer cs hcs hbefore, hanswer _ (hcs.filter _) fun c hc => hbefore c (List.mem_of_mem_filter hc),
      hown, accepted_filter]
    simp only [admits, held_filter]

theorem burst_limited :
    within rateGeneralWindow (passed {} ([⟨.rateLimited, 1, 0⟩, ⟨.rateLimited, 2, 5⟩] ++ [⟨.rateLimited, 1, 7⟩])) 1 0 ≤
      rateGeneralLimit :=
  (rateLimited_slidingWindow [⟨.rateLimited, 1, 0⟩, ⟨.rateLimited, 2, 5⟩] 1 7 (by simp [Ordered])).2.1 1 0

/-- Every address in the map has a hit inside the window. -/
def Live (window : Nat) (m : HitMap) (now : Instant) : Prop :=
  ∀ ip hits, m ip = some hits → recent window now hits ≠ []

/-- What the comments promise of the map a call has swept. -/
def LiveAfter (w : RateMaps) (c : RateCall) : Prop :=
  match c.fn with
  | .rateLimited => (w.rateLimited c.ip c.now).2 = false → Live rateGeneralWindow (rateStep w c).general c.now
  | _ => Live rateAuthFailWindow (rateStep w c).authFail c.now

/-- The addresses of the calls that look at the failures. -/
def lockoutAddresses (cs : List RateCall) : List IpAddr :=
  (cs.filter (·.fn ≠ .rateLimited)).map (·.ip)

/-- No address that was ever seen has been quiet for a whole window. -/
def AllActive (cs : List RateCall) (c : RateCall) : Prop :=
  match c.fn with
  | .rateLimited =>
    admits rateGeneralWindow rateGeneralLimit
        (accepted rateGeneralWindow rateGeneralLimit (callsOf .rateLimited cs)) (c.ip, c.now) = true →
      ∀ r ∈ callsOf .rateLimited (cs ++ [c]), 0 < held rateGeneralWindow
        (accepted rateGeneralWindow rateGeneralLimit (callsOf .rateLimited (cs ++ [c]))) r.1 c.now
  | _ => ∀ ip ∈ lockoutAddresses (cs ++ [c]),
      0 < held rateAuthFailWindow (callsOf .recordAuthFailure (cs ++ [c])) ip c.now

theorem live_iff {window : Nat} {m : HitMap} {past : List (IpAddr × Instant)} {now : Instant} {ips : List IpAddr}
    (h : Shows window m past now) (hkeys : ∀ ip, (m ip).isSome ↔ ip ∈ ips) :
    Live window m now ↔ ∀ ip ∈ ips, 0 < held window past ip now := by
  have hheld : ∀ ip hits, m ip = some hits → (recent window now hits ≠ [] ↔ 0 < held window past ip now) := by
    intro ip hits hm
    rw [← h.length (Nat.le_refl now) ip, HitMap.orDefault, hm, Option.getD_some, List.length_pos_iff]
  constructor
  · intro hlive ip hip
    obtain ⟨hits, hm⟩ := Option.isSome_iff_exists.mp ((hkeys ip).mpr hip)
    exact (hheld ip hits hm).mp (hlive ip hits hm)
  · intro hall ip hits hm
    exact (hheld ip hits hm).mpr (hall ip ((hkeys ip).mp (by rw [hm]; rfl)))

theorem isSome_insert {m : HitMap} {ip other : IpAddr} {hits : List Instant} :
    (m.insert ip hits other).isSome ↔ other = ip ∨ (m other).isSome := by
  unfold HitMap.insert
  by_cases h : other = ip
  · subst h
    simp
  · simp [h]

/-- The sweep of `rate_check` never finds an entry to drop. -/
theorem rateCheck_keys {m : HitMap} (ip : IpAddr) (now : Instant) (window : Nat) {limit : Nat}
    (hlimit : 0 < limit) (h : ∀ other, m other ≠ some []) :
    (∀ other, ((rateCheck m ip now window limit).1 other).isSome ↔ other = ip ∨ (m other).isSome) ∧
      ∀ other, (rateCheck m ip now window limit).1 other ≠ some [] := by
  have hinsert : ∀ hits : List Instant, hits ≠ [] → ∀ other, m.insert ip hits other ≠ some [] := by
    intro hits hne other
    unfold HitMap.insert
    by_cases he : other = ip
    · subst he
      simpa using hne
    · simpa [he] using h other
  have hkept : ∀ m : HitMap, (∀ other, m other ≠ some []) → m.dropEmpty = m := by
    intro m hm
    funext other
    unfold HitMap.dropEmpty
    cases hc : m other with
    | none => rfl
    | some hits =>
      have hne : hits ≠ [] := fun he => hm other (he ▸ hc)
      simp [hne]
  unfold rateCheck
  dsimp only
  by_cases hfull : limit ≤ (recent window now (m.orDefault ip)).length
  · have hne : recent window now (m.orDefault ip) ≠ [] := List.ne_nil_of_length_pos (by omega)
    rw [if_pos hfull]
    exact ⟨fun other => isSome_insert, hinsert _ hne⟩
  · have hall := hinsert (recent window now (m.orDefault ip) ++ [now]) (by simp)
    rw [if_neg hfull]
    dsimp only
    rw [hkept _ hall]
    exact ⟨fun other => isSome_insert, hall⟩

/-- No address ever leaves the map. -/
theorem general_keys (cs : List RateCall) :
    (∀ ip, ((run rateStep {} cs).general ip).isSome ↔ ip ∈ (callsOf .rateLimited cs).map (·.1)) ∧
      ∀ ip, (run rateStep {} cs).general ip ≠ some [] := by
  induction cs using List.reverseRecOn with
  | nil => simp [run, callsOf]
  | append_singleton cs c ih =>
    obtain ⟨fn, ip, t⟩ := c
    rw [run_snoc, callsOf_snoc]
    cases fn with
    | rateLimited =>
      obtain ⟨hkeys, hfull⟩ := rateCheck_keys ip t rateGeneralWindow
        (show 0 < rateGeneralLimit by decide) ih.2
      refine ⟨fun other => (hkeys other).trans ?_, hfull⟩
      rw [ih.1 other]
      simp [or_comm]
    | authFailuresExceeded => simpa using ih
    | recordAuthFailure => simpa using ih

theorem authFail_keys (cs : List RateCall) (ip : IpAddr) :
    ((run rateStep {} cs).authFail ip).isSome ↔ ip ∈ lockoutAddresses cs := by
  induction cs using List.reverseRecOn with
  | nil => simp [run, lockoutAddresses]
  | append_singleton cs c ih =>
    obtain ⟨fn, other, t⟩ := c
    rw [run_snoc]
    cases fn with
    | rateLimited => simpa [lockoutAddresses, List.filter_append] using ih
    | _ =>
      refine isSome_insert.trans ?_
      rw [ih]
      simp [lockoutAddresses, List.filter_append, or_comm]

theorem liveAfter_iff {cs : List RateCall} {c : RateCall} (h : Ordered (cs ++ [c])) :
    LiveAfter (run rateStep {} cs) c ↔ AllActive cs c := by
  obtain ⟨hcs, hbefore⟩ := ordered_snoc.mp h
  have hlast : ∀ a ∈ cs ++ [c], a.now ≤ c.now := by
    intro a ha
    rcases List.mem_append.mp ha with ha | ha
    · exact hbefore a ha
    · exact Nat.le_of_eq (congrArg RateCall.now (List.mem_singleton.mp ha))
  have hauth : Live rateAuthFailWindow (rateStep (run rateStep {} cs) c).authFail c.now ↔
      ∀ ip ∈ lockoutAddresses (cs ++ [c]),
        0 < held rateAuthFailWindow (callsOf .recordAuthFailure (cs ++ [c])) ip c.now := by
    have hsnoc : run rateStep {} (cs ++ [c]) = rateStep (run rateStep {} cs) c := run_snoc _ _ _
    rw [← hsnoc]
    exact live_iff (authFail_shows h hlast) (authFail_keys _)
  obtain ⟨fn, ip, now⟩ := c
  cases fn with
  | rateLimited =>
    have hanswer := (rateCheck_shows rateGeneralLimit (general_shows hcs hbefore).1 ip).1
    have hlive := live_iff (general_shows h hlast).1 (general_keys _).1
    rw [run_snoc] at hlive
    simp only [LiveAfter, AllActive, RateMaps.rateLimited, hanswer, Bool.not_eq_false', hlive, List.mem_map,
      forall_exists_index, and_imp, forall_apply_eq_imp_iff₂]
  | authFailuresExceeded => exact hauth
  | recordAuthFailure => exact hauth

/-- The maps hold live addresses only, after every call of a run, just if at every call each address seen
so far is active. -/
theorem run_live_iff (cs : List RateCall) (h : Ordered cs) :
    (∀ before c after, cs = before ++ c :: after → LiveAfter (run rateStep {} before) c) ↔
      ∀ before c after, cs = before ++ c :: after → AllActive before c := by
  have hcall : ∀ before c after, cs = before ++ c :: after →
      (LiveAfter (run rateStep {} before) c ↔ AllActive before c) := by
    intro before c after hsplit
    rw [hsplit, List.append_cons] at h
    exact liveAfter_iff (List.pairwise_append.mp h).1
  constructor
  · intro hlive before c after hsplit
    exact (hcall before c after hsplit).mp (hlive before c after hsplit)
  · intro hactive before c after hsplit
    exact (hcall before c after hsplit).mpr (hactive before c after hsplit)

instance (cs : List RateCall) (c : RateCall) : Decidable (AllActive cs c) := by
  unfold AllActive
  split <;> infer_instance

/-- An address that fails once and comes back, and a second one. -/
def busyRun : List RateCall :=
  [⟨.recordAuthFailure, 1, 0⟩, ⟨.rateLimited, 1, seconds 1⟩, ⟨.authFailuresExceeded, 1, seconds 2⟩,
    ⟨.rateLimited, 2, seconds 30⟩]

theorem busy_addresses_live :
    LiveAfter (run rateStep {} (busyRun.take 2)) ⟨.authFailuresExceeded, 1, seconds 2⟩ ∧
      LiveAfter (run rateStep {} (busyRun.take 3)) ⟨.rateLimited, 2, seconds 30⟩ := by
  have hactive : ∀ before c after, busyRun = before ++ c :: after → AllActive before c := by
    intro before c after hsplit
    have hall : ∀ n (hn : n < busyRun.length), AllActive (busyRun.take n) busyRun[n] := by decide +kernel
    have hn : before.length < busyRun.length := by
      rw [hsplit, List.length_append, List.length_cons]
      omega
    have hcall := hall before.length hn
    simpa [hsplit] using hcall
  have hlive := (run_live_iff busyRun (by simp [Ordered, busyRun, seconds])).mpr hactive
  exact ⟨hlive _ _ _ rfl, hlive _ _ _ rfl⟩

/-- A quiet address stays in the map of the hits, and an address that has failed nothing gets into the
map of the failures. -/
theorem quiet_addresses_kept :
    ¬ (∀ cs : List RateCall, Ordered cs → ∀ before c after, cs = before ++ c :: after → c.fn = .rateLimited →
        LiveAfter (run rateStep {} before) c) ∧
      ¬ ∀ cs : List RateCall, Ordered cs → ∀ before c after, cs = before ++ c :: after → c.fn ≠ .rateLimited →
        LiveAfter (run rateStep {} before) c := by
  constructor
  · intro h
    have hlive := h [⟨.rateLimited, 1, 0⟩, ⟨.rateLimited, 2, seconds 61⟩] (by simp [Ordered])
      [⟨.rateLimited, 1, 0⟩] ⟨.rateLimited, 2, seconds 61⟩ [] rfl rfl
    exact hlive (by decide) 1 [0] (by decide) (by decide)
  · intro h
    have hlive := h [⟨.authFailuresExceeded, 1, 0⟩] (by simp [Ordered]) [] ⟨.authFailuresExceeded, 1, 0⟩ [] rfl nofun
    exact hlive 1 [] (by decide) (by decide)

end Allgres
