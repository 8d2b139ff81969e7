import Allgres.Runs
import Allgres.Runtime

/-! The life of one task as its queues see it: a status, a number of steps and the
calls made for it. Every operation of the control plane takes a task along a path
of the moves below. -/

namespace Allgres

open Rows Runs

structure CallLife where
  id : Uuid
  queue : Queue
  llm : Bool
  status : CallStatus
  deriving DecidableEq

/-- A task that does not exist yet has no status and no calls. -/
structure Life where
  status : Option TaskStatus := none
  steps : Nat := 0
  calls : List CallLife := []
  deriving DecidableEq

inductive Label where
  | born | start | ask (maxSteps : Nat) | advance | queue
  | take | deny | gate
  | settle | settleQueue | swallow
  | resume | reject | timeOut | wake | cancel | drop

namespace CallLife

def live (c : CallLife) : Bool :=
  c.status.live

def liveLlm (c : CallLife) : Bool :=
  c.llm && c.live

def liveOther (c : CallLife) : Bool :=
  !c.llm && c.live

def remote (c : CallLife) : Bool :=
  c.queue = .outboundCalls || c.queue = .sqlCalls

def liveLocal (c : CallLife) : Bool :=
  !c.remote && c.live

def become (c : CallLife) (s : CallStatus) : CallLife :=
  { c with status := s }

@[simp] theorem become_llm (c : CallLife) (s : CallStatus) : (c.become s).llm = c.llm := rfl

@[simp] theorem become_live (c : CallLife) (s : CallStatus) : (c.become s).live = s.live := rfl

@[simp] theorem become_id (c : CallLife) (s : CallStatus) : (c.become s).id = c.id := rfl

@[simp] theorem become_queue (c : CallLife) (s : CallStatus) : (c.become s).queue = c.queue := rfl

@[simp] theorem become_status (c : CallLife) (s : CallStatus) : (c.become s).status = s := rfl

theorem live_of_status {c : CallLife} (h : c.status = .queued ∨ c.status = .inFlight) :
    c.live = true := by
  rcases h with h | h <;> simp [live, h, CallStatus.live]

/-- What cancelling a session and ending a turn do to the calls of a task. -/
def lose (c : CallLife) : CallLife :=
  if c.remote && c.live then c.become .lost else c

end CallLife

namespace Life

def loseRemote (cs : List CallLife) : List CallLife :=
  cs.map CallLife.lose

/-- `swallow` is the completion whose step raised. -/
inductive Move : Label → Life → Life → Prop
  | born : Move .born {} { status := some .queued }
  | start {n : Nat} {cs : List CallLife} : Move .start ⟨some .queued, n, cs⟩ ⟨some .running, n, cs⟩
  | ask {n m : Nat} {cs : List CallLife} {c : CallLife} (hl : cs.countP (·.live) = 0) (hn : n < m)
      (hc : c.llm = true) (hq : c.status = .queued) :
      Move (.ask m) ⟨some .running, n, cs⟩ ⟨some .running, n, cs ++ [c]⟩
  | advance {n : Nat} {cs : List CallLife} (s : TaskStatus) :
      Move .advance ⟨some .running, n, cs⟩ ⟨some s, n + 1, cs⟩
  | halt {n : Nat} {cs : List CallLife} :
      Move .advance ⟨some .running, n, cs⟩ ⟨some .failed, n, cs⟩
  | queue {n : Nat} {cs : List CallLife} {c : CallLife} (hc : c.llm = false)
      (hq : c.status = .queued) :
      Move .queue ⟨some .running, n, cs⟩ ⟨some .running, n + 1, cs ++ [c]⟩
  | take {n : Nat} {pre post : List CallLife} {c : CallLife} (hq : c.status = .queued) :
      Move .take ⟨some .running, n, pre ++ c :: post⟩
        ⟨some .running, n, pre ++ c.become .inFlight :: post⟩
  | deny {n : Nat} {pre post : List CallLife} {c : CallLife} (hq : c.status = .queued) :
      Move .deny ⟨some .running, n, pre ++ c :: post⟩
        ⟨some .failed, n, pre ++ c.become .lost :: post⟩
  | gate {n : Nat} {cs : List CallLife} {c : CallLife} (hm : c ∈ cs) (hq : c.status = .queued)
      (hc : c.llm = false) : Move .gate ⟨some .running, n, cs⟩ ⟨some .waitingHuman, n, cs⟩
  | settleIdle {st : Option TaskStatus} {n : Nat} {pre post : List CallLife} {c : CallLife}
      {s : CallStatus} (hr : st ≠ some .running) (hc : c.status = .inFlight)
      (hs : s.live = false) :
      Move .settle ⟨st, n, pre ++ c :: post⟩ ⟨st, n, pre ++ c.become s :: post⟩
  | settleStep {n : Nat} {pre post : List CallLife} {c : CallLife} {s : CallStatus} {l : Life}
      (hc : c.status = .inFlight) (hs : s.live = false)
      (h : Move .advance ⟨some .running, n, pre ++ c.become s :: post⟩ l) :
      Move .settle ⟨some .running, n, pre ++ c :: post⟩ l
  | settleQueue {n : Nat} {pre post : List CallLife} {c : CallLife} {s : CallStatus} {l : Life}
      (hc : c.status = .inFlight) (hs : s.live = false)
      (h : Move .queue ⟨some .running, n, pre ++ c.become s :: post⟩ l) :
      Move .settleQueue ⟨some .running, n, pre ++ c :: post⟩ l
  | pause {n : Nat} {pre post : List CallLife} {c : CallLife} (hc : c.status = .inFlight)
      (hm : c.llm = false) :
      Move .settle ⟨some .running, n, pre ++ c :: post⟩
        ⟨some .waitingHuman, n, pre ++ c.become .lost :: post⟩
  | swallow {n : Nat} {pre post : List CallLife} {c : CallLife} {s : CallStatus}
      (hc : c.status = .inFlight) (hs : s.live = false) (hm : c.llm = true) :
      Move .swallow ⟨some .running, n, pre ++ c :: post⟩
        ⟨some .running, n, pre ++ c.become s :: post⟩
  | resume {n : Nat} {cs : List CallLife} {s : TaskStatus} (hs : s = .running ∨ s = .queued) :
      Move .resume ⟨some .waitingHuman, n, cs⟩ ⟨some s, n + 1, cs⟩
  | reject {n : Nat} {cs : List CallLife} :
      Move .reject ⟨some .waitingHuman, n, cs⟩ ⟨some .failed, n + 1, cs⟩
  | timeOut {s : TaskStatus} {n : Nat} {cs : List CallLife} (hs : s.finished = false) :
      Move .timeOut ⟨some s, n, cs⟩ ⟨some .failed, n + 1, loseRemote cs⟩
  | wake {n : Nat} {cs : List CallLife} :
      Move .wake ⟨some .waitingChildren, n, cs⟩ ⟨some .queued, n + 1, cs⟩
  | cancel {s : TaskStatus} {n : Nat} {cs : List CallLife} (hs : s.finished = false) :
      Move .cancel ⟨some s, n, cs⟩ ⟨some .cancelled, n + 1, loseRemote cs⟩
  | drop {s : TaskStatus} {n : Nat} {cs : List CallLife} (hs : s.finished = true) :
      Move .drop ⟨some s, n, cs⟩ ⟨some s, n, loseRemote cs⟩

section Counts

variable {cs pre post : List CallLife} {c : CallLife}

theorem countP_loseRemote_le {p : CallLife → Bool} (hp : ∀ c : CallLife, p c.lose = true → p c = true)
    (cs : List CallLife) : (loseRemote cs).countP p ≤ cs.countP p := by
  rw [loseRemote, List.countP_map]
  exact List.countP_mono_left fun c _ h => hp c h

theorem llm_lose (c : CallLife) : c.lose.llm = c.llm := by
  unfold CallLife.lose CallLife.become
  split_ifs <;> rfl

theorem live_lose {c : CallLife} (h : c.lose.live = true) : c.live = true := by
  unfold CallLife.lose at h
  split_ifs at h with hc
  · simp only [Bool.and_eq_true] at hc
    exact hc.2
  · exact h

theorem liveLlm_lose {c : CallLife} (h : c.lose.liveLlm = true) : c.liveLlm = true := by
  simp only [CallLife.liveLlm, Bool.and_eq_true, llm_lose] at h ⊢
  exact ⟨h.1, live_lose h.2⟩

theorem liveOther_lose {c : CallLife} (h : c.lose.liveOther = true) : c.liveOther = true := by
  simp only [CallLife.liveOther, Bool.and_eq_true, llm_lose] at h ⊢
  exact ⟨h.1, live_lose h.2⟩

theorem countP_llm_loseRemote (cs : List CallLife) :
    (loseRemote cs).countP (·.llm) = cs.countP (·.llm) := by
  rw [loseRemote, List.countP_map]
  exact List.countP_congr fun c _ => by simp [llm_lose]

/-- What is live after the remote calls are lost was a live local call. -/
theorem live_loseRemote_le (cs : List CallLife) :
    (loseRemote cs).countP (·.live) ≤ cs.countP (·.liveLocal) := by
  rw [loseRemote, List.countP_map]
  apply List.countP_mono_left
  intro c _ (h : c.lose.live = true)
  have hlive : c.live = true := live_lose h
  have hr : c.remote = false := by
    by_contra hne
    simp only [Bool.not_eq_false] at hne
    have hl : c.lose = c.become .lost := by simp [CallLife.lose, hne, hlive]
    rw [hl] at h
    exact absurd h (by simp [CallLife.become, CallLife.live, CallStatus.live])
  simp [CallLife.liveLocal, hr, hlive]

theorem liveLlm_le_live (cs : List CallLife) : cs.countP (·.liveLlm) ≤ cs.countP (·.live) :=
  List.countP_mono_left fun c _ h => by
    simp only [CallLife.liveLlm, Bool.and_eq_true] at h
    exact h.2

theorem liveOther_le_live (cs : List CallLife) : cs.countP (·.liveOther) ≤ cs.countP (·.live) :=
  List.countP_mono_left fun c _ h => by
    simp only [CallLife.liveOther, Bool.and_eq_true] at h
    exact h.2

end Counts

/-- A task never has more model calls than steps it has taken, but for the one it
is waiting for. -/
structure Budget (N : Nat) (l : Life) : Prop where
  total : l.calls.countP (·.llm) ≤ N
  single : l.calls.countP (·.liveLlm) ≤ 1
  running : l.status = some .running →
    l.calls.countP (·.llm) ≤ l.steps + l.calls.countP (·.liveLlm)
  paused : ∀ s, l.status = some s → s.finished = false → s ≠ .running →
    l.calls.countP (·.llm) ≤ l.steps
  other : 0 < l.calls.countP (·.liveOther) → l.calls.countP (·.llm) ≤ l.steps

theorem countP_become_le {p : CallLife → Bool} {c d : CallLife} (h : p d = true → p c = true)
    (pre post : List CallLife) : (pre ++ d :: post).countP p ≤ (pre ++ c :: post).countP p := by
  simp only [List.countP_append, List.countP_cons]
  by_cases hd : p d = true
  · simp [hd, h hd]
  · simp [hd]

theorem countP_llm_become (pre post : List CallLife) (c : CallLife) (s : CallStatus) :
    (pre ++ c.become s :: post).countP (·.llm) = (pre ++ c :: post).countP (·.llm) := by
  simp only [List.countP_append, List.countP_cons]
  rfl

theorem countP_liveLlm_become {c : CallLife} (s : CallStatus) (hc : c.live = true)
    (pre post : List CallLife) :
    (pre ++ c.become s :: post).countP (·.liveLlm) ≤ (pre ++ c :: post).countP (·.liveLlm) :=
  countP_become_le (fun h => by simp_all [CallLife.liveLlm]) pre post

theorem countP_liveOther_become {c : CallLife} (s : CallStatus) (hc : c.live = true)
    (pre post : List CallLife) :
    (pre ++ c.become s :: post).countP (·.liveOther) ≤ (pre ++ c :: post).countP (·.liveOther) :=
  countP_become_le (fun h => by simp_all [CallLife.liveOther]) pre post

/-- The part of the budget that settling a call keeps. -/
theorem Budget.settled {N n : Nat} {pre post : List CallLife} {c : CallLife} {s : CallStatus}
    {st : Option TaskStatus} (hb : Budget N ⟨st, n, pre ++ c :: post⟩) (hc : c.live = true) :
    (pre ++ c.become s :: post).countP (·.llm) ≤ N ∧
      (pre ++ c.become s :: post).countP (·.liveLlm) ≤ 1 ∧
      (0 < (pre ++ c.become s :: post).countP (·.liveOther) →
        (pre ++ c.become s :: post).countP (·.llm) ≤ n) := by
  have hllm := countP_llm_become pre post c s
  have hlive := countP_liveLlm_become s hc pre post
  have hother := countP_liveOther_become s hc pre post
  have ht := hb.total
  have h1 := hb.single
  have ho := hb.other
  simp only at ht h1 ho
  refine ⟨by omega, by omega, fun h => ?_⟩
  have := ho (by omega)
  omega

theorem Budget.finish {N n m : Nat} {s t : TaskStatus} {cs ds : List CallLife}
    (hb : Budget N ⟨some s, n, cs⟩) (ht : t.finished = true) (hm : n ≤ m)
    (hllm : ds.countP (·.llm) = cs.countP (·.llm))
    (hlive : ds.countP (·.liveLlm) ≤ cs.countP (·.liveLlm))
    (hother : ds.countP (·.liveOther) ≤ cs.countP (·.liveOther)) : Budget N ⟨some t, m, ds⟩ := by
  have htot := hb.total
  have hs := hb.single
  have ho := hb.other
  simp only at htot hs ho
  refine ⟨by simp only; omega, by simp only; omega, ?_, ?_, ?_⟩
  · intro hr
    obtain rfl : t = .running := by simpa using hr
    simp [TaskStatus.finished] at ht
  · intro u hu hf _
    obtain rfl : t = u := by simpa using hu
    simp [ht] at hf
  · intro h
    simp only at h ⊢
    have := ho (by omega)
    omega

theorem Budget.lost {N n m : Nat} {s t : TaskStatus} {cs : List CallLife}
    (hb : Budget N ⟨some s, n, cs⟩) (ht : t.finished = true) (hm : n ≤ m) :
    Budget N ⟨some t, m, loseRemote cs⟩ :=
  hb.finish ht hm (countP_llm_loseRemote cs)
    (countP_loseRemote_le (p := CallLife.liveLlm) (fun _ h => liveLlm_lose h) cs)
    (countP_loseRemote_le (p := CallLife.liveOther) (fun _ h => liveOther_lose h) cs)

theorem Budget.asked {N n : Nat} {cs : List CallLife} {c : CallLife}
    (hb : Budget N ⟨some .running, n, cs⟩) (hl : cs.countP (·.live) = 0) (hn : n < N)
    (hc : c.llm = true) (hq : c.status = .queued) :
    Budget N ⟨some .running, n, cs ++ [c]⟩ := by
  have hlive : c.live = true := CallLife.live_of_status (.inl hq)
  have hllm := liveLlm_le_live cs
  have hother := liveOther_le_live cs
  have hr := hb.running rfl
  simp only at hr
  refine ⟨?_, ?_, ?_, ?_, ?_⟩ <;>
    simp only [List.countP_append, List.countP_singleton, CallLife.liveLlm, CallLife.liveOther,
      hc, hlive, Bool.and_true, Bool.not_true, if_true, Bool.false_eq_true, if_false]
  · simp only [CallLife.liveLlm] at hr hllm
    omega
  · simp only [CallLife.liveLlm] at hllm
    omega
  · intro _
    omega
  · intro s hs _ hne
    exact absurd (by simpa using hs.symm) hne
  · intro h
    simp only [CallLife.liveOther] at hother
    omega

/-- A finished task has no live call, and no task has two. -/
structure Tidy (l : Life) : Prop where
  finished : ∀ s, l.status = some s → s.finished = true → l.calls.countP (·.live) = 0
  single : l.calls.countP (·.live) ≤ 1

/-- What a move must leave behind it in order not to end a task with a call in its queues. -/
def clears (lab : Label) (l : Life) : Prop :=
  match lab with
  | .advance | .queue | .reject => l.calls.countP (·.live) = 0
  | .timeOut | .cancel => l.calls.countP (·.liveLocal) = 0
  | _ => True

theorem tidy_of_live_zero {l : Life} (h : l.calls.countP (·.live) = 0) : Tidy l :=
  ⟨fun _ _ _ => h, by omega⟩

theorem Tidy.settled {st : Option TaskStatus} {n : Nat} {pre post : List CallLife} {c : CallLife}
    (ht : Tidy ⟨st, n, pre ++ c :: post⟩) (hc : c.live = true) {s : CallStatus}
    (hs : s.live = false) : (pre ++ c.become s :: post).countP (·.live) = 0 := by
  have h1 := ht.single
  simp only [List.countP_append, List.countP_cons, hc, if_true] at h1
  simp only [List.countP_append, List.countP_cons, CallLife.become_live, hs, Bool.false_eq_true,
    if_false]
  omega

theorem tidy_advance {l l' : Life} (h : Move .advance l l') (h0 : l.calls.countP (·.live) = 0) :
    Tidy l' := by
  cases h with
  | advance s => exact tidy_of_live_zero h0
  | halt => exact tidy_of_live_zero h0

theorem tidy_queue {l l' : Life} (h : Move .queue l l') (h0 : l.calls.countP (·.live) = 0) :
    Tidy l' := by
  cases h with
  | @queue n cs c hc hq =>
    refine ⟨?_, ?_⟩
    · intro s hs hf
      obtain rfl : .running = s := by simpa using hs
      simp [TaskStatus.finished] at hf
    · simp only at h0
      simp only [List.countP_append, List.countP_singleton]
      split_ifs <;> omega

theorem Tidy.of_le {l : Life} {s : TaskStatus} {n : Nat} {cs : List CallLife} (ht : Tidy l)
    (hs : s.finished = false) (hle : cs.countP (·.live) ≤ l.calls.countP (·.live)) :
    Tidy ⟨some s, n, cs⟩ := by
  refine ⟨?_, ?_⟩
  · intro u hu hf
    obtain rfl : s = u := by simpa using hu
    simp [hs] at hf
  · have := ht.single
    simp only
    omega

theorem tidy_move {lab : Label} {l l' : Life} (h : Move lab l l') (hG : clears lab l)
    (ht : Tidy l) : Tidy l' := by
  cases h with
  | born => exact tidy_of_live_zero rfl
  | start => exact ht.of_le rfl (Nat.le_refl _)
  | @ask n m cs c hl hn hc hq =>
    refine ⟨?_, ?_⟩
    · intro s hs hf
      obtain rfl : .running = s := by simpa using hs
      simp [TaskStatus.finished] at hf
    · simp only [List.countP_append, List.countP_singleton]
      split_ifs <;> omega
  | advance s => exact tidy_advance (.advance s) hG
  | halt => exact tidy_advance .halt hG
  | queue hc hq => exact tidy_queue (.queue hc hq) hG
  | @take n pre post c hq =>
    apply ht.of_le rfl
    exact countP_become_le (fun _ => CallLife.live_of_status (.inl hq)) pre post
  | deny hq =>
    exact tidy_of_live_zero (ht.settled (CallLife.live_of_status (.inl hq)) rfl)
  | gate hm hq hc => exact ht.of_le rfl (Nat.le_refl _)
  | settleIdle hr hc hs =>
    exact tidy_of_live_zero (ht.settled (CallLife.live_of_status (.inr hc)) hs)
  | settleStep hc hs h =>
    exact tidy_advance h (ht.settled (CallLife.live_of_status (.inr hc)) hs)
  | settleQueue hc hs h =>
    exact tidy_queue h (ht.settled (CallLife.live_of_status (.inr hc)) hs)
  | pause hc hm =>
    exact tidy_of_live_zero (ht.settled (CallLife.live_of_status (.inr hc)) rfl)
  | swallow hc hs hm =>
    exact tidy_of_live_zero (ht.settled (CallLife.live_of_status (.inr hc)) hs)
  | resume hs =>
    rcases hs with rfl | rfl
    · exact ht.of_le rfl (Nat.le_refl _)
    · exact ht.of_le rfl (Nat.le_refl _)
  | reject => exact tidy_of_live_zero hG
  | @timeOut s n cs hs =>
    exact tidy_of_live_zero (Nat.eq_zero_of_le_zero (hG ▸ live_loseRemote_le cs))
  | wake => exact ht.of_le rfl (Nat.le_refl _)
  | @cancel s n cs hs =>
    exact tidy_of_live_zero (Nat.eq_zero_of_le_zero (hG ▸ live_loseRemote_le cs))
  | @drop s n cs hs =>
    have h0 := ht.finished s rfl hs
    have hle := countP_loseRemote_le (p := CallLife.live) (fun _ h => live_lose h) cs
    exact tidy_of_live_zero (Nat.eq_zero_of_le_zero (hle.trans_eq h0))

/-- A call keeps its id, queue and kind; its status moves by `R` or stays. -/
structure Kept (R : CallStatus → CallStatus → Prop) (c d : CallLife) : Prop where
  id : d.id = c.id
  queue : d.queue = c.queue
  llm : d.llm = c.llm
  status : c.status = d.status ∨ R c.status d.status

def claims (a b : CallStatus) : Prop :=
  a = .queued ∧ (b = .inFlight ∨ b = .lost)

def closes (a b : CallStatus) : Prop :=
  (a = .inFlight ∧ (b = .harvested ∨ b = .lost)) ∨ (a = .queued ∧ b = .lost)

/-- The calls of a life are the earlier ones, moved by `R`, and then new queued ones. -/
def Moved (R : CallStatus → CallStatus → Prop) (l l' : Life) : Prop :=
  ∃ mid added, l'.calls = mid ++ added ∧ List.Forall₂ (Kept R) l.calls mid ∧
    ∀ c ∈ added, c.status = .queued

def MovedOnly (R : CallStatus → CallStatus → Prop) (l l' : Life) : Prop :=
  List.Forall₂ (Kept R) l.calls l'.calls

variable {R : CallStatus → CallStatus → Prop}

theorem Kept.refl (c : CallLife) : Kept R c c :=
  ⟨rfl, rfl, rfl, .inl rfl⟩

theorem MovedOnly.refl (l : Life) : MovedOnly R l l :=
  List.forall₂_same.mpr fun c _ => Kept.refl c

theorem Kept.trans (hR : ∀ a b c, R a b → R b c → R a c) {c d e : CallLife} (h : Kept R c d)
    (h' : Kept R d e) : Kept R c e := by
  refine ⟨h'.id.trans h.id, h'.queue.trans h.queue, h'.llm.trans h.llm, ?_⟩
  rcases h.status with hs | hs <;> rcases h'.status with hs' | hs'
  · exact .inl (hs.trans hs')
  · exact .inr (hs ▸ hs')
  · exact .inr (hs' ▸ hs)
  · exact .inr (hR _ _ _ hs hs')

theorem MovedOnly.trans (hR : ∀ a b c, R a b → R b c → R a c) {l m n : Life}
    (h : MovedOnly R l m) (h' : MovedOnly R m n) : MovedOnly R l n := by
  unfold MovedOnly at *
  generalize l.calls = xs at h
  generalize m.calls = ys at h h'
  generalize n.calls = zs at h'
  induction h generalizing zs with
  | nil =>
    cases h'
    exact .nil
  | cons hc _ ih =>
    cases h' with
    | cons hd hds => exact .cons (hc.trans hR hd) (ih _ hds)

theorem MovedOnly.moved {l l' : Life} (h : MovedOnly R l l') : Moved R l l' :=
  ⟨l'.calls, [], by simp, h, by simp⟩

theorem Moved.refl (l : Life) : Moved R l l :=
  (MovedOnly.refl l).moved

theorem kept_split {c d : CallLife} (h : Kept R c d) (pre post : List CallLife) :
    List.Forall₂ (Kept R) (pre ++ c :: post) (pre ++ d :: post) := by
  induction pre with
  | nil => exact .cons h (List.forall₂_same.mpr fun x _ => Kept.refl x)
  | cons x pre ih => exact .cons (Kept.refl x) ih

theorem kept_become {c : CallLife} {s : CallStatus} (h : R c.status s) : Kept R c (c.become s) :=
  ⟨rfl, rfl, rfl, .inr h⟩

theorem closes_of_dead {c : CallLife} {s : CallStatus} (hc : c.status = .inFlight)
    (hs : s.live = false) : closes c.status s := by
  left
  cases s <;> simp_all [CallStatus.live]

theorem claims_trans (a b c : CallStatus) (h : claims a b) (h' : claims b c) : claims a c := by
  rcases h with ⟨rfl, rfl | rfl⟩ <;> simp [claims] at h'

theorem closes_trans (a b c : CallStatus) (h : closes a b) (h' : closes b c) : closes a c := by
  rcases h with ⟨rfl, rfl | rfl⟩ | ⟨rfl, rfl⟩ <;> simp [closes] at h'

theorem kept_loseRemote (cs : List CallLife) : List.Forall₂ (Kept closes) cs (loseRemote cs) := by
  induction cs with
  | nil => exact .nil
  | cons c cs ih =>
    refine .cons ?_ ih
    by_cases h : (c.remote && c.live) = true
    · have hl : c.lose = c.become .lost := by simp [CallLife.lose, h]
      rw [hl]
      apply kept_become
      have hlive : c.status.live = true := by simp_all [CallLife.live]
      cases hs : c.status <;> simp_all [closes, CallStatus.live]
    · have hl : c.lose = c := by simp [CallLife.lose, h]
      rw [hl]
      exact Kept.refl c

def claimLabel (lab : Label) : Prop :=
  match lab with
  | .take | .deny | .gate => True
  | _ => False

def addLabel (lab : Label) : Prop :=
  match lab with
  | .born | .start | .ask _ | .advance | .queue => True
  | _ => False

def closeLabel (lab : Label) : Prop :=
  match lab with
  | .ask _ | .queue | .take | .settleQueue => False
  | _ => True

def settleLabel (lab : Label) : Prop :=
  match lab with
  | .settle | .settleQueue | .swallow => True
  | _ => False

theorem moved_claim {lab : Label} {l l' : Life} (h : Move lab l l') (hG : claimLabel lab) :
    MovedOnly claims l l' := by
  cases h with
  | take hq => exact kept_split (kept_become ⟨hq, .inl rfl⟩) _ _
  | deny hq => exact kept_split (kept_become ⟨hq, .inr rfl⟩) _ _
  | gate hm hq hc => exact MovedOnly.refl _
  | _ => exact hG.elim

theorem moved_close {lab : Label} {l l' : Life} (h : Move lab l l') (hG : closeLabel lab) :
    MovedOnly closes l l' := by
  cases h with
  | take hq => exact hG.elim
  | ask => exact hG.elim
  | queue => exact hG.elim
  | settleQueue => exact hG.elim
  | deny hq => exact kept_split (kept_become (.inr ⟨hq, rfl⟩)) _ _
  | settleIdle hr hc hs => exact kept_split (kept_become (closes_of_dead hc hs)) _ _
  | settleStep hc hs h =>
    cases h with
    | advance s => exact kept_split (kept_become (closes_of_dead hc hs)) _ _
    | halt => exact kept_split (kept_become (closes_of_dead hc hs)) _ _
  | pause hc hm => exact kept_split (kept_become (closes_of_dead hc rfl)) _ _
  | swallow hc hs hm => exact kept_split (kept_become (closes_of_dead hc hs)) _ _
  | timeOut hs => exact kept_loseRemote _
  | cancel hs => exact kept_loseRemote _
  | drop hs => exact kept_loseRemote _
  | born => exact MovedOnly.refl _
  | start => exact MovedOnly.refl _
  | advance => exact MovedOnly.refl _
  | halt => exact MovedOnly.refl _
  | gate => exact MovedOnly.refl _
  | resume => exact MovedOnly.refl _
  | reject => exact MovedOnly.refl _
  | wake => exact MovedOnly.refl _

theorem moved_settle {lab : Label} {l l' : Life} (h : Move lab l l') (hG : settleLabel lab) :
    Moved closes l l' := by
  cases h with
  | settleIdle hr hc hs => exact (moved_close (.settleIdle hr hc hs) trivial).moved
  | settleStep hc hs h => exact (moved_close (.settleStep hc hs h) trivial).moved
  | pause hc hm => exact (moved_close (.pause hc hm) trivial).moved
  | swallow hc hs hm => exact (moved_close (.swallow hc hs hm) trivial).moved
  | settleQueue hc hs h =>
    cases h with
    | @queue n cs d hd hq =>
      exact ⟨_, [d], rfl, kept_split (kept_become (closes_of_dead hc hs)) _ _, by simpa using hq⟩
  | _ => exact hG.elim

def Added (l l' : Life) : Prop :=
  ∃ added, l'.calls = l.calls ++ added ∧ ∀ c ∈ added, c.status = .queued

theorem Added.trans {l m n : Life} (h : Added l m) (h' : Added m n) : Added l n := by
  obtain ⟨xs, hxs, hx⟩ := h
  obtain ⟨ys, hys, hy⟩ := h'
  refine ⟨xs ++ ys, by rw [hys, hxs, List.append_assoc], ?_⟩
  intro c hc
  rcases List.mem_append.mp hc with hc | hc
  · exact hx c hc
  · exact hy c hc

theorem Added.moved {l l' : Life} (h : Added l l') : Moved R l l' := by
  obtain ⟨added, ha, hq⟩ := h
  exact ⟨l.calls, added, ha, MovedOnly.refl l, hq⟩

theorem added_move {lab : Label} {l l' : Life} (h : Move lab l l') (hG : addLabel lab) :
    Added l l' := by
  cases h with
  | ask hl hn hc hq => exact ⟨[_], rfl, by simpa using hq⟩
  | queue hc hq => exact ⟨[_], rfl, by simpa using hq⟩
  | born => exact ⟨[], rfl, by simp⟩
  | start => exact ⟨[], by simp, by simp⟩
  | advance => exact ⟨[], by simp, by simp⟩
  | halt => exact ⟨[], by simp, by simp⟩
  | _ => exact hG.elim

end Life

end Allgres
