import Allgres.AmbiguousCalls
import Allgres.Queueing

/-! The idempotency keys of outgoing calls. As long as no request has a key of its own,
calls with one key are the retries of one call. -/

namespace Allgres

open Raise Rows Runs Allgres.Core

/-- The key that the headers of a request set. -/
def customKey (args : Json) : Option String :=
  (Turn.agentHeaders args).text "idempotency-key"

/-- A reply sets the key of its request. -/
def setsKey (e : Event) : Bool :=
  e.op.reply.any fun v => (customKey (callArgs v)).isSome

def Call.key (q : Call) : Option String :=
  match q.req with
  | .outbound o => o.idempotencyKey
  | _ => none

/-- Two calls of one task that ask for the same. -/
def SameRequest (a b : Call) : Prop :=
  a.taskId = b.taskId ∧ ∃ o p, a.req = .outbound o ∧ b.req = .outbound p ∧
    o.method = p.method ∧ o.url = p.url ∧ o.requestBody = p.requestBody ∧
    o.connectionId = p.connectionId ∧
    o.requestHeaders.without "idempotency-key" = p.requestHeaders.without "idempotency-key"

/-- The event queues `q`, and its reply names `p`, which is lost or harvested, as the call to
be repeated. -/
def Retries (pg : Postgres) (db : Db) (e : Event) (p q : Call) : Prop :=
  NewCall db (step pg db e) q ∧ p ∈ db.calls ∧ (p.status = .lost ∨ p.status = .harvested) ∧
    ∃ v text, e.op.reply = some v ∧ v.text "retry_of_call_id" = some text ∧
      castUuid text = some p.callId

/-- A retry within a run, by the ids of the calls. -/
def RetryIn (pg : Postgres) (c : Config) (es : List Event) (i j : Uuid) : Prop :=
  ∃ fs e gs p q, es = fs ++ e :: gs ∧ Retries pg (run (step pg) (start c) fs) e p q ∧
    p.callId = i ∧ q.callId = j

/-- A chain of retries. -/
abbrev RetryChain (pg : Postgres) (c : Config) (es : List Event) : Uuid → Uuid → Prop :=
  Relation.ReflTransGen (RetryIn pg c es)

section Requests

variable {T : Turn} {a b a' b' : Call}

theorem SameRequest.symm (h : SameRequest a b) : SameRequest b a := by
  obtain ⟨ht, o, p, ho, hp, hm, hu, hb, hc, hh⟩ := h
  exact ⟨ht.symm, p, o, hp, ho, hm.symm, hu.symm, hb.symm, hc.symm, hh.symm⟩

theorem SameRequest.trans {c : Call} (h : SameRequest a b) (h' : SameRequest b c) :
    SameRequest a c := by
  obtain ⟨ht, o, p, ho, hp, hm, hu, hb, hc, hh⟩ := h
  obtain ⟨ht', p', r, hp', hr, hm', hu', hb', hc', hh'⟩ := h'
  obtain rfl : p = p' := by
    rw [hp] at hp'
    injection hp'
  exact ⟨ht.trans ht', o, r, ho, hr, hm.trans hm', hu.trans hu', hb.trans hb', hc.trans hc',
    hh.trans hh'⟩

theorem SameRequest.congr (h : SameRequest a b) (ha : a'.ident = a.ident)
    (hb : b'.ident = b.ident) : SameRequest a' b' := by
  obtain ⟨ht, o, p, ho, hp, hrest⟩ := h
  have hta : a'.taskId = a.taskId := congrArg (·.2.1) ha
  have htb : b'.taskId = b.taskId := congrArg (·.2.1) hb
  have hra : a'.req = a.req := congrArg (·.2.2) ha
  have hrb : b'.req = b.req := congrArg (·.2.2) hb
  exact ⟨by rw [hta, htb, ht], o, p, hra.trans ho, hrb.trans hp, hrest⟩

theorem key_of_ident (h : a'.ident = a.ident) : a'.key = a.key := by
  have hr : a'.req = a.req := congrArg (·.2.2) h
  unfold Call.key
  rw [hr]

theorem agentHeaders_obj (args : Json) : ∃ fs, Turn.agentHeaders args = .obj fs := by
  unfold Turn.agentHeaders
  split <;> exact ⟨_, rfl⟩

theorem obj_of_drafted {args h : Json} (hd : Turn.Drafted args h) : ∃ fs, h = .obj fs := by
  rcases hd with rfl | rfl | rfl
  · exact ⟨_, rfl⟩
  · exact ⟨_, rfl⟩
  · obtain ⟨fs, hfs⟩ := agentHeaders_obj args
    rw [hfs]
    exact ⟨_, rfl⟩

/-- The drafted headers have the key of the arguments or none. -/
theorem key_of_drafted {args h : Json} (hd : Turn.Drafted args h) (hk : customKey args = none) :
    h.text "idempotency-key" = none := by
  rcases hd with rfl | rfl | rfl
  · rfl
  · rfl
  · obtain ⟨fs, hfs⟩ := agentHeaders_obj args
    unfold customKey at hk
    rw [hfs] at hk ⊢
    unfold Json.text at hk ⊢
    rw [Json.get_merge_ne fs _ (by decide)]
    exact hk

/-- What a function is called with is the arguments of the reply, or its template under the
name of its handler. -/
theorem args_of_resolved {name name' : Option String} {args args' : Json}
    {bound : Option (Function × Option Uuid)}
    (hr : T.resolveFunction name args = .ok (.outgoing name' args' bound)) :
    args' = args ∨ ∃ h : Handler, name' = some h.text := by
  unfold Turn.resolveFunction at hr
  split_ifs at hr
  · split at hr
    · split_ifs at hr
      · cases hr
      · obtain ⟨-, rfl, -⟩ : name = name' ∧ args = args' ∧ none = bound := by simpa using hr
        exact .inl rfl
    · obtain ⟨-, rfl, -⟩ : name = name' ∧ args = args' ∧ none = bound := by simpa using hr
      exact .inl rfl
  · dsimp only at hr
    split at hr
    · cases hr
    · rename_i f hf
      split_ifs at hr
      · cases hr
      · simp only [Except.ok.injEq, Turn.Callee.outgoing.injEq] at hr
        exact .inr ⟨f.handler, hr.1.symm⟩

/-- No handler drafts a key, whatever the template. -/
theorem key_of_handler {h : Handler} {args orig : Json} {bound : Option (Function × Option Uuid)}
    {d : Turn.Draft} (hd : T.draftCall (some h.text) args orig bound = .ok d) :
    d.headers.text "idempotency-key" = none := by
  unfold Turn.draftCall at hd
  cases h with
  | httpGet =>
    rw [if_pos (by rfl)] at hd
    obtain rfl := Except.ok.inj hd
    rfl
  | plpgsql =>
    rw [if_neg (by decide), if_neg (by decide), if_neg (by decide)] at hd
    cases hd
  | mcpCall =>
    rw [if_neg (by decide), if_pos (by rfl)] at hd
    unfold Turn.mcpDraft at hd
    split at hd
    · cases hd
    · split at hd
      · cases hd
      · obtain rfl := Except.ok.inj hd
        rfl

/-- The key of a queued request: new, or that of the call it repeats. -/
inductive Keyed (T : Turn) (v : Json) (o : Outbound) : Prop
  | fresh (hk : o.idempotencyKey = some (uuidText T.db.nextId))
  | retry {text : String} {p : Call} {op : Outbound} {key : String}
      (hv : v.text "retry_of_call_id" = some text) (hid : castUuid text = some p.callId)
      (hp : p ∈ T.db.calls) (hop : p.req = .outbound op) (ht : p.taskId = T.task.taskId)
      (hs : p.status = .lost ∨ p.status = .harvested) (hpk : op.idempotencyKey = some key)
      (hok : o.idempotencyKey = some key) (hm : op.method = o.method) (hu : op.url = o.url)
      (hb : op.requestBody = o.requestBody) (hc : op.connectionId = o.connectionId)
      (hh : op.requestHeaders.without "idempotency-key" =
        o.requestHeaders.without "idempotency-key")

theorem outboundOperationKey_spec {retry : Option String} {method : Method} {url key : String}
    {d : Turn.Draft} (h : T.outboundOperationKey retry method url d = .ok key)
    (hd : d.headers.text "idempotency-key" = none) :
    (retry = none ∧ key = uuidText T.db.nextId) ∨
    ∃ text p op, retry = some text ∧ castUuid text = some p.callId ∧ p ∈ T.db.calls ∧
      p.req = .outbound op ∧ p.taskId = T.task.taskId ∧
      (p.status = .lost ∨ p.status = .harvested) ∧ op.method = method ∧ op.url = url ∧
      op.requestBody = d.body ∧
      op.requestHeaders.without "idempotency-key" = d.headers.without "idempotency-key" ∧
      op.connectionId = d.connection.map (·.connectionId) ∧ op.idempotencyKey = some key := by
  unfold Turn.outboundOperationKey at h
  rw [hd] at h
  dsimp only at h
  split at h
  · obtain rfl : uuidText T.db.nextId = key := by simpa using h
    exact .inl ⟨rfl, rfl⟩
  · rename_i text
    split at h
    · cases h
    · rename_i id hcast
      split at h
      · rename_i k hk
        obtain rfl := Except.ok.inj h
        obtain ⟨p, hp, hop⟩ := Option.bind_eq_some_iff.mp hk
        obtain ⟨hpm, rfl, -⟩ := call?_mem hp
        unfold Turn.sameOperation at hop
        split at hop
        · rename_i op hreq
          dsimp only at hop
          split at hop
          · rename_i hall
            obtain ⟨ht, hs, hm, hu, hb, hh, hc, -⟩ := hall
            exact .inr ⟨text, p, op, rfl, hcast, hpm, hreq, ht, hs, hm, hu, hb, hh, hc, hop⟩
          · cases hop
        · cases hop
      · cases h

/-- A request that is not one of the control plane has a key, unless it is a GET. -/
theorem outgoing_keyed {v : Json} {o : Outbound} (h : T.Outgoing v o)
    (hargs : customKey (callArgs v) = none) :
    (o.idempotencyKey = none ∧ o.method = .get) ∨ (isMutation o = true ∧ Keyed T v o) := by
  cases h with
  | @mk name args headers bound d url hr hd hu hh =>
    have hdraft := Turn.draftCall_spec T name args (callArgs v) bound d hd
    have hnone : d.headers.text "idempotency-key" = none := by
      rcases args_of_resolved hr with rfl | ⟨f, rfl⟩
      · exact key_of_drafted hdraft.2 hargs
      · exact key_of_handler hd
    obtain ⟨fs, hfs⟩ := obj_of_drafted hdraft.2
    unfold Turn.operationHeaders at hh
    split_ifs at hh with hget
    · obtain rfl := Except.ok.inj hh
      exact .inl ⟨hnone, hget⟩
    · split at hh
      · rename_i key hkey
        obtain rfl := Except.ok.inj hh
        have hown : (Turn.outboundOf d name bound url
            (d.headers.merge (.object [("idempotency-key", .str key)]))).idempotencyKey =
            some key := by
          unfold Turn.outboundOf
          dsimp only
          unfold Json.text
          rw [hfs, Json.get_merge_one]
          rfl
        have hwithout : (d.headers.merge (.object [("idempotency-key", .str key)])).without
            "idempotency-key" = d.headers.without "idempotency-key" := by
          rw [hfs, Json.without_merge_one]
        refine .inr ⟨?_, ?_⟩
        · rcases hdraft.1 with hk | hk <;> simp [isMutation, Turn.outboundOf, hk, hget]
        · rcases outboundOperationKey_spec hkey hnone with ⟨-, rfl⟩ |
            ⟨text, p, op, hv, hid, hp, hop, ht, hs, hm, hurl, hb, hhead, hc, hpk⟩
          · exact .fresh hown
          · exact .retry hv hid hp hop ht hs hpk hown hm hurl hb hc (hhead.trans hwithout.symm)
      · cases hh

end Requests

/-- A call with a key descends from the call that the key was made for. -/
def Rooted (pg : Postgres) (c : Config) (es : List Event) (db : Db) : Prop :=
  ∀ q ∈ db.calls, (q.isMutation = true ∨ q.key ≠ none) → q.isMutation = true ∧
    ∃ r ∈ db.calls, q.key = some (uuidText r.callId) ∧ RetryChain pg c es r.callId q.callId ∧
      SameRequest r q

section Runs

variable {pg : Postgres} {c : Config} {es : List Event}

theorem RetryChain.mono (e : Event) {i j : Uuid} (h : RetryChain pg c es i j) :
    RetryChain pg c (es ++ [e]) i j := by
  have hlink : ∀ i j, RetryIn pg c es i j → RetryIn pg c (es ++ [e]) i j := by
    rintro i j ⟨fs, f, gs, p, q, rfl, hr⟩
    exact ⟨fs, f, gs ++ [e], p, q, by simp, hr⟩
  exact Relation.ReflTransGen.mono hlink _ _ h

theorem isMutation_of_ident {a b : Call} (h : a.ident = b.ident) : a.isMutation = b.isMutation := by
  have hr : a.req = b.req := congrArg (·.2.2) h
  unfold Call.isMutation
  rw [hr]

/-- A call that is there keeps its root. -/
theorem Rooted.old {db : Db} {e : Event} (h : Rooted pg c es db) (hw : db.core.WellFormed)
    {q q' : Call} (hq : q ∈ db.calls) (hid : q.ident = q'.ident)
    (hk : q'.isMutation = true ∨ q'.key ≠ none) :
    q'.isMutation = true ∧ ∃ r ∈ (step pg db e).calls, q'.key = some (uuidText r.callId) ∧
      RetryChain pg c (es ++ [e]) r.callId q'.callId ∧ SameRequest r q' := by
  rw [← isMutation_of_ident hid, ← key_of_ident hid] at hk
  obtain ⟨hm, r, hr, hkey, hchain, hsame⟩ := h q hq hk
  obtain ⟨r', hr', hrid⟩ := (step_grow pg hw e).calls.kept hr
  have hrc : r'.callId = r.callId := congrArg (·.1) hrid
  have hqc : q.callId = q'.callId := congrArg (·.1) hid
  refine ⟨isMutation_of_ident hid ▸ hm, r', hr', ?_, ?_, hsame.congr hrid hid.symm⟩
  · rw [← key_of_ident hid, hkey, hrc]
  · rw [hrc, ← hqc]
    exact hchain.mono e

/-- A new call has a new key or the root of the call it repeats. -/
theorem Rooted.new {e : Event} {q : Call}
    (h : Rooted pg c es (run (step pg) (start c) es))
    (hset : setsKey e = false)
    (hq : NewCall (run (step pg) (start c) es) (step pg (run (step pg) (start c) es) e) q)
    (hk : q.isMutation = true ∨ q.key ≠ none) :
    q.isMutation = true ∧ ∃ r ∈ (step pg (run (step pg) (start c) es) e).calls,
      q.key = some (uuidText r.callId) ∧ RetryChain pg c (es ++ [e]) r.callId q.callId ∧
        SameRequest r q := by
  generalize hdb : run (step pg) (start c) es = db at h hq
  have hw : db.core.WellFormed := hdb ▸ wellFormed_run pg es (wellFormed_start c)
  obtain ⟨o, ho⟩ : ∃ o, q.req = .outbound o := by
    unfold Call.isMutation Call.key at hk
    cases hreq : q.req with
    | outbound o => exact ⟨o, rfl⟩
    | _ => simp [hreq] at hk
  have hkey : q.key = o.idempotencyKey := by simp [Call.key, ho]
  have hmut : q.isMutation = isMutation o := by simp [Call.isMutation, ho]
  have hplain : o.plain = false := by
    rcases hk with hm | hn
    · exact not_plain_of_isMutation (hmut ▸ hm)
    · rw [hkey] at hn
      simp [Outbound.plain, hn]
  obtain ⟨v, T, hv, hfrom⟩ := step_queued pg hw e hq ho hplain
  simp only [setsKey, hv, Option.any_some, Option.isSome_eq_false_iff,
    Option.isNone_iff_eq_none] at hset
  have hid : q.callId = T.db.nextId := congrArg (·.1) hfrom.row
  have htask : q.taskId = T.task.taskId := congrArg (·.2.1) hfrom.row
  rcases outgoing_keyed hfrom.outgoing hset with ⟨hnone, hget⟩ | ⟨hm, hkeyed⟩
  · rcases hk with hm | hn
    · rw [hmut] at hm
      simp [isMutation, hget] at hm
    · exact absurd (hkey.trans hnone) hn
  · refine ⟨hmut.trans hm, ?_⟩
    cases hkeyed with
    | fresh hk' =>
      refine ⟨q, hq.1, by rw [hkey, hk', hid], .refl, ?_⟩
      exact ⟨rfl, o, o, ho, ho, rfl, rfl, rfl, rfl, rfl⟩
    | @retry text p op key ht hcast hp hop hpt hs hpk hok hme hu hb hc hh =>
      have hpkey : p.key = some key := by simp [Call.key, hop, hpk]
      have hpdb : p ∈ db.calls := by
        rcases hfrom.calls p hp with hin | ⟨r, hr, hri, hllm⟩
        · exact hin
        · have hrk : r.key ≠ none := by
            rw [key_of_ident hri, hpkey]
            simp
          have := llm_of_isMutation (h r hr (.inr hrk)).1
          rw [hllm] at this
          cases this
      obtain ⟨-, r, hr, hrkey, hchain, hsame⟩ := h p hpdb (.inr (by rw [hpkey]; simp))
      obtain ⟨r', hr', hrid⟩ := (step_grow pg hw e).calls.kept hr
      have hrc : r'.callId = r.callId := congrArg (·.1) hrid
      have hlink : RetryIn pg c (es ++ [e]) p.callId q.callId :=
        ⟨es, e, [], p, q, rfl, ⟨hdb ▸ hq, hdb ▸ hpdb, hs, v, text, hv, ht, hcast⟩, rfl, rfl⟩
      have hpq : SameRequest p q :=
        ⟨hpt.trans htask.symm, op, o, hop, ho, hme, hu, hb, hc, hh⟩
      refine ⟨r', hr', ?_, ?_, (hsame.trans hpq).congr hrid rfl⟩
      · rw [hkey, hok, ← hpkey, hrkey, hrc]
      · rw [hrc]
        exact (hchain.mono e).tail hlink

theorem rooted_run (es : List Event)
    (hes : ∀ e ∈ es, setsKey e = false) :
    Rooted pg c es (run (step pg) (start c) es) := by
  induction es using List.reverseRecOn with
  | nil =>
    intro q hq
    simp [run, start] at hq
  | append_singleton es e ih =>
    have h := ih fun f hf => hes f (List.mem_append_left _ hf)
    have hset := hes e (List.mem_append_right _ (List.mem_singleton_self e))
    rw [run_snoc]
    intro q hq hk
    have hw : (run (step pg) (start c) es).core.WellFormed :=
      wellFormed_run pg es (wellFormed_start c)
    by_cases hold : ∃ r ∈ (run (step pg) (start c) es).calls, r.callId = q.callId
    · obtain ⟨r, hr, hrid⟩ := hold
      obtain ⟨r', hr', hri⟩ := (step_grow pg hw e).calls.kept hr
      have hrc : r'.callId = r.callId := congrArg (·.1) hri
      have heq : r' = q := eq_of_key Call.callId (wellFormed_step pg e hw).callIds hr' hq
        (hrc.trans hrid)
      exact h.old hw hr (heq ▸ hri.symm) hk
    · simp only [not_exists, not_and] at hold
      exact h.new hset ⟨hq, hold⟩ hk

end Runs

/-- In a run in which no request sets a key of its own and the ids have distinct texts:
mutating calls with one key belong to one task, ask for the same, and are retries of one
call, each made when the call it names was lost or harvested. -/
theorem same_key_same_operation (pg : Postgres) (c : Config) (es : List Event)
    (hes : ∀ e ∈ es, setsKey e = false) :
    let db := run (step pg) (start c) es
    (∀ m n, m < db.nextId → n < db.nextId → uuidText m = uuidText n → m = n) →
      ∀ a ∈ db.calls, ∀ b ∈ db.calls, a.isMutation = true → b.isMutation = true →
        a.key = b.key → SameRequest a b ∧ ∃ r ∈ db.calls, SameRequest r a ∧
          RetryChain pg c es r.callId a.callId ∧ RetryChain pg c es r.callId b.callId := by
  intro db htexts a ha b hb hma hmb hkey
  have hw : db.core.WellFormed := wellFormed_run pg es (wellFormed_start c)
  have hroot : Rooted pg c es db := rooted_run es hes
  obtain ⟨-, r, hr, hrk, hra, hsa⟩ := hroot a ha (.inl hma)
  obtain ⟨-, s, hs, hsk, hsb, hsame⟩ := hroot b hb (.inl hmb)
  have htext : uuidText r.callId = uuidText s.callId := by
    rw [hrk, hsk] at hkey
    exact Option.some.inj hkey
  have hids : r.callId = s.callId :=
    htexts _ _ (hw.callLt r hr) (hw.callLt s hs) htext
  obtain rfl := eq_of_key Call.callId hw.callIds hr hs hids
  exact ⟨hsa.symm.trans hsame, r, hr, hsa, hra, hsb⟩

/-- A payment that is repeated twice, both times as the first one. -/
def repeatedRun : List Event :=
  let again := payment [("retry_of_call_id", .str (uuidText 4))]
  payRun ++ [⟨7, .completeOutbound 4 (some 429) none⟩, ⟨8, .submit 2 again⟩,
    ⟨9, .claim .outboundCalls none none []⟩, ⟨10, .completeOutbound 5 (some 429) none⟩,
    ⟨11, .submit 2 again⟩]

theorem payment_repeated :
    (∀ e ∈ repeatedRun, setsKey e = false) ∧
    (run (step bareServer) (start payConfig) repeatedRun).nextId = 7 ∧
    ∃ a ∈ (run (step bareServer) (start payConfig) repeatedRun).calls,
      a.callId = 5 ∧ a.isMutation = true ∧
      ∃ b ∈ (run (step bareServer) (start payConfig) repeatedRun).calls,
        b.callId = 6 ∧ b.isMutation = true ∧ a.key = b.key := by
  decide +kernel

theorem texts_distinct : ∀ m n, m < 7 → n < 7 → uuidText m = uuidText n → m = n := by
  have h : ∀ m < 7, ∀ n < 7, uuidText m = uuidText n → m = n := by decide +kernel
  exact fun m n hm hn => h m hm n hn

theorem payments_same_operation :
    let db := run (step bareServer) (start payConfig) repeatedRun
    ∃ a ∈ db.calls, a.callId = 5 ∧ ∃ b ∈ db.calls, b.callId = 6 ∧ SameRequest a b := by
  obtain ⟨hes, hnext, hcalls⟩ := payment_repeated
  have h := same_key_same_operation bareServer payConfig repeatedRun hes
  generalize run (step bareServer) (start payConfig) repeatedRun = db at hnext hcalls h
  obtain ⟨a, ha, hia, hma, b, hb, hib, hmb, hkey⟩ := hcalls
  have hsame := h (by rw [hnext]; exact texts_distinct) a ha b hb hma hmb hkey
  exact ⟨a, ha, hia, b, hb, hib, hsame.1⟩

theorem reply_names_first : ∀ e ∈ repeatedRun, ∀ v, e.op.reply = some v →
    ∀ text, v.text "retry_of_call_id" = some text → castUuid text ≠ some 5 := by
  have h : ∀ e ∈ repeatedRun,
      ((e.op.reply.bind (·.text "retry_of_call_id")).bind castUuid) ≠ some 5 := by
    decide +kernel
  intro e he v hv text ht hc
  exact h e he (by simp [hv, ht, hc])

/-- Two retries of one call share its key, and neither is a retry of the other. -/
theorem repeated_payments_share_key :
    ¬ ∀ (pg : Postgres) (c : Config) (es : List Event),
      (∀ e ∈ es, setsKey e = false) →
      let db := run (step pg) (start c) es
      (∀ m n, m < db.nextId → n < db.nextId → uuidText m = uuidText n → m = n) →
        ∀ a ∈ db.calls, ∀ b ∈ db.calls, a.isMutation = true → b.isMutation = true →
          a.key = b.key → a.callId < b.callId →
            SameRequest a b ∧ RetryChain pg c es a.callId b.callId := by
  intro h
  obtain ⟨hes, hnext, hcalls⟩ := payment_repeated
  have hdb := h bareServer payConfig repeatedRun hes
  generalize run (step bareServer) (start payConfig) repeatedRun = db at hnext hcalls hdb
  obtain ⟨a, ha, hia, hma, b, hb, hib, hmb, hkey⟩ := hcalls
  have hchain := (hdb (by rw [hnext]; exact texts_distinct) a ha b hb hma hmb hkey
    (by rw [hia, hib]; decide)).2
  rw [hia, hib] at hchain
  rcases Relation.ReflTransGen.cases_head hchain with heq | ⟨j, ⟨fs, e, gs, p, q, hsplit, hr, hp, -⟩, -⟩
  · exact absurd heq (by decide)
  · obtain ⟨-, -, -, v, text, hv, ht, hc⟩ := hr
    rw [hp] at hc
    exact reply_names_first e (by rw [hsplit]; simp) v hv text ht hc

end Allgres
