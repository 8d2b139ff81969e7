import Allgres.Bytes
import Allgres.JsonLeaves
import Allgres.Runs

/-! The socket of the runtime worker: what it answers to a request, and which requests end it. -/

namespace Allgres

open Bytes Runs

/-- What the gate rests on: whether `serde_json` reads a text, whether the session can drop its
privileges, and the function `dashboard_rpc`, which answers its own errors. -/
structure RpcGate (δ : Type) where
  serde : String → Bool
  dropPrivileges : δ → Bool
  dashboardRpc : δ → Json → δ × Option Json

/-- What comes of a request: a reply, or an error that ends the worker. -/
inductive RpcOutcome where
  | replied (reply : Json)
  | stopped
  deriving DecidableEq

def maxRequestBytes : Nat :=
  1 <<< 20

def rpcRefusal (error : String) : Json :=
  .object [("ok", .bool false), ("error", .str error)]

section Gate

variable {δ : Type} (G : RpcGate δ)

/-- `dashboard_rpc` of the worker. A cast that raises an error, or an answer that `JsonB` cannot
hold, ends the worker. -/
def callDashboardRpc (db : δ) (request : String) : δ × RpcOutcome :=
  if G.dropPrivileges db then
    match Json.parse request with
    | none => (db, .stopped)
    | some v => match G.dashboardRpc db v with
      | (db', some r) => if G.serde r.render then (db', .replied r) else (db, .stopped)
      | (db', none) => (db', .replied (rpcRefusal "empty_rpc_result"))
  else (db, .replied (rpcRefusal "privilege_drop_failed"))

/-- The stream is what was received of it, if it could be read. -/
def handleRpcStream (ready : Bool) (db : δ) (stream : Option (List Byte)) : δ × RpcOutcome :=
  match stream with
  | none => (db, .replied (rpcRefusal "rpc_read_failed"))
  | some bytes => match fromUtf8 (bytes.take maxRequestBytes) with
    | none => (db, .replied (rpcRefusal "invalid_json_request"))
    | some text =>
      if G.serde text then
        if ready then callDashboardRpc G db text
        else (db, .replied (rpcRefusal "extension_not_installed"))
      else (db, .replied (rpcRefusal "invalid_json_request"))

end Gate

structure RpcWorker (δ : Type) where
  db : δ
  running : Bool := true
  replies : List Json := []

/-- A connection the worker accepts, and whether it has found the extension installed. -/
structure RpcConnection where
  ready : Bool
  stream : Option (List Byte)

section Runs

variable {δ : Type} (G : RpcGate δ)

def rpcStep (w : RpcWorker δ) (c : RpcConnection) : RpcWorker δ :=
  if w.running then
    match handleRpcStream G c.ready w.db c.stream with
    | (db, .replied reply) =>
      { w with
        db := db
        replies := w.replies ++ [reply] }
    | (db, .stopped) =>
      { w with
        db := db
        running := false }
  else w

/-- The worker lives on and has written one reply. -/
def Answered (w w' : RpcWorker δ) : Prop :=
  w'.running = true ∧ ∃ reply, w'.replies = w.replies ++ [reply]

/-- The text of a connection that gets to the database. -/
def passedText (w : RpcWorker δ) (c : RpcConnection) : Option String :=
  ((c.stream.bind fun bytes => fromUtf8 (bytes.take maxRequestBytes)).filter G.serde).filter fun _ =>
    c.ready && G.dropPrivileges w.db

/-- No text gets to the database with a leaf the cast refuses, and the answer to the request has no
number that is beyond `serde_json`. -/
def Harmless (w : RpcWorker δ) (c : RpcConnection) : Prop :=
  ∀ text, passedText G w c = some text →
    (∀ ls, Json.leaves text = some ls → ls.all Json.Leaf.fits = true) ∧
      ∀ v r, Json.parse text = some v → (G.dashboardRpc w.db v).2 = some r → G.serde r.render = true

end Runs

section Gate

variable {δ : Type} {G : RpcGate δ}

theorem callDashboardRpc_stopped_iff (hserde : ∀ t, G.serde t = true → (Json.leaves t).isSome = true) {db : δ}
    {text : String} (hdrop : G.dropPrivileges db = true) (htext : G.serde text = true) :
    (callDashboardRpc G db text).2 ≠ .stopped ↔
      (∀ ls, Json.leaves text = some ls → ls.all Json.Leaf.fits = true) ∧
        ∀ v r, Json.parse text = some v → (G.dashboardRpc db v).2 = some r → G.serde r.render = true := by
  obtain ⟨ls, hls⟩ := Option.isSome_iff_exists.mp (hserde text htext)
  have hcast := Json.parse_isSome_iff text
  unfold callDashboardRpc
  rw [if_pos hdrop]
  cases hv : Json.parse text with
  | none =>
    have hno : ¬ls.all Json.Leaf.fits = true := fun hfits => by
      have hsome := hcast.mpr ⟨ls, hls, hfits⟩
      rw [hv] at hsome
      cases hsome
    constructor
    · intro h
      exact absurd rfl h
    · rintro ⟨hfits, -⟩
      exact absurd (hfits ls hls) hno
  | some v =>
    have hfits : ∀ ls', Json.leaves text = some ls' → ls'.all Json.Leaf.fits = true := by
      obtain ⟨ls', hls', hall⟩ := hcast.mp (by rw [hv]; rfl)
      intro ls'' hls''
      rw [hls'] at hls''
      cases hls''
      exact hall
    dsimp only
    rcases ha : G.dashboardRpc db v with ⟨db', _ | r⟩
    · refine ⟨fun _ => ⟨hfits, ?_⟩, fun _ => nofun⟩
      rintro v' r hv' hr
      cases hv'
      rw [ha] at hr
      cases hr
    · dsimp only
      by_cases hread : G.serde r.render = true
      · rw [if_pos hread]
        refine ⟨fun _ => ⟨hfits, ?_⟩, fun _ => nofun⟩
        rintro v' r' hv' hr
        cases hv'
        rw [ha] at hr
        cases hr
        exact hread
      · rw [if_neg hread]
        constructor
        · intro h
          exact absurd rfl h
        · rintro ⟨-, hanswer⟩
          exact absurd (hanswer v r rfl (by rw [ha])) hread

theorem rpcStep_answered_iff (hserde : ∀ t, G.serde t = true → (Json.leaves t).isSome = true)
    {w : RpcWorker δ} (hrunning : w.running = true) (c : RpcConnection) :
    Answered w (rpcStep G w c) ↔ Harmless G w c := by
  have hstep : Answered w (rpcStep G w c) ↔ (handleRpcStream G c.ready w.db c.stream).2 ≠ .stopped := by
    unfold rpcStep Answered
    rw [if_pos hrunning]
    rcases handleRpcStream G c.ready w.db c.stream with ⟨db, reply | _⟩
    · exact ⟨fun _ => nofun, fun _ => ⟨hrunning, reply, rfl⟩⟩
    · exact ⟨fun h => absurd h.1 Bool.false_ne_true, fun h => absurd rfl h⟩
  rw [hstep]
  have hnone : passedText G w c = none → Harmless G w c := by
    intro h text htext
    rw [h] at htext
    cases htext
  unfold handleRpcStream
  cases hstream : c.stream with
  | none => exact ⟨fun _ => hnone (by simp [passedText, hstream]), fun _ => nofun⟩
  | some bytes =>
    dsimp only
    cases hutf : fromUtf8 (bytes.take maxRequestBytes) with
    | none => exact ⟨fun _ => hnone (by simp [passedText, hstream, hutf]), fun _ => nofun⟩
    | some text =>
      dsimp only
      by_cases htext : G.serde text = true
      · rw [if_pos htext]
        by_cases hready : c.ready = true
        · rw [if_pos hready]
          by_cases hdrop : G.dropPrivileges w.db = true
          · rw [callDashboardRpc_stopped_iff hserde hdrop htext]
            have hpassed : passedText G w c = some text := by
              simp [passedText, hstream, hutf, htext, hready, hdrop]
            unfold Harmless
            constructor
            · intro h text' htext'
              rw [hpassed] at htext'
              cases htext'
              exact h
            · intro h
              exact h text hpassed
          · have hreply : (callDashboardRpc G w.db text).2 ≠ .stopped := by
              unfold callDashboardRpc
              rw [if_neg hdrop]
              exact nofun
            exact ⟨fun _ => hnone (by simp [passedText, hstream, hutf, hdrop]), fun _ => hreply⟩
        · rw [if_neg hready]
          exact ⟨fun _ => hnone (by simp [passedText, hstream, hutf, hready]), fun _ => nofun⟩
      · rw [if_neg htext]
        exact ⟨fun _ => hnone (by simp [passedText, hstream, hutf, htext]), fun _ => nofun⟩

/-- All connections of a run are answered, and the worker lives, exactly if each is harmless. -/
theorem connections_answered_iff (hserde : ∀ t, G.serde t = true → (Json.leaves t).isSome = true)
    (w : RpcWorker δ) (hrunning : w.running = true) (cs : List RpcConnection) :
    Along (rpcStep G) (fun w c => Answered w (rpcStep G w c)) w cs ↔ Along (rpcStep G) (Harmless G) w cs := by
  induction cs generalizing w with
  | nil => exact Iff.rfl
  | cons c cs ih =>
    have hfirst := rpcStep_answered_iff hserde hrunning c
    constructor
    · rintro ⟨ha, hrest⟩
      exact ⟨hfirst.mp ha, (ih _ ha.1).mp hrest⟩
    · rintro ⟨hh, hrest⟩
      have ha := hfirst.mpr hh
      exact ⟨ha, (ih _ ha.1).mpr hrest⟩

end Gate

/-- How deep the brackets of a text are nested. The flags say that it stands inside of a string, and
behind a backslash there. -/
def nesting : Bool → Bool → Nat → List Char → Nat
  | _, _, depth, [] => depth
  | true, true, depth, _ :: cs => nesting true false depth cs
  | true, false, depth, c :: cs =>
    if c = '\\' then nesting true true depth cs else nesting (c ≠ '"') false depth cs
  | false, _, depth, c :: cs =>
    if c = '"' then nesting true false depth cs
    else if c = '[' ∨ c = '\x7b' then max (depth + 1) (nesting false false (depth + 1) cs)
    else if c = ']' ∨ c = '\x7d' then nesting false false (depth - 1) cs
    else nesting false false depth cs

/-- A number that is no infinity as a `f64`. -/
def Json.Leaf.finite : Json.Leaf → Bool
  | .number int frac exp =>
    let n := Json.digitsToNat (int ++ frac)
    let scale : Int := frac.length - exp
    let magnitude := ((toString n).length : Int) - scale
    n = 0 || magnitude ≤ 308 ||
      (magnitude ≤ 309 && decide ((n : Rat) * 10 ^ (-scale) < (2 : Rat) ^ 1024 - (2 : Rat) ^ 970))
  | .nul => true

/-- The texts `serde_json` reads: any JSON within its limits of the nesting and of the numbers. -/
def serdeJson (text : String) : Bool :=
  (Json.leaves text).any (fun ls => ls.all Json.Leaf.finite) && nesting false false 0 text.toList < 128

theorem serdeJson_leaves (text : String) (h : serdeJson text = true) : (Json.leaves text).isSome = true := by
  unfold serdeJson at h
  cases hl : Json.leaves text with
  | none => simp [hl] at h
  | some ls => rfl

/-- A gate to a database whose every action is unknown. -/
def idleGate : RpcGate Unit where
  serde := serdeJson
  dropPrivileges _ := true
  dashboardRpc db _ := (db, some (rpcRefusal "unknown_action"))

/-- The requests `\x7b"action":"\u0000"\x7d` and `1e-20000`. -/
theorem accepted_requests_stop_worker :
    ¬Answered ⟨(), true, []⟩
        (rpcStep idleGate ⟨(), true, []⟩ ⟨true, some
          [123, 34, 97, 99, 116, 105, 111, 110, 34, 58,
            34, 92, 117, 48, 48, 48, 48, 34, 125]⟩) ∧
      ¬Answered ⟨(), true, []⟩
        (rpcStep idleGate ⟨(), true, []⟩ ⟨true, some [49, 101, 45, 50, 48, 48, 48, 48]⟩) := by
  constructor <;> rintro ⟨hrunning, -⟩ <;> revert hrunning <;> decide +kernel

theorem overview_answered :
    Along (rpcStep idleGate) (fun w c => Answered w (rpcStep idleGate w c)) ⟨(), true, []⟩
      [⟨true, none⟩, ⟨true, some
        [123, 34, 97, 99, 116, 105, 111, 110, 34, 58, 34,
        111, 118, 101, 114, 118, 105, 101, 119, 34, 125]⟩] := by
  refine (connections_answered_iff serdeJson_leaves ⟨(), true, []⟩ rfl _).mpr ⟨nofun, ?_, trivial⟩
  intro text htext
  have hpassed : passedText idleGate (rpcStep idleGate ⟨(), true, []⟩ ⟨true, none⟩) ⟨true, some
        [123, 34, 97, 99, 116, 105, 111, 110, 34, 58, 34,
        111, 118, 101, 114, 118, 105, 101, 119, 34, 125]⟩ =
      some "\x7b\"action\":\"overview\"\x7d" := by
    decide +kernel
  rw [hpassed] at htext
  cases htext
  refine ⟨fun ls hls => ?_, fun v r _ hr => ?_⟩
  · have hleaves : Json.leaves "\x7b\"action\":\"overview\"\x7d" = some [] := by decide +kernel
    rw [hleaves] at hls
    cases hls
    rfl
  · cases hr
    decide +kernel

end Allgres
