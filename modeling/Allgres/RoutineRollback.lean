import Allgres.Builds
import Mathlib.Data.List.DropRight
import Mathlib.Data.List.TakeWhile

/-! Rolling functions and procedures back to an archived version, through the setters for
partial edits: a null body stands for no change, and a build is queued where a body is given. -/

namespace Allgres

open Raise Rows Runs

def archivedFunction? (c : Config) (id : Uuid) (generation : Nat) : Option Function :=
  c.functionHistory.find? fun h => h.functionId = id ∧ h.generation = generation

def fnRollbackFunction (pg : Postgres) (now : Time) (c : Config) (id : Uuid) (generation : Nat) :
    Except String (Config × Json) :=
  match archivedFunction? c id generation with
  | none => .error "function version not found"
  | some h => fnUpdateFunction pg now c id (some h.description) h.body (some h.paramSchema)

def archivedProcedure? (c : Config) (id : Uuid) (generation : Nat) : Option Procedure :=
  c.procedureHistory.find? fun h => h.procedureId = id ∧ h.generation = generation

def fnRollbackProcedure (pg : Postgres) (now : Time) (c : Config) (id : Uuid) (generation : Nat) :
    Except String (Config × Json) :=
  match archivedProcedure? c id generation with
  | none => .error ("fn_rollback_procedure: no history for that procedure at generation " ++
      toString generation)
  | some h => fnSetProcedure pg now c id (some h.content) none h.body

def fnCreateProcedure (pg : Postgres) (now : Time) (c : Config) (name content body : Option String) :
    Except String (Config × Json) := do
  raiseIf (trimmed name = none) "procedure name is required"
  raiseIf (trimmed content = none) "procedure content is required"
  if body.isSome then validateFunctionBody body
  let name := btrim (orEmpty name)
  raiseIf (c.procedures.any (·.name = name) = true)
    "duplicate key value violates unique constraint \"procedures_name_key\""
  let sqlIdent := body.map fun _ => "proc_" ++ uuidHex c.nextId
  raiseIf (c.procedures.any (fun r => r.sqlIdent.isSome && r.sqlIdent = sqlIdent) = true)
    "duplicate key value violates unique constraint \"procedures_sql_ident_key\""
  let row : Procedure :=
    { procedureId := c.nextId
      name
      content := orEmpty content
      body
      sqlIdent
      buildStatus := if body.isSome then .pending else .built
      updatedAt := now }
  let c' := { c with procedures := c.procedures ++ [row], nextId := c.nextId + 1 }
  pure (syncCapabilityIndex pg now c',
    .object [("ok", .bool true), ("procedure_id", .str (uuidText c.nextId))])

inductive RoutineOp where
  | build (op : BuildOp)
  | rollbackFunction (id : Uuid) (generation : Nat)
  | rollbackProcedure (id : Uuid) (generation : Nat)
  | createFunction (name description : Option String) (handler : Handler) (args : Json)
      (body : Option String) (paramSchema : Option Json) (createdBy mcpConnectionId : Option Uuid)
  | createProcedure (name content body : Option String)
  | elsewhere (change : Config → Config)

structure RoutineEvent where
  now : Time
  op : RoutineOp

/-- The columns that only the functions of this module and the two setters write. -/
def Function.contents (f : Function) : Function :=
  { f with
    buildStatus := .built
    isActive := true
    llmOverride := none
    updatedAt := 0 }

def Procedure.contents (p : Procedure) : Procedure :=
  { p with
    buildStatus := .built
    isActive := true
    llmOverride := none
    updatedAt := 0 }

def contents (c : Config) : List Function × List Function × List Procedure × List Procedure :=
  (c.functions.map Function.contents, c.functionHistory, c.procedures.map Procedure.contents,
    c.procedureHistory)

namespace Builds

/-- The tables after a call, unless it raises. -/
def afterReply {α : Type} (s : Builds) (x : Except String (Config × α)) : Builds :=
  match x with
  | .ok r => { s with cfg := r.1 }
  | .error _ => s

end Builds

def routineStep (pg : Postgres) (s : Builds) (e : RoutineEvent) : Builds :=
  match e.op with
  | .build op => buildStep pg s ⟨e.now, op⟩
  | .rollbackFunction id generation => s.afterReply (fnRollbackFunction pg e.now s.cfg id generation)
  | .rollbackProcedure id generation => s.afterReply (fnRollbackProcedure pg e.now s.cfg id generation)
  | .createFunction name description handler args body paramSchema createdBy mcpConnectionId =>
    s.afterReply (fnCreateFunction pg e.now s.cfg name description handler args body paramSchema
      createdBy mcpConnectionId)
  | .createProcedure name content body => s.afterReply (fnCreateProcedure pg e.now s.cfg name content body)
  | .elsewhere change =>
    if contents (change s.cfg) = contents s.cfg then { s with cfg := change s.cfg } else s

/-- A version whose fields the setter takes as they are. -/
structure Function.Restorable (f : Function) : Prop where
  description : trimmed (some f.description) = some f.description
  bodied : f.body.isSome = true
  valid : validateFunctionBody f.body = .ok ()

structure Procedure.Restorable (p : Procedure) : Prop where
  content : p.content ≠ ""
  valid : p.body.isSome = true → validateFunctionBody p.body = .ok ()

/-- What the functions of this module keep of the two tables and their histories. -/
structure SoundRoutines (c : Config) : Prop where
  functions : ∀ id f, c.function? id = some f → f.handler = .plpgsql → f.Restorable
  functionHistory : ∀ h ∈ c.functionHistory, h.Restorable ∧
    ∃ f, c.function? h.functionId = some f ∧ f.handler = .plpgsql
  procedures : ∀ id p, c.procedure? id = some p → p.Restorable ∧
    (p.body.isSome = true → p.sqlIdent.isSome = true) ∧
      ∀ r ∈ c.procedures, r.procedureId ≠ id → r.sqlIdent.isSome = true → r.sqlIdent ≠ p.sqlIdent
  procedureHistory : ∀ h ∈ c.procedureHistory, h.Restorable ∧
    ∃ p, c.procedure? h.procedureId = some p ∧ (h.body.isSome = true → p.body.isSome = true)

section Contents

variable {c c' : Config} {id : Uuid}

theorem find_contents_function (c : Config) (id : Uuid) :
    (contents c).1.find? (·.functionId = id) = (c.function? id).map Function.contents :=
  List.find?_map

theorem find_contents_procedure (c : Config) (id : Uuid) :
    (contents c).2.2.1.find? (·.procedureId = id) = (c.procedure? id).map Procedure.contents :=
  List.find?_map

theorem function?_of_contents (h : contents c' = contents c) {f : Function}
    (hf : c.function? id = some f) : ∃ g, c'.function? id = some g ∧ g.contents = f.contents := by
  have hfind := find_contents_function c' id
  rw [h, find_contents_function, hf] at hfind
  exact Option.map_eq_some_iff.mp hfind.symm

theorem procedure?_of_contents (h : contents c' = contents c) {p : Procedure}
    (hp : c.procedure? id = some p) : ∃ q, c'.procedure? id = some q ∧ q.contents = p.contents := by
  have hfind := find_contents_procedure c' id
  rw [h, find_contents_procedure, hp] at hfind
  exact Option.map_eq_some_iff.mp hfind.symm

/-- A column that is among the contents. -/
theorem Function.column {β : Type} (col : Function → β) (hcol : ∀ f, col f.contents = col f)
    {f g : Function} (h : f.contents = g.contents) : col f = col g := by
  rw [← hcol f, h, hcol]

theorem Procedure.column {β : Type} (col : Procedure → β) (hcol : ∀ p, col p.contents = col p)
    {p q : Procedure} (h : p.contents = q.contents) : col p = col q := by
  rw [← hcol p, h, hcol]

theorem Function.Restorable.congr {f g : Function} (hf : f.Restorable) (h : g.contents = f.contents) :
    g.Restorable where
  description := Function.column (·.description) (fun _ => rfl) h.symm ▸ hf.description
  bodied := Function.column (·.body) (fun _ => rfl) h.symm ▸ hf.bodied
  valid := Function.column (·.body) (fun _ => rfl) h.symm ▸ hf.valid

theorem Procedure.Restorable.congr {p q : Procedure} (hp : p.Restorable) (h : q.contents = p.contents) :
    q.Restorable where
  content := Procedure.column (·.content) (fun _ => rfl) h.symm ▸ hp.content
  valid := Procedure.column (·.body) (fun _ => rfl) h.symm ▸ hp.valid

/-- Code that leaves the contents alone leaves the tables sound. -/
theorem SoundRoutines.of_contents (hs : SoundRoutines c) (h : contents c' = contents c) :
    SoundRoutines c' := by
  have hfh : c'.functionHistory = c.functionHistory := congrArg (·.2.1) h
  have hph : c'.procedureHistory = c.procedureHistory := congrArg (·.2.2.2) h
  have hprocs : c'.procedures.map Procedure.contents = c.procedures.map Procedure.contents :=
    congrArg (·.2.2.1) h
  refine ⟨fun id g hg hh => ?_, fun r hr => ?_, fun id q hq => ?_, fun r hr => ?_⟩
  · obtain ⟨f, hf, hfg⟩ := function?_of_contents h.symm hg
    have hhandler : f.handler = g.handler := Function.column (·.handler) (fun _ => rfl) hfg
    exact (hs.functions id f hf (hhandler.trans hh)).congr hfg.symm
  · obtain ⟨hres, f, hf, hh⟩ := hs.functionHistory r (hfh ▸ hr)
    obtain ⟨g, hg, hgf⟩ := function?_of_contents h hf
    have hhandler : g.handler = f.handler := Function.column (·.handler) (fun _ => rfl) hgf
    exact ⟨hres, g, hg, hhandler.trans hh⟩
  · obtain ⟨p, hp, hpq⟩ := procedure?_of_contents h.symm hq
    obtain ⟨hres, hident, hother⟩ := hs.procedures id p hp
    have hbody : p.body = q.body := Procedure.column (·.body) (fun _ => rfl) hpq
    have hname : p.sqlIdent = q.sqlIdent := Procedure.column (·.sqlIdent) (fun _ => rfl) hpq
    refine ⟨hres.congr hpq.symm, hbody ▸ hname ▸ hident, fun r hr hne hsome => ?_⟩
    have hmem : r.contents ∈ c.procedures.map Procedure.contents := hprocs ▸ List.mem_map_of_mem hr
    obtain ⟨t, ht, htr⟩ := List.mem_map.mp hmem
    have hid : t.procedureId = r.procedureId := Procedure.column (·.procedureId) (fun _ => rfl) htr
    have hident' : t.sqlIdent = r.sqlIdent := Procedure.column (·.sqlIdent) (fun _ => rfl) htr
    exact hname ▸ hident' ▸ hother t ht (hid ▸ hne) (hident' ▸ hsome)
  · obtain ⟨hres, p, hp, hb⟩ := hs.procedureHistory r (hph ▸ hr)
    obtain ⟨q, hq, hqp⟩ := procedure?_of_contents h hp
    have hbody : q.body = p.body := Procedure.column (·.body) (fun _ => rfl) hqp
    exact ⟨hres, q, hq, hbody ▸ hb⟩

theorem Indexed.contents (h : Indexed c c') : contents c' = Allgres.contents c := by
  obtain ⟨ks, es, n, rfl⟩ := h.eq
  rfl

theorem SoundRoutines.indexed (hs : SoundRoutines c) (h : Indexed c c') : SoundRoutines c' :=
  hs.of_contents h.contents

end Contents

section Setters

variable {c : Config} {pg : Postgres} {now : Time}

/-- The row of a function after an edit. -/
def Function.edited (now : Time) (description body : Option String) (paramSchema : Option Json)
    (f : Function) : Function :=
  let g : Function :=
    { f with
      description := (trimmed description).getD f.description
      body := body.or f.body
      paramSchema := paramSchema.getD f.paramSchema }
  let changed := decide (¬ g.Same f)
  { g with
    buildStatus := if body.isSome then .pending else f.buildStatus
    generation := if changed then f.generation + 1 else f.generation
    updatedAt := now }

/-- The tables that `fn_update_function` leaves. -/
def PutFunction (c : Config) (f g : Function) (c' : Config) : Prop :=
  ∃ hs, (hs = c.functionHistory ∨ hs = c.functionHistory ++ [f]) ∧
    Indexed
      { c with
        functions := update (·.functionId = f.functionId) (fun _ => g) c.functions
        functionHistory := hs } c'

theorem returns_fnUpdateFunction {f : Function} {id : Uuid} (hf : c.function? id = some f)
    (description body : Option String) (paramSchema : Option Json) :
    Returns (fun r => f.handler = .plpgsql ∧ (body.isSome = true → validateFunctionBody body = .ok ()) ∧
      PutFunction c f (f.edited now description body paramSchema) r.1)
      (fnUpdateFunction pg now c id description body paramSchema) := by
  have hid : f.functionId = id := by simpa using List.find?_some hf
  subst hid
  unfold fnUpdateFunction
  rw [hf]
  refine returns_bind (P := fun _ => f.handler = .plpgsql) (fun u hu => ?_) fun _ hh => ?_
  · simpa using raiseIf_eq_ok.mp hu
  · refine returns_guard_ok fun hvalid => returns_pure ⟨hh, hvalid, _, ?_, syncCapabilityIndex_indexed pg now _⟩
    split_ifs
    · exact .inr rfl
    · exact .inl rfl

theorem fnUpdateFunction_isOk (pg : Postgres) (now : Time) {f : Function} {id : Uuid} (hf : c.function? id = some f)
    (hh : f.handler = .plpgsql) {body : Option String} (hvalid : validateFunctionBody body = .ok ())
    (description : Option String) (paramSchema : Option Json) :
    ∃ r, fnUpdateFunction pg now c id description body paramSchema = .ok r := by
  apply exists_of_isOk
  unfold fnUpdateFunction
  rw [hf]
  simp only [isOk_raiseIf_bind, hh, hvalid]
  cases body <;> rfl

/-- The row of a procedure after an edit. -/
def Procedure.edited (now : Time) (content : Option String) (enabled : Option Bool) (body : Option String)
    (p : Procedure) : Procedure :=
  let q : Procedure :=
    { p with
      content := (nullIfEmpty content).getD p.content
      body := body.or p.body
      sqlIdent := p.sqlIdent.or ((body.or p.body).map fun _ => "proc_" ++ uuidHex p.procedureId) }
  let changed := decide (q.content ≠ p.content ∨ q.body ≠ p.body)
  { q with
    buildStatus := if q.body ≠ p.body ∧ q.body.isSome then .pending else p.buildStatus
    isActive := enabled.getD p.isActive
    generation := if changed then p.generation + 1 else p.generation
    updatedAt := now }

/-- The name of a row's object is the name of no other row's. -/
def OwnIdent (c : Config) (q : Procedure) : Prop :=
  ∀ r ∈ c.procedures, r.procedureId ≠ q.procedureId → r.sqlIdent.isSome = true → r.sqlIdent ≠ q.sqlIdent

def PutProcedure (c : Config) (p q : Procedure) (c' : Config) : Prop :=
  ∃ hs, (hs = c.procedureHistory ∨ hs = c.procedureHistory ++ [p]) ∧
    Indexed
      { c with
        procedures := update (·.procedureId = p.procedureId) (fun _ => q) c.procedures
        procedureHistory := hs } c'

theorem ownIdent_of_ok {q : Procedure} {message : String} {u : Unit}
    (h : raiseIf (c.procedures.any (fun r => !decide (r.procedureId = q.procedureId) && r.sqlIdent.isSome &&
      r.sqlIdent = q.sqlIdent) = true) message = .ok u) : OwnIdent c q := by
  intro r hr hne hsome heq
  refine raiseIf_eq_ok.mp h (List.any_eq_true.mpr ⟨r, hr, ?_⟩)
  simp [hne, ← heq, hsome]

theorem returns_fnSetProcedure {p : Procedure} {id : Uuid} (hp : c.procedure? id = some p)
    (content : Option String) (enabled : Option Bool) (body : Option String) :
    Returns (fun r => (body.isSome = true → validateFunctionBody body = .ok ()) ∧
      OwnIdent c (p.edited now content enabled body) ∧
        PutProcedure c p (p.edited now content enabled body) r.1)
      (fnSetProcedure pg now c id content enabled body) := by
  have hid : p.procedureId = id := by simpa using List.find?_some hp
  subst hid
  unfold fnSetProcedure
  rw [hp]
  refine returns_guard_ok fun hvalid => returns_bind
    (P := fun _ => OwnIdent c (p.edited now content enabled body)) (fun u hu => ?_) fun _ hown => ?_
  · exact @ownIdent_of_ok c (p.edited now content enabled body) _ u hu
  · refine returns_pure ⟨hvalid, hown, _, ?_, syncCapabilityIndex_indexed pg now _⟩
    split_ifs
    · exact .inr rfl
    · exact .inl rfl

theorem fnSetProcedure_isOk (pg : Postgres) {p : Procedure} {id : Uuid} (hp : c.procedure? id = some p)
    {body : Option String} (hvalid : body.isSome = true → validateFunctionBody body = .ok ())
    (content : Option String) (enabled : Option Bool)
    (hown : OwnIdent c (p.edited now content enabled body)) :
    ∃ r, fnSetProcedure pg now c id content enabled body = .ok r := by
  have hid : p.procedureId = id := by simpa using List.find?_some hp
  subst hid
  have hnone : c.procedures.any (fun r => !decide (r.procedureId = p.procedureId) && r.sqlIdent.isSome &&
      r.sqlIdent = p.sqlIdent.or ((body.or p.body).map fun _ => "proc_" ++ uuidHex p.procedureId)) = false := by
    refine List.any_eq_false.mpr fun r hr h => ?_
    simp only [Bool.and_eq_true, Bool.not_eq_true', decide_eq_false_iff_not, decide_eq_true_eq] at h
    exact hown r hr h.1.1 h.1.2 h.2
  apply exists_of_isOk
  unfold fnSetProcedure
  rw [hp]
  cases body with
  | none =>
    simp only [Option.isSome_none, Bool.false_eq_true, if_false, isOk_raiseIf_bind, hnone]
    rfl
  | some b =>
    have hok : ∀ k : Unit → Except String (Config × Json), (Except.ok () >>= k) = k () := fun _ => rfl
    simp only [Option.isSome_some, if_true, hvalid rfl, hok, isOk_raiseIf_bind, hnone]
    rfl

end Setters

section Trim

theorem ltrimChars_rtrimChars {drop : Char → Bool} {s : List Char} (h : ltrimChars drop s = s) :
    ltrimChars drop (rtrimChars drop s) = rtrimChars drop s := by
  have hpre : rtrimChars drop s <+: s := List.rdropWhile_prefix drop s
  refine List.dropWhile_eq_self_iff.mpr fun hl => ?_
  have hl' : 0 < s.length := Nat.lt_of_lt_of_le hl hpre.length_le
  have hhead : (rtrimChars drop s)[0] = s[0] := hpre.getElem hl
  rw [hhead]
  exact List.dropWhile_eq_self_iff.mp h hl'

theorem btrim_btrim (s : String) : btrim (btrim s) = btrim s := by
  have hleft := ltrimChars_rtrimChars (List.dropWhile_idempotent (· == ' ') s.toList)
  have hright : ∀ t, rtrimChars (· == ' ') (rtrimChars (· == ' ') t) = rtrimChars (· == ' ') t :=
    List.rdropWhile_idempotent (· == ' ')
  unfold btrim
  rw [String.toList_ofList]
  congr 1
  unfold ltrimChars at hleft ⊢
  rw [hleft]
  exact hright _

theorem trimmed_of_trimmed {o : Option String} {t : String} (h : trimmed o = some t) :
    trimmed (some t) = some t := by
  cases o with
  | none => cases h
  | some s =>
    by_cases hs : btrim s = ""
    · simp [trimmed, nullIfEmpty, hs] at h
    · have ht : btrim s = t := by simpa [trimmed, nullIfEmpty, hs] using h
      subst ht
      simp [trimmed, nullIfEmpty, btrim_btrim, hs]

end Trim

section Sound

variable {c c' : Config} {now : Time}

theorem Function.Restorable.edited {f : Function} (hf : f.Restorable) {body : Option String}
    (hvalid : body.isSome = true → validateFunctionBody body = .ok ()) (description : Option String)
    (paramSchema : Option Json) : (f.edited now description body paramSchema).Restorable := by
  have hdesc : trimmed (some ((trimmed description).getD f.description)) =
      some ((trimmed description).getD f.description) := by
    cases ht : trimmed description with
    | none => exact hf.description
    | some t => exact trimmed_of_trimmed ht
  cases body with
  | none => exact ⟨hdesc, hf.bodied, hf.valid⟩
  | some b => exact ⟨hdesc, rfl, hvalid rfl⟩

theorem Procedure.Restorable.edited {p : Procedure} (hp : p.Restorable) {body : Option String}
    (hvalid : body.isSome = true → validateFunctionBody body = .ok ()) (content : Option String)
    (enabled : Option Bool) : (p.edited now content enabled body).Restorable := by
  have hcontent : (nullIfEmpty content).getD p.content ≠ "" := by
    cases content with
    | none => exact hp.content
    | some t =>
      by_cases ht : t = ""
      · simpa [nullIfEmpty, ht] using hp.content
      · simp [nullIfEmpty, ht]
  cases body with
  | none => exact ⟨hcontent, hp.valid⟩
  | some b => exact ⟨hcontent, hvalid⟩

theorem SoundRoutines.putFunction (hs : SoundRoutines c) {f g : Function} {id : Uuid}
    (hf : c.function? id = some f) (hh : f.handler = .plpgsql) (hg : g.Restorable)
    (hgid : g.functionId = f.functionId) (hgh : g.handler = f.handler) (h : PutFunction c f g c') :
    SoundRoutines c' ∧ c'.function? id = some g := by
  obtain ⟨hist, hhist, hi⟩ := h
  have hid : f.functionId = id := by simpa using List.find?_some hf
  have hfind := find_replace (fun r : Function => r.functionId) g c.functions
  rw [hgid] at hfind
  have hrow : (update (·.functionId = f.functionId) (fun _ => g) c.functions).find?
      (·.functionId = id) = some g := by
    rw [hfind, if_pos hid.symm]
    exact congrArg (·.map fun _ => g) hf
  have hkept : ∀ i r, c.function? i = some r → r.handler = .plpgsql →
      ∃ r', (update (·.functionId = f.functionId) (fun _ => g) c.functions).find?
        (·.functionId = i) = some r' ∧ r'.handler = .plpgsql := by
    intro i r hr hrh
    rw [hfind]
    split_ifs with hi'
    · exact ⟨g, congrArg (·.map fun _ => g) hr, hgh.trans hh⟩
    · exact ⟨r, hr, hrh⟩
  obtain ⟨hfs, hhs, hps, hphs⟩ :
      c'.functions = update (·.functionId = f.functionId) (fun _ => g) c.functions ∧
        c'.functionHistory = hist ∧ c'.procedures = c.procedures ∧
          c'.procedureHistory = c.procedureHistory := by
    obtain ⟨_, _, _, rfl⟩ := hi.eq
    exact ⟨rfl, rfl, rfl, rfl⟩
  refine ⟨⟨fun i r hr hrh => ?_, fun r hr => ?_, ?_, ?_⟩, ?_⟩
  · rw [Config.function?, hfs, hfind] at hr
    split_ifs at hr with hi'
    · obtain ⟨_, -, rfl⟩ := Option.map_eq_some_iff.mp hr
      exact hg
    · exact hs.functions i r hr hrh
  · have hold : r ∈ c.functionHistory ∨ r = f := by
      rw [hhs] at hr
      rcases hhist with rfl | rfl
      · exact .inl hr
      · simpa using hr
    unfold Config.function?
    rw [hfs]
    rcases hold with hr | rfl
    · obtain ⟨hres, t, ht, hth⟩ := hs.functionHistory r hr
      exact ⟨hres, hkept _ t ht hth⟩
    · exact ⟨hs.functions id r hf hh, g, hid.symm ▸ hrow, hgh.trans hh⟩
  · unfold Config.procedure?
    rw [hps]
    exact hs.procedures
  · unfold Config.procedure?
    rw [hps, hphs]
    exact hs.procedureHistory
  · rw [Config.function?, hfs]
    exact hrow

theorem SoundRoutines.putProcedure (hs : SoundRoutines c) {p q : Procedure} {id : Uuid}
    (hp : c.procedure? id = some p) (hq : q.Restorable) (hqid : q.procedureId = p.procedureId)
    (hnamed : q.body.isSome = true → q.sqlIdent.isSome = true)
    (hbody : p.body.isSome = true → q.body.isSome = true) (hown : OwnIdent c q)
    (h : PutProcedure c p q c') : SoundRoutines c' ∧ c'.procedure? id = some q := by
  obtain ⟨hist, hhist, hi⟩ := h
  have hid : p.procedureId = id := by simpa using List.find?_some hp
  have hfind := find_replace (fun r : Procedure => r.procedureId) q c.procedures
  rw [hqid] at hfind
  have hrow : (update (·.procedureId = p.procedureId) (fun _ => q) c.procedures).find?
      (·.procedureId = id) = some q := by
    rw [hfind, if_pos hid.symm]
    exact congrArg (·.map fun _ => q) hp
  obtain ⟨hps, hhs, hfs, hfhs⟩ :
      c'.procedures = update (·.procedureId = p.procedureId) (fun _ => q) c.procedures ∧
        c'.procedureHistory = hist ∧ c'.functions = c.functions ∧
          c'.functionHistory = c.functionHistory := by
    obtain ⟨_, _, _, rfl⟩ := hi.eq
    exact ⟨rfl, rfl, rfl, rfl⟩
  have hmem : ∀ t ∈ c'.procedures, t = q ∨ t ∈ c.procedures ∧ t.procedureId ≠ p.procedureId := by
    intro t ht
    rw [hps] at ht
    obtain ⟨a, ha, rfl⟩ := mem_update.mp ht
    split_ifs with hap
    · exact .inl rfl
    · exact .inr ⟨ha, by simpa using hap⟩
  refine ⟨⟨?_, ?_, fun i r hr => ?_, fun r hr => ?_⟩, ?_⟩
  · unfold Config.function?
    rw [hfs]
    exact hs.functions
  · unfold Config.function?
    rw [hfs, hfhs]
    exact hs.functionHistory
  · rw [Config.procedure?, hps, hfind] at hr
    split_ifs at hr with hi'
    · obtain ⟨_, -, rfl⟩ := Option.map_eq_some_iff.mp hr
      refine ⟨hq, hnamed, fun t ht hne hsome => ?_⟩
      rcases hmem t ht with rfl | ⟨ht, -⟩
      · exact absurd (hqid.trans hi'.symm) hne
      · exact hown t ht (fun he => hne (he.trans (hqid.trans hi'.symm))) hsome
    · obtain ⟨hres, hnamed', hother⟩ := hs.procedures i r hr
      refine ⟨hres, hnamed', fun t ht hne hsome => ?_⟩
      rcases hmem t ht with rfl | ⟨ht, -⟩
      · have hrm : r ∈ c.procedures := List.mem_of_find?_eq_some hr
        have hri : r.procedureId = i := by simpa using List.find?_some hr
        intro heq
        exact hown r hrm (fun he => hne (he.symm.trans hri)) (heq ▸ hsome) heq.symm
      · exact hother t ht hne hsome
  · have hold : r ∈ c.procedureHistory ∨ r = p := by
      rw [hhs] at hr
      rcases hhist with rfl | rfl
      · exact .inl hr
      · simpa using hr
    unfold Config.procedure?
    rw [hps]
    rcases hold with hr | rfl
    · obtain ⟨hres, t, ht, hb⟩ := hs.procedureHistory r hr
      refine ⟨hres, ?_⟩
      rw [hfind]
      split_ifs with hi'
      · have htp : t = p := by
          rw [hi', hid, hp] at ht
          exact (Option.some.inj ht).symm
        exact ⟨q, congrArg (·.map fun _ => q) ht, fun h => hbody (htp ▸ hb h)⟩
      · exact ⟨t, ht, hb⟩
    · exact ⟨(hs.procedures id r hp).1, q, hid.symm ▸ hrow, hbody⟩
  · rw [Config.procedure?, hps]
    exact hrow

/-- A name that a procedure has is kept, and one is given with the first body. -/
theorem named_edited {p : Procedure} (content : Option String) (enabled : Option Bool) (body : Option String)
    (h : (p.edited now content enabled body).body.isSome = true) :
    (p.edited now content enabled body).sqlIdent.isSome = true := by
  have hbody : (body.or p.body).isSome = true := h
  have hsome : ((body.or p.body).map fun _ => "proc_" ++ uuidHex p.procedureId).isSome = true := by
    simpa using hbody
  simp only [Procedure.edited, Option.isSome_or, hsome, Bool.or_true]

theorem sound_fnUpdateFunction (hs : SoundRoutines c) {pg : Postgres} (id : Uuid)
    (description body : Option String) (paramSchema : Option Json) :
    Returns (fun r => SoundRoutines r.1) (fnUpdateFunction pg now c id description body paramSchema) := by
  cases hf : c.function? id with
  | none =>
    unfold fnUpdateFunction
    rw [hf]
    exact returns_error _
  | some f =>
    refine returns_mono (returns_fnUpdateFunction hf description body paramSchema) ?_
    rintro r ⟨hh, hvalid, hput⟩
    have hg : (f.edited now description body paramSchema).Restorable :=
      (hs.functions id f hf hh).edited hvalid description paramSchema
    exact (hs.putFunction hf hh hg rfl rfl hput).1

theorem sound_fnSetProcedure (hs : SoundRoutines c) {pg : Postgres} (id : Uuid) (content : Option String)
    (enabled : Option Bool) (body : Option String) :
    Returns (fun r => SoundRoutines r.1) (fnSetProcedure pg now c id content enabled body) := by
  cases hp : c.procedure? id with
  | none =>
    unfold fnSetProcedure
    rw [hp]
    exact returns_error _
  | some p =>
    refine returns_mono (returns_fnSetProcedure hp content enabled body) ?_
    rintro r ⟨hvalid, hown, hput⟩
    have hq : (p.edited now content enabled body).Restorable :=
      (hs.procedures id p hp).1.edited hvalid content enabled
    have hbody : p.body.isSome = true → (p.edited now content enabled body).body.isSome = true := by
      intro h
      simp [Procedure.edited, Option.isSome_or, h]
    exact (hs.putProcedure hp hq rfl (named_edited content enabled body) hbody hown hput).1

theorem restorable_newFunction {name d : String} {handler : Handler} {args : Json} {body : Option String}
    {paramSchema : Option Json} {connectionId : Option Uuid} :
    Returns (fun f => f.handler = .plpgsql → f.Restorable)
      (newFunction c name (btrim d) handler args body paramSchema connectionId) := by
  unfold newFunction
  refine returns_seq fun _ => returns_bind (P := fun _ => btrim d ≠ "") (fun u hu => ?_) fun _ hd => ?_
  · exact raiseIf_eq_ok.mp hu
  · have hdesc : trimmed (some (btrim d)) = some (btrim d) := by
      simp [trimmed, nullIfEmpty, btrim_btrim, hd]
    cases handler with
    | httpGet =>
      refine returns_seq fun _ => ?_
      dsimp only
      split
      · exact returns_error _
      · exact returns_pure fun h => by cases h
    | mcpCall => exact returns_seq fun _ => returns_seq fun _ => returns_pure fun h => by cases h
    | plpgsql =>
      refine returns_bind (P := fun _ => validateFunctionBody body = .ok ()) (fun u hu => hu) fun _ hv => ?_
      refine returns_pure fun _ => ⟨hdesc, ?_, hv⟩
      cases body with
      | none => cases hv
      | some b => rfl

theorem sound_fnCreateFunction (hs : SoundRoutines c) (pg : Postgres) (name description : Option String)
    (handler : Handler) (args : Json) (body : Option String) (paramSchema : Option Json)
    (createdBy connectionId : Option Uuid) :
    Returns (fun r => SoundRoutines r.1) (fnCreateFunction pg now c name description handler args body
      paramSchema createdBy connectionId) := by
  unfold fnCreateFunction
  refine returns_bind restorable_newFunction fun f hf => returns_seq fun _ => returns_pure ?_
  refine SoundRoutines.indexed ?_ (syncCapabilityIndex_indexed pg now _)
  have hfind : ∀ i g, c.function? i = some g → (c.functions ++
      [{ f with
          createdByAgentId := createdBy
          updatedAt := now }]).find? (·.functionId = i) = some g := by
    intro i g hg
    rw [List.find?_append, ← Config.function?, hg]
    rfl
  refine ⟨fun i g hg hh => ?_, fun h hh => ?_, hs.procedures, hs.procedureHistory⟩
  · rw [Config.function?, List.find?_append, ← Config.function?] at hg
    rcases Option.or_eq_some_iff.mp hg with hg | ⟨-, hg⟩
    · exact hs.functions i g hg hh
    · have hmem := List.mem_of_find?_eq_some hg
      rw [List.mem_singleton] at hmem
      subst hmem
      obtain ⟨hdesc, hbody, hvalid⟩ := hf hh
      exact ⟨hdesc, hbody, hvalid⟩
  · obtain ⟨hres, g, hg, hgh⟩ := hs.functionHistory h hh
    exact ⟨hres, g, hfind _ g hg, hgh⟩

theorem sound_fnCreateProcedure (hs : SoundRoutines c) (pg : Postgres) (name content body : Option String) :
    Returns (fun r => SoundRoutines r.1) (fnCreateProcedure pg now c name content body) := by
  unfold fnCreateProcedure
  refine returns_seq fun _ => returns_bind (P := fun _ => orEmpty content ≠ "") (fun u hu => ?_)
    fun _ hcontent => returns_guard_ok fun hvalid => returns_seq fun _ => returns_bind
      (P := fun _ => ∀ r ∈ c.procedures, r.sqlIdent.isSome = true →
        r.sqlIdent ≠ body.map fun _ => "proc_" ++ uuidHex c.nextId) (fun u hu => ?_)
        fun _ hown => returns_pure ?_
  · have hne := raiseIf_eq_ok.mp hu
    cases content with
    | none => exact absurd rfl hne
    | some t =>
      intro ht
      exact hne (by rw [show t = "" from ht]; decide)
  · intro r hr hsome heq
    refine raiseIf_eq_ok.mp hu (List.any_eq_true.mpr ⟨r, hr, ?_⟩)
    rw [hsome, Bool.true_and]
    exact decide_eq_true heq
  · refine SoundRoutines.indexed ?_ (syncCapabilityIndex_indexed pg now _)
    generalize hrow : ({
        procedureId := c.nextId
        name := btrim (orEmpty name)
        content := orEmpty content
        body
        sqlIdent := body.map fun _ => "proc_" ++ uuidHex c.nextId
        buildStatus := if body.isSome then .pending else .built
        updatedAt := now } : Procedure) = row
    have hres : row.Restorable := hrow ▸ ⟨hcontent, hvalid⟩
    have hname : row.sqlIdent = body.map fun _ => "proc_" ++ uuidHex c.nextId := by rw [← hrow]
    have hbody : row.body = body := by rw [← hrow]
    refine ⟨hs.functions, hs.functionHistory, fun i p hp => ?_, fun h hh => ?_⟩
    · rw [Config.procedure?, List.find?_append, ← Config.procedure?] at hp
      rcases Option.or_eq_some_iff.mp hp with hold | ⟨-, hnew⟩
      · obtain ⟨hpres, hnamed, hother⟩ := hs.procedures i p hold
        refine ⟨hpres, hnamed, fun t ht hne hsome => ?_⟩
        rcases List.mem_append.mp ht with ht | ht
        · exact hother t ht hne hsome
        · obtain rfl := List.mem_singleton.mp ht
          have hpm : p ∈ c.procedures := List.mem_of_find?_eq_some hold
          intro heq
          exact hown p hpm (heq ▸ hsome) (heq.symm.trans hname)
      · have hmem := List.mem_of_find?_eq_some hnew
        have hpi : p.procedureId = i := by simpa using List.find?_some hnew
        obtain rfl := List.mem_singleton.mp hmem
        refine ⟨hres, fun h => ?_, fun t ht hne hsome => ?_⟩
        · rw [hname, Option.isSome_map, ← hbody]
          exact h
        · rcases List.mem_append.mp ht with ht | ht
          · rw [hname]
            exact hown t ht hsome
          · obtain rfl := List.mem_singleton.mp ht
            exact absurd hpi hne
    · obtain ⟨hhres, p, hp, hb⟩ := hs.procedureHistory h hh
      refine ⟨hhres, p, ?_, hb⟩
      rw [Config.procedure?, List.find?_append, ← Config.procedure?, hp]
      rfl

end Sound

section Step

variable {c : Config} (pg : Postgres) (now : Time)

theorem contents_functions {rows : List Function} (h : rows.map Function.contents = c.functions.map Function.contents) :
    contents { c with functions := rows } = contents c := by
  simp only [contents, h]

theorem contents_procedures {rows : List Procedure}
    (h : rows.map Procedure.contents = c.procedures.map Procedure.contents) :
    contents { c with procedures := rows } = contents c := by
  simp only [contents, h]

theorem contents_sync (c : Config) : contents (syncCapabilityIndex pg now c) = contents c :=
  (syncCapabilityIndex_indexed pg now c).contents

theorem map_claimBuilds {α β : Type} {T : BuildTable α} {g : α → β} (hg : ∀ st t a, g (T.setStatus st t a) = g a)
    (limit : Option Int) (locked : List Uuid) (rows : List α) :
    (claimBuilds T now limit locked rows).1.map g = rows.map g :=
  map_update (fun _ => hg _ _ _) _

theorem map_completeBuild {α β : Type} {T : BuildTable α} {g : α → β}
    (hg : ∀ st t a, g (T.setStatus st t a) = g a) (id : Uuid) (ok : Option Bool) (rows : List α) :
    (completeBuild T now id ok rows).map g = rows.map g :=
  map_update (fun _ => hg _ _ _) _

theorem contents_resetBuilds (seconds : Option Int) (c : Config) :
    contents (resetBuilds pg now seconds c) = contents c := by
  unfold resetBuilds
  dsimp only
  generalize (fun f : Function => decide (f.buildStatus = .building) &&
    overdue now (timeoutMillis 15 seconds) f.updatedAt) = stuckF
  generalize (fun p : Procedure => decide (p.buildStatus = .building) &&
    overdue now (timeoutMillis 15 seconds) p.updatedAt) = stuckP
  have hkept : contents { c with
      functions := update stuckF (fun f => { f with buildStatus := .pending, updatedAt := now }) c.functions
      procedures := update stuckP (fun p => { p with buildStatus := .pending, updatedAt := now }) c.procedures } =
        contents c := by
    have hfs : (update stuckF (fun f => { f with buildStatus := .pending, updatedAt := now }) c.functions).map
        Function.contents = c.functions.map Function.contents := by
      apply map_update
      intro f
      rfl
    have hps : (update stuckP (fun p => { p with buildStatus := .pending, updatedAt := now }) c.procedures).map
        Procedure.contents = c.procedures.map Procedure.contents := by
      apply map_update
      intro p
      rfl
    simp only [contents, hfs, hps]
  split_ifs
  · rw [contents_sync, hkept]
  · exact hkept

theorem sound_build {s : Builds} (hs : SoundRoutines s.cfg) (e : BuildEvent) :
    SoundRoutines (buildStep pg s e).cfg := by
  obtain ⟨now, op⟩ := e
  cases op with
  | updateFunction id description body paramSchema =>
    simp only [buildStep]
    split
    · rename_i r hr
      exact sound_fnUpdateFunction hs id description body paramSchema r hr
    · exact hs
  | setProcedure id content enabled body =>
    simp only [buildStep]
    split
    · rename_i r hr
      exact sound_fnSetProcedure hs id content enabled body r hr
    · exact hs
  | claim kind limit locked =>
    cases kind with
    | function =>
      refine hs.of_contents ((contents_sync pg now _).trans (contents_functions ?_))
      exact map_claimBuilds now (fun _ _ _ => rfl) limit locked _
    | procedure =>
      refine hs.of_contents ((contents_sync pg now _).trans (contents_procedures ?_))
      exact map_claimBuilds now (fun _ _ _ => rfl) limit locked _
  | deploy n kind id created =>
    simp only [buildStep]
    split <;> exact hs
  | complete n kind id =>
    simp only [buildStep]
    split
    · rename_i j hj
      split
      · rename_i ok hok
        unfold Builds.submitBuildResult
        dsimp only
        split
        · refine hs.of_contents ((contents_sync pg now _).trans (contents_functions ?_))
          exact map_completeBuild now (fun _ _ _ => rfl) j.id (some ok) _
        · refine hs.of_contents ((contents_sync pg now _).trans (contents_procedures ?_))
          exact map_completeBuild now (fun _ _ _ => rfl) j.id (some ok) _
      · exact hs
    · exact hs
  | watchdog seconds => exact hs.of_contents (contents_resetBuilds pg now seconds s.cfg)

theorem sound_afterReply {α : Type} {s : Builds} {x : Except String (Config × α)}
    (hs : SoundRoutines s.cfg) (h : Returns (fun r => SoundRoutines r.1) x) :
    SoundRoutines (s.afterReply x).cfg := by
  cases x with
  | error e => exact hs
  | ok r => exact h r rfl

theorem sound_routineStep {s : Builds} (hs : SoundRoutines s.cfg) (e : RoutineEvent) :
    SoundRoutines (routineStep pg s e).cfg := by
  obtain ⟨now, op⟩ := e
  cases op with
  | build op => exact sound_build pg hs ⟨now, op⟩
  | rollbackFunction id generation =>
    refine sound_afterReply hs ?_
    unfold fnRollbackFunction
    split
    · exact returns_error _
    · exact sound_fnUpdateFunction hs _ _ _ _
  | rollbackProcedure id generation =>
    refine sound_afterReply hs ?_
    unfold fnRollbackProcedure
    split
    · exact returns_error _
    · exact sound_fnSetProcedure hs _ _ _ _
  | createFunction name description handler args body paramSchema createdBy connectionId =>
    dsimp only [routineStep]
    have hcreated := @sound_fnCreateFunction s.cfg now hs pg name description handler args body paramSchema
      createdBy connectionId
    exact sound_afterReply hs hcreated
  | createProcedure name content body =>
    dsimp only [routineStep]
    have hcreated := @sound_fnCreateProcedure s.cfg now hs pg name content body
    exact sound_afterReply hs hcreated
  | elsewhere change =>
    dsimp only [routineStep]
    split
    · rename_i hkeep
      exact hs.of_contents hkeep
    · exact hs

end Step

def Function.Restores (f h : Function) : Prop :=
  f.description = h.description ∧ f.body = h.body ∧ f.paramSchema = h.paramSchema

def Procedure.Restores (p h : Procedure) : Prop :=
  p.content = h.content ∧ p.body = h.body

section Restore

variable {s : Builds} {pg : Postgres} {now : Time} {id : Uuid} {generation : Nat}

theorem archivedFunction?_mem {c : Config} {h : Function} (hh : archivedFunction? c id generation = some h) :
    h ∈ c.functionHistory ∧ h.functionId = id := by
  have hkey := List.find?_some hh
  simp only [decide_eq_true_eq] at hkey
  exact ⟨List.mem_of_find?_eq_some hh, hkey.1⟩

theorem archivedProcedure?_mem {c : Config} {h : Procedure}
    (hh : archivedProcedure? c id generation = some h) :
    h ∈ c.procedureHistory ∧ h.procedureId = id := by
  have hkey := List.find?_some hh
  simp only [decide_eq_true_eq] at hkey
  exact ⟨List.mem_of_find?_eq_some hh, hkey.1⟩

/-- The fields of a function always come back, and with them a build. -/
theorem function?_rollback (hs : SoundRoutines s.cfg) {f h : Function} (hf : s.cfg.function? id = some f)
    (hh : archivedFunction? s.cfg id generation = some h) :
    ∃ g, (routineStep pg s ⟨now, .rollbackFunction id generation⟩).cfg.function? id = some g ∧
      g.Restores h ∧ g.buildStatus = .pending ∧ g.sqlIdent = f.sqlIdent := by
  obtain ⟨hmem, hid⟩ := archivedFunction?_mem hh
  obtain ⟨hres, f', hf', hplpgsql⟩ := hs.functionHistory h hmem
  obtain rfl : f' = f := by simpa [hid, hf] using hf'.symm
  obtain ⟨r, hr⟩ := fnUpdateFunction_isOk pg now hf hplpgsql hres.valid
    (some h.description) (some h.paramSchema)
  obtain ⟨-, hvalid, hput⟩ := returns_fnUpdateFunction hf _ _ _ r hr
  have hg : (f'.edited now (some h.description) h.body (some h.paramSchema)).Restorable :=
    (hs.functions id f' hf hplpgsql).edited hvalid _ _
  obtain ⟨-, hrow⟩ := hs.putFunction hf hplpgsql hg rfl rfl hput
  have hstep : (routineStep pg s ⟨now, .rollbackFunction id generation⟩).cfg = r.1 := by
    simp only [routineStep, fnRollbackFunction, hh, hr, Builds.afterReply]
  obtain ⟨b, hb⟩ := Option.isSome_iff_exists.mp hres.bodied
  refine ⟨f'.edited now (some h.description) h.body (some h.paramSchema), hstep ▸ hrow,
    ⟨?_, ?_, rfl⟩, ?_, rfl⟩
  · simp only [Function.edited, hres.description, Option.getD_some]
  · simp only [Function.edited, hb, Option.some_or]
  · simp only [Function.edited, hb, Option.isSome_some, if_true]

theorem procedure?_rollback (hs : SoundRoutines s.cfg) {p h : Procedure} (hp : s.cfg.procedure? id = some p)
    (hh : archivedProcedure? s.cfg id generation = some h) :
    ∃ q, (routineStep pg s ⟨now, .rollbackProcedure id generation⟩).cfg.procedure? id = some q ∧
      q.content = h.content ∧ q.body = h.body.or p.body ∧ q.sqlIdent = p.sqlIdent ∧
        q.buildStatus = (if q.body ≠ p.body ∧ q.body.isSome then .pending else p.buildStatus) := by
  obtain ⟨hmem, hid⟩ := archivedProcedure?_mem hh
  obtain ⟨hres, p', hp', hbody⟩ := hs.procedureHistory h hmem
  obtain rfl : p' = p := by simpa [hid, hp] using hp'.symm
  obtain ⟨hpres, hnamed, hother⟩ := hs.procedures id p' hp
  have hpid : p'.procedureId = id := by simpa using List.find?_some hp
  have hsome : (h.body.or p'.body).isSome = true → p'.sqlIdent.isSome = true := by
    intro hor
    rw [Option.isSome_or, Bool.or_eq_true] at hor
    exact hnamed (hor.elim hbody fun h => h)
  have hident : p'.sqlIdent.or ((h.body.or p'.body).map fun _ => "proc_" ++ uuidHex p'.procedureId) =
      p'.sqlIdent := by
    cases hi : p'.sqlIdent with
    | some x => rfl
    | none =>
      have hnot : (h.body.or p'.body).isSome = false := by
        cases hor : (h.body.or p'.body).isSome with
        | false => rfl
        | true =>
          have hident := hsome hor
          rw [hi] at hident
          cases hident
      have hnone : h.body.or p'.body = none := by simpa using hnot
      rw [hnone]
      rfl
  have hown : OwnIdent s.cfg (p'.edited now (some h.content) none h.body) := by
    intro r hr hne hrs
    have hne' : r.procedureId ≠ id := fun he => hne (he.trans hpid.symm)
    have := hother r hr hne' hrs
    rwa [Procedure.edited, hident]
  obtain ⟨r, hr⟩ := fnSetProcedure_isOk pg hp hres.valid (some h.content) none hown
  obtain ⟨hvalid, -, hput⟩ := returns_fnSetProcedure hp _ _ _ r hr
  have hq : (p'.edited now (some h.content) none h.body).Restorable := hpres.edited hvalid _ _
  have hkept : p'.body.isSome = true → (p'.edited now (some h.content) none h.body).body.isSome = true := by
    intro hb
    simp [Procedure.edited, Option.isSome_or, hb]
  obtain ⟨-, hrow⟩ := hs.putProcedure hp hq rfl (named_edited _ _ _) hkept hown hput
  have hstep : (routineStep pg s ⟨now, .rollbackProcedure id generation⟩).cfg = r.1 := by
    simp only [routineStep, fnRollbackProcedure, hh, hr, Builds.afterReply]
  refine ⟨p'.edited now (some h.content) none h.body, hstep ▸ hrow, ?_, rfl, hident, rfl⟩
  simp [Procedure.edited, nullIfEmpty, hres.content]

/-- After any creations, edits, rollbacks and builds, a rollback restores an archived version
and queues a build exactly when its body is not the deployed one, if and only if: of a
function, the archived body is not the deployed one; of a procedure, the archived body is not
absent while the live one is there, and it is not the deployed one just when it is not the
live one or a build is queued already. -/
theorem routine_rollback_restores_iff (pg : Postgres) (s : Builds) (hs : SoundRoutines s.cfg)
    (es : List RoutineEvent) (now : Time) (id : Uuid) (generation : Nat) :
    (∀ f h, (run (routineStep pg) s es).cfg.function? id = some f →
      archivedFunction? (run (routineStep pg) s es).cfg id generation = some h →
      ∃ g, (routineStep pg (run (routineStep pg) s es)
          ⟨now, .rollbackFunction id generation⟩).cfg.function? id = some g ∧
        (g.Restores h ∧ (g.buildStatus = .pending ↔
            (run (routineStep pg) s es).object .function g.sqlIdent ≠ g.body) ↔
          (run (routineStep pg) s es).object .function f.sqlIdent ≠ h.body)) ∧
    ∀ p h, (run (routineStep pg) s es).cfg.procedure? id = some p →
      archivedProcedure? (run (routineStep pg) s es).cfg id generation = some h →
      ∃ q, (routineStep pg (run (routineStep pg) s es)
          ⟨now, .rollbackProcedure id generation⟩).cfg.procedure? id = some q ∧
        (q.Restores h ∧ (q.buildStatus = .pending ↔
            (run (routineStep pg) s es).object .procedure q.sqlIdent ≠ q.body) ↔
          (h.body = none → p.body = none) ∧ (p.buildStatus = .pending ∨ h.body ≠ p.body ↔
            (run (routineStep pg) s es).object .procedure p.sqlIdent ≠ h.body)) := by
  have hsound : SoundRoutines (run (routineStep pg) s es).cfg := by
    have hstep : ∀ (t : Builds) e, SoundRoutines t.cfg → True → SoundRoutines (routineStep pg t e).cfg :=
      fun t e ht _ => sound_routineStep pg ht e
    exact @invariant _ _ _ _ (fun t : Builds => SoundRoutines t.cfg) hstep _ _ hs (along_true s es)
  generalize run (routineStep pg) s es = t at hsound
  constructor
  · intro f h hf hh
    obtain ⟨g, hg, hres, hpending, hident⟩ := @function?_rollback t pg now id generation hsound f h hf hh
    refine ⟨g, hg, ?_⟩
    simp only [hres, hpending, hident, hres.2.1, true_and, true_iff]
  · intro p h hp hh
    obtain ⟨q, hq, hcontent, hbody, hident, hstatus⟩ :=
      @procedure?_rollback t pg now id generation hsound p h hp hh
    refine ⟨q, hq, ?_⟩
    rw [Procedure.Restores, hstatus, hbody, hident, hcontent]
    generalize t.object .procedure p.sqlIdent = deployed
    cases hb : h.body with
    | none =>
      cases hpb : p.body with
      | none => simp
      | some b => simp
    | some b =>
      by_cases hpb : p.body = some b
      · simp [hpb]
      · have hne : ¬ some b = p.body := fun he => hpb he.symm
        simp [hne]

end Restore

def totalFunction : Function where
  functionId := 1
  name := "total"
  description := "adds"
  handler := .plpgsql
  body := some "sum"
  sqlIdent := some "fn_1"

/-- A function and a procedure without a body, with what is deployed of the function. -/
def tools (deployed : Option String) : Builds where
  cfg :=
    { functions := [totalFunction]
      procedures := [{ procedureId := 2, name := "report", content := "how to report" }]
      nextId := 9 }
  objects := fun _ ident => if ident = "fn_1" then deployed else none

theorem sound_tools (deployed : Option String) : SoundRoutines (tools deployed).cfg := by
  refine ⟨fun id f hf _ => ?_, by simp [tools], fun id p hp => ?_, by simp [tools]⟩
  · have hmem : f ∈ [totalFunction] := List.mem_of_find?_eq_some hf
    rw [List.mem_singleton.mp hmem]
    exact ⟨by decide, rfl, by decide⟩
  · have hmem := List.mem_of_find?_eq_some hp
    have hp' := List.mem_singleton.mp hmem
    have hid : p.procedureId = id := by simpa using List.find?_some hp
    subst hp'
    refine ⟨⟨by decide, by simp⟩, by simp, fun r hr hne => ?_⟩
    exact absurd ((congrArg Procedure.procedureId (List.mem_singleton.mp hr)).trans hid) hne

def describedAnew : List RoutineEvent :=
  [⟨1, .build (.updateFunction 1 (some "sums") none none)⟩]

/-- The description of a function that is not deployed yet. -/
theorem description_restored : ∃ g,
    (routineStep bareServer (run (routineStep bareServer) (tools none) describedAnew)
      ⟨2, .rollbackFunction 1 1⟩).cfg.function? 1 = some g ∧
        g.Restores totalFunction ∧ (g.buildStatus = .pending ↔
          (run (routineStep bareServer) (tools none) describedAnew).object .function g.sqlIdent ≠ g.body) := by
  have hall := (routine_rollback_restores_iff bareServer (tools none) (sound_tools none) describedAnew 2 1 1).1
  obtain ⟨g, hg, hiff⟩ := hall
    { totalFunction with
      description := "sums"
      generation := 2
      updatedAt := 1 } totalFunction (by decide +kernel) (by decide +kernel)
  exact ⟨g, hg, hiff.mpr (by decide +kernel)⟩

/-- A function is built again with the body it has, and a procedure keeps a body that its first
version lacks. -/
theorem rebuilt_and_not_restored :
    ¬ (∀ (pg : Postgres) (s : Builds), SoundRoutines s.cfg → ∀ (es : List RoutineEvent) (now : Time)
      (id : Uuid) (generation : Nat) (h : Function),
        archivedFunction? (run (routineStep pg) s es).cfg id generation = some h →
        ∃ g, (routineStep pg (run (routineStep pg) s es)
            ⟨now, .rollbackFunction id generation⟩).cfg.function? id = some g ∧
          g.Restores h ∧ (g.buildStatus = .pending ↔
            (run (routineStep pg) s es).object .function g.sqlIdent ≠ g.body)) ∧
    ¬ ∀ (pg : Postgres) (s : Builds), SoundRoutines s.cfg → ∀ (es : List RoutineEvent) (now : Time)
      (id : Uuid) (generation : Nat) (h : Procedure),
        archivedProcedure? (run (routineStep pg) s es).cfg id generation = some h →
        ∃ q, (routineStep pg (run (routineStep pg) s es)
            ⟨now, .rollbackProcedure id generation⟩).cfg.procedure? id = some q ∧ q.Restores h := by
  constructor
  · intro hall
    obtain ⟨g, hg, -, hiff⟩ := hall bareServer (tools (some "sum")) (sound_tools _) describedAnew 2 1 1
      totalFunction (by decide +kernel)
    have hrow : (routineStep bareServer (run (routineStep bareServer) (tools (some "sum")) describedAnew)
        ⟨2, .rollbackFunction 1 1⟩).cfg.function? 1 = some
          { totalFunction with
            buildStatus := .pending
            generation := 3
            updatedAt := 2 } := by
      decide +kernel
    rw [hrow, Option.some.injEq] at hg
    subst hg
    exact hiff.mp rfl (by decide +kernel)
  · intro hall
    obtain ⟨q, hq, -, hbody⟩ := hall bareServer (tools none) (sound_tools _)
      [⟨1, .build (.setProcedure 2 none none (some "PERFORM 1;"))⟩] 2 2 1
      { procedureId := 2, name := "report", content := "how to report" } (by decide +kernel)
    have hrow : ((routineStep bareServer (run (routineStep bareServer) (tools none)
        [⟨1, .build (.setProcedure 2 none none (some "PERFORM 1;"))⟩])
          ⟨2, .rollbackProcedure 2 1⟩).cfg.procedure? 2).map (·.body) = some (some "PERFORM 1;") := by
      decide +kernel
    rw [hq, Option.map_some, Option.some.injEq, hbody] at hrow
    cases hrow

end Allgres
