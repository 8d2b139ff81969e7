import Allgres.PlPgSql
import Allgres.SessionHygiene

/-! What `run_guarded_build` deploys: the body behind its guard, or nothing. -/

namespace Allgres

open Runs PlToken

section DollarQuote

/-- The text in front of the first place where the delimiter stands. -/
def readUntil (delim : List Char) : List Char → Option (List Char)
  | [] => none
  | c :: s => if delim <+: c :: s then some [] else (readUntil delim s).map (c :: ·)

def tagChar (c : Char) : Bool :=
  c.isAlphanum || c = '_'

/-- A dollar-quoted string constant. -/
def readLiteral (q : List Char) : Option (List Char) :=
  match q with
  | '$' :: s =>
    let tag := s.takeWhile (· ≠ '$')
    match s.dropWhile (· ≠ '$') with
    | '$' :: text =>
      if tag.all tagChar && tag.head?.all (!·.isDigit) then
        readUntil ('$' :: tag ++ ['$']) text
      else none
    | _ => none
  | _ => none

theorem prefix_before_newline {delim u v : List Char} (hd : '\n' ∉ delim) (h : delim <+: u ++ '\n' :: v) :
    delim <+: u := by
  induction u generalizing delim with
  | nil =>
    cases delim with
    | nil => exact List.nil_prefix
    | cons d delim =>
      have hhead := (List.cons_prefix_cons.mp h).1
      exact absurd (hhead ▸ List.mem_cons_self) hd
  | cons c u ih =>
    cases delim with
    | nil => exact List.nil_prefix
    | cons d delim =>
      obtain ⟨rfl, htail⟩ := List.cons_prefix_cons.mp h
      exact List.cons_prefix_cons.mpr ⟨rfl, ih (fun hm => hd (List.mem_cons_of_mem _ hm)) htail⟩

/-- Nothing is read as the end of a text but what stands behind its last line break. -/
theorem readUntil_text {delim text : List Char} (rest : List Char) (hd : '\n' ∉ delim) (hne : delim ≠ [])
    (hfresh : ¬delim <:+: text) :
    readUntil delim (text ++ '\n' :: (delim ++ rest)) = some (text ++ ['\n']) := by
  induction text with
  | nil =>
    have hfirst : ¬delim <+: '\n' :: (delim ++ rest) := fun h =>
      hne (List.prefix_nil.mp (prefix_before_newline (u := []) hd h))
    obtain ⟨d, delim', rfl⟩ := List.exists_cons_of_ne_nil hne
    rw [List.nil_append, readUntil, if_neg hfirst, List.cons_append, readUntil,
      if_pos (by rw [← List.cons_append]; exact List.prefix_append _ _)]
    rfl
  | cons c text ih =>
    have hfirst : ¬delim <+: c :: (text ++ '\n' :: (delim ++ rest)) := fun h =>
      hfresh (prefix_before_newline (u := c :: text) hd h).isInfix
    have hrest : ¬delim <:+: text := fun h => hfresh (h.trans (List.suffix_cons c text).isInfix)
    rw [List.cons_append, readUntil, if_neg hfirst, ih hrest]
    rfl

theorem freshTag_fresh (body : List Char) (n : Nat) (tag : List Char) (hn : body.length ≤ tag.length + n) :
    ¬('$' :: freshTag body n tag ++ ['$']) <:+: body := by
  induction n generalizing tag with
  | zero =>
    intro h
    have hlength := h.length_le
    simp only [freshTag, List.cons_append, List.length_cons, List.length_append, List.length_nil] at hlength
    omega
  | succ n ih =>
    unfold freshTag
    split
    · exact ih _ (by simp only [List.length_append, List.length_cons, List.length_nil]; omega)
    · assumption

theorem freshTag_mem {body tag : List Char} {n : Nat} {c : Char} (h : c ∈ freshTag body n tag) :
    c ∈ tag ∨ c = 'x' := by
  induction n generalizing tag with
  | zero => exact .inl h
  | succ n ih =>
    unfold freshTag at h
    split at h
    · rcases ih h with hm | hm
      · simpa using hm
      · exact .inr hm
    · exact .inl h

theorem freshTag_head {body tag : List Char} {n : Nat} (h : tag ≠ []) :
    (freshTag body n tag).head? = tag.head? := by
  induction n generalizing tag with
  | zero => rfl
  | succ n ih =>
    unfold freshTag
    split
    · rw [ih (by simp), List.head?_append_of_ne_nil _ h]
    · rfl

theorem toDigitsCore_tagChar (fuel n : Nat) (ds : List Char) (hds : ∀ c ∈ ds, tagChar c = true) :
    ∀ c ∈ Nat.toDigitsCore 16 fuel n ds, tagChar c = true := by
  induction fuel generalizing n ds with
  | zero => exact hds
  | succ fuel ih =>
    have hdigit : tagChar (Nat.digitChar (n % 16)) = true := by
      have hall : ∀ d : Fin 16, tagChar (Nat.digitChar d) = true := by decide
      exact hall ⟨n % 16, Nat.mod_lt n (by decide)⟩
    have hcons : ∀ c ∈ Nat.digitChar (n % 16) :: ds, tagChar c = true := by
      intro c hc
      rcases List.mem_cons.mp hc with rfl | hc
      · exact hdigit
      · exact hds c hc
    unfold Nat.toDigitsCore
    dsimp only
    split
    · exact hcons
    · exact ih _ _ hcons

theorem bodyTag_tagChar (nanos : Nat) (body : List Char) : ∀ c ∈ bodyTag nanos body, tagChar c = true := by
  intro c hc
  have hword : ∀ c ∈ "body_".toList, tagChar c = true := List.all_eq_true.mp (by decide)
  rcases freshTag_mem hc with hm | rfl
  · rcases List.mem_append.mp hm with hm | hm
    · exact hword c hm
    · exact toDigitsCore_tagChar _ _ [] nofun c hm
  · decide

theorem bodyTag_head (nanos : Nat) (body : List Char) : (bodyTag nanos body).head? = some 'b' := by
  unfold bodyTag
  rw [freshTag_head (by simp)]
  rfl

/-- PostgreSQL reads back the text that was quoted, between two line breaks. -/
theorem readLiteral_dollarQuote (nanos : Nat) (source : String) :
    readLiteral (dollarQuote nanos source).toList = some ('\n' :: source.toList ++ ['\n']) := by
  have hchar := bodyTag_tagChar nanos source.toList
  have hhead := bodyTag_head nanos source.toList
  have hfresh := freshTag_fresh source.toList source.toList.length ("body_".toList ++ Nat.toDigits 16 nanos)
    (Nat.le_add_left _ _)
  rw [show freshTag source.toList source.toList.length ("body_".toList ++ Nat.toDigits 16 nanos) =
    bodyTag nanos source.toList from rfl] at hfresh
  unfold dollarQuote
  rw [String.toList_ofList]
  generalize bodyTag nanos source.toList = tag at hchar hhead hfresh ⊢
  have hdollar : ∀ c ∈ tag, decide (c ≠ '$') = true := by
    intro c hc
    rcases Decidable.em (c = '$') with rfl | hne
    · exact absurd (hchar _ hc) (by decide)
    · simpa using hne
  have hnewline : '\n' ∉ '$' :: tag ++ ['$'] := by
    intro hm
    simp only [List.cons_append, List.mem_cons, List.mem_append, List.not_mem_nil, or_false] at hm
    rcases hm with h | h | h
    · exact absurd h (by decide)
    · exact absurd (hchar _ h) (by decide)
    · exact absurd h (by decide)
  have hinfix : ¬('$' :: tag ++ ['$']) <:+: '\n' :: source.toList := by
    intro h
    rcases List.infix_cons_iff.mp h with h | h
    · exact absurd (List.cons_prefix_cons.mp h).1 (by decide)
    · exact hfresh h
  have hread := readUntil_text [] hnewline (by simp) hinfix
  have htake : (tag ++ '$' :: ('\n' :: (source.toList ++ '\n' :: ('$' :: tag ++ ['$'])))).takeWhile (· ≠ '$') = tag := by
    rw [List.takeWhile_append_of_pos hdollar]
    simp
  have hdrop : (tag ++ '$' :: ('\n' :: (source.toList ++ '\n' :: ('$' :: tag ++ ['$'])))).dropWhile (· ≠ '$') =
      '$' :: ('\n' :: (source.toList ++ '\n' :: ('$' :: tag ++ ['$']))) := by
    rw [List.dropWhile_append_of_pos hdollar]
    simp
  have hall : (tag.all tagChar && tag.head?.all (!·.isDigit)) = true := by
    rw [hhead]
    simpa using hchar
  simp only [List.cons_append, List.append_assoc, List.nil_append, readLiteral]
  simp only [List.cons_append, List.append_assoc, List.nil_append] at htake hdrop hread
  rw [htake, hdrop]
  simp only [hall, if_true]
  exact hread

end DollarQuote

/-- The source PostgreSQL keeps of a routine: what stood between the dollar quotes. -/
def keptSource (source : String) : String :=
  String.ofList ('\n' :: source.toList ++ ['\n'])

def guardCall (sqlIdent : String) : List PlToken :=
  [.word "allgres_private", symbol ".", .word "assert_local_execution", symbol "(", string sqlIdent, symbol ")"]

/-- What is documented of the scanner about the text in front of a body. -/
def PlPgSql.ScansGuard (L : PlPgSql) : Prop :=
  ∀ sqlIdent : String, '\'' ∉ sqlIdent.toList →
    L.scan ("BEGIN\nPERFORM allgres_private.assert_local_execution('" ++ sqlIdent ++ "');") =
      some (opens :: performs :: (guardCall sqlIdent ++ [semicolon]))

/-- The source runs the body as a block of its own, behind the guard. -/
structure RunsGuard (L : PlPgSql) (sqlIdent body source : String) : Prop where
  nested : ∃ ds b, L.parse (keptSource body) = some (ds, b) ∧
    L.parse source = some ([], .mk [] [.perform (guardCall sqlIdent), .block b] [])
  first : ∀ ds w, L.parse source = some (ds, w) → RunsFirst (guardCall sqlIdent) w

section Nesting

variable {L : PlPgSql}

theorem keptSource_eq (source : String) : keptSource source = "\n" ++ source ++ "\n" := by
  apply String.toList_injective
  simp [keptSource]

theorem scan_keptSource (hL : L.Scans) (source : String) : L.scan (keptSource source) = L.scan source := by
  have hempty : L.scan ("" ++ "\n" ++ source) = (L.scan source).map ([] ++ ·) :=
    hL.join "" source [] hL.empty (.inl rfl)
  rw [keptSource_eq, hL.trail]
  simpa using hempty

theorem scan_last (hL : L.Scans) {terminator : String} (ht : terminator = "" ∨ terminator = ";") :
    (terminator = "" ∧ L.scan (terminator ++ "\nEND;") = some [ends, semicolon]) ∨
      (terminator = ";" ∧ L.scan (terminator ++ "\nEND;") = some [semicolon, ends, semicolon]) := by
  rcases ht with rfl | rfl
  · have hscan : L.scan ("" ++ "\n" ++ "END;") = (L.scan "END;").map ([] ++ ·) :=
      hL.join "" "END;" [] hL.empty (.inl rfl)
    rw [hL.finish] at hscan
    exact .inl ⟨rfl, hscan⟩
  · have hscan : L.scan (";" ++ "\n" ++ "END;") = (L.scan "END;").map ([semicolon] ++ ·) :=
      hL.join ";" "END;" [semicolon] hL.separator (.inl rfl)
    rw [hL.finish] at hscan
    exact .inr ⟨rfl, hscan⟩

theorem scan_guardedSource (hL : L.Scans) (hg : L.ScansGuard) {sqlIdent body terminator : String}
    {ts last : List PlToken} (hident : '\'' ∉ sqlIdent.toList) (hbody : L.scan body = some ts)
    (hlast : L.scan (terminator ++ "\nEND;") = some last) (hstring : last.head?.any isString = false) :
    L.scan (guardedSource sqlIdent body terminator) =
      some (opens :: performs :: (guardCall sqlIdent ++ semicolon :: (ts ++ last))) := by
  have htail : L.scan (body ++ "\n" ++ (terminator ++ "\nEND;")) = some (ts ++ last) := by
    rw [hL.join body _ ts hbody (.inr ?_), hlast]
    · rfl
    · intro us hus
      rw [hlast] at hus
      cases hus
      exact hstring
  have hsplit : guardedSource sqlIdent body terminator =
      "BEGIN\nPERFORM allgres_private.assert_local_execution('" ++ sqlIdent ++ "');" ++ "\n" ++
        (body ++ "\n" ++ (terminator ++ "\nEND;")) := by
    have hline : "');\n" = "');" ++ "\n" := by
      apply String.toList_injective
      simp
    have hassoc : ∀ g i q n b t e : String,
        g ++ i ++ (q ++ n) ++ b ++ n ++ t ++ e = g ++ i ++ q ++ n ++ (b ++ n ++ (t ++ e)) := by
      intro g i q n b t e
      simp only [String.append_assoc]
    exact (congrArg (fun x => "BEGIN\nPERFORM allgres_private.assert_local_execution('" ++ sqlIdent ++ x ++
      body ++ "\n" ++ terminator ++ "\nEND;") hline).trans (hassoc _ _ _ _ _ _ _)
  rw [hsplit, hL.join _ _ _ (hg sqlIdent hident) (.inl ?_), htail]
  · simp
  · rw [show opens :: performs :: (guardCall sqlIdent ++ [semicolon]) =
      (opens :: performs :: guardCall sqlIdent) ++ [semicolon] by simp, List.getLast?_concat]
    rfl

theorem semicolon_not_mem_guardCall (sqlIdent : String) : semicolon ∉ guardCall sqlIdent := by
  simp [guardCall, semicolon]

/-- How the source around a body is read, whichever terminator it has. -/
theorem parse_guardedSource (hs : L.Scans) (hg : L.ScansGuard) {sqlIdent body terminator : String}
    {ts last : List PlToken} (hident : '\'' ∉ sqlIdent.toList) (hbody : L.scan body = some ts)
    (hlast : L.scan (terminator ++ "\nEND;") = some last)
    (hform : last = [ends, semicolon] ∨ last = [semicolon, ends, semicolon]) :
    L.parse (keptSource (guardedSource sqlIdent body terminator)) =
      L.body (opens :: performs :: (guardCall sqlIdent ++ semicolon :: (ts ++ last))) := by
  have hstring : last.head?.any isString = false := by
    rcases hform with rfl | rfl <;> rfl
  unfold PlPgSql.parse
  rw [scan_keptSource hs, scan_guardedSource hs hg hident hbody hlast hstring]
  rfl

/-- A body that is accepted on its own is guarded by the source around it, if that is accepted. -/
theorem guarded_of_accepted (hs : L.Scans) (hr : L.Reads) (hg : L.ScansGuard) {sqlIdent body terminator : String}
    (hident : '\'' ∉ sqlIdent.toList) (ht : terminator = "" ∨ terminator = ";")
    (hbody : (L.parse (keptSource body)).isSome)
    (hsource : (L.parse (keptSource (guardedSource sqlIdent body terminator))).isSome) :
    RunsGuard L sqlIdent body (keptSource (guardedSource sqlIdent body terminator)) := by
  obtain ⟨⟨ds, b⟩, hb⟩ := Option.isSome_iff_exists.mp hbody
  obtain ⟨⟨ds', w⟩, hw⟩ := Option.isSome_iff_exists.mp hsource
  obtain ⟨ts, hscan, hread⟩ := Option.bind_eq_some_iff.mp hb
  obtain ⟨last, hlast, hform⟩ : ∃ last, L.scan (terminator ++ "\nEND;") = some last ∧
      (last = [ends, semicolon] ∨ last = [semicolon, ends, semicolon]) := by
    rcases scan_last hs ht with ⟨-, h⟩ | ⟨-, h⟩
    · exact ⟨_, h, .inl rfl⟩
    · exact ⟨_, h, .inr rfl⟩
  rw [scan_keptSource hs] at hscan
  have hwread := parse_guardedSource hs hg hident hscan hlast hform ▸ hw
  have hsemi := semicolon_not_mem_guardCall sqlIdent
  have htree := PlPgSql.body_nested hr hsemi hread hform hwread
  obtain ⟨-, -, -, hds, -⟩ := PlPgSql.stmts_of_wrapped hr hsemi hwread
  rw [htree, hds] at hw
  refine ⟨⟨ds, b, hb, hw⟩, fun ds₂ w₂ h₂ => ?_⟩
  rw [hw] at h₂
  cases h₂
  exact runsFirst_nested _ _

end Nesting

theorem quote_not_mem_ident {kind : RoutineKind} {sqlIdent : String}
    (h : validSqlIdent sqlIdent kind.identStart = true) : '\'' ∉ sqlIdent.toList := by
  simp only [validSqlIdent, Bool.and_eq_true, List.all_eq_true, List.isPrefixOf_iff_prefix] at h
  obtain ⟨⟨⟨rest, hrest⟩, -⟩, hall⟩ := h
  intro hm
  rw [← hrest] at hm hall
  rcases List.mem_append.mp hm with hm | hm
  · cases kind <;> revert hm <;> decide
  · have hdrop : '\'' ∈ (kind.identStart.toList ++ rest).drop kind.identStart.length := by
      rw [← String.length_toList, List.drop_left]
      exact hm
    exact absurd (hall _ hdrop) (by decide)

abbrev Objects :=
  RoutineKind → String → Option String

def replaceObject (o : Objects) (kind : RoutineKind) (sqlIdent source : String) : Objects :=
  fun k i => if k = kind ∧ i = sqlIdent then some source else o k i

theorem replaceObject_again (o : Objects) (kind : RoutineKind) (sqlIdent a b : String) :
    replaceObject (replaceObject o kind sqlIdent a) kind sqlIdent b = replaceObject o kind sqlIdent b := by
  funext k i
  unfold replaceObject
  split_ifs <;> rfl

/-- What is documented of the server: which statements touch the routines of `allgres_functions`,
and that `CREATE` stores the text it is given. With `check_function_bodies` on, PL/pgSQL reads the
text first. -/
structure Deploys {δ : Type} (P : PgServer δ) (L : PlPgSql) (view : δ → Objects) (checks : δ → Bool) :
    Prop where
  role : ∀ n db, view (P.exec n ⟨"SELECT allgres.assume_worker_role()", []⟩ db).db = view db
  settings : ∀ n st db, st ∈ checkBodies :: buildSettings → view (P.exec n st db).db = view db
  checking : ∀ n db v, (P.exec n checkBodies db).outcome = .ok v → checks (P.exec n checkBodies db).db = true
  created : ∀ n kind sqlIdent q source db v, validSqlIdent sqlIdent kind.identStart = true →
    readLiteral q.toList = some source →
    (P.exec n ⟨"CREATE OR REPLACE " ++ declaration kind sqlIdent ++ " LANGUAGE plpgsql SECURITY INVOKER AS " ++
        q ++ ";", []⟩ db).outcome = .ok v → checks db = true →
      view (P.exec n ⟨"CREATE OR REPLACE " ++ declaration kind sqlIdent ++
          " LANGUAGE plpgsql SECURITY INVOKER AS " ++ q ++ ";", []⟩ db).db =
        replaceObject (view db) kind sqlIdent (String.ofList source) ∧
      checks (P.exec n ⟨"CREATE OR REPLACE " ++ declaration kind sqlIdent ++
          " LANGUAGE plpgsql SECURITY INVOKER AS " ++ q ++ ";", []⟩ db).db = true ∧
      (L.parse (String.ofList source)).isSome

/-- A `CREATE` that fails raises an error. -/
def CreateRaises {δ : Type} (P : PgServer δ) : Prop :=
  ∀ n kind sqlIdent nanos source db e, (P.exec n (createRoutine kind sqlIdent nanos source) db).outcome ≠ .err e

/-- How a closure that builds a routine may end. `o` and `B` are the objects and the levels it began
with. -/
structure Built {δ : Type} (P : PgServer δ) (L : PlPgSql) (view : δ → Objects) (kind : RoutineKind)
    (sqlIdent body : String) (o : Objects) (B : List δ) (r : WorkerSession δ × Ended (Except String Json)) :
    Prop where
  levels : B <:+ r.1.begun
  deployed : ∀ v, r.2 = .returned (.ok v) → r.1.begun = B →
    ∃ source, RunsGuard L sqlIdent body source ∧ view r.1.db = replaceObject o kind sqlIdent source
  answered : CreateRaises P → ∀ v, r.2 = .returned (.ok v) → r.1.begun = B
  refused : CreateRaises P → ∀ e, r.2 = .returned (.error e) → view r.1.db = o
  raised : CreateRaises P → ∀ e, r.2 = .thrown e → r.1.begun = B

section Deployment

variable {δ : Type} {P : PgServer δ} {L : PlPgSql} {view : δ → Objects} {checks : δ → Bool}
  {kind : RoutineKind} {sqlIdent body source : String} {s u : WorkerSession δ} {o : Objects} {B : List δ}

theorem spi_ok {st : Statement} {v : Option Json} (h : spi P st s = (u, .returned (.ok v))) :
    u.db = (P.exec s.clock st s.db).db ∧ (P.exec s.clock st s.db).outcome = .ok v ∧ u.begun = s.begun := by
  unfold spi at h
  obtain ⟨rfl, ho⟩ := Prod.mk.inj h
  refine ⟨rfl, ?_, rfl⟩
  cases hr : (P.exec s.clock st s.db).outcome <;> rw [hr] at ho <;> simp [SpiOutcome.ended] at ho
  rw [ho]

theorem spi_error {st : Statement} {e : String} (h : spi P st s = (u, .returned (.error e))) :
    (P.exec s.clock st s.db).outcome = .err e := by
  unfold spi at h
  obtain ⟨-, ho⟩ := Prod.mk.inj h
  cases hr : (P.exec s.clock st s.db).outcome <;> rw [hr] at ho <;> simp [SpiOutcome.ended] at ho
  rw [ho]

theorem allOk_view {sts : List Statement} (h : ∀ n st db, st ∈ sts → view (P.exec n st db).db = view db)
    (s : WorkerSession δ) : view (allOk P sts s).1.db = view s.db := by
  induction sts generalizing s with
  | nil => rfl
  | cons st rest ih =>
    have hfirst : view (spi P st s).1.db = view s.db := h s.clock st s.db List.mem_cons_self
    have hrest := ih fun n st' db hm => h n st' db (List.mem_cons_of_mem _ hm)
    simp only [allOk]
    rcases hr : spi P st s with ⟨s', (_ | _) | _⟩ <;> rw [hr] at hfirst
    · exact hfirst
    · exact (hrest s').trans hfirst
    · exact hfirst

theorem prepare_view (hP : Deploys P L view checks) (s : WorkerSession δ) :
    view (prepare P buildSettings s).1.db = view s.db := by
  have hdrop : view (dropPrivileges P s).1.db = view s.db := by
    rcases dropPrivileges_session P s with h | h <;> rw [h]
    exact hP.role s.clock s.db
  have hall := allOk_view (P := P) fun n st db hm => hP.settings n st db (List.mem_cons_of_mem _ hm)
  simp only [prepare]
  rcases hr : dropPrivileges P s with ⟨s', (_ | _) | _⟩ <;> rw [hr] at hdrop
  · exact hdrop
  · exact (hall s').trans hdrop
  · exact hdrop

theorem create_ok (hP : Deploys P L view checks) (hvalid : validSqlIdent sqlIdent kind.identStart = true)
    {v : Option Json} (hc : checks s.db = true)
    (h : spi P (create P kind sqlIdent source s) s = (u, .returned (.ok v))) :
    view u.db = replaceObject (view s.db) kind sqlIdent (keptSource source) ∧ checks u.db = true ∧
      (L.parse (keptSource source)).isSome ∧ u.begun = s.begun := by
  obtain ⟨hdb, hok, hbegun⟩ := spi_ok h
  have hread := readLiteral_dollarQuote (P.nanos s.clock) source
  obtain ⟨hview, hchecks, hparse⟩ := hP.created s.clock kind sqlIdent _ _ s.db v hvalid hread hok hc
  rw [hdb]
  exact ⟨hview, hchecks, hparse, hbegun⟩

/-- The last `CREATE` at the level of the build. -/
theorem finalCreate_built (hs : L.Scans) (hr : L.Reads) (hg : L.ScansGuard) (hP : Deploys P L view checks)
    (hvalid : validSqlIdent sqlIdent kind.identStart = true) (hbody : (L.parse (keptSource body)).isSome) (hc : checks s.db = true)
    (ho : view s.db = replaceObject o kind sqlIdent (keptSource body)) (hB : s.begun = B) :
    Built P L view kind sqlIdent body o B
      (runThen P (create P kind sqlIdent (guardedSource sqlIdent body ";")) returnNull s) := by
  have hflat := (spi_flat P (create P kind sqlIdent (guardedSource sqlIdent body ";") s)).begun s
  unfold runThen
  rcases hrun : spi P (create P kind sqlIdent (guardedSource sqlIdent body ";") s) s with ⟨u, (e | v) | e⟩ <;>
    rw [hrun] at hflat <;> have hu : u.begun = B := hflat.trans hB
  · have hcode := spi_error hrun
    exact ⟨hu ▸ List.suffix_rfl, nofun, fun _ => nofun, fun hno => absurd hcode (hno _ _ _ _ _ _ _), fun _ => nofun⟩
  · obtain ⟨hview, -, hparse, -⟩ := create_ok hP hvalid hc hrun
    refine ⟨hu ▸ List.suffix_rfl, fun _ _ _ => ⟨_, guarded_of_accepted hs hr hg (quote_not_mem_ident hvalid) (.inr rfl) hbody hparse, ?_⟩,
      fun _ _ _ => hu, fun _ => nofun, fun _ => nofun⟩
    rw [show (returnNull u).1.db = u.db from rfl, hview, ho, replaceObject_again]
  · exact ⟨hu ▸ List.suffix_rfl, nofun, fun _ => nofun, fun _ => nofun, fun _ _ _ => hu⟩

theorem createGuarded_built (hs : L.Scans) (hr : L.Reads) (hg : L.ScansGuard) (hP : Deploys P L view checks)
    (hvalid : validSqlIdent sqlIdent kind.identStart = true) (hbody : (L.parse (keptSource body)).isSome) (hc : checks s.db = true)
    (ho : view s.db = replaceObject o kind sqlIdent (keptSource body)) (hB : s.begun = B) :
    Built P L view kind sqlIdent body o B (createGuarded P kind sqlIdent body s) := by
  have hflat := (spi_flat P (create P kind sqlIdent (guardedSource sqlIdent body "") s.beginSub)).begun s.beginSub
  unfold createGuarded runInSubtransaction
  rw [runThen]
  rcases hrun : spi P (create P kind sqlIdent (guardedSource sqlIdent body "") s.beginSub) s.beginSub
    with ⟨u, (e | v) | e⟩ <;> rw [hrun] at hflat <;>
    have hu : u.begun = s.db :: B := by rw [← hB]; exact hflat
  · have hcode := spi_error hrun
    have hlast := (spi_flat P (create P kind sqlIdent (guardedSource sqlIdent body ";") u)).begun u
    have hopen : (runThen P (create P kind sqlIdent (guardedSource sqlIdent body ";")) returnNull u).1.begun =
        s.db :: B := by
      unfold runThen
      rcases hr : spi P (create P kind sqlIdent (guardedSource sqlIdent body ";") u) u with ⟨w, (_ | _) | _⟩ <;>
        rw [hr] at hlast <;> exact hlast.trans hu
    have hno : ¬CreateRaises P := fun hno => absurd hcode (hno _ _ _ _ _ _ _)
    refine ⟨?_, fun v _ hsame => ?_, fun h => absurd h hno, fun h => absurd h hno, fun h => absurd h hno⟩
    · simp only
      rw [hopen]
      exact List.suffix_cons _ _
    · simp only at hsame
      rw [hopen] at hsame
      have hlength := congrArg List.length hsame
      simp at hlength
  · obtain ⟨hview, -, hparse, -⟩ := create_ok (s := s.beginSub) hP hvalid hc hrun
    have hrelease : u.releaseSub.begun = B := by
      unfold WorkerSession.releaseSub
      rw [hu]
      rfl
    refine ⟨hrelease ▸ List.suffix_rfl, fun _ _ _ =>
      ⟨_, guarded_of_accepted hs hr hg (quote_not_mem_ident hvalid) (.inl rfl) hbody hparse, ?_⟩, fun _ _ _ => hrelease,
      fun _ _ h => (by cases h), fun _ _ h => (by cases h)⟩
    have hbefore : view s.beginSub.db = replaceObject o kind sqlIdent (keptSource body) := ho
    rw [hbefore, replaceObject_again] at hview
    exact hview
  · have hback : u.rollbackSub = { u with db := s.db, begun := B } := by
      unfold WorkerSession.rollbackSub
      rw [hu]
    have hdb : u.rollbackSub.db = s.db := by rw [hback]
    exact finalCreate_built hs hr hg hP hvalid hbody (by rw [hdb]; exact hc) (by rw [hdb]; exact ho) (by rw [hback])

theorem guardedBuild_built (hs : L.Scans) (hr : L.Reads) (hg : L.ScansGuard) (hP : Deploys P L view checks)
    (hvalid : validSqlIdent sqlIdent kind.identStart = true) :
    Built P L view kind sqlIdent body (view s.db) s.begun (guardedBuild P kind sqlIdent body s) := by
  have hprepare := prepare_view hP s
  have hflat := (prepare_flat P buildSettings).begun s
  unfold guardedBuild prepared
  rcases hp : prepare P buildSettings s with ⟨s₁, (_ | _) | _⟩ <;> rw [hp] at hprepare hflat
  · exact ⟨hflat ▸ List.suffix_rfl, nofun, fun _ => nofun, fun _ _ _ => hprepare, fun _ => nofun⟩
  · have hcheck : view (spi P checkBodies s₁).1.db = view s₁.db := hP.settings _ _ _ List.mem_cons_self
    have hflat₁ := (spi_flat P checkBodies).begun s₁
    simp only [runThen]
    rcases hc : spi P checkBodies s₁ with ⟨s₂, (_ | _) | _⟩ <;> rw [hc] at hcheck hflat₁ <;>
      have hB₂ : s₂.begun = s.begun := hflat₁.trans hflat
    · exact ⟨hB₂ ▸ List.suffix_rfl, nofun, fun _ => nofun, fun _ _ _ => hcheck.trans hprepare, fun _ => nofun⟩
    · obtain ⟨hdb, hok, -⟩ := spi_ok hc
      have hchecks : checks s₂.db = true := by
        rw [hdb]
        exact hP.checking _ _ _ hok
      have hflat₂ := (spi_flat P (create P kind sqlIdent body s₂)).begun s₂
      dsimp only
      rcases hb : spi P (create P kind sqlIdent body s₂) s₂ with ⟨s₃, (_ | _) | _⟩ <;> rw [hb] at hflat₂ <;>
        have hB₃ : s₃.begun = s.begun := hflat₂.trans hB₂
      · have hcode := spi_error hb
        exact ⟨hB₃ ▸ List.suffix_rfl, nofun, fun _ => nofun, fun hno => absurd hcode (hno _ _ _ _ _ _ _), fun _ => nofun⟩
      · obtain ⟨hview, hchecks₃, hparse, -⟩ := create_ok hP hvalid hchecks hb
        have hbefore : view s₂.db = view s.db := hcheck.trans hprepare
        rw [hbefore] at hview
        exact createGuarded_built hs hr hg hP hvalid hparse hchecks₃ hview hB₃
      · exact ⟨hB₃ ▸ List.suffix_rfl, nofun, fun _ => nofun, fun _ => nofun, fun _ _ _ => hB₃⟩
    · exact ⟨hB₂ ▸ List.suffix_rfl, nofun, fun _ => nofun, fun _ => nofun, fun _ _ _ => hB₂⟩
  · exact ⟨hflat ▸ List.suffix_rfl, nofun, fun _ => nofun, fun _ => nofun, fun _ _ _ => hflat⟩

end Deployment

/-- The objects of a database, or those of it with one routine built anew behind its guard. -/
def GuardedOrKept {δ : Type} (L : PlPgSql) (view : δ → Objects) (kind : RoutineKind) (sqlIdent body : String)
    (db db' : δ) : Prop :=
  view db' = view db ∨
    ∃ source, RunsGuard L sqlIdent body source ∧ view db' = replaceObject (view db) kind sqlIdent source

/-- What every other session sees of the database. -/
def WorkerSession.committed {δ : Type} (s : WorkerSession δ) : δ :=
  s.begun.getLast?.getD s.db

section Committed

variable {δ : Type} {P : PgServer δ} {s : WorkerSession δ} {f : Closure δ}

/-- Between two jobs no transaction is open but for a level that a job has left. -/
def Between (s : WorkerSession δ) : Prop :=
  s.begun.length ≠ 1

/-- The level of a subtransaction is ended by itself, or stays open for good. -/
theorem sub_levels (hf : s.beginSub.begun <:+ (f s.beginSub).1.begun) :
    (runInSubtransaction f s).1.begun = s.begun ∨
      ∃ x, x ≠ [] ∧ (runInSubtransaction f s).1.begun = x ++ s.begun := by
  obtain ⟨x, hx⟩ := hf
  have hbegin : s.beginSub.begun = s.db :: s.begun := rfl
  rw [hbegin] at hx
  unfold runInSubtransaction
  rcases hr : f s.beginSub with ⟨t, (e | v) | e⟩ <;> rw [hr] at hx <;> dsimp only at hx ⊢
  · exact .inr ⟨x ++ [s.db], by simp, by rw [← hx]; simp⟩
  · unfold WorkerSession.releaseSub
    rw [← hx]
    cases x with
    | nil => exact .inl rfl
    | cons d x => exact .inr ⟨x ++ [s.db], by simp, by simp⟩
  · unfold WorkerSession.rollbackSub
    rw [← hx]
    cases x with
    | nil => exact .inl rfl
    | cons d x => exact .inr ⟨x ++ [s.db], by simp, by simp⟩

theorem start_begun (s : WorkerSession δ) :
    (s.begun = [] ∧ s.startTransaction.begun = [s.db]) ∨ (s.begun ≠ [] ∧ s.startTransaction = s) := by
  unfold WorkerSession.startTransaction
  cases hb : s.begun with
  | nil => exact .inl ⟨rfl, rfl⟩
  | cons d x => exact .inr ⟨by simp, rfl⟩

theorem commit_db (s : WorkerSession δ) : s.commitTransaction.db = s.db := by
  unfold WorkerSession.commitTransaction
  split <;> rfl

theorem commit_single {d : δ} (h : s.begun = [d]) : s.commitTransaction = { s with begun := [] } := by
  unfold WorkerSession.commitTransaction
  rw [h]

theorem start_db (s : WorkerSession δ) : s.startTransaction.db = s.db := by
  unfold WorkerSession.startTransaction
  split <;> rfl

theorem two_le_of_between (hs : Between s) (hne : s.begun ≠ []) : 2 ≤ s.begun.length := by
  have hpos := List.length_pos_iff.mpr hne
  unfold Between at hs
  omega

/-- A transaction commits what its subtransaction has done, or nothing. -/
theorem transaction_committed (hs : Between s) (hf : s.inJob.begun <:+ (f s.inJob).1.begun) :
    Between (transaction (runInSubtransaction f) s).1 ∧
      ((transaction (runInSubtransaction f) s).1.committed = s.committed ∨
        (s.begun = [] ∧ (runInSubtransaction f s.startTransaction).1.begun = s.startTransaction.begun ∧
          (transaction (runInSubtransaction f) s).1.committed =
            (runInSubtransaction f s.startTransaction).1.db)) := by
  have hlevels := sub_levels hf
  unfold transaction
  generalize runInSubtransaction f s.startTransaction = r at hlevels ⊢
  dsimp only
  rcases start_begun s with ⟨hnone, hstart⟩ | ⟨hopen, hstart⟩
  · rcases hlevels with hsame | ⟨x, hx, hmore⟩
    · have hend := commit_single (hsame.trans hstart)
      rw [hend]
      exact ⟨by simp [Between], .inr ⟨hnone, hsame, rfl⟩⟩
    · rw [hstart] at hmore
      have htwo : 2 ≤ r.1.begun.length := by
        have hpos := List.length_pos_iff.mpr hx
        rw [hmore, List.length_append, List.length_singleton]
        omega
      rw [commit_of_two htwo]
      refine ⟨by unfold Between; omega, .inl ?_⟩
      simp [WorkerSession.committed, hmore, hnone]
  · have htwo := two_le_of_between hs hopen
    have hkept : ∃ x, r.1.begun = x ++ s.begun := by
      rw [hstart] at hlevels
      rcases hlevels with hsame | ⟨x, -, hmore⟩
      · exact ⟨[], hsame⟩
      · exact ⟨x, hmore⟩
    obtain ⟨x, hx⟩ := hkept
    have hlength : 2 ≤ r.1.begun.length := by
      rw [hx, List.length_append]
      omega
    rw [commit_of_two hlength]
    refine ⟨by unfold Between; omega, .inl ?_⟩
    simp only [WorkerSession.committed, hx, List.getLast?_append_of_ne_nil _ hopen]
    cases hl : s.begun.getLast? with
    | none => exact absurd (List.getLast?_eq_none_iff.mp hl) hopen
    | some d => rfl

/-- A level that is left open is never committed. -/
theorem transaction_left (hs : Between s) (hf : s.inJob.begun <:+ (f s.inJob).1.begun)
    (hleft : (transaction (runInSubtransaction f) s).1.begun ≠ []) :
    (transaction (runInSubtransaction f) s).1.committed = s.committed := by
  obtain ⟨-, hkept | ⟨hnone, hlevel, -⟩⟩ := transaction_committed hs hf
  · exact hkept
  · rcases start_begun s with ⟨-, hstart⟩ | ⟨hopen, -⟩
    · unfold transaction at hleft
      dsimp only at hleft
      rw [commit_single (hlevel.trans hstart)] at hleft
      exact absurd rfl hleft
    · exact absurd hnone hopen

/-- What is open when a job begins is open when it ends. -/
theorem transaction_open (hs : Between s) (hf : s.inJob.begun <:+ (f s.inJob).1.begun)
    (hopen : s.begun ≠ []) : (transaction (runInSubtransaction f) s).1.begun ≠ [] := by
  have hlevels := sub_levels hf
  have hstart : s.startTransaction = s := by
    rcases start_begun s with ⟨hnone, -⟩ | ⟨-, hstart⟩
    · exact absurd hnone hopen
    · exact hstart
  have htwo := two_le_of_between hs hopen
  obtain ⟨x, hx⟩ : ∃ x, (runInSubtransaction f s.startTransaction).1.begun = x ++ s.begun := by
    rw [hstart] at hlevels ⊢
    rcases hlevels with hsame | ⟨x, -, hmore⟩
    · exact ⟨[], hsame⟩
    · exact ⟨x, hmore⟩
  have hlength : 2 ≤ (runInSubtransaction f s.startTransaction).1.begun.length := by
    rw [hx, List.length_append]
    omega
  unfold transaction
  dsimp only
  rw [commit_of_two hlength, hx]
  simp [hopen]

end Committed

/-- A closure that leaves the levels below it alone. -/
def Rising {δ : Type} (f : Closure δ) : Prop :=
  ∀ s, s.begun <:+ (f s).1.begun

section Rising

variable {δ : Type} {P : PgServer δ} {f : Closure δ}

theorem prepared_rising (settings : List Statement) (refusal : String) (hf : Rising f) :
    Rising (prepared P settings refusal f) := by
  intro s
  have hflat := (prepare_flat P settings).begun s
  unfold prepared
  rcases hr : prepare P settings s with ⟨t, (_ | _) | _⟩ <;> rw [hr] at hflat <;> dsimp only at hflat ⊢
  · exact hflat ▸ List.suffix_rfl
  · exact hflat ▸ hf t
  · exact hflat ▸ List.suffix_rfl

theorem runThen_rising (st : WorkerSession δ → Statement) (hf : Rising f) : Rising (runThen P st f) := by
  intro s
  have hflat := (spi_flat P (st s)).begun s
  unfold runThen
  rcases hr : spi P (st s) s with ⟨t, (_ | _) | _⟩ <;> rw [hr] at hflat <;> dsimp only at hflat ⊢
  · exact hflat ▸ List.suffix_rfl
  · exact hflat ▸ hf t
  · exact hflat ▸ List.suffix_rfl

theorem returnNull_rising : Rising (returnNull : Closure δ) :=
  fun _ => List.suffix_rfl

theorem timedCall_rising (ms : Nat) (call : Statement) (whenNone : Except String Json) :
    Rising (timedCall P ms call whenNone) := by
  intro s
  have hflat : (spi P call (s.enableTimeout ms)).1.begun = s.begun := rfl
  unfold timedCall
  rcases hr : spi P call (s.enableTimeout ms) with ⟨t, (_ | (_ | _)) | _⟩ <;> rw [hr] at hflat <;>
    dsimp only at hflat ⊢ <;> exact hflat ▸ List.suffix_rfl

theorem createGuarded_rising (kind : RoutineKind) (sqlIdent body : String) :
    Rising (createGuarded P kind sqlIdent body) := by
  intro s
  have hfirst := sub_levels (s := s) (runThen_rising (P := P)
    (create P kind sqlIdent (guardedSource sqlIdent body "")) returnNull_rising s.beginSub)
  have hlast := runThen_rising (P := P) (create P kind sqlIdent (guardedSource sqlIdent body ";")) returnNull_rising
  have hsuffix : s.begun <:+
      (runInSubtransaction (runThen P (create P kind sqlIdent (guardedSource sqlIdent body "")) returnNull) s).1.begun := by
    rcases hfirst with h | ⟨x, -, h⟩ <;> rw [h]
    exact List.suffix_append _ _
  unfold createGuarded
  rcases hr : runInSubtransaction (runThen P (create P kind sqlIdent (guardedSource sqlIdent body "")) returnNull) s
    with ⟨t, _ | _⟩ <;> rw [hr] at hsuffix
  · exact hsuffix.trans (hlast t)
  · exact hsuffix

theorem guardedBuild_rising (kind : RoutineKind) (sqlIdent body : String) :
    Rising (guardedBuild P kind sqlIdent body) :=
  prepared_rising _ _ (runThen_rising _ (runThen_rising _ (createGuarded_rising kind sqlIdent body)))

theorem transaction_between {s : WorkerSession δ} (hs : Between s) (hf : Rising f) :
    Between (transaction (runInSubtransaction f) s).1 :=
  (transaction_committed hs (hf s.inJob)).1

/-- A job is refused, or it is a closure in a subtransaction of its own transaction. -/
theorem jobStep_cases (P : PgServer δ) (s : WorkerSession δ) (job : PumpJob) :
    jobStep P s job = s ∨ ∃ f, Rising f ∧ jobStep P s job = (transaction (runInSubtransaction f) s).1 := by
  have hchecked : ∀ (ok : Bool) (g : Closure δ), Rising g →
      let r := (if ok then transaction (runInSubtransaction g) s else (s, .error "invalid sql_ident")).1
      r = s ∨ ∃ f, Rising f ∧ r = (transaction (runInSubtransaction f) s).1 := by
    intro ok g hg
    cases ok with
    | true => exact .inr ⟨g, hg, rfl⟩
    | false => exact .inl rfl
  cases job with
  | sandboxedSql agentId sql pgRole =>
    exact .inr ⟨_, prepared_rising _ _ (timedCall_rising _ _ _), rfl⟩
  | build kind sqlIdent body => exact hchecked _ _ (guardedBuild_rising kind sqlIdent body)
  | functionCall callId sqlIdent args pgRole =>
    exact hchecked _ _ (prepared_rising _ _ (timedCall_rising _ _ _))
  | procedureCall callId sqlIdent args pgRole =>
    exact hchecked _ _ (prepared_rising _ _ (timedCall_rising _ _ _))

theorem jobStep_between {s : WorkerSession δ} (hs : Between s) (job : PumpJob) : Between (jobStep P s job) := by
  rcases jobStep_cases P s job with hsame | ⟨f, hf, hstep⟩
  · rw [hsame]
    exact hs
  · rw [hstep]
    exact transaction_between hs hf

/-- Once a level was left open, the jobs commit nothing any more. -/
theorem run_open {s : WorkerSession δ} (hs : Between s) (hopen : s.begun ≠ []) (jobs : List PumpJob) :
    (run (jobStep P) s jobs).committed = s.committed := by
  have hstep : ∀ (t : WorkerSession δ) (job : PumpJob),
      Between t ∧ t.begun ≠ [] ∧ t.committed = s.committed → True →
        Between (jobStep P t job) ∧ (jobStep P t job).begun ≠ [] ∧
          (jobStep P t job).committed = s.committed := by
    rintro t job ⟨ht, hto, htc⟩ -
    refine ⟨jobStep_between ht job, ?_⟩
    rcases jobStep_cases P t job with hsame | ⟨f, hf, hstep⟩
    · rw [hsame]
      exact ⟨hto, htc⟩
    · have hstill := transaction_open ht (hf t.inJob) hto
      rw [hstep]
      exact ⟨hstill, (transaction_left ht (hf t.inJob) hstill).trans htc⟩
  exact (invariant hstep ⟨hs, hopen, rfl⟩ (along_true s jobs)).2.2

end Rising

/-- PL/pgSQL as far as it is documented. -/
structure PlPgSql.Documented (L : PlPgSql) : Prop where
  scans : L.Scans
  reads : L.Reads
  guard : L.ScansGuard

section Guarded

variable {δ : Type} {P : PgServer δ} {L : PlPgSql} {view : δ → Objects} {checks : δ → Bool}
  {kind : RoutineKind} {sqlIdent body : String} {s : WorkerSession δ}

/-- The subtransaction of a build, once its level is ended. -/
theorem buildSub_guarded (hL : L.Documented) (hP : Deploys P L view checks)
    (hvalid : validSqlIdent sqlIdent kind.identStart = true)
    (hlevel : (runInSubtransaction (guardedBuild P kind sqlIdent body) s).1.begun = s.begun ∨ CreateRaises P) :
    GuardedOrKept L view kind sqlIdent body s.db
      (runInSubtransaction (guardedBuild P kind sqlIdent body) s).1.db := by
  have hbuilt : Built P L view kind sqlIdent body (view s.beginSub.db) s.beginSub.begun
      (guardedBuild P kind sqlIdent body s.beginSub) :=
    guardedBuild_built hL.scans hL.reads hL.guard hP hvalid
  have hbegin : s.beginSub.begun = s.db :: s.begun := rfl
  unfold runInSubtransaction at hlevel ⊢
  rcases hr : guardedBuild P kind sqlIdent body s.beginSub with ⟨t, (e | v) | e⟩ <;> rw [hr] at hbuilt hlevel <;>
    obtain ⟨x, hx⟩ := hbuilt.levels <;> rw [hbegin] at hx <;> dsimp only at hx hlevel ⊢
  · left
    rcases hlevel with hsame | hraises
    · rw [hsame] at hx
      have hlength := congrArg List.length hx
      simp at hlength
      omega
    · exact hbuilt.refused hraises e rfl
  · right
    have hbalanced : t.begun = s.beginSub.begun := by
      rcases hlevel with hsame | hraises
      · unfold WorkerSession.releaseSub at hsame
        rw [← hx] at hsame ⊢
        cases x with
        | nil => rfl
        | cons d x =>
          have hlength := congrArg List.length hsame
          simp at hlength
          omega
      · exact hbuilt.answered hraises v rfl
    exact hbuilt.deployed v rfl hbalanced
  · left
    have hbalanced : t.begun = s.beginSub.begun := by
      rcases hlevel with hsame | hraises
      · unfold WorkerSession.rollbackSub at hsame
        rw [← hx] at hsame ⊢
        cases x with
        | nil => rfl
        | cons d x =>
          have hlength := congrArg List.length hsame
          simp at hlength
          omega
      · exact hbuilt.raised hraises e rfl
    unfold WorkerSession.rollbackSub
    rw [hbalanced, hbegin]

theorem runGuardedBuild_guarded (hL : L.Documented) (hP : Deploys P L view checks) (hs : Between s) :
    GuardedOrKept L view kind sqlIdent body s.committed (runGuardedBuild P kind sqlIdent body s).1.committed ∧
      (CreateRaises P →
        GuardedOrKept L view kind sqlIdent body s.db (runGuardedBuild P kind sqlIdent body s).1.db) := by
  unfold runGuardedBuild
  by_cases hvalid : validSqlIdent sqlIdent kind.identStart = true
  · rw [if_pos hvalid]
    have hdb := start_db s
    constructor
    · obtain ⟨-, hkept | ⟨hnone, hlevel, hcommitted⟩⟩ :=
        transaction_committed hs (guardedBuild_rising (P := P) kind sqlIdent body s.inJob)
      · left
        rw [hkept]
      · have hguarded := buildSub_guarded hL hP hvalid (.inl hlevel)
        rw [hcommitted]
        rw [hdb] at hguarded
        simpa [WorkerSession.committed, hnone] using hguarded
    · intro hraises
      have hguarded : GuardedOrKept L view kind sqlIdent body s.startTransaction.db
          (runInSubtransaction (guardedBuild P kind sqlIdent body) s.startTransaction).1.db :=
        buildSub_guarded hL hP hvalid (.inr hraises)
      rw [hdb] at hguarded
      unfold transaction
      dsimp only
      rw [commit_db]
      exact hguarded
  · rw [if_neg hvalid]
    exact ⟨.inl rfl, fun _ => .inl rfl⟩

/-- What a build leaves open, no later job commits. -/
theorem runGuardedBuild_left (hs : Between s)
    (hleft : (runGuardedBuild P kind sqlIdent body s).1.begun ≠ []) (later : List PumpJob) :
    (run (jobStep P) (runGuardedBuild P kind sqlIdent body s).1 later).committed = s.committed := by
  have hbuild : Between (runGuardedBuild P kind sqlIdent body s).1 :=
    jobStep_between (P := P) hs (.build kind sqlIdent body)
  rw [run_open hbuild hleft]
  unfold runGuardedBuild at hleft ⊢
  by_cases hvalid : validSqlIdent sqlIdent kind.identStart = true
  · rw [if_pos hvalid] at hleft ⊢
    exact transaction_left hs (guardedBuild_rising (P := P) kind sqlIdent body s.inJob) hleft
  · rw [if_neg hvalid]

/-- After any jobs of the worker, a build commits its body behind the guard or nothing at all, and
what it leaves uncommitted no later job commits; and as long as a failing `CREATE` raises an error, the
session itself sees nothing else either. -/
theorem builds_deploy_guarded (hL : L.Documented) (hP : Deploys P L view checks) (hidle : s.Idle)
    (jobs : List PumpJob) (kind : RoutineKind) (sqlIdent body : String) :
    GuardedOrKept L view kind sqlIdent body (run (jobStep P) s jobs).committed
        (runGuardedBuild P kind sqlIdent body (run (jobStep P) s jobs)).1.committed ∧
      (∀ later, (runGuardedBuild P kind sqlIdent body (run (jobStep P) s jobs)).1.begun ≠ [] →
        (run (jobStep P) (runGuardedBuild P kind sqlIdent body (run (jobStep P) s jobs)).1 later).committed =
          (run (jobStep P) s jobs).committed) ∧
      (CreateRaises P → GuardedOrKept L view kind sqlIdent body (run (jobStep P) s jobs).db
        (runGuardedBuild P kind sqlIdent body (run (jobStep P) s jobs)).1.db) := by
  have hstart : Between s := by simp [Between, hidle.begun]
  have hstep : ∀ (t : WorkerSession δ) (job : PumpJob), Between t → True → Between (jobStep P t job) :=
    fun _ job ht _ => jobStep_between ht job
  have hbetween : Between (run (jobStep P) s jobs) :=
    invariant hstep hstart (along_true s jobs)
  obtain ⟨hcommitted, hseen⟩ := runGuardedBuild_guarded hL hP hbetween
  exact ⟨hcommitted, fun later hleft => runGuardedBuild_left hbetween hleft later, hseen⟩

end Guarded

namespace Fragment

theorem lexAll_string {w s : List Char} (h : '\'' ∉ s) :
    lexAll (.inString w) s = ([], .inString (w ++ s)) := by
  induction s generalizing w with
  | nil => simp [lexAll]
  | cons c s ih =>
    have hc : c ≠ '\'' := fun he => h (he ▸ List.mem_cons_self)
    have hs := ih (w := w ++ [c]) fun hm => h (List.mem_cons_of_mem _ hm)
    simp only [lexAll, LexState.step, if_neg hc, hs, List.nil_append, List.append_assoc, List.cons_append]

theorem fragment_scansGuard : fragment.ScansGuard := by
  intro sqlIdent hident
  have hfront : lexAll .blank "BEGIN\nPERFORM allgres_private.assert_local_execution('".toList =
      ([opens, performs, .word "allgres_private", symbol ".", .word "assert_local_execution", symbol "("],
        .inString []) := by
    decide +kernel
  have hback : lexAll (.inString sqlIdent.toList) "');".toList =
      ([string (String.ofList sqlIdent.toList), symbol ")", symbol ";"], .blank) := rfl
  show finishLex (lexAll .blank _) = _
  rw [String.toList_append, String.toList_append, List.append_assoc, lexAll_append, hfront]
  dsimp only
  rw [lexAll_append, lexAll_string hident]
  simp only [List.nil_append]
  rw [hback, String.ofList_toList]
  rfl

theorem fragment_documented : fragment.Documented :=
  ⟨fragment_scans, fragment_reads, fragment_scansGuard⟩

def readTail (kind : RoutineKind) (n : Nat) (front back cs : List Char) :
    Option (RoutineKind × List Char × List Char) :=
  (Scan.after front cs).bind fun i =>
    (Scan.after back (i.drop n)).bind fun u =>
      (Scan.after " LANGUAGE plpgsql SECURITY INVOKER AS ".toList u).map fun q => (kind, i.take n, q.dropLast)

/-- What a `CREATE` statement of the worker names and quotes. -/
def readCreate (cs : List Char) : Option (RoutineKind × List Char × List Char) :=
  (Scan.after "CREATE OR REPLACE ".toList cs).bind fun r =>
    if r.head? = some 'F' then
      readTail .function 35 "FUNCTION allgres_functions.".toList "(p_args jsonb) RETURNS jsonb".toList r
    else
      readTail .procedure 37 "PROCEDURE allgres_functions.".toList "(p_args jsonb, INOUT p_result jsonb)".toList r

theorem length_of_valid {sqlIdent start : String} (h : validSqlIdent sqlIdent start = true) :
    sqlIdent.toList.length = start.length + 32 := by
  simp only [validSqlIdent, Bool.and_eq_true, List.isPrefixOf_iff_prefix, decide_eq_true_eq,
    List.length_drop] at h
  have hle := h.1.1.length_le
  rw [String.length_toList] at hle
  omega

theorem readTail_text (kind : RoutineKind) {n : Nat} {i : List Char} (front back q : List Char)
    (hn : i.length = n) :
    readTail kind n front back
        (front ++ (i ++ (back ++ (" LANGUAGE plpgsql SECURITY INVOKER AS ".toList ++ (q ++ [';']))))) =
      some (kind, i, q) := by
  subst hn
  simp only [readTail, Scan.after_append, Option.bind_some, List.take_left, List.drop_left, Option.map_some,
    List.dropLast_concat]

theorem readCreate_text {kind : RoutineKind} {sqlIdent q : String}
    (h : validSqlIdent sqlIdent kind.identStart = true) :
    readCreate ("CREATE OR REPLACE " ++ declaration kind sqlIdent ++ " LANGUAGE plpgsql SECURITY INVOKER AS " ++
      q ++ ";").toList = some (kind, sqlIdent.toList, q.toList) := by
  have hlength := length_of_valid h
  have htext : ∀ a b c d e : String, (a ++ (b ++ c ++ d) ++ e ++ q ++ ";").toList =
      a.toList ++ (b.toList ++ (c.toList ++ (d.toList ++ (e.toList ++ (q.toList ++ [';']))))) := by
    intro a b c d e
    simp [List.append_assoc]
  cases kind with
  | function =>
    have hhead : ∀ x, ("FUNCTION allgres_functions.".toList ++ x).head? = some 'F' := by
      intro x
      rw [List.head?_append_of_ne_nil _ (by decide)]
      decide
    have hn : sqlIdent.toList.length = 35 := hlength.trans (by decide)
    have htail := readTail_text .function "FUNCTION allgres_functions.".toList
      "(p_args jsonb) RETURNS jsonb".toList q.toList hn
    unfold declaration
    rw [htext, readCreate, Scan.after_append, Option.bind_some, if_pos (hhead _)]
    exact htail
  | procedure =>
    have hhead : ∀ x, ("PROCEDURE allgres_functions.".toList ++ x).head? ≠ some 'F' := by
      intro x
      rw [List.head?_append_of_ne_nil _ (by decide)]
      decide
    have hn : sqlIdent.toList.length = 37 := hlength.trans (by decide)
    have htail := readTail_text .procedure "PROCEDURE allgres_functions.".toList
      "(p_args jsonb, INOUT p_result jsonb)".toList q.toList hn
    unfold declaration
    rw [htext, readCreate, Scan.after_append, Option.bind_some, if_neg (hhead _)]
    exact htail

/-- A server that keeps the routines of `allgres_functions`, and whether their bodies are checked. -/
def fragmentServer : PgServer (Objects × Bool) where
  exec _ st db :=
    if st.sql = checkBodies.sql then ⟨(db.1, true), .ok none, false⟩
    else match readCreate st.sql.toList with
      | none => ⟨db, .ok (some (.bool true)), false⟩
      | some (kind, sqlIdent, q) => match readLiteral q with
        | none => ⟨db, .raised "unterminated dollar-quoted string", false⟩
        | some source =>
          if db.2 && (fragment.parse (String.ofList source)).isNone then ⟨db, .raised "syntax error", false⟩
          else ⟨(replaceObject db.1 kind (String.ofList sqlIdent) (String.ofList source), db.2), .ok none, false⟩
  nanos n := n

theorem checkBodies_not_create : readCreate checkBodies.sql.toList = none := by
  decide +kernel

/-- The same server for another reader of the bodies. -/
def textServer (L : PlPgSql) : PgServer (Objects × Bool) where
  exec _ st db :=
    if st.sql = checkBodies.sql then ⟨(db.1, true), .ok none, false⟩
    else match readCreate st.sql.toList with
      | none => ⟨db, .ok (some (.bool true)), false⟩
      | some (kind, sqlIdent, q) => match readLiteral q with
        | none => ⟨db, .raised "unterminated dollar-quoted string", false⟩
        | some source =>
          if db.2 && (L.parse (String.ofList source)).isNone then ⟨db, .raised "syntax error", false⟩
          else ⟨(replaceObject db.1 kind (String.ofList sqlIdent) (String.ofList source), db.2), .ok none, false⟩
  nanos n := n

/-- What `CREATE` does there. -/
theorem textServer_create (L : PlPgSql) (n : Nat) {kind : RoutineKind} {sqlIdent q : String} {source : List Char}
    (db : Objects × Bool) (hvalid : validSqlIdent sqlIdent kind.identStart = true)
    (hread : readLiteral q.toList = some source) :
    (textServer L).exec n ⟨"CREATE OR REPLACE " ++ declaration kind sqlIdent ++
        " LANGUAGE plpgsql SECURITY INVOKER AS " ++ q ++ ";", []⟩ db =
      if db.2 && (L.parse (String.ofList source)).isNone then ⟨db, .raised "syntax error", false⟩
      else ⟨(replaceObject db.1 kind sqlIdent (String.ofList source), db.2), .ok none, false⟩ := by
  have htext := readCreate_text (q := q) hvalid
  generalize "CREATE OR REPLACE " ++ declaration kind sqlIdent ++ " LANGUAGE plpgsql SECURITY INVOKER AS " ++
    q ++ ";" = text at htext ⊢
  have hne : text ≠ checkBodies.sql := by
    rintro rfl
    rw [checkBodies_not_create] at htext
    cases htext
  simp only [textServer, if_neg hne, htext, hread, String.ofList_toList]

/-- A statement that neither creates a routine nor turns the checks on. -/
theorem textServer_other (L : PlPgSql) (n : Nat) {st : Statement} (db : Objects × Bool)
    (hne : st.sql ≠ checkBodies.sql) (hnone : readCreate st.sql.toList = none) :
    (textServer L).exec n st db = ⟨db, .ok (some (.bool true)), false⟩ := by
  simp only [textServer, if_neg hne, hnone]

theorem textServer_role (L : PlPgSql) (n : Nat) (db : Objects × Bool) :
    (textServer L).exec n ⟨"SELECT allgres.assume_worker_role()", []⟩ db = ⟨db, .ok (some (.bool true)), false⟩ :=
  textServer_other L n db (by decide +kernel) (by decide +kernel)

theorem textServer_admin (L : PlPgSql) (n : Nat) (db : Objects × Bool) :
    (textServer L).exec n ⟨"SET LOCAL ROLE allgres_function_admin", []⟩ db =
      ⟨db, .ok (some (.bool true)), false⟩ :=
  textServer_other L n db (by decide +kernel) (by decide +kernel)

theorem textServer_checks (L : PlPgSql) (n : Nat) (db : Objects × Bool) :
    (textServer L).exec n checkBodies db = ⟨(db.1, true), .ok none, false⟩ := by
  simp only [textServer, if_true]

theorem textServer_deploys (L : PlPgSql) : Deploys (textServer L) L Prod.fst Prod.snd where
  role n db := by rw [textServer_role]
  settings n st db hst := by
    rcases List.mem_cons.mp hst with rfl | hst
    · rw [textServer_checks]
    · rw [List.mem_singleton.mp hst, textServer_admin]
  checking n db v _ := by rw [textServer_checks]
  created n kind sqlIdent q source db v hvalid hread hok hchecks := by
    rw [textServer_create L n db hvalid hread] at hok ⊢
    rw [hchecks] at hok ⊢
    cases hp : L.parse (String.ofList source) with
    | none => simp [hp] at hok
    | some r => simp

theorem fragmentServer_deploys : Deploys fragmentServer fragment Prod.fst Prod.snd :=
  textServer_deploys fragment

theorem fragment_build_guarded :
    let s := run (jobStep fragmentServer) ⟨(fun _ _ => none, false), [], none, 0⟩
      [.build .function "fn_0123456789abcdef0123456789abcdef" "BEGIN NULL"]
    let t := (runGuardedBuild fragmentServer .function "fn_0123456789abcdef0123456789abcdef"
      "BEGIN NULL; END" s).1
    GuardedOrKept fragment Prod.fst .function "fn_0123456789abcdef0123456789abcdef" "BEGIN NULL; END"
        s.committed t.committed ∧
      (∀ later, t.begun ≠ [] → (run (jobStep fragmentServer) t later).committed = s.committed) ∧
      (CreateRaises fragmentServer →
        GuardedOrKept fragment Prod.fst .function "fn_0123456789abcdef0123456789abcdef" "BEGIN NULL; END"
          s.db t.db) :=
  builds_deploy_guarded fragment_documented fragmentServer_deploys ⟨rfl, rfl⟩
    [.build .function "fn_0123456789abcdef0123456789abcdef" "BEGIN NULL"] .function _ _

end Fragment

end Allgres
