import Allgres.Ipv6Blocklists

/-! The exposure check of the dashboard against the address that it binds: the check reads the text of the
host, `TcpListener::bind` parses or resolves it. -/

namespace Allgres

open HostPatterns

/-- `rsplit_once`: the text in front of the last `c` and behind it. -/
def rsplitOnce (c : Char) (s : List Char) : Option (List Char × List Char) :=
  match s.reverse.dropWhile (· != c) with
  | _ :: front => some (front.reverse, (s.reverse.takeWhile (· != c)).reverse)
  | [] => none

/-- `trim_start_matches('[')` and `trim_end_matches(']')`. -/
def trimBrackets (host : List Char) : List Char :=
  rtrimChars (· = ']') (ltrimChars (· = '[') host)

/-- The text of a host that counts as loopback. -/
def isLoopbackText (host : List Char) : Bool :=
  host = "127.0.0.1".toList || host = "::1".toList || host = "localhost".toList ||
    "127.".toList.isPrefixOf host

def isLoopbackAddr (addr : String) : Bool :=
  isLoopbackText (trimBrackets (((rsplitOnce ':' addr.toList).map (·.1)).getD addr.toList))

/-- `insecure` is `ALLGRES_ALLOW_INSECURE_HTTP`. -/
def checkExposure (insecure : Option String) (addr token : String) : Except String Unit :=
  if isLoopbackAddr addr || token ≠ "" then .ok ()
  else if insecure = some "1" then .ok ()
  else .error ("refusing to bind " ++ addr ++ " with no ALLGRES_DASHBOARD_TOKEN. Set a token, bind to " ++
    "127.0.0.1, or set ALLGRES_ALLOW_INSECURE_HTTP=1 if the port is already protected by the " ++
    "surrounding network.")

/-- `std::net::SocketAddr`. -/
structure SocketAddr where
  ip : NetAddr
  port : Nat
  scopeId : Nat := 0

def NetAddr.isLoopback : NetAddr → Bool
  | .v4 a => a.a == 127
  | .v6 a => a.isLoopback

namespace SocketAddr

open Ipv6Parser

def readPort : Reader Nat := fun s => do
  let r ← readGivenChar ':' s
  readNumber 10 r.2.length true 65536 r.2

def readScopeId : Reader Nat := fun s => do
  let r ← readGivenChar '%' s
  readNumber 10 r.2.length true (2 ^ 32) r.2

def readSocketAddrV4 : Reader SocketAddr := fun s => do
  let (v4, s) ← readIpv4Addr s
  let (port, s) ← readPort s
  some ({ ip := .v4 v4, port }, s)

def readSocketAddrV6 : Reader SocketAddr := fun s => do
  let (_, s) ← readGivenChar '[' s
  let (v6, s) ← readIpv6Addr s
  let (scopeId, s) := (readScopeId s).getD (0, s)
  let (_, s) ← readGivenChar ']' s
  let (port, s) ← readPort s
  some ({ ip := .v6 v6, port, scopeId }, s)

/-- `SocketAddr::from_str`: the whole text is read. -/
def parse (t : String) : Option SocketAddr :=
  match (readSocketAddrV4 t.toList).or (readSocketAddrV6 t.toList) with
  | some (addr, []) => some addr
  | _ => none

end SocketAddr

/-- `u16::from_str`. -/
def parsePort (port : List Char) : Option Nat :=
  (digitsIn 10 (if port.head? = some '+' then port.tail else port)).filter (· < 65536)

/-- `to_socket_addrs`, which `TcpListener::bind` goes through. `resolve` is `getaddrinfo`. -/
def toSocketAddrs (resolve : String → Except String (List NetAddr)) (addr : String) :
    Except String (List SocketAddr) :=
  match SocketAddr.parse addr with
  | some a => .ok [a]
  | none =>
    match rsplitOnce ':' addr.toList with
    | none => .error "invalid socket address"
    | some (host, port) =>
      match parsePort port with
      | none => .error "invalid port value"
      | some p => (resolve (String.ofList host)).map (·.map fun ip => { ip, port := p })

/-- A resolver that maps `localhost` to loopback addresses and reads the texts of addresses. -/
structure HostResolver (resolve : String → Except String (List NetAddr)) : Prop where
  localhost : ∀ ips, resolve "localhost" = .ok ips → ∀ ip ∈ ips, ip.isLoopback = true
  ipv4 : ∀ host v4 ips, inetAton host = some v4 → resolve host = .ok ips → ∀ ip ∈ ips, ip = .v4 v4
  ipv6 : ∀ host v6 ips, Ipv6Addr.parse host = some v6 → resolve host = .ok ips → ∀ ip ∈ ips, ip = .v6 v6

/-- The host is no name but `localhost`: it is parsed with its port, or the resolver reads it as an address. -/
def IsLiteralAddr (addr : String) : Prop :=
  (SocketAddr.parse addr).isSome = true ∨ ∀ host port, rsplitOnce ':' addr.toList = some (host, port) →
    (parsePort port).isSome = true → String.ofList host = "localhost" ∨
      (inetAton (String.ofList host)).isSome = true ∨ (Ipv6Addr.parse (String.ofList host)).isSome = true

example : isLoopbackAddr "127.example.com:8088" = true := by decide
example : (SocketAddr.parse "[::1]:8088").isSome = true ∧ SocketAddr.parse "[127.0.0.1]:8088" = none := by decide

section Split

theorem rsplitOnce_append {c : Char} {host port : List Char} (h : c ∉ port) :
    rsplitOnce c (host ++ c :: port) = some (host, port) := by
  have hrev : (host ++ c :: port).reverse = port.reverse ++ c :: host.reverse := by simp
  have hport : ∀ d ∈ port.reverse, (d != c) = true := by
    intro d hd
    rw [bne_iff_ne]
    rintro rfl
    exact h (List.mem_reverse.mp hd)
  unfold rsplitOnce
  rw [hrev, dropWhile_stop hport (by simp), takeWhile_stop hport (by simp)]
  simp

theorem trimBrackets_self {host : List Char} (h : ∀ c ∈ host, c ≠ '[' ∧ c ≠ ']') :
    trimBrackets host = host := by
  unfold trimBrackets
  rw [ltrimChars_self (fun c hc => decide_eq_false (h c hc).1),
    rtrimChars_self (fun c hc => decide_eq_false (h c hc).2)]

/-- Brackets around a text without brackets. -/
theorem trimBrackets_bracketed {host : List Char} (h : ∀ c ∈ host, c ≠ '[' ∧ c ≠ ']') :
    trimBrackets ('[' :: (host ++ [']'])) = host := by
  have hleft : ltrimChars (· = '[') ('[' :: (host ++ [']'])) = host ++ [']'] := by
    have hrest : ltrimChars (· = '[') (host ++ [']']) = host ++ [']'] := by
      refine ltrimChars_self fun c hc => ?_
      rcases List.mem_append.mp hc with hc | hc
      · exact decide_eq_false (h c hc).1
      · rw [List.mem_singleton.mp hc]
        rfl
    exact hrest
  have hright : rtrimChars (· = ']') (host ++ [']']) = host := by
    have hrest : rtrimChars (· = ']') host = host := rtrimChars_self fun c hc => decide_eq_false (h c hc).2
    unfold rtrimChars at hrest ⊢
    rw [List.reverse_append]
    exact hrest
  unfold trimBrackets
  rw [hleft, hright]

theorem isLoopbackAddr_split {addr : String} {host port : List Char}
    (h : rsplitOnce ':' addr.toList = some (host, port)) :
    isLoopbackAddr addr = isLoopbackText (trimBrackets host) := by
  rw [isLoopbackAddr, h]
  rfl

end Split

section Texts

/-- The texts behind the four comparisons. -/
theorem isLoopbackText_cases {host : List Char} (h : isLoopbackText host = true) :
    host = "::1".toList ∨ host = "localhost".toList ∨ ∃ u, host = "127".toList ++ '.' :: u := by
  unfold isLoopbackText at h
  simp only [Bool.or_eq_true, decide_eq_true_iff, List.isPrefixOf_iff_prefix] at h
  rcases h with ((h | h) | h) | ⟨u, h⟩
  · exact .inr (.inr ⟨"0.0.1".toList, h⟩)
  · exact .inl h
  · exact .inr (.inl h)
  · exact .inr (.inr ⟨u, h.symm⟩)

theorem isLoopback_of_text {v4 : Ipv4Addr} (h : isLoopbackText v4.text.toList = true) :
    (NetAddr.v4 v4).isLoopback = true := by
  have hquad := isDottedQuad_text v4
  rcases isLoopbackText_cases h with h | h | ⟨u, h⟩
  · rw [h] at hquad
    exact absurd hquad (by decide)
  · rw [h] at hquad
    exact absurd hquad (by decide)
  · rw [text_toList, quad] at h
    have hfirst := (Patterns.append_cons_inj (fun hdot => absurd (decimal_digits _ hdot) (by decide))
      (by decide) h).1
    have hvalue : v4.a.toNat = 127 := decimal_inj hfirst
    have hbyte : v4.a = 127 := UInt8.toNat_inj.mp hvalue
    rw [NetAddr.isLoopback, hbyte]
    rfl

/-- With a first part of 127 and more behind it the first byte is 127. -/
theorem atonValue_first {ms : List Nat} {v : Nat} (hne : ms ≠ []) (h : atonValue (127 :: ms) = some v) :
    (Ipv4Addr.ofNat v).a = 127 := by
  refine UInt8.toNat_inj.mp ?_
  have hbyte : (127 : UInt8).toNat = 127 := rfl
  rw [Ipv4Addr.ofNat, UInt8.toNat_ofNat', hbyte]
  rcases ms with _ | ⟨b, _ | ⟨c, _ | ⟨d, _ | ⟨e, ms⟩⟩⟩⟩
  · exact absurd rfl hne
  · dsimp only [atonValue] at h
    split_ifs at h with hb
    obtain rfl := Option.some.inj h
    omega
  · dsimp only [atonValue] at h
    split_ifs at h with hb
    obtain rfl := Option.some.inj h
    omega
  · dsimp only [atonValue] at h
    split_ifs at h with hb
    obtain rfl := Option.some.inj h
    omega
  · cases h

theorem isLoopback_of_aton {host : String} {v4 : Ipv4Addr} (hv : inetAton host = some v4)
    (h : isLoopbackText host.toList = true) : (NetAddr.v4 v4).isLoopback = true := by
  rcases isLoopbackText_cases h with h | h | ⟨u, h⟩
  · have hnone : inetAton "::1" = none := by decide
    rw [String.toList_inj.mp h, hnone] at hv
    cases hv
  · have hnone : inetAton "localhost" = none := by decide
    rw [String.toList_inj.mp h, hnone] at hv
    cases hv
  · obtain ⟨ns, v, hparts, hvalue, rfl⟩ := parts_of_inetAton hv
    rw [h, splitOn_append_cons (by decide)] at hparts
    cases hparts with
    | @cons _ n _ ms hn hms =>
      have hpart : atonPart "127".toList = some 127 := by decide
      obtain rfl : 127 = n := Option.some.inj (hpart.symm.trans hn)
      have hne : ms ≠ [] := by
        rintro rfl
        exact splitOn_ne_nil '.' u (List.forall₂_nil_right_iff.mp hms)
      rw [NetAddr.isLoopback, atonValue_first hne hvalue]
      rfl

namespace Ipv6Parser

/-- The address behind `::1`. -/
def loopback : Ipv6Addr :=
  ⟨[0, 0, 0, 0, 0, 0, 0, 1], rfl⟩

theorem readIpv6Addr_dotted {u rest : List Char} {v6 : Ipv6Addr} :
    readIpv6Addr ("127".toList ++ '.' :: u) ≠ some (v6, rest) := by
  intro h
  rcases readIpv6Addr_some h with ⟨w, hw, -⟩ | ⟨ds, w, g, gs, hw, hds, -⟩
  · cases hw
  · have hdot : '.' ∈ ds := by
      rcases List.append_eq_append_iff.mp hw with ⟨bs, rfl, hbs⟩ | ⟨cs, hds', hcs⟩
      · cases bs with
        | nil => cases hbs
        | cons b bs =>
          rw [List.cons_append, List.cons.injEq] at hbs
          exact List.mem_append_right _ (hbs.1 ▸ List.mem_cons_self)
      · cases cs with
        | nil => cases hcs
        | cons e cs =>
          rw [List.cons_append, List.cons.injEq] at hcs
          have hmem : ':' ∈ "127".toList := hds' ▸ List.mem_append_right _ (hcs.1 ▸ List.mem_cons_self)
          exact absurd hmem (by decide)
    obtain ⟨d, hd, -⟩ := (digitsIn_eq_some hds).2 '.' hdot
    cases hd

theorem readIpv6Addr_one (t : List Char) :
    readIpv6Addr ("::1".toList ++ ']' :: t) = some (loopback, ']' :: t) := by
  rfl

end Ipv6Parser

end Texts

namespace SocketAddr

open Ipv6Parser

section Readers

variable {s rest : List Char} {n : Nat} {a : SocketAddr}

theorem readGivenChar_some {c : Char} {r : Unit × List Char} (h : readGivenChar c s = some r) :
    s = c :: r.2 := by
  cases s with
  | nil => cases h
  | cons e s =>
    unfold readGivenChar at h
    dsimp only at h
    split_ifs at h with he
    rw [← Option.some.inj h, he]

theorem readPort_some (h : readPort s = some (n, rest)) :
    ∃ ds, s = ':' :: (ds ++ rest) ∧ ∀ c ∈ ds, c.isDigit = true := by
  unfold readPort at h
  obtain ⟨r, hr, hn⟩ := Option.bind_eq_some_iff.mp h
  obtain ⟨ds, hds, hvalue, -⟩ := readNumber_some hn
  exact ⟨ds, by rw [readGivenChar_some hr, hds], (digitsIn_decimal (by omega) hvalue).2⟩

theorem readScopeId_some (h : readScopeId s = some (n, rest)) :
    ∃ ds, s = '%' :: (ds ++ rest) ∧ ∀ c ∈ ds, c.isDigit = true := by
  unfold readScopeId at h
  obtain ⟨r, hr, hn⟩ := Option.bind_eq_some_iff.mp h
  obtain ⟨ds, hds, hvalue, -⟩ := readNumber_some hn
  exact ⟨ds, by rw [readGivenChar_some hr, hds], (digitsIn_decimal (by omega) hvalue).2⟩

theorem readSocketAddrV4_some (h : readSocketAddrV4 s = some (a, rest)) :
    ∃ v4 ds, s = v4.text.toList ++ ':' :: (ds ++ rest) ∧ (∀ c ∈ ds, c.isDigit = true) ∧ a.ip = .v4 v4 := by
  unfold readSocketAddrV4 at h
  obtain ⟨⟨v4, s'⟩, hv4, h⟩ := Option.bind_eq_some_iff.mp h
  obtain ⟨⟨port, s''⟩, hport, h⟩ := Option.bind_eq_some_iff.mp h
  obtain ⟨rfl, rfl⟩ := Prod.mk.inj (Option.some.inj h)
  obtain ⟨ds, rfl, hds⟩ := readPort_some hport
  exact ⟨v4, ds, readIpv4Addr_some hv4, hds, rfl⟩

/-- `scope` is empty or starts with a percent sign. -/
theorem readSocketAddrV6_some (h : readSocketAddrV6 s = some (a, rest)) :
    ∃ v6 t scope ds, s = '[' :: t ∧ readIpv6Addr t = some (v6, scope ++ ']' :: ':' :: (ds ++ rest)) ∧
      (scope = [] ∨ ∃ es, scope = '%' :: es ∧ ∀ c ∈ es, c.isDigit = true) ∧
      (∀ c ∈ ds, c.isDigit = true) ∧ a.ip = .v6 v6 := by
  unfold readSocketAddrV6 at h
  obtain ⟨⟨_, t⟩, hopen, h⟩ := Option.bind_eq_some_iff.mp h
  obtain ⟨⟨v6, s₁⟩, hv6, h⟩ := Option.bind_eq_some_iff.mp h
  dsimp only at h
  obtain ⟨⟨_, s₃⟩, hclose, h⟩ := Option.bind_eq_some_iff.mp h
  obtain ⟨⟨port, s₄⟩, hport, h⟩ := Option.bind_eq_some_iff.mp h
  obtain ⟨rfl, rfl⟩ := Prod.mk.inj (Option.some.inj h)
  obtain ⟨ds, rfl, hds⟩ := readPort_some hport
  have hs₂ := readGivenChar_some hclose
  have hscope : ∃ scope, s₁ = scope ++ ']' :: ':' :: (ds ++ s₄) ∧
      (scope = [] ∨ ∃ es, scope = '%' :: es ∧ ∀ c ∈ es, c.isDigit = true) := by
    cases hid : readScopeId s₁ with
    | none =>
      rw [hid] at hs₂
      exact ⟨[], hs₂, .inl rfl⟩
    | some r =>
      obtain ⟨n, s₂⟩ := r
      obtain ⟨es, hes, hdigits⟩ := readScopeId_some hid
      rw [hid] at hs₂
      have hs₂' : s₂ = ']' :: ':' :: (ds ++ s₄) := hs₂
      exact ⟨'%' :: es, by rw [hes, hs₂']; rfl, .inr ⟨es, rfl, hdigits⟩⟩
  obtain ⟨scope, rfl, hform⟩ := hscope
  exact ⟨v6, t, scope, ds, readGivenChar_some hopen, hv6, hform, hds, rfl⟩

end Readers

theorem parse_cases {t : String} {a : SocketAddr} (h : parse t = some a) :
    readSocketAddrV4 t.toList = some (a, []) ∨ readSocketAddrV6 t.toList = some (a, []) := by
  unfold parse at h
  split at h
  · rename_i heq
    obtain rfl := Option.some.inj h
    cases hv4 : readSocketAddrV4 t.toList with
    | none =>
      rw [hv4] at heq
      exact .inr heq
    | some r =>
      rw [hv4] at heq
      exact .inl heq
  · cases h

/-- No bracket and no colon is a digit. -/
theorem digit_plain {c : Char} (h : c.isDigit = true) : c ≠ '[' ∧ c ≠ ']' ∧ c ≠ ':' := by
  refine ⟨?_, ?_, ?_⟩ <;> rintro rfl <;> exact absurd h (by decide)

theorem address_plain {c : Char} (h : c ∈ addressChars) : c ≠ '[' ∧ c ≠ ']' := by
  refine ⟨?_, ?_⟩ <;> rintro rfl <;> exact absurd h (by decide)

/-- A parsed address that passes the check is a loopback address. -/
theorem isLoopback_of_parse {t : String} {a : SocketAddr} (h : parse t = some a)
    (hl : isLoopbackAddr t = true) : a.ip.isLoopback = true := by
  have hport : ∀ {ds : List Char}, (∀ c ∈ ds, c.isDigit = true) → ':' ∉ ds := fun hds hmem =>
    (digit_plain (hds ':' hmem)).2.2 rfl
  rcases parse_cases h with h | h
  · obtain ⟨v4, ds, ht, hds, hip⟩ := readSocketAddrV4_some h
    rw [List.append_nil] at ht
    have hsplit : rsplitOnce ':' t.toList = some (v4.text.toList, ds) := by
      rw [ht]
      exact rsplitOnce_append (hport hds)
    rw [isLoopbackAddr_split hsplit, trimBrackets_self fun c hc => address_plain (text_chars v4 c hc)] at hl
    rw [hip]
    exact isLoopback_of_text hl
  · obtain ⟨v6, u, scope, ds, ht, hread, hscope, hds, hip⟩ := readSocketAddrV6_some h
    rw [List.append_nil] at hread
    obtain ⟨w, rfl, hw⟩ := readIpv6Addr_chars hread
    have hplain : ∀ c ∈ w ++ scope, c ≠ '[' ∧ c ≠ ']' := by
      intro c hc
      rcases List.mem_append.mp hc with hc | hc
      · exact address_plain (hw c hc)
      · rcases hscope with rfl | ⟨es, rfl, hes⟩
        · cases hc
        · rcases List.mem_cons.mp hc with rfl | hc
          · exact ⟨by decide, by decide⟩
          · exact ⟨(digit_plain (hes c hc)).1, (digit_plain (hes c hc)).2.1⟩
    have hsplit : rsplitOnce ':' t.toList = some ('[' :: (w ++ scope ++ [']']), ds) := by
      have hform : t.toList = ('[' :: (w ++ scope ++ [']'])) ++ ':' :: ds := by
        rw [ht]
        simp
      rw [hform]
      exact rsplitOnce_append (hport hds)
    rw [isLoopbackAddr_split hsplit, trimBrackets_bracketed hplain] at hl
    rcases isLoopbackText_cases hl with hone | hname | ⟨v, hdotted⟩
    · have hempty : scope = [] := by
        rcases hscope with hscope | ⟨es, rfl, -⟩
        · exact hscope
        · have hmem : '%' ∈ "::1".toList := hone ▸ List.mem_append_right _ List.mem_cons_self
          exact absurd hmem (by decide)
      rw [hempty, List.append_nil] at hone
      rw [hempty, List.nil_append, hone, readIpv6Addr_one] at hread
      rw [hip, ← (Prod.mk.inj (Option.some.inj hread)).1]
      rfl
    · have hmem : 'l' ∈ w ++ scope := hname ▸ by decide
      rcases List.mem_append.mp hmem with hmem | hmem
      · exact absurd (hw 'l' hmem) (by decide)
      · rcases hscope with rfl | ⟨es, rfl, hes⟩
        · cases hmem
        · rcases List.mem_cons.mp hmem with heq | hmem
          · exact absurd heq (by decide)
          · exact absurd (hes 'l' hmem) (by decide)
    · rw [← List.append_assoc, hdotted, List.append_assoc] at hread
      exact absurd hread readIpv6Addr_dotted

end SocketAddr

section Bind

variable {addr : String} {insecure : Option String} {resolve : String → Except String (List NetAddr)}

theorem checkExposure_ok (hi : insecure ≠ some "1") (h : checkExposure insecure addr "" = .ok ()) :
    isLoopbackAddr addr = true := by
  unfold checkExposure at h
  by_contra hl
  rw [if_neg (by simp [hl]), if_neg hi] at h
  cases h

/-- The text of a host that the resolver reads as an address has no brackets. -/
theorem isLoopback_of_ipv6 {host : String} {v6 : Ipv6Addr} (hv : Ipv6Addr.parse host = some v6)
    (h : isLoopbackText host.toList = true) : (NetAddr.v6 v6).isLoopback = true := by
  rcases isLoopbackText_cases h with h | h | ⟨u, h⟩
  · rw [String.toList_inj.mp h] at hv
    have hone : Ipv6Addr.parse "::1" = some Ipv6Parser.loopback := by decide
    rw [← Option.some.inj (hone.symm.trans hv)]
    rfl
  · have hnone : Ipv6Addr.parse "localhost" = none := by decide
    rw [String.toList_inj.mp h, hnone] at hv
    cases hv
  · have hread := parse_some hv
    rw [h] at hread
    exact absurd hread Ipv6Parser.readIpv6Addr_dotted

theorem aton_plain {host : String} {v4 : Ipv4Addr} (h : inetAton host = some v4) :
    ∀ c ∈ host.toList, c ≠ '[' ∧ c ≠ ']' := by
  obtain ⟨ns, v, hparts, -, -⟩ := parts_of_inetAton h
  intro c hc
  have hmem := (mem_of_parts (forall_parts hparts)).1 c hc
  refine ⟨?_, ?_⟩ <;> rintro rfl <;> exact absurd hmem (by decide)

/-- A literal host that passes the check resolves to loopback addresses. -/
theorem isLoopback_of_literal (hr : HostResolver resolve) {host : String} {ips : List NetAddr}
    (hresolve : resolve host = .ok ips) (hl : isLoopbackText (trimBrackets host.toList) = true)
    (hliteral : host = "localhost" ∨ (inetAton host).isSome = true ∨
      (Ipv6Addr.parse host).isSome = true) : ∀ ip ∈ ips, ip.isLoopback = true := by
  rcases hliteral with rfl | hv4 | hv6
  · exact hr.localhost ips hresolve
  · obtain ⟨v4, hv4⟩ := Option.isSome_iff_exists.mp hv4
    rw [trimBrackets_self (aton_plain hv4)] at hl
    intro ip hip
    rw [hr.ipv4 host v4 ips hv4 hresolve ip hip]
    exact isLoopback_of_aton hv4 hl
  · obtain ⟨v6, hv6⟩ := Option.isSome_iff_exists.mp hv6
    rw [trimBrackets_self fun c hc => SocketAddr.address_plain (parse_chars hv6 c hc)] at hl
    intro ip hip
    rw [hr.ipv6 host v6 ips hv6 hresolve ip hip]
    exact isLoopback_of_ipv6 hv6 hl

/-- A resolver that knows one name. -/
def oneName (name : String) (ip : NetAddr) (host : String) : Except String (List NetAddr) :=
  if host = name then .ok [ip] else .error "Name or service not known"

theorem oneName_hostResolver {name : String} (ip : NetAddr) (hname : name ≠ "localhost")
    (hv4 : inetAton name = none) (hv6 : Ipv6Addr.parse name = none) : HostResolver (oneName name ip) where
  localhost := fun ips h => by
    rw [oneName, if_neg (Ne.symm hname)] at h
    cases h
  ipv4 := fun host v4 ips hhost h => by
    unfold oneName at h
    split_ifs at h with heq
    rw [heq, hv4] at hhost
    cases hhost
  ipv6 := fun host v6 ips hhost h => by
    unfold oneName at h
    split_ifs at h with heq
    rw [heq, hv6] at hhost
    cases hhost

theorem toSocketAddrs_name {host port : List Char} {p : Nat} (ip : NetAddr) (hparse : SocketAddr.parse addr = none)
    (hsplit : rsplitOnce ':' addr.toList = some (host, port)) (hport : parsePort port = some p) :
    toSocketAddrs (oneName (String.ofList host) ip) addr = .ok [{ ip, port := p }] := by
  unfold toSocketAddrs
  simp only [hparse, hsplit, hport, oneName, if_true]
  rfl

def publicIp : NetAddr :=
  .v4 ⟨203, 0, 113, 9⟩

/-- Whatever a resolver answers, an address that passes the check without a token is bound to loopback
addresses only, exactly when the check refuses it or its host is no other name than `localhost`. -/
theorem bindsLoopback_iff (addr : String) :
    (∀ resolve insecure addrs, HostResolver resolve → toSocketAddrs resolve addr = .ok addrs →
      insecure ≠ some "1" → checkExposure insecure addr "" = .ok () →
        ∀ a ∈ addrs, a.ip.isLoopback = true) ↔
      isLoopbackAddr addr = false ∨ IsLiteralAddr addr := by
  constructor
  · intro h
    by_contra hno
    obtain ⟨hl, hliteral⟩ := not_or.mp hno
    have hl : isLoopbackAddr addr = true := by simpa using hl
    obtain ⟨hparse, hname⟩ := not_or.mp hliteral
    push Not at hname
    obtain ⟨host, port, hsplit, hport, hlocal, hv4, hv6⟩ := hname
    obtain ⟨p, hport⟩ := Option.isSome_iff_exists.mp hport
    have hparse : SocketAddr.parse addr = none := by simpa using hparse
    have hresolves := oneName_hostResolver publicIp hlocal (by simpa using hv4) (by simpa using hv6)
    have hloop := h _ none _ hresolves (toSocketAddrs_name publicIp hparse hsplit hport) nofun
      (by rw [checkExposure, if_pos (by rw [hl]; rfl)]) _ List.mem_cons_self
    exact absurd hloop (show publicIp.isLoopback ≠ true by decide)
  · intro h resolve insecure addrs hr haddrs hi hcheck
    have hl := checkExposure_ok hi hcheck
    rcases h with hrefused | hliteral
    · rw [hl] at hrefused
      cases hrefused
    · unfold toSocketAddrs at haddrs
      cases hparse : SocketAddr.parse addr with
      | some a =>
        rw [hparse] at haddrs
        obtain rfl := Except.ok.inj haddrs
        intro b hb
        rw [List.mem_singleton.mp hb]
        exact SocketAddr.isLoopback_of_parse hparse hl
      | none =>
        rw [hparse] at haddrs
        cases hsplit : rsplitOnce ':' addr.toList with
        | none =>
          rw [hsplit] at haddrs
          cases haddrs
        | some parts =>
          obtain ⟨host, port⟩ := parts
          rw [hsplit] at haddrs
          dsimp only at haddrs
          cases hport : parsePort port with
          | none =>
            rw [hport] at haddrs
            cases haddrs
          | some p =>
            rw [hport] at haddrs
            dsimp only at haddrs
            cases hips : resolve (String.ofList host) with
            | error e =>
              rw [hips] at haddrs
              cases haddrs
            | ok ips =>
              rw [hips] at haddrs
              obtain rfl := Except.ok.inj haddrs
              have hname := (hliteral.resolve_left (by simp [hparse])) host port hsplit (by rw [hport]; rfl)
              rw [isLoopbackAddr_split hsplit] at hl
              intro b hb
              obtain ⟨ip, hip, rfl⟩ := List.mem_map.mp hb
              exact isLoopback_of_literal hr hips (by rwa [String.toList_ofList]) hname ip hip

/-- A name that starts like a loopback address is bound wherever it resolves. -/
theorem public_bind_allowed : ∃ resolve, HostResolver resolve ∧
    checkExposure none "127.example.com:8088" "" = .ok () ∧
      toSocketAddrs resolve "127.example.com:8088" = .ok [{ ip := publicIp, port := 8088 }] ∧
        publicIp.isLoopback = false := by
  have hresolves : HostResolver (oneName "127.example.com" publicIp) :=
    oneName_hostResolver publicIp (by decide) (by decide) (by decide)
  have hsplit : rsplitOnce ':' "127.example.com:8088".toList =
      some ("127.example.com".toList, "8088".toList) := by decide
  exact ⟨_, hresolves, by decide, toSocketAddrs_name publicIp (by decide) hsplit (by decide), by decide⟩

end Bind

end Allgres
