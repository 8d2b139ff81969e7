import Allgres.Raise
import Allgres.Rows
import Allgres.Schema
import Mathlib.Algebra.GroupWithZero.Nat
import Mathlib.Data.List.Forall2

/-! Stored credentials, and the rotation of the key they are encrypted with. -/

namespace Allgres

open Raise Rows

/-- The two functions of `pgcrypto`, with the armour around the ciphertext. An exception is `none`;
the number tells the calls apart, since a ciphertext is drawn anew for every call. -/
structure Pgcrypto where
  decrypt : String → String → Option String
  encrypt : Nat → String → String → String

def encPrefix : String :=
  "enc:v1:"

def isEncrypted (stored : String) : Bool :=
  left stored 7 = encPrefix

/-- `substr(p_stored, 8)`. -/
def ciphertext (stored : String) : String :=
  String.ofList (stored.toList.drop 7)

def encryptSecret (P : Option Pgcrypto) (n : Nat) (key : Option String) (plain : Option String) :
    Except String (Option String) :=
  match nullIfEmpty plain, key with
  | none, _ => .ok none
  | some plain, none => .ok (some plain)
  | some plain, some key => match P with
    | none => .error "allgres.secret_key is set but pgcrypto is not installed"
    | some P => .ok (some (encPrefix ++ P.encrypt n plain key))

def decryptSecret (P : Option Pgcrypto) (key : Option String) (stored : Option String) : Option String :=
  match stored with
  | none => none
  | some stored =>
    if isEncrypted stored then
      match key, P with
      | some key, some P => P.decrypt (ciphertext stored) key
      | _, _ => none
    else some stored

def rewrapSecret (P : Pgcrypto) (n : Nat) (oldKey newKey : String) (stored : String) : Option String :=
  if isEncrypted stored then
    (P.decrypt (ciphertext stored) oldKey).map fun plain => encPrefix ++ P.encrypt n plain newKey
  else some stored

/-- A column of a table that holds a credential. -/
structure Column (α : Type) where
  get : α → Option String
  put : String → α → α

structure Rewrap (α : Type) where
  rows : List α
  rewrapped : Nat := 0
  failed : Nat := 0

section Loops

variable {α : Type} (P : Pgcrypto) (oldKey newKey : String) (key : α → Uuid)

/-- What the loops do with one column of the row they are at. -/
def rewrapColumn (r : α) (s : Rewrap α) (col : Column α) : Rewrap α :=
  match col.get r with
  | none => s
  | some stored =>
    if isEncrypted stored then
      match rewrapSecret P s.rewrapped oldKey newKey stored with
      | some v =>
        { s with
          rows := update (key · = key r) (col.put v) s.rows
          rewrapped := s.rewrapped + 1 }
      | none => { s with failed := s.failed + 1 }
    else s

def rewrapRow (cols : List (Column α)) (s : Rewrap α) (r : α) : Rewrap α :=
  cols.foldl (rewrapColumn P oldKey newKey key r) s

def rewrapTable (cols : List (Column α)) (s : Rewrap α) : Rewrap α :=
  s.rows.foldl (rewrapRow P oldKey newKey key cols) s

end Loops

def providerColumns : List (Column ProviderSecret) :=
  [⟨(·.apiKey), fun v r => { r with apiKey := some v }⟩,
    ⟨(·.oauthClientSecret), fun v r => { r with oauthClientSecret := some v }⟩,
    ⟨(·.accessToken), fun v r => { r with accessToken := some v }⟩,
    ⟨(·.refreshToken), fun v r => { r with refreshToken := some v }⟩]

def connectionColumns : List (Column ConnectionSecret) :=
  [⟨(·.apiKey), fun v r => { r with apiKey := some v }⟩]

def deviceColumns : List (Column OauthDeviceSession) :=
  [⟨(·.deviceCode), fun v r => { r with deviceCode := some v }⟩]

def rotationReply (rewrapped failed : Nat) : Json :=
  .object [("ok", .bool true), ("rewrapped", .ofInt rewrapped), ("failed", .ofInt failed)]

def fnRotateSecretKey (P : Option Pgcrypto) (oldKey newKey : Option String) (c : Config) :
    Except String (Config × Json) :=
  match trimmed oldKey, trimmed newKey, oldKey, newKey with
  | some _, some _, some oldKey, some newKey => do
    raiseIf (oldKey = newKey) "new key must be different from the current key"
    match P with
    | none => .error "pgcrypto is not installed"
    | some P =>
      let s := rewrapTable P oldKey newKey (·.providerId) providerColumns ⟨c.providerSecrets, 0, 0⟩
      let t := rewrapTable P oldKey newKey (·.connectionId) connectionColumns
        ⟨c.connectionSecrets, s.rewrapped, s.failed⟩
      let u := rewrapTable P oldKey newKey (·.sessionId) deviceColumns
        ⟨c.oauthDeviceSessions, t.rewrapped, t.failed⟩
      pure ({ c with
        providerSecrets := s.rows
        connectionSecrets := t.rows
        oauthDeviceSessions := u.rows }, rotationReply u.rewrapped u.failed)
  | _, _, _, _ => .error "both the current and new key are required"

/-- How many of the columns hold an encrypted value. -/
def encryptedCount {α : Type} (cols : List (Column α)) (rows : List α) : Nat :=
  (rows.map fun r => cols.countP fun col => (col.get r).any isEncrypted).sum

/-- What becomes of a value: it reads under the new key as it did under the old one, and stays as it
is unless it was encrypted under the old one. -/
structure Carried (P : Pgcrypto) (oldKey newKey : String) (v v' : Option String) : Prop where
  reads : ∀ p, decryptSecret (some P) (some oldKey) v = some p →
    decryptSecret (some P) (some newKey) v' = some p
  identical : v.all (fun stored => !isEncrypted stored) = true ∨
    decryptSecret (some P) (some oldKey) v = none → v' = v

/-- Two rows that differ in the columns only, and there as a rotation makes them. -/
structure CarriedRow {α : Type} (P : Pgcrypto) (oldKey newKey : String) (blank : α → α)
    (cols : List (Column α)) (r r' : α) : Prop where
  rest : blank r' = blank r
  columns : ∀ col ∈ cols, Carried P oldKey newKey (col.get r) (col.get r')

/-- Columns that are written one by one. -/
structure Separate {α : Type} (key : α → Uuid) (blank : α → α) (cols : List (Column α)) : Prop where
  get_put : ∀ col ∈ cols, ∀ v r, col.get (col.put v r) = some v
  get_put_ne : cols.Pairwise fun a b => ∀ v r, a.get (b.put v r) = a.get r ∧ b.get (a.put v r) = b.get r
  key_put : ∀ col ∈ cols, ∀ v r, key (col.put v r) = key r
  blank_put : ∀ col ∈ cols, ∀ v r, blank (col.put v r) = blank r

section Rows

variable {α : Type} {P : Pgcrypto} {oldKey newKey : String} {key : α → Uuid} {blank : α → α}
  {cols : List (Column α)} {r a : α} {pre post : List α} {s : Rewrap α}

theorem isEncrypted_encrypt (n : Nat) (plain k : String) :
    isEncrypted (encPrefix ++ P.encrypt n plain k) = true := by
  unfold isEncrypted left
  simp [encPrefix]

theorem ciphertext_encrypt (n : Nat) (plain k : String) :
    ciphertext (encPrefix ++ P.encrypt n plain k) = P.encrypt n plain k := by
  unfold ciphertext
  simp [encPrefix]

theorem Carried.refl_of_plain {v : Option String} (h : v.all (fun stored => !isEncrypted stored) = true) :
    Carried P oldKey newKey v v := by
  refine ⟨fun p hp => ?_, fun _ => rfl⟩
  cases v with
  | none => cases hp
  | some stored =>
    have hplain : isEncrypted stored = false := by simpa using h
    simpa [decryptSecret, hplain] using hp

/-- `pgp_sym_decrypt` takes back what `pgp_sym_encrypt` has made under the same key. -/
def Inverts (P : Pgcrypto) : Prop :=
  ∀ n plain k, P.decrypt (P.encrypt n plain k) k = some plain

/-- An encrypted value that the old key opens is wrapped under the new one. -/
theorem Carried.rewrapped (hP : Inverts P) {stored v : String} {n : Nat} (henc : isEncrypted stored = true)
    (hv : rewrapSecret P n oldKey newKey stored = some v) :
    Carried P oldKey newKey (some stored) (some v) := by
  unfold rewrapSecret at hv
  rw [if_pos henc] at hv
  obtain ⟨plain, hplain, rfl⟩ := Option.map_eq_some_iff.mp hv
  have hold : decryptSecret (some P) (some oldKey) (some stored) = some plain := by
    simpa [decryptSecret, henc] using hplain
  constructor
  · intro p hp
    rw [hold] at hp
    simp only [decryptSecret, isEncrypted_encrypt, ciphertext_encrypt, if_true, hP n plain newKey]
    exact hp
  · rintro (hno | hno)
    · simp [henc] at hno
    · rw [hold] at hno
      cases hno

theorem Carried.failed {stored : String} {n : Nat} (henc : isEncrypted stored = true)
    (hv : rewrapSecret P n oldKey newKey stored = none) :
    Carried P oldKey newKey (some stored) (some stored) := by
  refine ⟨fun p hp => ?_, fun _ => rfl⟩
  unfold rewrapSecret at hv
  rw [if_pos henc, Option.map_eq_none_iff] at hv
  simp [decryptSecret, henc, hv] at hp

/-- One column of the row the loop is at, which is written in place. -/
theorem rewrapColumn_carries (hP : Inverts P) {col : Column α} (hget : ∀ v x, col.get (col.put v x) = some v)
    (hrows : s.rows = pre ++ a :: post) (hn : (s.rows.map key).Nodup) (hkey : key a = key r)
    (hsame : col.get a = col.get r) :
    ∃ a', (a' = a ∨ ∃ v, a' = col.put v a) ∧ Carried P oldKey newKey (col.get r) (col.get a') ∧
      (rewrapColumn P oldKey newKey key r s col).rows = pre ++ a' :: post ∧
        (rewrapColumn P oldKey newKey key r s col).rewrapped + (rewrapColumn P oldKey newKey key r s col).failed =
          s.rewrapped + s.failed + if (col.get r).any isEncrypted then 1 else 0 := by
  unfold rewrapColumn
  cases hv : col.get r with
  | none =>
    refine ⟨a, .inl rfl, ?_, hrows, rfl⟩
    rw [hsame, hv]
    exact Carried.refl_of_plain rfl
  | some stored =>
    by_cases henc : isEncrypted stored = true
    · cases hw : rewrapSecret P s.rewrapped oldKey newKey stored with
      | none =>
        refine ⟨a, .inl rfl, ?_, ?_, ?_⟩
        · rw [hsame, hv]
          exact Carried.failed henc hw
        · simp only [if_pos henc, hw]
          exact hrows
        · simp only [if_pos henc, hw, Option.any_some]
          omega
      | some v =>
        refine ⟨col.put v a, .inr ⟨v, rfl⟩, ?_, ?_, ?_⟩
        · rw [hget]
          exact Carried.rewrapped hP henc hw
        · simp only [if_pos henc, hw]
          rw [hrows] at hn ⊢
          rw [← hkey]
          exact update_split hn
        · simp only [if_pos henc, hw, Option.any_some]
          omega
    · refine ⟨a, .inl rfl, ?_, ?_, ?_⟩
      · rw [hsame, hv]
        exact Carried.refl_of_plain (by simpa using henc)
      · simp only [if_neg henc]
        exact hrows
      · simp only [if_neg henc, Option.any_some]
        rfl

theorem rewrapRow_carries (hP : Inverts P) (hc : Separate key blank cols) (hrows : s.rows = pre ++ a :: post)
    (hn : (s.rows.map key).Nodup) (hkey : key a = key r) (hsame : ∀ col ∈ cols, col.get a = col.get r) :
    ∃ a', key a' = key a ∧ blank a' = blank a ∧
      (∀ d : Column α, (∀ col ∈ cols, ∀ v x, d.get (col.put v x) = d.get x) → d.get a' = d.get a) ∧
      (∀ col ∈ cols, Carried P oldKey newKey (col.get r) (col.get a')) ∧
      (rewrapRow P oldKey newKey key cols s r).rows = pre ++ a' :: post ∧
        (rewrapRow P oldKey newKey key cols s r).rewrapped + (rewrapRow P oldKey newKey key cols s r).failed =
          s.rewrapped + s.failed + cols.countP fun col => (col.get r).any isEncrypted := by
  induction cols generalizing a s with
  | nil => exact ⟨a, rfl, rfl, fun _ _ => rfl, nofun, hrows, rfl⟩
  | cons col cols ih =>
    obtain ⟨a₁, hwrite, hcol, hrows₁, hcount₁⟩ := rewrapColumn_carries (P := P) (s := s) hP
      (hc.get_put col List.mem_cons_self) hrows hn hkey (hsame col List.mem_cons_self)
    obtain ⟨hne, hpair⟩ := List.pairwise_cons.mp hc.get_put_ne
    have hkey₁ : key a₁ = key a := by
      rcases hwrite with rfl | ⟨v, rfl⟩
      · rfl
      · exact hc.key_put col List.mem_cons_self v a
    have hblank₁ : blank a₁ = blank a := by
      rcases hwrite with rfl | ⟨v, rfl⟩
      · rfl
      · exact hc.blank_put col List.mem_cons_self v a
    have hother : ∀ d : Column α, (∀ v x, d.get (col.put v x) = d.get x) → d.get a₁ = d.get a := by
      intro d hd
      rcases hwrite with rfl | ⟨v, rfl⟩
      · rfl
      · exact hd v a
    have hrest : Separate key blank cols :=
      ⟨fun c hm => hc.get_put c (List.mem_cons_of_mem _ hm), hpair,
        fun c hm => hc.key_put c (List.mem_cons_of_mem _ hm),
        fun c hm => hc.blank_put c (List.mem_cons_of_mem _ hm)⟩
    have hsame₁ : ∀ c ∈ cols, c.get a₁ = c.get r := fun c hm =>
      (hother c fun v x => (hne c hm v x).2).trans (hsame c (List.mem_cons_of_mem _ hm))
    have hn₁ : ((rewrapColumn P oldKey newKey key r s col).rows.map key).Nodup := by
      rw [hrows₁, List.map_append, List.map_cons, hkey₁]
      rw [hrows, List.map_append, List.map_cons] at hn
      exact hn
    obtain ⟨a₂, hkey₂, hblank₂, hother₂, hcols, hrows₂, hcount₂⟩ := ih hrest hrows₁ hn₁ (hkey₁.trans hkey) hsame₁
    refine ⟨a₂, hkey₂.trans hkey₁, hblank₂.trans hblank₁, ?_, ?_, hrows₂, ?_⟩
    · intro d hd
      have hfirst := hother d (hd col List.mem_cons_self)
      exact (hother₂ d fun c hm => hd c (List.mem_cons_of_mem _ hm)).trans hfirst
    · intro c hm
      rcases List.mem_cons.mp hm with rfl | hm
      · rw [hother₂ c fun d hd v x => (hne d hd v x).1]
        exact hcol
      · exact hcols c hm
    · have hfold : rewrapRow P oldKey newKey key (col :: cols) s r =
          rewrapRow P oldKey newKey key cols (rewrapColumn P oldKey newKey key r s col) r := rfl
      rw [hfold, hcount₂, hcount₁, List.countP_cons]
      omega

theorem rewrapRows_carry (hP : Inverts P) (hc : Separate key blank cols) (rest done : List α)
    (hrows : s.rows = done ++ rest) (hn : (s.rows.map key).Nodup) :
    ∃ rest', (rest.foldl (rewrapRow P oldKey newKey key cols) s).rows = done ++ rest' ∧
      List.Forall₂ (CarriedRow P oldKey newKey blank cols) rest rest' ∧
        (rest.foldl (rewrapRow P oldKey newKey key cols) s).rewrapped +
          (rest.foldl (rewrapRow P oldKey newKey key cols) s).failed =
            s.rewrapped + s.failed + encryptedCount cols rest := by
  induction rest generalizing done s with
  | nil => exact ⟨[], hrows, .nil, rfl⟩
  | cons r rest ih =>
    obtain ⟨r', hkey, hblank, -, hcols, hrows', hcount⟩ := rewrapRow_carries (P := P) hP hc hrows hn
      rfl (fun _ _ => rfl)
    have hrows₁ : (rewrapRow P oldKey newKey key cols s r).rows = (done ++ [r']) ++ rest := by
      rw [hrows', List.append_assoc]
      rfl
    have hn₁ : ((rewrapRow P oldKey newKey key cols s r).rows.map key).Nodup := by
      rw [hrows', List.map_append, List.map_cons, hkey]
      rw [hrows, List.map_append, List.map_cons] at hn
      exact hn
    obtain ⟨rest', hend, hall, hcount'⟩ := ih (done ++ [r']) hrows₁ hn₁
    refine ⟨r' :: rest', ?_, .cons ⟨hblank, hcols⟩ hall, ?_⟩
    · rw [List.foldl_cons, hend, List.append_assoc]
      rfl
    · rw [List.foldl_cons, hcount', hcount]
      simp only [encryptedCount, List.map_cons, List.sum_cons]
      omega

variable (oldKey newKey s) in
theorem rewrapTable_carries (hP : Inverts P) (hc : Separate key blank cols) (hn : (s.rows.map key).Nodup) :
    List.Forall₂ (CarriedRow P oldKey newKey blank cols) s.rows (rewrapTable P oldKey newKey key cols s).rows ∧
      (rewrapTable P oldKey newKey key cols s).rewrapped + (rewrapTable P oldKey newKey key cols s).failed =
        s.rewrapped + s.failed + encryptedCount cols s.rows := by
  obtain ⟨rows', hrows, hall, hcount⟩ := rewrapRows_carry hP hc s.rows [] rfl hn
  exact ⟨hrows ▸ hall, hcount⟩

end Rows

/-- The rest of a row is what a rotation has no business with. -/
def ProviderSecret.bare (r : ProviderSecret) : ProviderSecret :=
  { r with
    apiKey := none
    oauthClientSecret := none
    accessToken := none
    refreshToken := none }

def ConnectionSecret.bare (r : ConnectionSecret) : ConnectionSecret :=
  { r with apiKey := none }

def OauthDeviceSession.bare (r : OauthDeviceSession) : OauthDeviceSession :=
  { r with deviceCode := none }

theorem providerColumns_separate :
    Separate (·.providerId) ProviderSecret.bare providerColumns := by
  constructor <;> simp [providerColumns, ProviderSecret.bare]

theorem connectionColumns_separate :
    Separate (·.connectionId) ConnectionSecret.bare connectionColumns := by
  constructor <;> simp [connectionColumns, ConnectionSecret.bare]

theorem deviceColumns_separate :
    Separate (·.sessionId) OauthDeviceSession.bare deviceColumns := by
  constructor <;> simp [deviceColumns, OauthDeviceSession.bare]

/-- The three tables of `c'` are those of `c` with every value carried over to the new key, and
nothing else has changed. -/
structure Rotated (P : Pgcrypto) (oldKey newKey : String) (c c' : Config) : Prop where
  providers : List.Forall₂ (CarriedRow P oldKey newKey ProviderSecret.bare providerColumns)
    c.providerSecrets c'.providerSecrets
  connections : List.Forall₂ (CarriedRow P oldKey newKey ConnectionSecret.bare connectionColumns)
    c.connectionSecrets c'.connectionSecrets
  devices : List.Forall₂ (CarriedRow P oldKey newKey OauthDeviceSession.bare deviceColumns)
    c.oauthDeviceSessions c'.oauthDeviceSessions
  others : { c' with
    providerSecrets := c.providerSecrets
    connectionSecrets := c.connectionSecrets
    oauthDeviceSessions := c.oauthDeviceSessions } = c

/-- How many values of the three tables start with `enc:v1:`. -/
def Config.encryptedValues (c : Config) : Nat :=
  encryptedCount providerColumns c.providerSecrets + encryptedCount connectionColumns c.connectionSecrets +
    encryptedCount deviceColumns c.oauthDeviceSessions

/-- A rotation between two different keys loses no credential, and accounts for every encrypted
value. The one pair of keys it refuses has a blank one in it. -/
theorem rotate_keeps_secrets {P : Pgcrypto} (hP : Inverts P) {oldKey newKey : String} (hne : oldKey ≠ newKey)
    (c : Config) (hproviders : (c.providerSecrets.map (·.providerId)).Nodup)
    (hconnections : (c.connectionSecrets.map (·.connectionId)).Nodup)
    (hdevices : (c.oauthDeviceSessions.map (·.sessionId)).Nodup) :
    if (trimmed (some oldKey)).isSome ∧ (trimmed (some newKey)).isSome then
      ∃ c' rewrapped failed,
        fnRotateSecretKey (some P) (some oldKey) (some newKey) c = .ok (c', rotationReply rewrapped failed) ∧
          Rotated P oldKey newKey c c' ∧ rewrapped + failed = c.encryptedValues
    else ∃ e, fnRotateSecretKey (some P) (some oldKey) (some newKey) c = .error e := by
  cases hold : trimmed (some oldKey) with
  | none =>
    rw [if_neg (by simp)]
    simp [fnRotateSecretKey, hold]
  | some o =>
    cases hnew : trimmed (some newKey) with
    | none =>
      rw [if_neg (by simp)]
      simp [fnRotateSecretKey, hold, hnew]
    | some n =>
      rw [if_pos ⟨rfl, rfl⟩]
      let s := rewrapTable P oldKey newKey (·.providerId) providerColumns ⟨c.providerSecrets, 0, 0⟩
      let t := rewrapTable P oldKey newKey (·.connectionId) connectionColumns
        ⟨c.connectionSecrets, s.rewrapped, s.failed⟩
      let u := rewrapTable P oldKey newKey (·.sessionId) deviceColumns
        ⟨c.oauthDeviceSessions, t.rewrapped, t.failed⟩
      obtain ⟨hsrows, hscount⟩ := rewrapTable_carries oldKey newKey ⟨c.providerSecrets, 0, 0⟩ hP
        providerColumns_separate hproviders
      obtain ⟨htrows, htcount⟩ := rewrapTable_carries oldKey newKey
        ⟨c.connectionSecrets, s.rewrapped, s.failed⟩ hP connectionColumns_separate hconnections
      obtain ⟨hurows, hucount⟩ := rewrapTable_carries oldKey newKey
        ⟨c.oauthDeviceSessions, t.rewrapped, t.failed⟩ hP deviceColumns_separate hdevices
      let c' : Config :=
        { c with
          providerSecrets := s.rows
          connectionSecrets := t.rows
          oauthDeviceSessions := u.rows }
      refine ⟨c', u.rewrapped, u.failed, ?_, ⟨hsrows, htrows, hurows, rfl⟩, ?_⟩
      · simp only [fnRotateSecretKey, hold, hnew, raiseIf, if_neg hne]
        rfl
      · have hs : s.rewrapped + s.failed = 0 + 0 + encryptedCount providerColumns c.providerSecrets := hscount
        have ht : t.rewrapped + t.failed =
          s.rewrapped + s.failed + encryptedCount connectionColumns c.connectionSecrets := htcount
        have hu : u.rewrapped + u.failed =
          t.rewrapped + t.failed + encryptedCount deviceColumns c.oauthDeviceSessions := hucount
        unfold Config.encryptedValues
        omega

/-- A cipher that writes the key in front of the text. -/
def taggedCrypto : Pgcrypto where
  decrypt c key :=
    if left c key.length = key then some (String.ofList (c.toList.drop key.length)) else none
  encrypt _ plain key := key ++ plain

theorem taggedCrypto_inverts : Inverts taggedCrypto := by
  intro n plain k
  have hk : (k ++ plain).toList = k.toList ++ plain.toList := String.toList_append
  have htake : left (k ++ plain) k.length = k := by
    unfold left
    rw [hk, ← String.length_toList, List.take_left, String.ofList_toList]
  have hdrop : String.ofList ((k ++ plain).toList.drop k.length) = plain := by
    rw [hk, ← String.length_toList, List.drop_left, String.ofList_toList]
  simp only [taggedCrypto, htake, hdrop, if_true]

/-- A readable value, one under another key, one in plain text and a missing one. -/
def storedSecrets : Config where
  providerSecrets := [⟨1, some "enc:v1:oldsecret", some "enc:v1:elsewhere", some "bare", none, none⟩]
  oauthDeviceSessions := [{ sessionId := 2, providerId := 1, deviceCode := some "enc:v1:oldcode" }]

theorem storedSecrets_rotate :
    ∃ c' rewrapped failed,
      fnRotateSecretKey (some taggedCrypto) (some "old") (some "new") storedSecrets =
          .ok (c', rotationReply rewrapped failed) ∧
        Rotated taggedCrypto "old" "new" storedSecrets c' ∧
          rewrapped + failed = storedSecrets.encryptedValues := by
  have h := rotate_keeps_secrets taggedCrypto_inverts (by decide : "old" ≠ "new") storedSecrets (by decide)
    (by decide) (by decide)
  rw [if_pos ⟨by decide, by decide⟩] at h
  exact h

end Allgres
