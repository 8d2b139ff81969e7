import Allgres.SecretRotation

/-! What is read back of a stored secret. A value is taken for a ciphertext by its
first letters alone, also where no key is set and the plain text is stored. -/

namespace Allgres

/-- `secret_key()`: an empty setting is none. -/
def secretKey (setting : Option String) : Option String :=
  nullIfEmpty setting

/-- The settings under which secrets are written and read. With a key there has to be `pgcrypto`,
which takes back what it made. -/
structure SecretSettings where
  setting : Option String
  pgcrypto : Option Pgcrypto
  ready : secretKey setting ≠ none → pgcrypto ≠ none
  inverts : ∀ P, pgcrypto = some P → Inverts P

namespace SecretSettings

variable (s : SecretSettings)

def encrypt (n : Nat) (plain : Option String) : Except String (Option String) :=
  encryptSecret s.pgcrypto n (secretKey s.setting) plain

def decrypt (stored : Option String) : Option String :=
  decryptSecret s.pgcrypto (secretKey s.setting) stored

/-- What is written for a text reads as the text. -/
def RoundTrips (n : Nat) (plain : String) : Prop :=
  ∃ stored, s.encrypt n (some plain) = .ok stored ∧ s.decrypt stored = some plain

variable {s} {plain : String}

theorem roundTrips_of_key {key : String} (hk : secretKey s.setting = some key) (n : Nat) (hp : plain ≠ "") :
    s.RoundTrips n plain := by
  cases hP : s.pgcrypto with
  | none => exact absurd hP (s.ready (by simp [hk]))
  | some P =>
    refine ⟨some (encPrefix ++ P.encrypt n plain key), ?_, ?_⟩
    · simp [encrypt, encryptSecret, nullIfEmpty, hp, hk, hP]
    · have hread := s.inverts P hP n plain key
      simp [decrypt, decryptSecret, hk, hP, isEncrypted_encrypt, ciphertext_encrypt, hread]

theorem encrypt_of_no_key (hk : secretKey s.setting = none) (n : Nat) (hp : plain ≠ "") :
    s.encrypt n (some plain) = .ok (some plain) := by
  simp [encrypt, encryptSecret, nullIfEmpty, hp, hk]

theorem decrypt_of_no_key (hk : secretKey s.setting = none) (stored : String) :
    s.decrypt (some stored) = if isEncrypted stored then none else some stored := by
  simp [decrypt, decryptSecret, hk]

/-- Under a key every secret is read back; without one, each that does not start
like a ciphertext. -/
theorem roundTrips_iff_keyed (s : SecretSettings) (n : Nat) {plain : String} (hp : plain ≠ "") :
    s.RoundTrips n plain ↔ secretKey s.setting ≠ none ∨ isEncrypted plain = false := by
  cases hk : secretKey s.setting with
  | some key =>
    have hround := roundTrips_of_key hk n hp
    simp [hround]
  | none =>
    constructor
    · rintro ⟨stored, hw, hr⟩
      right
      rw [encrypt_of_no_key hk n hp] at hw
      obtain rfl : some plain = stored := Except.ok.inj hw
      rw [decrypt_of_no_key hk] at hr
      by_contra he
      simp [he] at hr
    · rintro (h | h)
      · exact absurd rfl h
      · refine ⟨some plain, encrypt_of_no_key hk n hp, ?_⟩
        rw [decrypt_of_no_key hk, h]
        rfl

end SecretSettings

def noKey : SecretSettings where
  setting := none
  pgcrypto := some taggedCrypto
  ready := fun h => absurd rfl h
  inverts := by
    intro P hP
    obtain rfl := Option.some.inj hP
    exact taggedCrypto_inverts

theorem plainSecret_roundTrips : ("sk-1" : String) ≠ "" ∧ noKey.RoundTrips 0 "sk-1" :=
  ⟨by decide, (noKey.roundTrips_iff_keyed 0 (by decide)).mpr (Or.inr (by decide))⟩

/-- A plain text that starts like a ciphertext is stored and reads as nothing. -/
theorem prefixedSecret_lost : ("enc:v1:mine" : String) ≠ "" ∧
    noKey.encrypt 0 (some "enc:v1:mine") = .ok (some "enc:v1:mine") ∧
      noKey.decrypt (some "enc:v1:mine") = none ∧ ¬ noKey.RoundTrips 0 "enc:v1:mine" := by
  have hwrite : noKey.encrypt 0 (some "enc:v1:mine") = .ok (some "enc:v1:mine") :=
    SecretSettings.encrypt_of_no_key rfl 0 (by decide)
  have hread : noKey.decrypt (some "enc:v1:mine") = none := by
    rw [SecretSettings.decrypt_of_no_key rfl]
    decide
  refine ⟨by decide, hwrite, hread, ?_⟩
  rintro ⟨stored, hw, hr⟩
  rw [hwrite] at hw
  obtain rfl := Except.ok.inj hw
  rw [hread] at hr
  exact absurd hr nofun

end Allgres
