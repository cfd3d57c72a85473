import ComputePool.Federated.Basic
import ComputePool.Rust.Integer
import ComputePool.Rust.Serde
import ComputePool.Rust.Slice

/-!
# Loading a keystore

`Wallet::from_keystore` of `wallet.rs`, which the coordinator and the worker share.
The file is read through the derived readers of its four structures, its scheme and
its fields are checked one after the other, and the key it unlocks is compared with
the address it declares.  The cryptographic primitives are parameters.
-/

namespace ComputePool
namespace Worker

open RustStd Federated

namespace Wallet

def MIN_PBKDF2_ITERS : Nat := 10000

def MIN_MODERN_PBKDF2_ITERS : Nat := 600000

structure KdfParams where
  prf : String
  c : Nat
  salt : String
  dklen : Nat

structure KeystoreCrypto where
  cipher : String
  /-- `cipherparams.iv` -/
  iv : String
  ciphertext : String
  kdf : String
  kdfparams : KdfParams
  mac : String

structure KeystoreFile where
  version : Nat
  address : Option String
  crypto : KeystoreCrypto

/-- `u32` -/
def asU32 : Json → Option Nat
  | .number (.posInt n) => if n ≤ u32Max then some n else none
  | _ => none

def KdfParams.read (j : Json) : Option KdfParams := do
  match ← j.slots false ["prf", "c", "salt", "dklen"] with
  | [prf, c, salt, dklen] =>
      pure ⟨← prf.required Json.asStr, ← c.required asU32, ← salt.required Json.asStr,
        ← dklen.required asU32⟩
  | _ => none

/-- `KeystoreCipherParams`, which is the initial vector alone. -/
def readCipherParams (j : Json) : Option String := do
  match ← j.slots false ["iv"] with
  | [iv] => iv.required Json.asStr
  | _ => none

def KeystoreCrypto.read (j : Json) : Option KeystoreCrypto := do
  match ← j.slots false ["cipher", "cipherparams", "ciphertext", "kdf", "kdfparams", "mac"] with
  | [cipher, cipherparams, ciphertext, kdf, kdfparams, mac] =>
      pure ⟨← cipher.required Json.asStr, ← cipherparams.required readCipherParams,
        ← ciphertext.required Json.asStr, ← kdf.required Json.asStr,
        ← kdfparams.required KdfParams.read, ← mac.required Json.asStr⟩
  | _ => none

def KeystoreFile.read (j : Json) : Option KeystoreFile := do
  match ← j.slots false ["version", "address", "crypto"] with
  | [version, address, crypto] =>
      pure ⟨← version.required asU32, ← address.optional Json.asStr,
        ← crypto.required KeystoreCrypto.read⟩
  | _ => none

/-- The cryptography a wallet uses; `K` is a secp256k1 signing key. -/
structure Primitives (K : Type) where
  /-- `pbkdf2_hmac::<Sha256>(passphrase, salt, c)`, 32 bytes of it -/
  pbkdf2 : List UInt8 → List UInt8 → Nat → B32
  keccak256 : List UInt8 → B32
  /-- AES-128-CTR with a key and an initial vector -/
  aes128Ctr : FixedBytes 16 → FixedBytes 16 → List UInt8 → List UInt8
  /-- `SigningKey::from_bytes` -/
  signingKey : B32 → Option K
  /-- `address_from_signing_key` -/
  addressOf : K → H160

/-- What could not be parsed in a keystore. -/
inductive ParseCause where
  | json
  | saltHex
  | ivHex
  | ciphertextHex
  | macHex
  | ivLength (got : Nat)
  | keyLength (got : Nat)
  | addrHex
  deriving DecidableEq

inductive WalletError where
  | badHexLength (got : Nat)
  | badHex
  | badSecret
  | addressMismatch (declared derived : H160)
  | keystoreIo (text : String)
  | keystoreParse (cause : ParseCause)
  | unsupportedKeystoreVersion (version : Nat)
  | unsupportedCipher (cipher : String)
  | unsupportedKdf (kdf : String)
  | unsupportedKdfPrf (prf : String)
  | unsupportedKdfDklen (dklen : Nat)
  | invalidPassphrase
  | weakKdf (iterations floor : Nat)
  deriving DecidableEq

end Wallet

/-- A loaded signing wallet. -/
structure Wallet (K : Type) where
  signingKey : K
  address : H160
  /-- The iteration count of the keystore, when it is below the modern floor. -/
  belowModernKdf : Option Nat
  deriving DecidableEq

namespace Wallet

variable {K : Type} (P : Primitives K)

/-- `copy_from_slice`, `from_slice` and `into` for arrays, which panic on another
length. -/
def fromSlice {ε : Type} (n : Nat) (bytes : List UInt8) : Checked ε (FixedBytes n) :=
  if h : bytes.length = n then .ok ⟨bytes, h⟩ else .error .panic

/-- `declared.trim().trim_start_matches("0x")` -/
def cleaned (s : List Char) : List Char := trimStart0x (trim s)

/-- The checks of the version and of the scheme. -/
def checkScheme (file : KeystoreFile) : Except WalletError Unit :=
  if file.version ≠ 3 then .error (.unsupportedKeystoreVersion file.version)
  else if file.crypto.cipher ≠ "aes-128-ctr" then .error (.unsupportedCipher file.crypto.cipher)
  else if file.crypto.kdf ≠ "pbkdf2" then .error (.unsupportedKdf file.crypto.kdf)
  else if file.crypto.kdfparams.prf ≠ "hmac-sha256" then
    .error (.unsupportedKdfPrf file.crypto.kdfparams.prf)
  else if file.crypto.kdfparams.dklen ≠ 32 then
    .error (.unsupportedKdfDklen file.crypto.kdfparams.dklen)
  else .ok ()

/-- The byte strings of a keystore. -/
structure Decoded where
  salt : List UInt8
  iv : List UInt8
  ciphertext : List UInt8
  mac : List UInt8

def decodeField (cause : ParseCause) (text : List Char) : Except WalletError (List UInt8) :=
  okOr (hexDecode text) (.keystoreParse cause)

def decodeFields (crypto : KeystoreCrypto) : Except WalletError Decoded := do
  let salt ← decodeField .saltHex crypto.kdfparams.salt.toList
  let iv ← decodeField .ivHex crypto.iv.toList
  let ciphertext ← decodeField .ciphertextHex crypto.ciphertext.toList
  let mac ← decodeField .macHex crypto.mac.toList
  if iv.length ≠ 16 then .error (.keystoreParse (.ivLength iv.length))
  else .ok ⟨salt, iv, ciphertext, mac⟩

/-- Refuse a keystore whose KDF cost is below the floor. -/
def checkKdfCost (iterations : Nat) : Except WalletError (Option Nat) :=
  if iterations < MIN_PBKDF2_ITERS then .error (.weakKdf iterations MIN_PBKDF2_ITERS)
  else .ok (if iterations < MIN_MODERN_PBKDF2_ITERS then some iterations else none)

/-- The bytes the MAC is taken of. -/
def macInput (derived : B32) (ciphertext : List UInt8) : Checked WalletError (List UInt8) := do
  let tail ← slice derived.toBytes 16 32
  pure (tail ++ ciphertext)

/-- The decrypted key. -/
def decrypt (derived : B32) (fields : Decoded) : Checked WalletError (List UInt8) := do
  let key ← slice derived.toBytes 0 16
  let key ← fromSlice 16 key
  let iv ← fromSlice 16 fields.iv
  pure (P.aes128Ctr key iv fields.ciphertext)

/-- Build from a hex-encoded private key. -/
def fromHex (hexKey : List Char) : Checked WalletError (Wallet K) :=
  let trimmed := cleaned hexKey
  let len := (String.ofList trimmed).utf8ByteSize
  if len ≠ 64 then .error (.err (.badHexLength len))
  else do
    let bytes ← checked (okOr (hexDecode trimmed) .badHex)
    let sk ← fromSlice 32 bytes
    let key ← checked (okOr (P.signingKey sk) .badSecret)
    pure ⟨key, P.addressOf key, none⟩

/-- The wallet a keystore unlocks, before its declared address is looked at. -/
def unlock (file : KeystoreFile) (passphrase : String) : Checked WalletError (Wallet K) := do
  checked (checkScheme file)
  let fields ← checked (decodeFields file.crypto)
  let belowModernKdf ← checked (checkKdfCost file.crypto.kdfparams.c)
  let derived := P.pbkdf2 (utf8 passphrase) fields.salt file.crypto.kdfparams.c
  let input ← macInput derived fields.ciphertext
  if (P.keccak256 input).toBytes ≠ fields.mac then .error (.err .invalidPassphrase)
  else do
    let plaintext ← decrypt P derived fields
    if plaintext.length ≠ 32 then .error (.err (.keystoreParse (.keyLength plaintext.length)))
    else do
      let wallet ← fromHex P (hexChars plaintext)
      pure { wallet with belowModernKdf := belowModernKdf }

/-- Assert the declared address matches the derived one. -/
def verifyAddress (wallet : Wallet K) (declared : H160) : Except WalletError Unit :=
  if declared ≠ wallet.address then .error (.addressMismatch declared wallet.address) else .ok ()

/-- The comparison with the address a keystore declares. -/
def verifyDeclared (wallet : Wallet K) : Option String → Checked WalletError (Wallet K)
  | none => .ok wallet
  | some declared => do
      let bytes ← checked (decodeField .addrHex (cleaned declared.toList))
      let declaredAddr ← fromSlice 20 bytes
      checked (verifyAddress wallet declaredAddr)
      pure wallet

/-- Load from a keystore file; `content` is what reading the file gives. -/
def fromKeystore (S : SerdeJson) (content : Except String String) (passphrase : String) :
    Checked WalletError (Wallet K) := do
  let raw ← checked (content.mapError .keystoreIo)
  let file ← checked (okOr ((S.fromText raw).bind KeystoreFile.read) (.keystoreParse .json))
  let wallet ← unlock P file passphrase
  verifyDeclared wallet file.address

/-! ## When a keystore is loaded -/

/-- The document is a keystore this wallet supports, the passphrase is the one of its
MAC, and `key` is what it unlocks. -/
structure Unlocks (file : KeystoreFile) (passphrase : String) (key : K) : Prop where
  version : file.version = 3
  cipher : file.crypto.cipher = "aes-128-ctr"
  kdf : file.crypto.kdf = "pbkdf2"
  prf : file.crypto.kdfparams.prf = "hmac-sha256"
  dklen : file.crypto.kdfparams.dklen = 32
  floor : MIN_PBKDF2_ITERS ≤ file.crypto.kdfparams.c
  /-- The hex fields are well formed, and what follows is about their bytes. -/
  fields : ∃ salt ciphertext mac, ∃ iv keyBytes : FixedBytes 16, ∃ sk : B32,
    hexDecode file.crypto.kdfparams.salt.toList = some salt ∧
    hexDecode file.crypto.iv.toList = some iv.toBytes ∧
    hexDecode file.crypto.ciphertext.toList = some ciphertext ∧
    hexDecode file.crypto.mac.toList = some mac ∧
    (P.keccak256 ((P.pbkdf2 (utf8 passphrase) salt file.crypto.kdfparams.c).toBytes.drop 16 ++
      ciphertext)).toBytes = mac ∧
    (P.pbkdf2 (utf8 passphrase) salt file.crypto.kdfparams.c).toBytes.take 16 =
      keyBytes.toBytes ∧
    P.aes128Ctr keyBytes iv ciphertext = sk.toBytes ∧
    P.signingKey sk = some key

/-- The keystore in a file. -/
def Holds (S : SerdeJson) (content : Except String String) (file : KeystoreFile) : Prop :=
  ∃ raw, content = .ok raw ∧ (S.fromText raw).bind KeystoreFile.read = some file

/-- A keystore loads when it unlocks and declares no other address. -/
def Loads (S : SerdeJson) (content : Except String String) (passphrase : String) : Prop :=
  ∃ file key, Holds S content file ∧ Unlocks P file passphrase key ∧
    ∀ declared, file.address = some declared →
      hexDecode (cleaned declared.toList) = some (P.addressOf key).toBytes

/-- Loading a keystore returns, and succeeds exactly on those that load. -/
def LoadsExactly (S : SerdeJson) (content : Except String String) (passphrase : String) : Prop :=
  Returns (fromKeystore P S content passphrase) ∧
    ((∃ wallet, fromKeystore P S content passphrase = .ok wallet) ↔ Loads P S content passphrase)

/-- The address that a keystore declares besides an unlocked key is 20 bytes, if it is
hex at all. -/
def DeclaresAddress (S : SerdeJson) (content : Except String String) (passphrase : String) :
    Prop :=
  ∀ file key declared bytes, Holds S content file → Unlocks P file passphrase key →
    file.address = some declared → hexDecode (cleaned declared.toList) = some bytes →
    bytes.length = 20

/-! ## The checks one by one -/

variable {P} {file : KeystoreFile} {passphrase : String} {S : SerdeJson}
  {content : Except String String}

theorem fromSlice_toBytes {ε : Type} {n : Nat} (a : FixedBytes n) :
    (fromSlice n a.toBytes : Checked ε (FixedBytes n)) = .ok a :=
  dif_pos a.2

theorem fromSlice_eq_ok {ε : Type} {n : Nat} {bytes : List UInt8} {a : FixedBytes n} :
    (fromSlice n bytes : Checked ε (FixedBytes n)) = .ok a ↔ bytes = a.toBytes := by
  constructor
  · intro h
    unfold fromSlice at h
    split at h
    · cases h
      rfl
    · cases h
  · rintro rfl
    exact fromSlice_toBytes a

theorem checkScheme_eq_ok :
    checkScheme file = .ok () ↔
      file.version = 3 ∧ file.crypto.cipher = "aes-128-ctr" ∧ file.crypto.kdf = "pbkdf2" ∧
        file.crypto.kdfparams.prf = "hmac-sha256" ∧ file.crypto.kdfparams.dklen = 32 := by
  unfold checkScheme
  simp only [check_eq_ok, not_not, and_true]

theorem decodeField_eq_ok {cause : ParseCause} {text : List Char} {bytes : List UInt8} :
    decodeField cause text = .ok bytes ↔ hexDecode text = some bytes := by
  unfold decodeField
  cases hexDecode text <;> simp

/-- The fields decode exactly when all four are hex and the initial vector fits. -/
theorem decodeFields_eq_ok {crypto : KeystoreCrypto} {fields : Decoded} :
    decodeFields crypto = .ok fields ↔
      hexDecode crypto.kdfparams.salt.toList = some fields.salt ∧
        hexDecode crypto.iv.toList = some fields.iv ∧
        hexDecode crypto.ciphertext.toList = some fields.ciphertext ∧
        hexDecode crypto.mac.toList = some fields.mac ∧ fields.iv.length = 16 := by
  unfold decodeFields
  simp only [bind_eq_ok, decodeField_eq_ok, check_eq_ok, not_not, Except.ok.injEq]
  constructor
  · rintro ⟨salt, hsalt, iv, hiv, ciphertext, hciphertext, mac, hmac, hlen, rfl⟩
    exact ⟨hsalt, hiv, hciphertext, hmac, hlen⟩
  · rintro ⟨hsalt, hiv, hciphertext, hmac, hlen⟩
    exact ⟨_, hsalt, _, hiv, _, hciphertext, _, hmac, hlen, rfl⟩

theorem checkKdfCost_eq_ok {iterations : Nat} {below : Option Nat} :
    checkKdfCost iterations = .ok below ↔
      MIN_PBKDF2_ITERS ≤ iterations ∧
        (if iterations < MIN_MODERN_PBKDF2_ITERS then some iterations else none) = below := by
  unfold checkKdfCost
  rw [check_eq_ok, not_lt, Except.ok.injEq]

/-- The half of the derived key that the MAC uses is there. -/
theorem macInput_eq (derived : B32) (ciphertext : List UInt8) :
    macInput derived ciphertext = .ok (derived.toBytes.drop 16 ++ ciphertext) := by
  have hlen : derived.toBytes.length = 32 := derived.toBytes_length
  have htail : (derived.toBytes.drop 16).take (32 - 16) = derived.toBytes.drop 16 := by
    apply List.take_of_length_le
    rw [List.length_drop]
    omega
  unfold macInput slice
  rw [if_pos ⟨by omega, by omega⟩, htail]
  rfl

/-- The half of the derived key that decrypts. -/
def keyHalf (derived : B32) : FixedBytes 16 :=
  ⟨derived.toBytes.take 16, by rw [List.length_take, derived.toBytes_length]; rfl⟩

/-- Decryption does not panic after the check of the initial vector. -/
theorem decrypt_eq (derived : B32) {fields : Decoded} {iv : FixedBytes 16}
    (hiv : fields.iv = iv.toBytes) :
    decrypt P derived fields = .ok (P.aes128Ctr (keyHalf derived) iv fields.ciphertext) := by
  have hlen : derived.toBytes.length = 32 := derived.toBytes_length
  unfold decrypt slice
  rw [if_pos ⟨by omega, by omega⟩, hiv, fromSlice_toBytes]
  show (fromSlice 16 (keyHalf derived).toBytes >>= _) = _
  rw [fromSlice_toBytes]
  rfl

theorem cleaned_hexChars (bytes : List UInt8) : cleaned (hexChars bytes) = hexChars bytes := by
  unfold cleaned
  rw [trim_of_no_whiteSpace, trimStart0x_hexChars]
  intro c hc
  obtain ⟨n, hn, rfl⟩ := hexDigit_mem hc
  exact hexDigit_not_whiteSpace n hn

/-- The way through the hex text gives back the key bytes. -/
theorem fromHex_hexChars (sk : B32) :
    fromHex P (hexChars sk.toBytes) =
      (checked (okOr (P.signingKey sk) .badSecret)).map fun key => ⟨key, P.addressOf key, none⟩ := by
  have hdecode := hexDecode_hexChars sk.toBytes
  have hsize : (String.ofList (hexChars sk.toBytes)).utf8ByteSize = 64 := by
    rw [utf8ByteSize_of_hexDecode hdecode, sk.toBytes_length]
  unfold fromHex
  rw [cleaned_hexChars]
  dsimp only
  rw [if_neg (not_not.mpr hsize), hdecode]
  show (fromSlice 32 sk.toBytes >>= _) = _
  rw [fromSlice_toBytes]
  show (checked (okOr (P.signingKey sk) WalletError.badSecret) >>= _) = _
  cases P.signingKey sk <;> rfl

/-- A private key in hex never makes the wallet panic. -/
theorem returns_fromHex (hexKey : List Char) : Returns (fromHex P hexKey) := by
  unfold fromHex
  refine returns_ite (fun _ => returns_error _) fun hsize => ?_
  refine (returns_checked _).bind fun bytes hbytes => ?_
  rw [checked_eq_ok] at hbytes
  cases hdecode : hexDecode (cleaned hexKey) with
  | none =>
      rw [hdecode] at hbytes
      cases hbytes
  | some decoded =>
      rw [hdecode] at hbytes
      cases hbytes
      have hlen : bytes.length = 32 := by
        rw [utf8ByteSize_of_hexDecode hdecode] at hsize
        omega
      refine Returns.bind ?_ fun sk _ => ?_
      · unfold fromSlice
        rw [dif_pos hlen]
        exact returns_ok _
      · exact (returns_checked _).bind fun key _ => returns_ok _

/-! ## The whole load -/

theorem returns_unlock : Returns (unlock P file passphrase) := by
  unfold unlock
  refine (returns_checked _).bind fun _ _ => (returns_checked _).bind fun fields hfields => ?_
  refine (returns_checked _).bind fun _ _ => ?_
  dsimp only
  rw [bind_of_ok (macInput_eq _ _)]
  refine returns_ite (fun _ => returns_error _) fun _ => ?_
  have ⟨_, _, _, _, hiv⟩ := decodeFields_eq_ok.mp (checked_eq_ok.mp hfields)
  rw [bind_of_ok (@decrypt_eq K P _ fields ⟨fields.iv, hiv⟩ rfl)]
  refine returns_ite (fun _ => returns_error _) fun _ => ?_
  exact (returns_fromHex _).bind fun _ _ => returns_ok _

/-- What a keystore unlocks is a key, and the wallet has its address. -/
theorem unlock_eq_ok {wallet : Wallet K} (h : unlock P file passphrase = .ok wallet) :
    ∃ key, Unlocks P file passphrase key ∧ wallet.address = P.addressOf key := by
  unfold unlock at h
  obtain ⟨_, hscheme, h⟩ := bind_eq_ok.mp h
  obtain ⟨fields, hfields, h⟩ := bind_eq_ok.mp h
  obtain ⟨below, hcost, h⟩ := bind_eq_ok.mp h
  dsimp only at h
  rw [bind_of_ok (macInput_eq _ _)] at h
  obtain ⟨hmac, h⟩ := check_eq_ok.mp h
  have ⟨hversion, hcipher, hkdf, hprf, hdklen⟩ := checkScheme_eq_ok.mp (checked_eq_ok.mp hscheme)
  have ⟨hsalt, hiv, hciphertext, hmacHex, hivLen⟩ :=
    decodeFields_eq_ok.mp (checked_eq_ok.mp hfields)
  have ⟨hfloor, _⟩ := checkKdfCost_eq_ok.mp (checked_eq_ok.mp hcost)
  rw [bind_of_ok (@decrypt_eq K P _ fields ⟨fields.iv, hivLen⟩ rfl)] at h
  obtain ⟨hkeyLen, h⟩ := check_eq_ok.mp h
  rw [not_not] at hmac hkeyLen
  obtain ⟨w, hw, h⟩ := bind_eq_ok.mp h
  have hhex := @fromHex_hexChars K P ⟨_, hkeyLen⟩
  cases hkey : P.signingKey ⟨_, hkeyLen⟩ with
  | none =>
      rw [hkey] at hhex
      cases hhex.symm.trans hw
  | some key =>
      rw [hkey] at hhex
      cases hhex.symm.trans hw
      cases h
      refine ⟨key, ?_, rfl⟩
      exact
        { version := hversion
          cipher := hcipher
          kdf := hkdf
          prf := hprf
          dklen := hdklen
          floor := hfloor
          fields := ⟨_, _, _, ⟨fields.iv, hivLen⟩, keyHalf _, ⟨_, hkeyLen⟩, hsalt, hiv, hciphertext,
            hmacHex, hmac, rfl, rfl, hkey⟩ }

/-- A key that is unlocked makes a wallet. -/
theorem Unlocks.unlock {key : K} (h : Unlocks P file passphrase key) :
    ∃ wallet, unlock P file passphrase = .ok wallet ∧ wallet.address = P.addressOf key := by
  obtain ⟨salt, ciphertext, mac, iv, keyBytes, sk, hsalt, hiv, hciphertext, hmacHex, hmac, hhalf,
    hplain, hkey⟩ := h.fields
  have hscheme := checkScheme_eq_ok.mpr ⟨h.version, h.cipher, h.kdf, h.prf, h.dklen⟩
  have hfields := (@decodeFields_eq_ok file.crypto ⟨salt, iv.toBytes, ciphertext, mac⟩).mpr
    ⟨hsalt, hiv, hciphertext, hmacHex, iv.toBytes_length⟩
  have hcost := checkKdfCost_eq_ok.mpr ⟨h.floor, rfl⟩
  have hkeyBytes : keyHalf (P.pbkdf2 (utf8 passphrase) salt file.crypto.kdfparams.c) = keyBytes :=
    FixedBytes.toBytes_injective hhalf
  have hdecrypt := @decrypt_eq K P (P.pbkdf2 (utf8 passphrase) salt file.crypto.kdfparams.c)
    ⟨salt, iv.toBytes, ciphertext, mac⟩ iv rfl
  rw [hkeyBytes, hplain] at hdecrypt
  have hhex := @fromHex_hexChars K P sk
  rw [hkey] at hhex
  unfold Wallet.unlock
  rw [bind_of_ok (checked_eq_ok.mpr hscheme), bind_of_ok (checked_eq_ok.mpr hfields),
    bind_of_ok (checked_eq_ok.mpr hcost)]
  dsimp only
  rw [bind_of_ok (macInput_eq _ _), if_neg (not_not.mpr hmac), bind_of_ok hdecrypt,
    if_neg (not_not.mpr sk.toBytes_length), bind_of_ok hhex]
  exact ⟨_, rfl, rfl⟩

/-- The declared address is compared without a panic if it is hex of 20 bytes or no hex. -/
theorem returns_verifyDeclared {wallet : Wallet K} {address : Option String} :
    Returns (verifyDeclared wallet address) ↔
      ∀ declared bytes, address = some declared → hexDecode (cleaned declared.toList) = some bytes →
        bytes.length = 20 := by
  cases address with
  | none => exact iff_of_true (returns_ok _) nofun
  | some declared =>
      unfold verifyDeclared
      rw [returns_bind_iff (returns_checked _)]
      simp only [checked_eq_ok, decodeField_eq_ok, Option.some.injEq]
      constructor
      · rintro h declared' bytes rfl hbytes
        by_contra hlen
        refine h bytes hbytes ?_
        unfold fromSlice
        rw [dif_neg hlen]
        rfl
      · intro h bytes hbytes
        unfold fromSlice
        rw [dif_pos (h declared bytes rfl hbytes)]
        exact (returns_checked _).bind fun _ _ => returns_ok _

theorem verifyDeclared_eq_ok {wallet : Wallet K} {address : Option String} :
    (∃ w, verifyDeclared wallet address = .ok w) ↔
      ∀ declared, address = some declared →
        hexDecode (cleaned declared.toList) = some wallet.address.toBytes := by
  cases address with
  | none => exact iff_of_true ⟨wallet, rfl⟩ nofun
  | some declared =>
      unfold verifyDeclared verifyAddress
      simp only [bind_eq_ok, checked_eq_ok, decodeField_eq_ok, fromSlice_eq_ok, check_eq_ok,
        Option.some.injEq, not_not]
      constructor
      · rintro ⟨w, bytes, hbytes, addr, rfl, _, ⟨rfl, _⟩, _⟩ _ rfl
        exact hbytes
      · intro h
        exact ⟨wallet, _, h declared rfl, wallet.address, rfl, (), ⟨rfl, trivial⟩, rfl⟩

/-- A file holds one keystore, which unlocks one key. -/
theorem Holds.unique {file file' : KeystoreFile} (h : Holds S content file)
    (h' : Holds S content file') : file = file' := by
  obtain ⟨raw, hraw, hfile⟩ := h
  obtain ⟨raw', hraw', hfile'⟩ := h'
  cases hraw.symm.trans hraw'
  exact Option.some.inj (hfile.symm.trans hfile')

theorem Unlocks.unique {key key' : K} (h : Unlocks P file passphrase key)
    (h' : Unlocks P file passphrase key') : P.addressOf key = P.addressOf key' := by
  obtain ⟨wallet, hok, haddress⟩ := h.unlock
  obtain ⟨wallet', hok', haddress'⟩ := h'.unlock
  cases hok.symm.trans hok'
  exact haddress.symm.trans haddress'

theorem fromKeystore_of_holds (h : Holds S content file) :
    fromKeystore P S content passphrase =
      unlock P file passphrase >>= fun wallet => verifyDeclared wallet file.address := by
  obtain ⟨raw, rfl, hfile⟩ := h
  show (checked (okOr ((S.fromText raw).bind KeystoreFile.read) _) >>= _) = _
  rw [hfile]
  rfl

/-- Where the file holds no keystore, loading fails without a panic. -/
theorem fromKeystore_of_not_holds (h : ∀ file, ¬ Holds S content file) :
    ∃ e, fromKeystore P S content passphrase = .error (.err e) := by
  cases content with
  | error text => exact ⟨_, rfl⟩
  | ok raw =>
      cases hfile : (S.fromText raw).bind KeystoreFile.read with
      | some file => exact absurd ⟨raw, rfl, hfile⟩ (h file)
      | none =>
          refine ⟨.keystoreParse .json, ?_⟩
          show (checked (okOr ((S.fromText raw).bind KeystoreFile.read) _) >>= _) = _
          rw [hfile]
          rfl

/-- A keystore is loaded exactly when it should be. -/
theorem fromKeystore_ok_iff :
    (∃ wallet, fromKeystore P S content passphrase = .ok wallet) ↔
      Loads P S content passphrase := by
  constructor
  · rintro ⟨wallet, hok⟩
    by_cases hholds : ∃ file, Holds S content file
    · obtain ⟨file, hfile⟩ := hholds
      rw [fromKeystore_of_holds hfile] at hok
      obtain ⟨w, hw, hdeclared⟩ := bind_eq_ok.mp hok
      obtain ⟨key, hkey, haddress⟩ := unlock_eq_ok hw
      have hsame := verifyDeclared_eq_ok.mp ⟨wallet, hdeclared⟩
      rw [haddress] at hsame
      exact ⟨file, key, hfile, hkey, hsame⟩
    · obtain ⟨e, he⟩ := @fromKeystore_of_not_holds K P passphrase S content (not_exists.mp hholds)
      rw [hok] at he
      cases he
  · rintro ⟨file, key, hfile, hkey, hsame⟩
    obtain ⟨w, hw, haddress⟩ := hkey.unlock
    rw [← haddress] at hsame
    obtain ⟨wallet, hok⟩ := verifyDeclared_eq_ok.mpr hsame
    refine ⟨wallet, ?_⟩
    rw [fromKeystore_of_holds hfile, bind_of_ok hw]
    exact hok

/-- Loading never panics but for the length of a declared address. -/
theorem returns_fromKeystore :
    Returns (fromKeystore P S content passphrase) ↔ DeclaresAddress P S content passphrase := by
  by_cases hholds : ∃ file, Holds S content file
  · obtain ⟨file, hfile⟩ := hholds
    rw [fromKeystore_of_holds hfile, returns_bind_iff returns_unlock]
    constructor
    · intro h file' key declared bytes hfile' hkey haddress hbytes
      cases hfile.unique hfile'
      obtain ⟨w, hw, _⟩ := hkey.unlock
      exact returns_verifyDeclared.mp (h w hw) declared bytes haddress hbytes
    · intro h w hw
      obtain ⟨key, hkey, _⟩ := unlock_eq_ok hw
      exact returns_verifyDeclared.mpr fun declared bytes haddress hbytes =>
        h file key declared bytes hfile hkey haddress hbytes
  · obtain ⟨e, he⟩ := @fromKeystore_of_not_holds K P passphrase S content (not_exists.mp hholds)
    rw [he]
    exact iff_of_true (returns_error e) fun file _ _ _ hfile => absurd ⟨file, hfile⟩ hholds

/-- Loading returns, and succeeds exactly on the keystores that load, unless an unlocked
keystore declares an address that is hex of another length. -/
theorem loadsExactly_iff (P : Primitives K) (S : SerdeJson) (content : Except String String)
    (passphrase : String) :
    LoadsExactly P S content passphrase ↔ DeclaresAddress P S content passphrase := by
  unfold LoadsExactly
  rw [returns_fromKeystore]
  exact and_iff_left fromKeystore_ok_iff

/-! ## A keystore that makes the daemon panic -/

/-- Primitives under which every passphrase unlocks. -/
def permissive : Primitives Unit where
  pbkdf2 _ _ _ := FixedBytes.zero
  keccak256 _ := FixedBytes.zero
  aes128Ctr _ _ bytes := bytes
  signingKey _ := some ()
  addressOf _ := FixedBytes.zero

/-- A keystore of zeros, which declares an address of one byte. -/
def shortAddress : Json :=
  .object [("version", .number (.posInt 3)), ("address", .string "0x00"),
    ("crypto", .object [("cipher", .string "aes-128-ctr"),
      ("cipherparams", .object [("iv", .string (hexEncode (List.replicate 16 0)))]),
      ("ciphertext", .string (hexEncode (List.replicate 32 0))), ("kdf", .string "pbkdf2"),
      ("kdfparams", .object [("prf", .string "hmac-sha256"), ("c", .number (.posInt 10000)),
        ("salt", .string ""), ("dklen", .number (.posInt 32))]),
      ("mac", .string (hexEncode (List.replicate 32 0)))])]

/-- The address is hex of one byte, and `from_slice` panics on it. -/
theorem short_address_panics :
    ¬ LoadsExactly permissive ⟨fun _ => "", fun _ => some shortAddress, fun _ => true⟩ (.ok "")
      "" := by
  rintro ⟨hreturns, _⟩
  exact hreturns (by decide +kernel)

end Wallet
end Worker
end ComputePool
