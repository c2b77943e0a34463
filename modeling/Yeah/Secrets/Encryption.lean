import Yeah.Text.Base64
import Yeah.Text.Space

namespace Yeah.Secrets

open Text

def PREFIX : String := "enc:v1:"

def IV_BYTES : Nat := 12

def TAG_BYTES : Nat := 16

def DEV_FALLBACK_KEY : String := "yeah-dev-only-encryption-key-do-not-use-in-production"

/-- AES-256-GCM and the derivation of its keys, idealised: what is encrypted is decrypted under the key that encrypted
it and under no other, and different secrets give different keys. -/
structure Cipher (Key : Type) where
  deriveKey : String → Key
  deriveKey_injective : Function.Injective deriveKey
  /-- The tag and the ciphertext. -/
  encrypt (key : Key) (iv text : List UInt8) : List UInt8 × List UInt8
  decrypt (key : Key) (iv tag ciphertext : List UInt8) : Option (List UInt8)
  tag_length : ∀ key iv text, (encrypt key iv text).1.length = TAG_BYTES
  decrypt_same : ∀ key iv text, decrypt key iv (encrypt key iv text).1 (encrypt key iv text).2 = some text
  decrypt_other : ∀ key key' iv text, key' ≠ key →
    decrypt key' iv (encrypt key iv text).1 (encrypt key iv text).2 = none

/-- The environment of the process: `ENCRYPTION_KEY`, `ENCRYPTION_KEY_PREVIOUS`, and whether `NODE_ENV` is production. -/
structure Config where
  key : Option String
  previous : Option String
  production : Bool

namespace Config

variable (c : Config)

def primary : String := (c.key.map trim).getD ""

def previousKeys : List String :=
  (((c.previous.getD "").toList.splitOn ',').map fun k => trim (String.ofList k)).filter fun k => k ≠ ""

def signature : String := c.primary ++ "|" ++ ",".intercalate c.previousKeys

def current : Except String String :=
  if c.primary ≠ "" then .ok c.primary
  else if c.production then .error "ENCRYPTION_KEY is required in production — set it in .env (any long random string)."
  else .ok DEV_FALLBACK_KEY

def keys : List String :=
  match c.current with
  | .error _ => []
  | .ok current => current :: c.previousKeys

end Config

structure Ring (Key : Type) where
  signature : String
  current : Key
  all : List Key

def isEncrypted (value : String) : Bool := PREFIX.toList.isPrefixOf value.toList

/-- `Buffer.from(..., "base64url")` of what follows the prefix. -/
def rawBytes (stored : String) : List UInt8 := Base64.decode (stored.toList.drop PREFIX.length)

def utf8 (text : String) : List UInt8 := text.toUTF8.data.toList

section

variable {Key : Type} (cipher : Cipher Key)

def Config.ring (c : Config) : Except String (Ring Key) :=
  c.current.map fun current => ⟨c.signature, cipher.deriveKey current, (current :: c.previousKeys).map cipher.deriveKey⟩

/-- The key ring, and the cache as it is then. -/
def keyring (cache : Option (Ring Key)) (c : Config) : Except String (Ring Key) × Option (Ring Key) :=
  match cache with
  | some ring =>
      if ring.signature = c.signature then (.ok ring, some ring)
      else
        match c.ring cipher with
        | .error e => (.error e, some ring)
        | .ok fresh => (.ok fresh, some fresh)
  | none =>
      match c.ring cipher with
      | .error e => (.error e, none)
      | .ok fresh => (.ok fresh, some fresh)

def usesCurrentKey (cache : Option (Ring Key)) (c : Config) (stored : String) : Bool :=
  let raw := rawBytes stored
  if !isEncrypted stored then false
  else if raw.length < IV_BYTES + TAG_BYTES then false
  else
    match (keyring cipher cache c).1 with
    | .error _ => false
    | .ok ring =>
        (cipher.decrypt ring.current (raw.take IV_BYTES) ((raw.drop IV_BYTES).take TAG_BYTES) (raw.drop (IV_BYTES + TAG_BYTES))).isSome

def sealSecret (key : Key) (iv : List UInt8) (plaintext : String) : String :=
  let (tag, ciphertext) := cipher.encrypt key iv (utf8 plaintext)
  PREFIX ++ String.ofList (Base64.encode (iv ++ tag ++ ciphertext))

def encryptSecret (cache : Option (Ring Key)) (c : Config) (iv : List UInt8) (plaintext : String) :
    Except String String :=
  (keyring cipher cache c).1.map fun ring => sealSecret cipher ring.current iv plaintext

/-- How bytes that are not UTF-8 are read is a parameter. -/
def decryptSecret (lossy : List UInt8 → String) (cache : Option (Ring Key)) (c : Config) (stored : String) :
    Except String String :=
  let raw := rawBytes stored
  if !isEncrypted stored then .ok stored
  else if raw.length < IV_BYTES + TAG_BYTES then .error "encrypted value is truncated"
  else
    let iv := raw.take IV_BYTES
    let tag := (raw.drop IV_BYTES).take TAG_BYTES
    let ciphertext := raw.drop (IV_BYTES + TAG_BYTES)
    match (keyring cipher cache c).1 with
    | .error e => .error e
    | .ok ring =>
        match ring.all.findSome? fun key => cipher.decrypt key iv tag ciphertext with
        | some text => .ok ((String.fromUTF8? ⟨text.toArray⟩).getD (lossy text))
        | none => .error "cannot decrypt stored secret — ENCRYPTION_KEY does not match the one it was encrypted with"

/-- The cache of a process in which the ring was asked for under these configurations. -/
def cacheAfter (history : List Config) : Option (Ring Key) :=
  history.foldl (fun cache c => (keyring cipher cache c).2) none

end

/-! ### Which ring answers -/

/-- The configuration whose ring the cache holds, before and after the ring is asked for under `c`. -/
def hold (d : Option Config) (c : Config) : Option Config :=
  if d.any fun e => e.signature = c.signature then d else if c.current.isOk then some c else d

def held (history : List Config) : Option Config := history.foldl hold none

/-- The configuration whose ring is used under `c`: another one if its parts are joined to the same text. -/
def served (history : List Config) (c : Config) : Config :=
  ((held history).filter fun e => e.signature = c.signature).getD c

section Cache

variable {Key : Type} (cipher : Cipher Key)

def ringOf (d : Option Config) : Option (Ring Key) := d.bind fun e => (e.ring cipher).toOption

theorem ring_eq_error {c : Config} {e : String} (h : c.current = .error e) :
    c.ring cipher = .error e := by
  rw [Config.ring, h]
  rfl

theorem ring_eq_ok {c : Config} {k : String} (h : c.current = .ok k) :
    c.ring cipher = .ok ⟨c.signature, cipher.deriveKey k, c.keys.map cipher.deriveKey⟩ := by
  rw [Config.ring, Config.keys, h]
  rfl

theorem keyring_ringOf {d : Option Config} (hd : ∀ e ∈ d, ∃ k, e.current = .ok k) (c : Config) :
    keyring cipher (ringOf cipher d) c =
      (((d.filter fun e => e.signature = c.signature).getD c).ring cipher, ringOf cipher (hold d c)) := by
  cases d with
  | none =>
      cases hc : c.current with
      | error e => simp [ringOf, keyring, hold, hc, ring_eq_error cipher hc, Except.isOk, Except.toBool]
      | ok k => simp [ringOf, keyring, hold, hc, ring_eq_ok cipher hc, Except.isOk, Except.toBool, Except.toOption]
  | some e =>
      obtain ⟨k', he⟩ := hd e rfl
      have hring : ringOf cipher (some e) = some ⟨e.signature, cipher.deriveKey k', e.keys.map cipher.deriveKey⟩ := by
        rw [ringOf, Option.bind_some, ring_eq_ok cipher he]
        rfl
      rw [hring]
      by_cases hs : e.signature = c.signature
      · rw [Option.filter_some, if_pos (decide_eq_true hs), Option.getD_some, ring_eq_ok cipher he, hold,
          if_pos (by simpa using hs), hring, keyring, if_pos hs]
      · rw [Option.filter_some, if_neg (by simpa using hs), Option.getD_none, hold,
          if_neg (by simpa using hs), keyring, if_neg hs]
        cases hc : c.current with
        | error m => simp [hring, ring_eq_error cipher hc, Except.isOk, Except.toBool]
        | ok k => simp [ringOf, ring_eq_ok cipher hc, Except.isOk, Except.toBool, Except.toOption]

theorem hold_current {d : Option Config} (hd : ∀ e ∈ d, ∃ k, e.current = .ok k) (c : Config) :
    ∀ e ∈ hold d c, ∃ k, e.current = .ok k := by
  intro e he
  rw [hold] at he
  split_ifs at he with hs hc
  · exact hd e he
  · obtain rfl := Option.some.inj he
    cases hcur : c.current with
    | error m => simp [hcur, Except.isOk, Except.toBool] at hc
    | ok k => exact ⟨k, rfl⟩
  · exact hd e he

/-- The cache after a history holds the ring of the configuration that is held. -/
theorem cacheAfter_eq (history : List Config) :
    (∀ e ∈ held history, ∃ k, e.current = .ok k) ∧
        cacheAfter cipher history = ringOf cipher (held history) := by
  have key : ∀ d : Option Config, (∀ e ∈ d, ∃ k, e.current = .ok k) →
    (∀ e ∈ history.foldl hold d, ∃ k, e.current = .ok k) ∧
      history.foldl (fun cache c => (keyring cipher cache c).2) (ringOf cipher d) = ringOf cipher (history.foldl hold d) := by
    induction history with
    | nil => exact fun d hd => ⟨hd, rfl⟩
    | cons c history ih =>
        intro d hd
        rw [List.foldl_cons, List.foldl_cons, keyring_ringOf cipher hd]
        exact ih _ (hold_current hd c)
  exact key none (by simp)

theorem keyring_served (history : List Config) (c : Config) :
    (keyring cipher (cacheAfter cipher history) c).1 = (served history c).ring cipher := by
  obtain ⟨hd, hcache⟩ := cacheAfter_eq cipher history
  rw [hcache, keyring_ringOf cipher hd, served]

end Cache

/-! ### What is read back -/

section Read

variable {Key : Type} (cipher : Cipher Key) (lossy : List UInt8 → String)

theorem isEncrypted_append (text : String) : isEncrypted (PREFIX ++ text) = true := by
  rw [isEncrypted, List.isPrefixOf_iff_prefix, String.toList_append]
  exact List.prefix_append _ _

theorem rawBytes_append (bytes : List UInt8) :
    rawBytes (PREFIX ++ String.ofList (Base64.encode bytes)) = bytes := by
  rw [rawBytes, String.toList_append, ← String.length_toList, List.drop_left, String.toList_ofList,
    Base64.decode_encode]

theorem fromUTF8?_utf8 (text : String) : String.fromUTF8? ⟨(utf8 text).toArray⟩ = some text := by
  have hvalid : (⟨text.toUTF8.data⟩ : ByteArray).IsValidUTF8 := text.isValidUTF8
  rw [utf8, Array.toArray_toList, String.fromUTF8?, dif_pos hvalid]
  rfl

theorem findSome?_decrypt [DecidableEq Key] (key : Key) (iv text : List UInt8) (all : List Key) :
    (all.findSome? fun key' => cipher.decrypt key' iv (cipher.encrypt key iv text).1 (cipher.encrypt key iv text).2) =
      if key ∈ all then some text else none := by
  induction all with
  | nil => rfl
  | cons key' all ih =>
      rw [List.findSome?_cons]
      by_cases hk : key' = key
      · subst hk
        simp [cipher.decrypt_same]
      · rw [cipher.decrypt_other _ _ _ _ hk, ih]
        simp [Ne.symm hk]

/-- A sealed secret is read back exactly by the rings that have its key. -/
theorem decryptSecret_sealSecret (cache : Option (Ring Key)) (c : Config) {iv : List UInt8}
    (hiv : iv.length = IV_BYTES) (key : Key)
    (text : String) :
    decryptSecret cipher lossy cache c (sealSecret cipher key iv text) = .ok text ↔
      ∃ ring, (keyring cipher cache c).1 = .ok ring ∧ key ∈ ring.all := by
  classical
  have htag : (cipher.encrypt key iv (utf8 text)).1.length = TAG_BYTES :=
    cipher.tag_length key iv (utf8 text)
  have hfind (all : List Key) := findSome?_decrypt cipher key iv (utf8 text) all
  have hraw : rawBytes (sealSecret cipher key iv text) =
      iv ++ (cipher.encrypt key iv (utf8 text)).1 ++ (cipher.encrypt key iv (utf8 text)).2 :=
        rawBytes_append _
  have hsealed : isEncrypted (sealSecret cipher key iv text) = true := isEncrypted_append _
  generalize (cipher.encrypt key iv (utf8 text)).1 = tag at htag hfind hraw
  generalize (cipher.encrypt key iv (utf8 text)).2 = ciphertext at hfind hraw
  have hlength : ¬ (iv ++ tag ++ ciphertext).length < IV_BYTES + TAG_BYTES := by
    simp only [List.length_append, hiv, htag]
    omega
  have htake : (iv ++ tag ++ ciphertext).take IV_BYTES = iv := by
    rw [List.append_assoc, ← hiv, List.take_left]
  have hmid : ((iv ++ tag ++ ciphertext).drop IV_BYTES).take TAG_BYTES = tag := by
    rw [List.append_assoc, ← hiv, List.drop_left, ← htag, List.take_left]
  have hdrop : (iv ++ tag ++ ciphertext).drop (IV_BYTES + TAG_BYTES) = ciphertext := by
    rw [← hiv, ← htag, ← List.length_append, List.drop_left]
  simp only [decryptSecret, hsealed, hraw, htake, hmid, hdrop, hlength, Bool.not_true, Bool.false_eq_true,
    if_false, hfind]
  cases (keyring cipher cache c).1 with
  | error e => simp
  | ok ring =>
      by_cases hk : key ∈ ring.all
      · simp [hk, fromUTF8?_utf8]
      · simp [hk]

end Read

end Yeah.Secrets
