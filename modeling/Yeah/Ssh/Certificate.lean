import Yeah.Asn1
import Yeah.Backup.InstanceRetention
import Yeah.Ssh.KeyFile

namespace Yeah.Ssh

open Bytes Text Drains Backup.Instance Asn1

/-! ### The certificate that is made -/

def der (tag : UInt8) (parts : List (List UInt8)) : List UInt8 :=
  let body := parts.flatten
  let len :=
    if body.length < 0x80 then [UInt8.ofNat body.length]
    else if body.length < 0x100 then [0x81, UInt8.ofNat body.length]
    else [0x82, UInt8.ofNat (body.length / 256), UInt8.ofNat (body.length % 256)]
  tag :: (len ++ body)

def seq (p : List (List UInt8)) : List UInt8 := der 0x30 p

def set (p : List (List UInt8)) : List UInt8 := der 0x31 p

/-- The groups of seven bits before the last one. -/
def highGroups (v : Nat) : List UInt8 :=
  if _h : 0 < v then highGroups (v / 128) ++ [UInt8.ofNat (v % 128 + 128)] else []
termination_by v
decreasing_by exact Nat.div_lt_self _h (by decide)

def nums (dotted : String) : List Nat :=
  (dotted.toList.splitOn '.').map fun ds => Digits.number 10 (ds.map fun c => c.toNat - 48)

def oid (dotted : String) : List UInt8 :=
  let nums := nums dotted
  let first := UInt8.ofNat (nums.getD 0 0 * 40 + nums.getD 1 0)
  der 0x06 [first :: (nums.drop 2).flatMap fun n => highGroups (n / 128) ++ [UInt8.ofNat (n % 128)]]

def utf8String (s : String) : List UInt8 := der 0x0c [utf8 s]

def utcText (d : Int) : List UInt8 :=
  let (year, month, date) := utcDate d
  utf8 (pad (year % 100) ++ pad month ++ pad date ++ pad (utcHours d).toNat ++ pad (utcMinutes d).toNat ++
    pad (utcSeconds d).toNat ++ "Z")

def utcTime (d : Int) : List UInt8 := der 0x17 [utcText d]

def OID_ECDSA_SHA256 : String := "1.2.840.10045.4.3.2"

/-- A key of the curve P-256: the public key as an element, and what it signs. -/
structure EcKey where
  spkiContent : List UInt8
  sign : List UInt8 → List UInt8
  spki_length : spkiContent.length < 0x80
  sign_length : ∀ message, (sign message).length ≤ 72

def EcKey.spki (key : EcKey) : List UInt8 := der 0x30 [key.spkiContent]

/-- Sixteen random bytes, of which the first is made to stand for a positive number. -/
structure Random16 where
  first : UInt8
  rest : List UInt8
  rest_length : rest.length = 15

def Random16.serial (random : Random16) : List UInt8 :=
  (if random.first &&& 0x7f = 0 then 1 else random.first &&& 0x7f) :: random.rest

def name (commonName : String) : List UInt8 :=
  seq [set [seq [oid "2.5.4.3", utf8String commonName]]]

def san (commonName : String) : List UInt8 :=
  seq [oid "2.5.29.17", der 0x04 [seq [der 0x82 [utf8 commonName]]]]

def tbsParts (key : EcKey) (random : Random16) (now : Int) (commonName : String) (days : Int) : List (List UInt8) :=
  let notBefore := now - 24 * 3600 * 1000
  let notAfter := notBefore + days * 24 * 3600 * 1000
  [der 0xa0 [der 0x02 [[2]]],
    der 0x02 [random.serial],
    seq [oid OID_ECDSA_SHA256],
    name commonName,
    seq [utcTime notBefore, utcTime notAfter],
    name commonName,
    key.spki,
    der 0xa3 [seq [san commonName]]]

def tbs (key : EcKey) (random : Random16) (now : Int) (commonName : String) (days : Int) : List UInt8 :=
  seq (tbsParts key random now commonName days)

def cert (key : EcKey) (random : Random16) (now : Int) (commonName : String) (days : Int) : List UInt8 :=
  let tbs := tbs key random now commonName days
  seq [tbs, seq [oid OID_ECDSA_SHA256], der 0x03 [0 :: key.sign tbs]]

/-- The certificate alone; the key is exported as it is. -/
def generateSelfSignedCert (key : EcKey) (random : Random16) (now : Int) (commonName : String) (days : Int) :
    Option String :=
  pem "CERTIFICATE" 64 (cert key random now commonName days)

/-! ### How a certificate is read -/

structure Certificate where
  tbs : List UInt8
  serial : Nat
  issuer : List Char
  notBefore : Int
  notAfter : Int
  subject : List Char
  spki : List UInt8
  dnsName : List Char
  signature : List UInt8
  deriving DecidableEq

/-- A positive number whose first bit is clear. -/
def positive : Reader Nat := do
  let bytes ← element 0x02
  check (bytes.head?.any (· < 0x80))
  pure (value bytes)

def algorithm : Reader (Option (List Nat)) := do
  let bytes ← within 0x30 (element 0x06)
  pure (objectIdentifier bytes)

/-- A name that is a common name only. -/
def commonName : Reader (List Char) := within 0x30 <| within 0x31 <| within 0x30 do
  let type ← element 0x06
  check (objectIdentifier type = some [2, 5, 4, 3])
  let text ← element 0x0c
  pure (Utf8.decode text)

/-- The seconds since 1970 of a day and a time of the day. -/
def seconds (year month date hours minutes seconds : Nat) : Int :=
  86400 * ((yearStart year + ((monthLengths year).take (month - 1)).sum + (date - 1) : Nat) - 719528) +
    3600 * hours + 60 * minutes + seconds

/-- Two digits for a year are of 1950 to 2049. -/
def readTime (text : List UInt8) : Option Int :=
  let twoDigits (k : Nat) := Digits.number 10 (((text.drop (2 * k)).take 2).map fun b => b.toNat - 48)
  let year := twoDigits 0
  if text.length = 13 ∧ text.getLast? = some 90 then
    some (seconds (if year < 50 then 2000 + year else 1900 + year) (twoDigits 1) (twoDigits 2) (twoDigits 3)
      (twoDigits 4) (twoDigits 5))
  else none

def time : Reader Int := do
  let text ← element 0x17
  match readTime text with
  | some t => pure t
  | none => failure

def alternativeName : Reader (List Char) := within 0x30 do
  let type ← element 0x06
  check (objectIdentifier type = some [2, 5, 29, 17])
  within 0x04 (within 0x30 do
    let name ← element 0x82
    pure (Utf8.decode name))

/-- The part that is signed; the signature is filled in later. -/
def signedPart : Reader (List UInt8 → List UInt8 → Certificate) := within 0x30 do
  let version ← within 0xa0 (element 0x02)
  check (version = [2])
  let serial ← positive
  let signedBy ← algorithm
  check (signedBy = some [1, 2, 840, 10045, 4, 3, 2])
  let issuer ← commonName
  let (notBefore, notAfter) ← within 0x30 do
    let notBefore ← time
    let notAfter ← time
    pure (notBefore, notAfter)
  let subject ← commonName
  let spki ← whole 0x30
  let dnsName ← within 0xa3 (within 0x30 alternativeName)
  pure fun tbs signature => ⟨tbs, serial, issuer, notBefore, notAfter, subject, spki, dnsName, signature⟩

def certificate : Reader Certificate := within 0x30 do
  let tbs ← whole 0x30
  let signedBy ← algorithm
  check (signedBy = some [1, 2, 840, 10045, 4, 3, 2])
  let bits ← element 0x03
  check (bits.head? = some 0)
  match all signedPart tbs with
  | some c => pure (c tbs bits.tail)
  | none => failure

def readCertificate (text : String) : Option Certificate := do
  let bytes ← readPem "CERTIFICATE" text
  all certificate bytes

/-! ### Times -/

section Times

variable {t : Int} {m n day : Nat} {ns : List Nat}

theorem le_monthOf : m ≤ (monthOf m ns day).1 := by
  induction ns generalizing m day with
  | nil => exact Nat.le_refl m
  | cons n ns ih =>
      rw [monthOf]
      split_ifs
      · exact Nat.le_refl m
      · exact Nat.le_of_succ_le ih

/-- The months before one, and the days before one in it, make up the day of the year. -/
theorem monthOf_day (m : Nat) (ns : List Nat) (day : Nat) :
    (ns.take ((monthOf m ns day).1 - m)).sum + ((monthOf m ns day).2 - 1) = day := by
  induction ns generalizing m day with
  | nil =>
      rw [List.take_nil, monthOf, List.sum_nil]
      omega
  | cons n ns ih =>
      rw [monthOf]
      split_ifs with hday
      · rw [Nat.sub_self, List.take_zero, List.sum_nil]
        omega
      · have hle : m + 1 ≤ (monthOf (m + 1) ns (day - n)).1 := le_monthOf
        have hrest := ih (m + 1) (day - n)
        rw [show (monthOf (m + 1) ns (day - n)).1 - m = (monthOf (m + 1) ns (day - n)).1 - (m + 1) + 1 by omega,
          List.take_succ_cons, List.sum_cons]
        omega

/-- The times whose year two digits tell. -/
def Dated (t : Int) : Prop := 1950 ≤ (utcDate t).1 ∧ (utcDate t).1 < 2050

instance : Decidable (Dated t) := inferInstanceAs (Decidable (_ ∧ _))

theorem seconds_utc (h : Dated t) :
    seconds (utcDate t).1 (utcDate t).2.1 (utcDate t).2.2 (utcHours t).toNat (utcMinutes t).toNat
      (utcSeconds t).toNat = t / 1000 := by
  have hyear : (utcDate t).1 = yearOf (dayNumber t) := rfl
  have hday := monthOf_day 1 (monthLengths (utcDate t).1) (dayNumber t - yearStart (utcDate t).1)
  have hstart := (yearOf_spec (dayNumber t)).1
  rw [← hyear] at hstart
  have hpos : 0 < dayNumber t := by
    have := yearStart_bounds (utcDate t).1
    have := h.1
    omega
  have hdate : (utcDate t).2 = monthOf 1 (monthLengths (utcDate t).1) (dayNumber t - yearStart (utcDate t).1) := rfl
  rw [← hdate] at hday
  rw [seconds_eq t, seconds, Nat.add_assoc, hday, Nat.add_sub_cancel' hstart]
  have hn : (dayNumber t : Int) = utcDay t + 719528 := by
    rw [dayNumber] at hpos ⊢
    omega
  have hhours : 0 ≤ utcHours t := Int.emod_nonneg _ (by decide)
  have hminutes : 0 ≤ utcMinutes t := Int.emod_nonneg _ (by decide)
  have hseconds : 0 ≤ utcSeconds t := Int.emod_nonneg _ (by decide)
  rw [hn, Int.toNat_of_nonneg hhours, Int.toNat_of_nonneg hminutes, Int.toNat_of_nonneg hseconds]
  omega

end Times

/-! ### Elements -/

section Elements

variable {tag : UInt8} {parts : List (List UInt8)} {t : Int} {n : Nat}

theorem bigEndian_one (n : Nat) : bigEndian 1 n = [UInt8.ofNat (n % 256)] := rfl

theorem bigEndian_two (n : Nat) : bigEndian 2 n = [UInt8.ofNat (n / 256 % 256), UInt8.ofNat (n % 256)] := rfl

/-- Two bytes hold every length that is written. -/
theorem reads_der (tag : UInt8) (h : parts.flatten.length < 65536) :
    Reads (element tag) (der tag parts) parts.flatten := by
  rw [der]
  apply reads_element
  have hone (n : Nat) (hn : n < 256) : bigEndian 1 n = [UInt8.ofNat n] := by
    rw [bigEndian_one, Nat.mod_eq_of_lt hn]
  have hhigh : parts.flatten.length / 256 < 256 := Nat.div_lt_of_lt_mul h
  split_ifs with hshort hlong
  · rw [← hone _ (by omega)]
    exact reads_length_short hshort
  · have hread := reads_length_long (k := 0) (by decide) (Nat.le_of_not_lt hshort) (by omega) hlong
    rwa [hone _ (by decide), hone _ hlong] at hread
  · have hread := reads_length_long (k := 1) (by decide) (Nat.le_of_not_lt hshort) (Nat.le_of_not_lt hlong) h
    rwa [hone _ (by decide), bigEndian_two, Nat.mod_eq_of_lt hhigh] at hread

theorem length_der_le (tag : UInt8) (parts : List (List UInt8)) :
    (der tag parts).length ≤ parts.flatten.length + 4 := by
  rw [der]
  split_ifs <;> simp

theorem highGroups_zero : highGroups 0 = [] := by rw [highGroups, dif_neg (Nat.lt_irrefl 0)]

theorem highGroups_one (h : 0 < n) (h' : n < 128) : highGroups n = [UInt8.ofNat (n + 128)] := by
  rw [highGroups, dif_pos h, Nat.div_eq_of_lt h', highGroups_zero, Nat.mod_eq_of_lt h', List.nil_append]

theorem oid_commonName : oid "2.5.4.3" = der 0x06 [[0x55, 4, 3]] := by
  have hnums : nums "2.5.4.3" = [2, 5, 4, 3] := by decide
  rw [oid, hnums]
  simp [highGroups_zero]

theorem oid_alternativeName : oid "2.5.29.17" = der 0x06 [[0x55, 0x1d, 0x11]] := by
  have hnums : nums "2.5.29.17" = [2, 5, 29, 17] := by decide
  rw [oid, hnums]
  simp [highGroups_zero]

theorem oid_signature : oid OID_ECDSA_SHA256 = der 0x06 [[0x2a, 0x86, 0x48, 0xce, 0x3d, 4, 3, 2]] := by
  have hnums : nums OID_ECDSA_SHA256 = [1, 2, 840, 10045, 4, 3, 2] := by decide
  have hfirst : highGroups 6 = [0x86] := highGroups_one (by decide) (by decide)
  have hsecond : highGroups 78 = [0xce] := highGroups_one (by decide) (by decide)
  rw [oid, hnums]
  simp [highGroups_zero, hfirst, hsecond]

theorem utf8_digit (n : Nat) : Utf8.encode [Nat.digitChar (n % 10)] = [UInt8.ofNat (48 + n % 10)] :=
  (by decide : ∀ d : Fin 10, Utf8.encode [Nat.digitChar d.val] = [UInt8.ofNat (48 + d.val)])
    ⟨n % 10, Nat.mod_lt n (by decide)⟩

theorem toNat_digit (n : Nat) : (UInt8.ofNat (48 + n % 10)).toNat - 48 = n % 10 := by
  rw [UInt8.toNat_ofNat']
  omega

theorem utf8_append (a b : String) : utf8 (a ++ b) = utf8 a ++ utf8 b := by
  rw [utf8, utf8, utf8, String.toList_append, Utf8.encode, List.flatMap_append]
  rfl

theorem decode_utf8 (s : String) : Utf8.decode (utf8 s) = s.toList := by rw [utf8, Utf8.decode_encode]

theorem utf8_pad (h : n < 100) : utf8 (pad n) = [UInt8.ofNat (48 + n / 10 % 10), UInt8.ofNat (48 + n % 10)] := by
  have hdigits : Digits.digits 10 2 n = [n / 10 % 10, n % 10] := rfl
  have hpair (a b : Char) : Utf8.encode [a, b] = Utf8.encode [a] ++ Utf8.encode [b] := by simp [Utf8.encode]
  rw [utf8, pad_toList h, hdigits, List.map_cons, List.map_cons, List.map_nil, hpair, utf8_digit, utf8_digit]
  rfl

/-- Six numbers of two digits and a `Z`. -/
theorem readTime_pads {year month date hours minutes seconds : Nat} (hyear : year < 100) (hmonth : month < 100)
    (hdate : date < 100) (hhours : hours < 100) (hminutes : minutes < 100) (hseconds : seconds < 100) :
    readTime (utf8 (pad year ++ pad month ++ pad date ++ pad hours ++ pad minutes ++ pad seconds ++ "Z")) =
      some (Ssh.seconds (if year < 50 then 2000 + year else 1900 + year) month date hours minutes seconds) := by
  have htwo (m : Nat) (hm : m < 100) : Digits.number 10 [m / 10 % 10, m % 10] = m :=
    Digits.number_digits (b := 10) (k := 2) hm
  have hend : utf8 "Z" = [90] := rfl
  simp only [utf8_append, utf8_pad, hyear, hmonth, hdate, hhours, hminutes, hseconds, hend, readTime]
  simp only [List.cons_append, List.nil_append, List.drop_succ_cons, List.drop_zero, List.take_succ_cons,
    List.take_zero, List.map_cons, List.map_nil, toNat_digit, htwo, hyear, hmonth, hdate, hhours, hminutes, hseconds,
    Nat.mul_zero, Nat.mul_one]
  rw [if_pos ⟨rfl, rfl⟩]

end Elements

/-! ### The parts of a certificate -/

section Parts

variable {α : Type} {r : Reader α} {a : α} {tag : UInt8} {parts : List (List UInt8)} {t now days : Int} {s : String}
  {key : EcKey} {random : Random16}

theorem reads_constructed (tag : UInt8) (hr : Reads r parts.flatten a) (h : parts.flatten.length < 65536) :
    Reads (within tag r) (der tag parts) a := reads_within (reads_der tag h) hr.all

/-- The names that no length is too long for. -/
def Short (s : String) : Prop := (utf8 s).length ≤ 20000

instance : Decidable (Short s) := inferInstanceAs (Decidable (_ ≤ _))

theorem length_utcText (t : Int) : (utcText t).length = 13 := by
  obtain ⟨-, hmonth, -, hdate⟩ := utcDate_bounds t
  obtain ⟨hhours, hminutes, hseconds⟩ := time_bounds t
  have hlength (n : Nat) (hn : n < 100) : (utf8 (pad n)).length = 2 := by rw [utf8_pad hn]; rfl
  have hend : (utf8 "Z").length = 1 := rfl
  simp only [utcText, utf8_append, List.length_append, hend, hlength _ (Nat.mod_lt (utcDate t).1 (by decide : 0 < 100)),
    hlength _ (by omega : (utcDate t).2.1 < 100), hlength _ (by omega : (utcDate t).2.2 < 100),
    hlength _ (by omega : (utcHours t).toNat < 100), hlength _ (by omega : (utcMinutes t).toNat < 100),
    hlength _ (by omega : (utcSeconds t).toNat < 100)]

theorem reads_utcTime (h : Dated t) : Reads time (utcTime t) (t / 1000) := by
  obtain ⟨-, hmonth, -, hdate⟩ := utcDate_bounds t
  obtain ⟨hhours, hminutes, hseconds⟩ := time_bounds t
  have hread := readTime_pads (Nat.mod_lt (utcDate t).1 (by decide : 0 < 100)) (by omega : (utcDate t).2.1 < 100)
    (by omega : (utcDate t).2.2 < 100) (by omega : (utcHours t).toNat < 100) (by omega : (utcMinutes t).toNat < 100)
    (by omega : (utcSeconds t).toNat < 100)
  have hyear : (if (utcDate t).1 % 100 < 50 then 2000 + (utcDate t).1 % 100 else 1900 + (utcDate t).1 % 100) =
      (utcDate t).1 := by
    have h₁ := h.1
    have h₂ := h.2
    split_ifs <;> omega
  rw [hyear, seconds_utc h] at hread
  have htext : Reads (element 0x17) (der 0x17 [utcText t]) [utcText t].flatten :=
    reads_der 0x17 (by rw [List.flatten_singleton, length_utcText]; decide)
  rw [List.flatten_singleton] at htext
  rw [utcTime, ← List.append_nil (der 0x17 _), time]
  apply htext.bind
  rw [utcText, hread]
  exact Reads.pure _

theorem length_utcTime (t : Int) : (utcTime t).length = 15 := by
  have hlength : (utcText t).length = 13 := length_utcText t
  rw [utcTime, der, List.flatten_singleton, hlength]
  simp [hlength]

theorem length_oid_commonName : (oid "2.5.4.3").length = 5 := by
  rw [oid_commonName]
  rfl

theorem length_name_le (s : String) : (name s).length ≤ (utf8 s).length + 21 := by
  have htext := length_der_le 0x0c [utf8 s]
  have hpair := length_der_le 0x30 [oid "2.5.4.3", utf8String s]
  have hset := length_der_le 0x31 [seq [oid "2.5.4.3", utf8String s]]
  have hname := length_der_le 0x30 [set [seq [oid "2.5.4.3", utf8String s]]]
  simp only [List.flatten_cons, List.flatten_nil, List.append_nil, List.length_append, length_oid_commonName]
    at htext hpair hset hname
  rw [name]
  simp only [seq, set, utf8String] at *
  omega

theorem length_oid_alternativeName : (oid "2.5.29.17").length = 5 := by
  rw [oid_alternativeName]
  rfl

theorem length_san_le (s : String) : (san s).length ≤ (utf8 s).length + 21 := by
  have hdns := length_der_le 0x82 [utf8 s]
  have hnames := length_der_le 0x30 [der 0x82 [utf8 s]]
  have hoctets := length_der_le 0x04 [seq [der 0x82 [utf8 s]]]
  have hsan := length_der_le 0x30 [oid "2.5.29.17", der 0x04 [seq [der 0x82 [utf8 s]]]]
  simp only [List.flatten_cons, List.flatten_nil, List.append_nil, List.length_append, length_oid_alternativeName]
    at hdns hnames hoctets hsan
  rw [san]
  simp only [seq] at *
  omega

theorem reads_primitive (tag : UInt8) {content : List UInt8} (h : content.length < 65536) :
    Reads (element tag) (der tag [content]) content := by
  have hread : Reads (element tag) (der tag [content]) [content].flatten := reads_der tag (by rwa [List.flatten_singleton])
  rwa [List.flatten_singleton] at hread

theorem reads_one (tag : UInt8) {content : List UInt8} (hr : Reads r content a) (h : content.length < 65536) :
    Reads (within tag r) (der tag [content]) a := reads_within (reads_primitive tag h) hr.all

theorem der_pair (tag : UInt8) (b c : List UInt8) : der tag [b, c] = der tag [b ++ c] := by
  rw [der, der, List.flatten_cons, List.flatten_singleton, List.flatten_singleton]

theorem reads_name (h : Short s) : Reads commonName (name s) s.toList := by
  have hshort : (utf8 s).length ≤ 20000 := h
  have htext := length_der_le 0x0c [utf8 s]
  have hpair := length_der_le 0x30 [oid "2.5.4.3" ++ utf8String s]
  have hset := length_der_le 0x31 [seq [oid "2.5.4.3" ++ utf8String s]]
  rw [List.flatten_singleton] at htext hpair hset
  rw [List.length_append, length_oid_commonName] at hpair
  simp only [seq, utf8String] at hpair hset
  have hattribute : Reads (do
      let type ← element 0x06
      check (objectIdentifier type = some [2, 5, 4, 3])
      let text ← element 0x0c
      pure (Utf8.decode text)) (oid "2.5.4.3" ++ utf8String s) s.toList := by
    have hmap := Reads.map (g := Utf8.decode) (reads_primitive 0x0c (by omega : (utf8 s).length < 65536))
    rw [decode_utf8] at hmap
    rw [oid_commonName]
    apply Reads.bind (reads_primitive 0x06 (by decide))
    apply Reads.check (decide_eq_true rfl)
    exact hmap
  rw [name, seq, set, seq, der_pair, commonName]
  apply reads_one
  · apply reads_one
    · apply reads_one _ hattribute
      rw [List.length_append, length_oid_commonName, utf8String]
      omega
    · rw [utf8String]
      omega
  · rw [utf8String]
    omega

theorem reads_san (h : Short s) : Reads alternativeName (san s) s.toList := by
  have hshort : (utf8 s).length ≤ 20000 := h
  have hdns := length_der_le 0x82 [utf8 s]
  have hnames := length_der_le 0x30 [der 0x82 [utf8 s]]
  have hoctets := length_der_le 0x04 [der 0x30 [der 0x82 [utf8 s]]]
  rw [List.flatten_singleton] at hdns hnames hoctets
  have hname : Reads (within 0x04 (within 0x30 do
      let name ← element 0x82
      pure (Utf8.decode name))) (der 0x04 [der 0x30 [der 0x82 [utf8 s]]]) s.toList := by
    have hmap := Reads.map (g := Utf8.decode) (reads_primitive 0x82 (by omega : (utf8 s).length < 65536))
    rw [decode_utf8] at hmap
    apply reads_one
    · exact reads_one _ hmap (by omega)
    · omega
  rw [san, seq, seq, der_pair, alternativeName]
  apply reads_one
  · rw [oid_alternativeName]
    apply Reads.bind (reads_primitive 0x06 (by decide))
    apply Reads.check (decide_eq_true rfl)
    exact hname
  · rw [List.length_append, length_oid_alternativeName]
    omega

theorem length_serial (random : Random16) : random.serial.length = 16 := by
  rw [Random16.serial, List.length_cons, random.rest_length]

theorem le_foldl {ds : List Nat} {n : Nat} : n ≤ ds.foldl (fun n d => n * 256 + d) n := by
  induction ds generalizing n with
  | nil => exact Nat.le_refl n
  | cons d ds ih =>
      calc n ≤ n * 256 + d := by omega
        _ ≤ _ := ih

/-- The first bit of a serial number is clear, and the number is not zero. -/
theorem serial_positive (random : Random16) : 0 < value random.serial ∧
    random.serial.head?.any (· < 0x80) = true := by
  have hlow : (random.first &&& 0x7f).toNat < 128 := by
    rw [UInt8.toNat_and]
    exact Nat.lt_of_le_of_lt Nat.and_le_right (by decide)
  have hfirst (b : UInt8) (hb : 0 < b.toNat) : 0 < value (b :: random.rest) := by
    rw [value, List.map_cons, Digits.number, List.foldl_cons]
    exact Nat.lt_of_lt_of_le (by omega : 0 < 0 * 256 + b.toNat) le_foldl
  rw [Random16.serial]
  split_ifs with hzero
  · exact ⟨hfirst 1 (by decide), rfl⟩
  · refine ⟨hfirst _ (Nat.pos_of_ne_zero fun h => hzero (UInt8.toNat_inj.1 h)), ?_⟩
    simpa [UInt8.lt_iff_toNat_lt] using hlow

theorem reads_serial (random : Random16) : Reads positive (der 0x02 [random.serial]) (value random.serial) := by
  have hlength := length_serial random
  rw [positive, ← List.append_nil (der 0x02 _)]
  apply Reads.bind (reads_primitive 0x02 (by omega))
  apply Reads.check (serial_positive random).2
  exact Reads.pure _

theorem reads_algorithm : Reads algorithm (seq [oid OID_ECDSA_SHA256]) (some [1, 2, 840, 10045, 4, 3, 2]) := by
  rw [seq, oid_signature]
  exact Reads.map (g := objectIdentifier) (reads_one 0x30 (reads_primitive 0x06 (by decide)) (by decide))

theorem length_algorithm : (seq [oid OID_ECDSA_SHA256]).length = 12 := by
  rw [oid_signature]
  rfl

theorem length_spki_le (key : EcKey) : key.spki.length ≤ 131 := by
  have h := length_der_le 0x30 [key.spkiContent]
  have hkey := key.spki_length
  rw [List.flatten_singleton] at h
  rw [EcKey.spki]
  omega

theorem reads_spki (key : EcKey) : Reads (whole 0x30) key.spki key.spki := by
  have hkey := key.spki_length
  exact reads_whole (reads_primitive 0x30 (by omega))

theorem reads_version : Reads (within 0xa0 (element 0x02)) (der 0xa0 [der 0x02 [[2]]]) [2] :=
  reads_one 0xa0 (reads_primitive 0x02 (by decide)) (by decide)

theorem length_version : (der 0xa0 [der 0x02 [[2]]]).length = 5 := rfl

theorem reads_validity {u : Int} (ht : Dated t) (hu : Dated u) : Reads (within 0x30 do
      let notBefore ← time
      let notAfter ← time
      pure (notBefore, notAfter)) (seq [utcTime t, utcTime u]) (t / 1000, u / 1000) := by
  rw [seq, der_pair]
  apply reads_one
  · apply Reads.bind (reads_utcTime ht)
    exact Reads.map (g := fun notAfter => (t / 1000, notAfter)) (reads_utcTime hu)
  · rw [List.length_append, length_utcTime, length_utcTime]
    decide

theorem length_validity {u : Int} : (seq [utcTime t, utcTime u]).length = 32 := by
  rw [seq, der_pair, der, List.flatten_singleton, List.length_append, length_utcTime, length_utcTime]
  simp [length_utcTime]

theorem reads_extensions (h : Short s) :
    Reads (within 0xa3 (within 0x30 alternativeName)) (der 0xa3 [seq [san s]]) s.toList := by
  have hshort : (utf8 s).length ≤ 20000 := h
  have hsan := length_san_le s
  have hlist := length_der_le 0x30 [san s]
  rw [List.flatten_singleton] at hlist
  apply reads_one
  · exact reads_one _ (reads_san h) (by omega)
  · rw [seq]
    omega

theorem length_extensions_le (s : String) : (der 0xa3 [seq [san s]]).length ≤ (utf8 s).length + 29 := by
  have hsan := length_san_le s
  have hlist := length_der_le 0x30 [san s]
  have hall := length_der_le 0xa3 [seq [san s]]
  rw [List.flatten_singleton] at hlist hall
  rw [seq] at *
  omega

theorem length_serial_element (random : Random16) : (der 0x02 [random.serial]).length = 18 := by
  rw [der, List.flatten_singleton, length_serial]
  simp [length_serial]

theorem length_tbsParts_le (key : EcKey) (random : Random16) (now : Int) (s : String) (days : Int) :
    (tbsParts key random now s days).flatten.length ≤ 3 * (utf8 s).length + 269 := by
  have hname := length_name_le s
  have hspki := length_spki_le key
  have hextensions := length_extensions_le s
  simp only [tbsParts, List.flatten_cons, List.flatten_nil, List.append_nil, List.length_append, length_version,
    length_serial_element, length_algorithm, length_validity]
  omega

theorem reads_tbs (key : EcKey) (random : Random16) (h : Short s) (hfrom : Dated (now - 86400000))
    (hto : Dated (now - 86400000 + days * 86400000)) :
    Reads signedPart (tbs key random now s days) (fun tbs signature =>
      ⟨tbs, value random.serial, s.toList, (now - 86400000) / 1000, (now - 86400000 + days * 86400000) / 1000,
        s.toList, key.spki, s.toList, signature⟩) := by
  have hshort : (utf8 s).length ≤ 20000 := h
  have hlength := length_tbsParts_le key random now s days
  have hday : now - 24 * 3600 * 1000 = now - 86400000 := by omega
  have hdays : days * 24 * 3600 * 1000 = days * 86400000 := by omega
  rw [tbs, seq, signedPart]
  apply reads_constructed
  · simp only [tbsParts, hday, hdays, List.flatten_cons, List.flatten_nil, List.append_nil]
    apply Reads.bind reads_version
    apply Reads.check (decide_eq_true rfl)
    apply Reads.bind (reads_serial random)
    apply Reads.bind reads_algorithm
    apply Reads.check (decide_eq_true rfl)
    apply Reads.bind (reads_name h)
    apply Reads.bind (reads_validity hfrom hto)
    apply Reads.bind (reads_name h)
    apply Reads.bind (reads_spki key)
    exact Reads.map (g := fun dnsName => fun tbs signature => Certificate.mk tbs (value random.serial) s.toList
      ((now - 86400000) / 1000) ((now - 86400000 + days * 86400000) / 1000) s.toList key.spki dnsName signature)
      (reads_extensions h)
  · omega

theorem reads_tbs_whole (key : EcKey) (random : Random16) (h : Short s) :
    Reads (whole 0x30) (tbs key random now s days) (tbs key random now s days) := by
  have hshort : (utf8 s).length ≤ 20000 := h
  have hlength := length_tbsParts_le key random now s days
  exact reads_whole (reads_der 0x30 (by omega))

theorem reads_cert (key : EcKey) (random : Random16) (h : Short s) (hfrom : Dated (now - 86400000))
    (hto : Dated (now - 86400000 + days * 86400000)) :
    Reads certificate (cert key random now s days)
      ⟨tbs key random now s days, value random.serial, s.toList, (now - 86400000) / 1000,
        (now - 86400000 + days * 86400000) / 1000, s.toList, key.spki, s.toList,
        key.sign (tbs key random now s days)⟩ := by
  have hshort : (utf8 s).length ≤ 20000 := h
  have hlength := length_tbsParts_le key random now s days
  have htbs := length_der_le 0x30 (tbsParts key random now s days)
  have hread := reads_tbs key random h hfrom hto
  have hwhole : Reads (whole 0x30) (tbs key random now s days) (tbs key random now s days) := reads_tbs_whole key random h
  rw [← seq, ← tbs] at htbs
  generalize hmessage : tbs key random now s days = message at *
  have hsign := key.sign_length message
  have hbits : (0 :: key.sign message).length < 65536 := by
    rw [List.length_cons]
    omega
  have hsignature := length_der_le 0x03 [0 :: key.sign message]
  rw [List.flatten_singleton, List.length_cons] at hsignature
  rw [cert, seq, certificate, hmessage]
  apply reads_constructed
  · simp only [List.flatten_cons, List.flatten_nil, List.append_nil]
    apply Reads.bind hwhole
    apply Reads.bind reads_algorithm
    apply Reads.check (decide_eq_true rfl)
    rw [← List.append_nil (der 0x03 _)]
    apply Reads.bind (reads_primitive 0x03 hbits)
    apply Reads.check (decide_eq_true rfl)
    rw [hread.all]
    exact Reads.pure _
  · simp only [List.flatten_cons, List.flatten_nil, List.append_nil, List.length_append, length_algorithm]
    omega

end Parts

end Yeah.Ssh
