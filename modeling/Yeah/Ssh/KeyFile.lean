import Yeah.Bytes
import Yeah.Ssh.Pem
import Yeah.Text.Utf8

namespace Yeah.Ssh

open Bytes Text Drains Services

/-! ### The keys that are made -/

def utf8 (s : String) : List UInt8 := Utf8.encode s.toList

/-- What `generateKeyPairSync` and `randomBytes` give. -/
structure Drawn where
  seed : List UInt8
  pub : List UInt8
  check : List UInt8
  seed_length : seed.length = 32
  pub_length : pub.length = 32
  check_length : check.length = 4

structure SshKeyPair where
  privateKey : String
  publicKey : String

def uint32 (value : Nat) : List UInt8 := bigEndian 4 value

/-- `writeUInt32BE` throws for a length that four bytes do not hold. -/
def sshString (data : List UInt8) : Option (List UInt8) :=
  if data.length < 2 ^ 32 then some (bigEndian 4 data.length ++ data) else none

def padding (length : Nat) : List UInt8 :=
  (List.range ((8 - length % 8) % 8)).map fun i => UInt8.ofNat (i + 1)

def keyType : List UInt8 := utf8 "ssh-ed25519"

def publicBlob (drawn : Drawn) : Option (List UInt8) := do
  let type ← sshString keyType
  let pub ← sshString drawn.pub
  pure (type ++ pub)

def privateSection (drawn : Drawn) (comment : String) : Option (List UInt8) := do
  let type ← sshString keyType
  let pub ← sshString drawn.pub
  let secret ← sshString (drawn.seed ++ drawn.pub)
  let comment ← sshString (utf8 comment)
  let fields := drawn.check ++ (drawn.check ++ (type ++ (pub ++ (secret ++ comment))))
  pure (fields ++ padding fields.length)

def body (publicBlob privateSection : List UInt8) : Option (List UInt8) := do
  let cipher ← sshString (utf8 "none")
  let kdf ← sshString (utf8 "none")
  let options ← sshString []
  let blob ← sshString publicBlob
  let section_ ← sshString privateSection
  pure (utf8 "openssh-key-v1\x00" ++ (cipher ++ (kdf ++ (options ++ (uint32 1 ++ (blob ++ section_))))))

def generateSshKeyPair (drawn : Drawn) (comment : String) : Option SshKeyPair := do
  let blob ← publicBlob drawn
  let section_ ← privateSection drawn comment
  let bytes ← body blob section_
  let privateKey ← pem "OPENSSH PRIVATE KEY" 70 bytes
  pure ⟨privateKey, "ssh-ed25519 " ++ base64 blob ++ " " ++ comment⟩

/-! ### How the files are read -/

structure OpenSshKey where
  type : List UInt8
  pub : List UInt8
  seed : List UInt8
  comment : List Char
  deriving DecidableEq

/-- The container of one key that no passphrase protects: the public and the private part. -/
def container : Reader (List UInt8 × List UInt8) := do
  let magic ← take 15
  check (magic = utf8 "openssh-key-v1\x00")
  let cipher ← prefixed 4
  check (cipher = utf8 "none")
  let kdf ← prefixed 4
  check (kdf = utf8 "none")
  let options ← prefixed 4
  check (options = [])
  let keys ← number 4
  check (keys = 1)
  let blob ← prefixed 4
  let section_ ← prefixed 4
  pure (blob, section_)

def publicPart : Reader (List UInt8 × List UInt8) := do
  let type ← prefixed 4
  let pub ← prefixed 4
  pure (type, pub)

/-- The two copies of the check number agree in a private part that was deciphered. -/
def privatePart : Reader OpenSshKey := do
  let first ← take 4
  let second ← take 4
  check (first = second)
  let type ← prefixed 4
  let pub ← prefixed 4
  let secret ← prefixed 4
  check (secret.drop 32 = pub)
  let comment ← prefixed 4
  pure ⟨type, pub, secret.take 32, Utf8.decode comment⟩

/-- What follows the fields are the bytes 1, 2, 3, … up to a multiple of eight. -/
def readPrivatePart (section_ : List UInt8) : Option OpenSshKey :=
  match privatePart section_ with
  | some (key, rest) =>
      if section_.length % 8 = 0 ∧ rest = (List.range rest.length).map (fun i => UInt8.ofNat (i + 1)) ∧ rest.length < 8
      then some key
      else none
  | none => none

def readPrivateKey (text : String) : Option OpenSshKey := do
  let bytes ← readPem "OPENSSH PRIVATE KEY" text
  let (blob, section_) ← all container bytes
  let (type, pub) ← all publicPart blob
  let key ← readPrivatePart section_
  if key.type = type ∧ key.pub = pub then some key else none

/-- A line of `authorized_keys` without options: the key, and what stands behind it. -/
def readPublicLine (line : List Char) : Option (List UInt8 × List Char) :=
  match line.splitOn ' ' with
  | type :: blob :: comment =>
      match all publicPart (Base64.decode blob) with
      | some (t, pub) =>
          if type = "ssh-ed25519".toList ∧ t = keyType then some (pub, [' '].intercalate comment) else none
      | none => none
  | _ => none

/-- The keys that a file of `authorized_keys` lets in. -/
def authorized (file : List Char) : List (List UInt8) :=
  (file.splitOn '\n').filterMap fun line => (readPublicLine line).map Prod.fst

def laterLines (text : List Char) : List Char := (text.dropWhile fun c => c ≠ '\n').drop 1

/-! ### The private key -/

section Strings

variable {data s : List UInt8} {n : Nat}

theorem sshString_some (h : data.length < 2 ^ 32) : ∃ s, sshString data = some s := ⟨_, if_pos h⟩

theorem sshString_eq (h : sshString data = some s) : data.length < 2 ^ 32 ∧ s = bigEndian 4 data.length ++ data := by
  rw [sshString] at h
  split_ifs at h with hlt
  exact ⟨hlt, (Option.some.inj h).symm⟩

theorem reads_sshString (h : sshString data = some s) : Reads (prefixed 4) s data := by
  obtain ⟨hlt, rfl⟩ := sshString_eq h
  exact reads_prefixed hlt

theorem length_sshString (h : sshString data = some s) : s.length = 4 + data.length := by
  obtain ⟨-, rfl⟩ := sshString_eq h
  rw [List.length_append, length_bigEndian]

theorem length_padding : (padding n).length = (8 - n % 8) % 8 := by
  rw [padding, List.length_map, List.length_range]

end Strings

section Private

variable {drawn : Drawn} {comment : String} {blob section_ bytes : List UInt8}

theorem publicBlob_read (h : publicBlob drawn = some blob) : all publicPart blob = some (keyType, drawn.pub) := by
  simp only [publicBlob, Option.bind_eq_bind, Option.bind_eq_some_iff, Option.pure_def, Option.some.injEq] at h
  obtain ⟨type, htype, pub, hpub, rfl⟩ := h
  apply Reads.all
  exact (reads_sshString htype).bind (Reads.map (g := fun pub => (keyType, pub)) (reads_sshString hpub))

theorem body_read (h : body blob section_ = some bytes) : all container bytes = some (blob, section_) := by
  simp only [body, Option.bind_eq_bind, Option.bind_eq_some_iff, Option.pure_def, Option.some.injEq] at h
  obtain ⟨cipher, hcipher, kdf, hkdf, options, hoptions, b, hb, s, hs, rfl⟩ := h
  have hlast : Reads (prefixed 4 >>= fun section_ => pure (blob, section_)) s (blob, section_) :=
    Reads.map (g := fun section_ => (blob, section_)) (reads_sshString hs)
  have hmagic : Reads (take 15) (utf8 "openssh-key-v1\x00") (utf8 "openssh-key-v1\x00") := reads_take rfl
  apply Reads.all
  rw [container]
  apply hmagic.bind
  apply Reads.check (decide_eq_true rfl)
  apply Reads.bind (reads_sshString hcipher)
  apply Reads.check (decide_eq_true rfl)
  apply Reads.bind (reads_sshString hkdf)
  apply Reads.check (decide_eq_true rfl)
  apply Reads.bind (reads_sshString hoptions)
  apply Reads.check (decide_eq_true rfl)
  apply Reads.bind (reads_number (n := 1) (by decide))
  apply Reads.check (decide_eq_true rfl)
  exact (reads_sshString hb).bind hlast

theorem privateSection_read (h : privateSection drawn comment = some section_) :
    readPrivatePart section_ = some ⟨keyType, drawn.pub, drawn.seed, comment.toList⟩ := by
  simp only [privateSection, Option.bind_eq_bind, Option.bind_eq_some_iff, Option.pure_def, Option.some.injEq] at h
  obtain ⟨type, htype, pub, hpub, secret, hsecret, text, htext, rfl⟩ := h
  have hfields : Reads privatePart (drawn.check ++ (drawn.check ++ (type ++ (pub ++ (secret ++ text)))))
      ⟨keyType, drawn.pub, (drawn.seed ++ drawn.pub).take 32, Utf8.decode (utf8 comment)⟩ := by
    rw [privatePart]
    apply Reads.bind (reads_take drawn.check_length)
    apply Reads.bind (reads_take drawn.check_length)
    apply Reads.check (decide_eq_true rfl)
    apply Reads.bind (reads_sshString htype)
    apply Reads.bind (reads_sshString hpub)
    apply Reads.bind (reads_sshString hsecret)
    apply Reads.check (decide_eq_true (List.drop_left' drawn.seed_length))
    exact Reads.map (g := fun text => OpenSshKey.mk keyType drawn.pub ((drawn.seed ++ drawn.pub).take 32)
      (Utf8.decode text)) (reads_sshString htext)
  rw [List.take_left' drawn.seed_length, utf8, Utf8.decode_encode] at hfields
  rw [readPrivatePart, hfields]
  dsimp only
  rw [if_pos]
  refine ⟨?_, ?_, ?_⟩
  · rw [List.length_append, length_padding]
    omega
  · rw [length_padding, padding]
  · rw [length_padding]
    omega

theorem keyType_string : ∃ type, sshString keyType = some type := sshString_some (by decide)

theorem pub_string (drawn : Drawn) : ∃ pub, sshString drawn.pub = some pub :=
  sshString_some (by rw [drawn.pub_length]; decide)

theorem publicBlob_some (drawn : Drawn) : ∃ blob, publicBlob drawn = some blob ∧ blob.length = 51 := by
  have hkey : keyType.length = 11 := rfl
  obtain ⟨type, ht⟩ := keyType_string
  obtain ⟨pub, hp⟩ := pub_string drawn
  refine ⟨type ++ pub, ?_, ?_⟩
  · simp only [publicBlob, ht, hp, Option.bind_eq_bind, Option.bind_some, Option.pure_def]
  · rw [List.length_append, length_sshString ht, length_sshString hp, drawn.pub_length, hkey]

theorem privateSection_some (drawn : Drawn) (h : (utf8 comment).length < 2 ^ 32) :
    ∃ section_, privateSection drawn comment = some section_ := by
  obtain ⟨type, ht⟩ := keyType_string
  obtain ⟨pub, hp⟩ := pub_string drawn
  obtain ⟨secret, hs⟩ : ∃ s, sshString (drawn.seed ++ drawn.pub) = some s :=
    sshString_some (by rw [List.length_append, drawn.seed_length, drawn.pub_length]; decide)
  obtain ⟨text, hc⟩ := sshString_some h
  simp only [privateSection, ht, hp, hs, hc, Option.bind_eq_bind, Option.bind_some, Option.pure_def]
  exact ⟨_, rfl⟩

/-- The private part ends at a multiple of eight. -/
theorem privateSection_length (h : privateSection drawn comment = some section_) :
    section_.length = (138 + (utf8 comment).length) / 8 * 8 := by
  have hkey : keyType.length = 11 := rfl
  simp only [privateSection, Option.bind_eq_bind, Option.bind_eq_some_iff, Option.pure_def, Option.some.injEq] at h
  obtain ⟨type, htype, pub, hpub, secret, hsecret, text, htext, rfl⟩ := h
  simp only [List.length_append, length_padding, length_sshString htype, length_sshString hpub,
    length_sshString hsecret, length_sshString htext, drawn.check_length, drawn.seed_length, drawn.pub_length]
  omega

theorem body_some (hb : blob.length < 2 ^ 32) (hs : section_.length < 2 ^ 32) :
    ∃ bytes, body blob section_ = some bytes := by
  obtain ⟨none_, hn⟩ : ∃ s, sshString (utf8 "none") = some s := sshString_some (by decide)
  obtain ⟨options, ho⟩ : ∃ s, sshString [] = some s := sshString_some (by decide)
  obtain ⟨b, hb⟩ := sshString_some hb
  obtain ⟨s, hs⟩ := sshString_some hs
  simp only [body, hn, ho, hb, hs, Option.bind_eq_bind, Option.bind_some, Option.pure_def]
  exact ⟨_, rfl⟩

/-- A pair is made of all that is drawn, unless the private part is longer than four bytes can say. -/
theorem generateSshKeyPair_isSome :
    (generateSshKeyPair drawn comment).isSome ↔ (utf8 comment).length + 139 ≤ 2 ^ 32 := by
  rw [Option.isSome_iff_exists]
  constructor
  · rintro ⟨pair, h⟩
    simp only [generateSshKeyPair, Option.bind_eq_bind, Option.bind_eq_some_iff] at h
    obtain ⟨b, -, s, hsection, bytes, hbody, -⟩ := h
    simp only [body, Option.bind_eq_bind, Option.bind_eq_some_iff] at hbody
    obtain ⟨-, -, -, -, -, -, -, -, text, htext, -⟩ := hbody
    have hlt := (sshString_eq htext).1
    rw [privateSection_length hsection] at hlt
    omega
  · intro h
    obtain ⟨b, hb, hlength⟩ := publicBlob_some drawn
    obtain ⟨s, hs⟩ := privateSection_some drawn (by omega : (utf8 comment).length < 2 ^ 32)
    obtain ⟨bytes, hbytes⟩ := body_some (by omega : b.length < 2 ^ 32)
      (by rw [privateSection_length hs]; omega)
    have hne : bytes ≠ [] := by
      rintro rfl
      have hnone : all container [] = none := rfl
      have hread := body_read hbytes
      rw [hnone] at hread
      cases hread
    obtain ⟨text, htext⟩ := pem_isSome "OPENSSH PRIVATE KEY" 70 hne
    simp only [generateSshKeyPair, hb, hs, hbytes, htext, Option.bind_eq_bind, Option.bind_some, Option.pure_def]
    exact ⟨_, rfl⟩

end Private

/-! ### The public line -/

section Public

variable {drawn : Drawn} {blob : List UInt8} {s t rest : List Char}

theorem authorized_append_feed : authorized (s ++ '\n' :: t) = authorized s ++ authorized t := by
  rw [authorized, List.splitOn_append_cons_self, List.filterMap_append]
  rfl

theorem authorized_nil : authorized [] = [] := rfl

theorem authorized_line (h : '\n' ∉ s) : authorized s = ((readPublicLine s).map Prod.fst).toList := by
  rw [authorized, List.splitOn_eq_singleton h, List.filterMap_cons, List.filterMap_nil]
  cases readPublicLine s <;> rfl

theorem readPublicLine_line (h : publicBlob drawn = some blob) :
    readPublicLine ("ssh-ed25519".toList ++ ' ' :: ((base64 blob).toList ++ ' ' :: rest)) = some (drawn.pub, rest) := by
  have htype : ' ' ∉ "ssh-ed25519".toList := by decide
  have hblob : ' ' ∉ (base64 blob).toList := fun hc => absurd (isBase64_of_mem hc) (by decide)
  rw [readPublicLine, List.splitOn_append_cons_self_of_not_mem htype,
    List.splitOn_append_cons_self_of_not_mem hblob]
  dsimp only
  rw [decode_base64, publicBlob_read h]
  dsimp only
  rw [if_pos ⟨rfl, rfl⟩, List.intercalate_splitOn]

/-- The first line of a public key lets its key in, and further lines of the comment are lines of the file. -/
theorem authorized_public (h : publicBlob drawn = some blob) :
    authorized ("ssh-ed25519".toList ++ ' ' :: ((base64 blob).toList ++ ' ' :: (rest ++ ['\n']))) =
      drawn.pub :: authorized (laterLines rest) := by
  have htype : '\n' ∉ "ssh-ed25519".toList := by decide
  have hblob : '\n' ∉ (base64 blob).toList := fun hc => absurd (isBase64_of_mem hc) (by decide)
  have hfirst : '\n' ∉ rest.takeWhile fun c => c ≠ '\n' := by
    intro hc
    simpa using List.mem_takeWhile_imp hc
  have hline : authorized ("ssh-ed25519".toList ++ ' ' :: ((base64 blob).toList ++ ' ' ::
      rest.takeWhile fun c => c ≠ '\n')) = [drawn.pub] := by
    rw [authorized_line, readPublicLine_line h]
    · rfl
    · simp only [List.mem_append, List.mem_cons, not_or]
      exact ⟨htype, by decide, hblob, by decide, hfirst⟩
  have hsplit := List.takeWhile_append_dropWhile (p := fun c => c ≠ '\n') (l := rest)
  cases hlater : rest.dropWhile fun c => c ≠ '\n' with
  | nil =>
      rw [hlater, List.append_nil] at hsplit
      rw [hsplit] at hline
      rw [laterLines, hlater, List.drop_nil, authorized_nil, ← hline]
      have hend := authorized_append_feed
        (s := "ssh-ed25519".toList ++ ' ' :: ((base64 blob).toList ++ ' ' :: rest)) (t := [])
      rw [authorized_nil, List.append_nil] at hend
      rw [← hend]
      congr 1
      simp only [List.append_assoc, List.cons_append]
  | cons c later =>
      obtain rfl : c = '\n' := by
        have hhead := List.head?_dropWhile_not (fun c => decide (c ≠ '\n')) rest
        rw [hlater] at hhead
        simpa using hhead
      rw [hlater] at hsplit
      rw [laterLines, hlater, List.drop_one, List.tail_cons, ← hsplit]
      have hrest := authorized_append_feed (s := "ssh-ed25519".toList ++ ' ' :: ((base64 blob).toList ++ ' ' ::
        rest.takeWhile fun c => c ≠ '\n')) (t := later ++ ['\n'])
      have hend := authorized_append_feed (s := later) (t := [])
      rw [authorized_nil, List.append_nil] at hend
      rw [hline, hend] at hrest
      rw [List.singleton_append] at hrest
      rw [← hrest]
      simp only [List.append_assoc, List.cons_append]

end Public

/-- What is made of a comment is read back, in lines of at most 70 characters; the public line lets in its key and
those of the comment's later lines. -/
theorem generateSshKeyPair_read (drawn : Drawn) (comment : String) :
    ((generateSshKeyPair drawn comment).isSome ↔ (utf8 comment).length + 139 ≤ 2 ^ 32) ∧
      ∀ pair, generateSshKeyPair drawn comment = some pair →
        readPrivateKey pair.privateKey = some ⟨keyType, drawn.pub, drawn.seed, comment.toList⟩ ∧
          (∀ line ∈ pair.privateKey.toList.splitOn '\n', line.length ≤ 70) ∧
            ∀ file, authorized (file ++ '\n' :: (pair.publicKey.toList ++ ['\n'])) =
              authorized file ++ drawn.pub :: authorized (laterLines comment.toList) := by
  refine ⟨generateSshKeyPair_isSome, fun pair h => ?_⟩
  simp only [generateSshKeyPair, Option.bind_eq_bind, Option.bind_eq_some_iff, Option.pure_def,
    Option.some.injEq] at h
  obtain ⟨blob, hblob, s, hs, bytes, hbytes, text, htext, rfl⟩ := h
  have hlabel : '\n' ∉ "OPENSSH PRIVATE KEY".toList := by decide
  refine ⟨?_, ?_, ?_⟩
  · rw [readPrivateKey, readPem_pem hlabel (by decide) htext]
    simp only [Option.bind_eq_bind, Option.bind_some, body_read hbytes, publicBlob_read hblob,
      privateSection_read hs, and_self, if_true]
  · intro line hl
    rw [(pem_lines hlabel (by decide) htext).2] at hl
    simp only [List.mem_cons, List.mem_append, List.not_mem_nil, or_false] at hl
    rcases hl with rfl | hl | rfl | rfl
    · decide
    · exact (slices_size (by decide) hl).2
    · decide
    · decide
  · intro file
    rw [authorized_append_feed, ← authorized_public hblob]
    simp only [String.toList_append, List.append_assoc]
    rfl

end Yeah.Ssh
