import Yeah.Digits
import Mathlib.Data.List.DropRight
import Mathlib.Data.Bool.AllAny

namespace Yeah.Accounts.Base32

open Digits

def B32 : List Char := "ABCDEFGHIJKLMNOPQRSTUVWXYZ234567".toList

def letter (group : Nat) : Char := B32.getD group '='

/-- The variables of either loop; numbers under `<<`, `|` and `>>>` are 32 bits. -/
structure Coder (α : Type) where
  bits : Nat
  value : BitVec 32
  out : List α

/-- `while (bits >= 5)` -/
def emitGroups (value : BitVec 32) : Nat → List Char → Nat × List Char
  | bits + 5, out => emitGroups value bits (out ++ [letter ((value >>> bits) &&& 31#32).toNat])
  | bits, out => (bits, out)

def encodeByte (s : Coder Char) (byte : UInt8) : Coder Char :=
  let value := s.value <<< 8 ||| BitVec.ofNat 32 byte.toNat
  let (bits, out) := emitGroups value (s.bits + 8) s.out
  ⟨bits, value, out⟩

def base32Encode (buf : List UInt8) : String :=
  let s := buf.foldl encodeByte ⟨0, 0, []⟩
  String.ofList (if 0 < s.bits then s.out ++ [letter ((s.value <<< (5 - s.bits)) &&& 31#32).toNat] else s.out)

/-- `toUpperCase`, as far as it gives letters of ASCII. -/
def upper (c : Char) : List Char :=
  if c.toNat = 0x131 then ['I']
  else if c.toNat = 0x17F then ['S']
  else if c.toNat = 0xDF then ['S', 'S']
  else if c.toNat = 0xFB00 then ['F', 'F']
  else if c.toNat = 0xFB01 then ['F', 'I']
  else if c.toNat = 0xFB02 then ['F', 'L']
  else if c.toNat = 0xFB03 then ['F', 'F', 'I']
  else if c.toNat = 0xFB04 then ['F', 'F', 'L']
  else if c.toNat = 0xFB05 ∨ c.toNat = 0xFB06 then ['S', 'T']
  else [c.toUpper]

def decodeChar (s : Coder UInt8) (ch : Char) : Option (Coder UInt8) :=
  (B32.idxOf? ch).map fun idx =>
    let value := s.value <<< 5 ||| BitVec.ofNat 32 idx
    let bits := s.bits + 5
    if 8 ≤ bits then ⟨bits - 8, value, s.out ++ [UInt8.ofNat ((value >>> (bits - 8)) &&& 255#32).toNat]⟩
    else ⟨bits, value, s.out⟩

def base32Decode (str : String) : Except String (List UInt8) :=
  match ((str.toList.flatMap upper).rdropWhile (· = '=')).foldlM decodeChar ⟨0, 0, []⟩ with
  | some s => .ok s.out
  | none => .error "invalid base32"

/-- RFC 4648 without padding: the bytes are one number, which is filled up with zero bits to whole groups. -/
def rfc4648 (bytes : List UInt8) : String :=
  let groups := (8 * bytes.length + 4) / 5
  let filled := number (2 ^ 8) (bytes.map UInt8.toNat) * 2 ^ (5 * groups - 8 * bytes.length)
  String.ofList ((digits (2 ^ 5) groups filled).map letter)

/-- The text in any mixture of cases, perhaps with padding. -/
def Spells (text encoded : String) : Prop :=
  ∃ letters padding, text.toList = letters ++ List.replicate padding '=' ∧
    letters.map Char.toUpper = encoded.toList

/-! ### Numbers of 32 bits -/

section Words

variable {n a d bits w : Nat}

/-- The high bits that are shifted out are those of no digit still to come. -/
theorem value_push (h : d < 2 ^ a) :
    BitVec.ofNat 32 n <<< a ||| BitVec.ofNat 32 d = BitVec.ofNat 32 (n * 2 ^ a + d) := by
  have hshift : BitVec.ofNat 32 n <<< a = BitVec.ofNat 32 (n <<< a) := by
    apply BitVec.eq_of_toNat_eq
    rw [BitVec.toNat_shiftLeft, BitVec.toNat_ofNat, BitVec.toNat_ofNat, Nat.shiftLeft_eq,
      Nat.shiftLeft_eq, Nat.mod_mul_mod]
  rw [hshift, ← BitVec.ofNat_or, ← Nat.shiftLeft_add_eq_or_of_lt h, Nat.shiftLeft_eq]

theorem group_eq (n bits w : Nat) (h : bits + w ≤ 32) :
    ((BitVec.ofNat 32 n >>> bits) &&& BitVec.ofNat 32 (2 ^ w - 1)).toNat = n / 2 ^ bits % 2 ^ w := by
  have hmask : 2 ^ w - 1 < 2 ^ 32 := by
    have := Nat.pow_le_pow_right (show 0 < 2 by decide) (show w ≤ 32 by omega)
    have := Nat.two_pow_pos w
    omega
  have hpow : 2 ^ 32 = 2 ^ bits * 2 ^ (32 - bits) := by
    rw [← Nat.pow_add]
    congr 1
    omega
  have hdvd : 2 ^ w ∣ 2 ^ (32 - bits) := Nat.pow_dvd_pow 2 (by omega)
  rw [BitVec.toNat_and, BitVec.toNat_ushiftRight, BitVec.toNat_ofNat, BitVec.toNat_ofNat, Nat.mod_eq_of_lt hmask,
    Nat.and_two_pow_sub_one_eq_mod, Nat.shiftRight_eq_div_pow, hpow, Nat.mod_mul_right_div_self, Nat.mod_mod_of_dvd _ hdvd]

end Words

/-! ### Encoding -/

/-- What the encoder has done with `length` bits that make up `n`. -/
structure Encoded (n length : Nat) (s : Coder Char) : Prop where
  value : s.value = BitVec.ofNat 32 n
  small : s.bits < 5
  out : ∃ groups, Grouped 5 n length groups s.bits ∧ s.out = groups.map letter

theorem emitGroups_grouped {n length bits : Nat} {groups : List Nat} (h : Grouped 5 n length groups bits)
    (hbits : bits ≤ 32) :
    (emitGroups (BitVec.ofNat 32 n) bits (groups.map letter)).1 < 5 ∧
      ∃ groups', Grouped 5 n length groups' (emitGroups (BitVec.ofNat 32 n) bits (groups.map letter)).1 ∧
        (emitGroups (BitVec.ofNat 32 n) bits (groups.map letter)).2 = groups'.map letter := by
  induction bits using Nat.strong_induction_on generalizing groups with
  | _ bits ih =>
      by_cases hlt : bits < 5
      · have hstop : emitGroups (BitVec.ofNat 32 n) bits (groups.map letter) =
            (bits, groups.map letter) := by
          rcases bits with _ | _ | _ | _ | _ | bits <;> first | rfl | omega
        rw [hstop]
        exact ⟨hlt, groups, h, rfl⟩
      · obtain ⟨bits, rfl⟩ : ∃ b, bits = b + 5 := ⟨bits - 5, by omega⟩
        have hgroup := group_eq n bits 5 hbits
        have hstep : emitGroups (BitVec.ofNat 32 n) (bits + 5) (groups.map letter) =
            emitGroups (BitVec.ofNat 32 n) bits ((groups ++ [n / 2 ^ bits % 2 ^ 5]).map letter) := by
          rw [emitGroups, ← hgroup, List.map_append]
          rfl
        rw [hstep]
        exact ih bits (by omega) h.emit (by omega)

theorem Encoded.step {n length : Nat} {s : Coder Char} (h : Encoded n length s) (byte : UInt8) :
    Encoded (n * 2 ^ 8 + byte.toNat) (length + 8) (encodeByte s byte) := by
  obtain ⟨hvalue, hsmall, groups, hgroups, hout⟩ := h
  have hbyte : byte.toNat < 2 ^ 8 := byte.toNat_lt
  have hpush : s.value <<< 8 ||| BitVec.ofNat 32 byte.toNat = BitVec.ofNat 32 (n * 2 ^ 8 + byte.toNat) := by
    rw [hvalue, value_push hbyte]
  have hemit := emitGroups_grouped (hgroups.push hbyte) (by omega)
  rw [encodeByte, hpush, hout]
  exact ⟨rfl, hemit.1, hemit.2⟩

theorem encoded_foldl (bytes : List UInt8) :
    Encoded (number (2 ^ 8) (bytes.map UInt8.toNat)) (8 * bytes.length) (bytes.foldl encodeByte ⟨0, 0, []⟩) := by
  induction bytes using List.reverseRecOn with
  | nil => exact ⟨rfl, by decide, [], Grouped.nil, rfl⟩
  | append_singleton bytes byte ih =>
      rw [List.foldl_append, List.map_append, List.length_append, List.map_singleton, number_concat]
      exact ih.step byte

theorem base32Encode_eq (bytes : List UInt8) : base32Encode bytes = rfc4648 bytes := by
  obtain ⟨hvalue, hsmall, groups, hgroups, hout⟩ := encoded_foldl bytes
  rw [base32Encode, rfc4648]
  generalize number (2 ^ 8) (bytes.map UInt8.toNat) = n at hvalue hgroups ⊢
  generalize bytes.foldl encodeByte ⟨0, 0, []⟩ = s at hvalue hsmall hgroups hout ⊢
  have htotal := hgroups.total
  by_cases hbits : 0 < s.bits
  · have hcount : (8 * bytes.length + 4) / 5 = groups.length + 1 := by omega
    have hfill : 5 * (groups.length + 1) - 8 * bytes.length = 5 - s.bits := by omega
    have hlast : ((s.value <<< (5 - s.bits)) &&& 31#32).toNat = n * 2 ^ (5 - s.bits) % 2 ^ 5 := by
      have hshift : BitVec.ofNat 32 n <<< (5 - s.bits) = BitVec.ofNat 32 (n * 2 ^ (5 - s.bits)) := by
        simpa using value_push (n := n) (Nat.two_pow_pos (5 - s.bits))
      have hgroup := group_eq (n * 2 ^ (5 - s.bits)) 0 5 (by decide)
      rw [Nat.pow_zero, Nat.div_one, BitVec.ushiftRight_zero] at hgroup
      rw [hvalue, hshift]
      exact hgroup
    have hrest : n * 2 ^ (5 - s.bits) / 2 ^ 5 = n / 2 ^ s.bits := by
      have hpow : 2 ^ 5 = 2 ^ s.bits * 2 ^ (5 - s.bits) := by
        rw [← Nat.pow_add]
        congr 1
        omega
      rw [hpow, Nat.mul_div_mul_right _ _ (Nat.two_pow_pos _)]
    rw [if_pos hbits, hcount, hfill, hlast, digits, hrest, ← hgroups.groups, hout, List.map_append]
    rfl
  · have hzero : s.bits = 0 := by omega
    have hcount : (8 * bytes.length + 4) / 5 = groups.length := by omega
    have hfill : 5 * groups.length - 8 * bytes.length = 0 := by omega
    have hdigits := hgroups.groups
    rw [hzero, Nat.pow_zero, Nat.div_one] at hdigits
    rw [if_neg hbits, hcount, hfill, Nat.pow_zero, Nat.mul_one, ← hdigits, hout]

/-! ### Decoding -/

/-- What the decoder has done with `length` bits that make up `n`. -/
structure Decoded (n length : Nat) (s : Coder UInt8) : Prop where
  value : s.value = BitVec.ofNat 32 n
  small : s.bits < 8
  out : ∃ groups, Grouped 8 n length groups s.bits ∧ s.out = groups.map UInt8.ofNat

theorem idxOf?_letter {d : Nat} (h : d < 32) : B32.idxOf? (letter d) = some d :=
  (by decide : ∀ d : Fin 32, B32.idxOf? (letter d.val) = some d.val) ⟨d, h⟩

theorem Decoded.step {n length d : Nat} {s : Coder UInt8} (h : Decoded n length s) (hd : d < 32) :
    ∃ s', decodeChar s (letter d) = some s' ∧ Decoded (n * 2 ^ 5 + d) (length + 5) s' := by
  obtain ⟨hvalue, hsmall, groups, hgroups, hout⟩ := h
  have hd' : d < 2 ^ 5 := hd
  have hpush : s.value <<< 5 ||| BitVec.ofNat 32 d = BitVec.ofNat 32 (n * 2 ^ 5 + d) := by
    rw [hvalue, value_push hd']
  have hnext := hgroups.push hd'
  rw [decodeChar, idxOf?_letter hd, Option.map_some, hpush]
  refine ⟨_, rfl, ?_⟩
  dsimp only
  split_ifs with hbits
  · obtain ⟨bits, hb⟩ : ∃ bits, s.bits + 5 = bits + 8 := ⟨s.bits + 5 - 8, by omega⟩
    have hgroup := group_eq (n * 2 ^ 5 + d) bits 8 (by omega)
    rw [hb, Nat.add_sub_cancel]
    rw [hb] at hnext
    have hless : bits < 8 := by omega
    refine ⟨rfl, hless, _, hnext.emit, ?_⟩
    rw [← hgroup, List.map_append, hout]
    rfl
  · have hless : s.bits + 5 < 8 := by omega
    exact ⟨rfl, hless, groups, hnext, hout⟩

theorem decoded_foldlM {ds : List Nat} (h : ∀ d ∈ ds, d < 32) :
    ∃ s, (ds.map letter).foldlM decodeChar ⟨0, 0, []⟩ = some s ∧
      Decoded (number (2 ^ 5) ds) (5 * ds.length) s := by
  induction ds using List.reverseRecOn with
  | nil => exact ⟨_, rfl, rfl, by decide, [], Grouped.nil, rfl⟩
  | append_singleton ds d ih =>
      obtain ⟨s, hs, hdecoded⟩ := ih fun d' hd => h d' (List.mem_append_left _ hd)
      obtain ⟨s', hs', hdecoded'⟩ := hdecoded.step (h d (by simp))
      refine ⟨s', ?_, ?_⟩
      · rw [List.map_append, List.foldlM_append, hs, List.map_singleton]
        simpa using hs'
      · rw [number_concat, List.length_append]
        exact hdecoded'

theorem decoded_filled (bytes : List UInt8) {s : Coder UInt8} {k : Nat} (hk : 8 * bytes.length ≤ 5 * k)
    (hk' : 5 * k < 8 * bytes.length + 8)
    (h : Decoded (number (2 ^ 8) (bytes.map UInt8.toNat) * 2 ^ (5 * k - 8 * bytes.length)) (5 * k) s) :
    s.out = bytes := by
  obtain ⟨-, hsmall, groups, hgroups, hout⟩ := h
  have htotal := hgroups.total
  have hlength : groups.length = (bytes.map UInt8.toNat).length := by
    rw [List.length_map]
    omega
  have hbits : 5 * k - 8 * bytes.length = s.bits := by
    rw [List.length_map] at hlength
    omega
  have hall : ∀ d ∈ bytes.map UInt8.toNat, d < 2 ^ 8 := by
    intro d hd
    obtain ⟨byte, -, rfl⟩ := List.mem_map.1 hd
    exact byte.toNat_lt
  have hdigits := hgroups.groups
  rw [hbits, Nat.mul_div_cancel _ (Nat.two_pow_pos _), hlength, digits_number hall] at hdigits
  rw [hout, hdigits, List.map_map]
  have hid : UInt8.ofNat ∘ UInt8.toNat = id := by
    funext byte
    exact UInt8.ofNat_toNat
  rw [hid, List.map_id]

/-! ### Spellings -/

theorem upper_eq {c : Char} (h : c.toUpper ∈ B32) : upper c = [c.toUpper] := by
  have hsmall : c.toNat < 128 := by
    by_cases hc : 'a'.val ≤ c.val ∧ c.val ≤ 'z'.val
    · have hle : c.toNat ≤ 122 := UInt32.le_iff_toNat_le.1 hc.2
      omega
    · have hself : c.toUpper = c := dif_neg hc
      rw [hself] at h
      exact List.all_iff_forall_prop.1 (by decide : B32.all fun c => c.toNat < 128) c h
  rw [upper]
  repeat rw [if_neg (by omega)]

theorem rdropWhile_spelled {text : String} {ds : List Nat} (hds : ∀ d ∈ ds, d < 32)
    (h : Spells text (String.ofList (ds.map letter))) :
    (text.toList.flatMap upper).rdropWhile (· = '=') = ds.map letter := by
  obtain ⟨letters, padding, htext, hletters⟩ := h
  rw [String.toList_ofList] at hletters
  have hmem : ∀ c ∈ ds.map letter, c ∈ B32 ∧ c ≠ '=' := by
    intro c hc
    obtain ⟨d, hd, rfl⟩ := List.mem_map.1 hc
    exact (by decide : ∀ d : Fin 32, letter d.val ∈ B32 ∧ letter d.val ≠ '=') ⟨d, hds d hd⟩
  have hflat : letters.flatMap upper = ds.map letter := by
    rw [← hletters, List.map_eq_flatMap]
    refine List.flatMap_congr fun c hc => upper_eq (hmem _ ?_).1
    rw [← hletters]
    exact List.mem_map_of_mem hc
  have hpad : (List.replicate padding '=').flatMap upper = List.replicate padding '=' := by
    rw [List.flatMap_replicate]
    have hone : upper '=' = ['='] := by decide
    rw [hone, List.flatten_replicate_singleton]
  have hkeep : (ds.map letter).reverse.dropWhile (· = '=') = (ds.map letter).reverse := by
    cases hr : (ds.map letter).reverse with
    | nil => rfl
    | cons c cs =>
        have hc : c ∈ ds.map letter := List.mem_reverse.1 (hr ▸ List.mem_cons_self)
        exact List.dropWhile_cons_of_neg (by simpa using (hmem c hc).2)
  rw [htext, List.flatMap_append, hflat, hpad, List.rdropWhile, List.reverse_append, List.reverse_replicate,
    List.dropWhile_append_of_pos (by simp), hkeep, List.reverse_reverse]

theorem base32Decode_spelled {bytes : List UInt8} {text : String} (h : Spells text (rfc4648 bytes)) :
    base32Decode text = .ok bytes := by
  rw [rfc4648] at h
  generalize hk : (8 * bytes.length + 4) / 5 = k at h
  generalize hn : number (2 ^ 8) (bytes.map UInt8.toNat) * 2 ^ (5 * k - 8 * bytes.length) = n at h
  have hlt : n < 2 ^ (5 * k) := by
    have hall : ∀ d ∈ bytes.map UInt8.toNat, d < 2 ^ 8 := by
      intro d hd
      obtain ⟨byte, -, rfl⟩ := List.mem_map.1 hd
      exact byte.toNat_lt
    have hnumber := number_lt hall
    rw [List.length_map, ← Nat.pow_mul] at hnumber
    have hpow : 2 ^ (5 * k) = 2 ^ (8 * bytes.length) * 2 ^ (5 * k - 8 * bytes.length) := by
      rw [← Nat.pow_add]
      congr 1
      omega
    rw [hpow, ← hn]
    exact Nat.mul_lt_mul_of_pos_right hnumber (Nat.two_pow_pos _)
  have hds : ∀ d ∈ digits (2 ^ 5) k n, d < 32 := fun d hd => lt_of_mem_digits (by decide) hd
  obtain ⟨s, hs, hdecoded⟩ := decoded_foldlM hds
  rw [number_digits (by rwa [← Nat.pow_mul]), length_digits, ← hn] at hdecoded
  rw [base32Decode, rdropWhile_spelled hds h, hs]
  exact congrArg Except.ok (decoded_filled bytes (by omega) (by omega) hdecoded)

/-- For byte sequences of any length: the encoder gives the text of RFC 4648, and the decoder the bytes of it, in any case and with
any padding. -/
theorem base32_exact (bytes : List UInt8) :
    base32Encode bytes = rfc4648 bytes ∧
      ∀ text, Spells text (base32Encode bytes) → base32Decode text = .ok bytes := by
  refine ⟨base32Encode_eq bytes, fun text h => ?_⟩
  rw [base32Encode_eq] at h
  exact base32Decode_spelled h

theorem base32_exact_padded : base32Decode "mzxW6yq=" = .ok [102, 111, 111, 98] :=
  (base32_exact [102, 111, 111, 98]).2 "mzxW6yq=" ⟨"mzxW6yq".toList, 1, by decide, by decide +kernel⟩

end Yeah.Accounts.Base32
