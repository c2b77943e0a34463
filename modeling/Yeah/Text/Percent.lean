import Yeah.Text.Utf8
import Mathlib.Tactic.IntervalCases

namespace Yeah.Text.Percent

/-- The characters that `encodeURIComponent` leaves as they are. -/
def isUnreserved (c : Char) : Bool := c.isAlphanum || c ∈ ['-', '_', '.', '!', '~', '*', '\'', '(', ')']

def hexDigit (n : Nat) : Char := Char.ofNat (if n < 10 then 48 + n else 55 + n)

def hexValue (c : Char) : Option Nat :=
  if 48 ≤ c.toNat ∧ c.toNat ≤ 57 then some (c.toNat - 48)
  else if 65 ≤ c.toNat ∧ c.toNat ≤ 70 then some (c.toNat - 55)
  else if 97 ≤ c.toNat ∧ c.toNat ≤ 102 then some (c.toNat - 87)
  else none

def escape (b : UInt8) : List Char := ['%', hexDigit (b.toNat / 16), hexDigit (b.toNat % 16)]

def encodeChar (c : Char) : List Char := if isUnreserved c then [c] else (String.utf8EncodeChar c).flatMap escape

def encodeURIComponent (text : List Char) : List Char := text.flatMap encodeChar

/-- The bytes that a text stands for; `none` where no two hexadecimal digits follow a `%`. -/
def readBytes : List Char → Option (List UInt8)
  | [] => some []
  | c :: rest =>
      if c = '%' then
        match rest with
        | high :: low :: rest =>
            (hexValue high).bind fun h => (hexValue low).bind fun l => (readBytes rest).map (UInt8.ofNat (16 * h + l) :: ·)
        | _ => none
      else (readBytes rest).map (String.utf8EncodeChar c ++ ·)

def decodeURIComponent (text : List Char) : Option (List Char) := (readBytes text).map Utf8.decode

theorem hexValue_hexDigit {n : Nat} (h : n < 16) : hexValue (hexDigit n) = some n := by
  interval_cases n <;> rfl

theorem isAlphanum_hexDigit {n : Nat} (h : n < 16) : (hexDigit n).isAlphanum = true := by
  interval_cases n <;> rfl

theorem readBytes_cons {c : Char} (hc : c ≠ '%') (rest : List Char) :
    readBytes (c :: rest) = (readBytes rest).map (String.utf8EncodeChar c ++ ·) := by
  rcases rest with _ | ⟨d, _ | ⟨e, rest⟩⟩ <;> simp [readBytes, hc]

theorem readBytes_escape (b : UInt8) (rest : List Char) : readBytes (escape b ++ rest) = (readBytes rest).map (b :: ·) := by
  have hb : b.toNat < 256 := b.toNat_lt
  have hhigh : b.toNat / 16 < 16 := by omega
  have hlow : b.toNat % 16 < 16 := Nat.mod_lt _ (by omega)
  have hbyte : UInt8.ofNat (16 * (b.toNat / 16) + b.toNat % 16) = b := by
    rw [Nat.div_add_mod, UInt8.ofNat_toNat]
  simp only [escape, List.cons_append, List.nil_append, readBytes, if_true, hexValue_hexDigit hhigh, hexValue_hexDigit hlow,
    Option.bind_some, hbyte]

theorem readBytes_escapes (bytes : List UInt8) (rest : List Char) :
    readBytes (bytes.flatMap escape ++ rest) = (readBytes rest).map (bytes ++ ·) := by
  induction bytes with
  | nil => simp
  | cons b bytes ih =>
      rw [List.flatMap_cons, List.append_assoc, readBytes_escape, ih, Option.map_map]
      rfl

theorem readBytes_encodeChar (c : Char) (rest : List Char) :
    readBytes (encodeChar c ++ rest) = (readBytes rest).map (String.utf8EncodeChar c ++ ·) := by
  rw [encodeChar]
  split
  next h =>
    have hc : c ≠ '%' := by
      rintro rfl
      cases h
    rw [List.singleton_append, readBytes_cons hc]
  next => exact readBytes_escapes _ rest

theorem readBytes_encode (text : List Char) : readBytes (encodeURIComponent text) = some (Utf8.encode text) := by
  induction text with
  | nil => rfl
  | cons c text ih =>
      rw [encodeURIComponent, List.flatMap_cons, readBytes_encodeChar, ← encodeURIComponent, ih]
      rfl

/-- Any text comes back, whatever it holds. -/
theorem decode_encode (text : List Char) : decodeURIComponent (encodeURIComponent text) = some text := by
  rw [decodeURIComponent, readBytes_encode, Option.map_some, Utf8.decode_encode]

theorem mem_escape {b : UInt8} {d : Char} (h : d ∈ escape b) : isUnreserved d = true ∨ d = '%' := by
  have hb : b.toNat < 256 := b.toNat_lt
  have hdigit : ∀ n < 16, isUnreserved (hexDigit n) = true := fun n hn => by
    rw [isUnreserved, isAlphanum_hexDigit hn, Bool.true_or]
  rcases List.mem_cons.1 h with rfl | h
  · exact Or.inr rfl
  · rcases List.mem_cons.1 h with rfl | h
    · exact Or.inl (hdigit _ (by omega))
    · rw [List.mem_singleton.1 h]
      exact Or.inl (hdigit _ (Nat.mod_lt _ (by omega)))

theorem mem_encode {text : List Char} {d : Char} (h : d ∈ encodeURIComponent text) : isUnreserved d = true ∨ d = '%' := by
  obtain ⟨c, -, hd⟩ := List.mem_flatMap.1 h
  rw [encodeChar] at hd
  split at hd
  next hc => exact Or.inl (List.mem_singleton.1 hd ▸ hc)
  next =>
    obtain ⟨b, -, hb⟩ := List.mem_flatMap.1 hd
    exact mem_escape hb

/-- No character that separates the parts of a URL is left. -/
theorem notMem_encode {text : List Char} {d : Char} (hd : isUnreserved d = false ∧ d ≠ '%') : d ∉ encodeURIComponent text := by
  intro h
  rcases mem_encode h with hu | rfl
  · cases hd.1.symm.trans hu
  · exact hd.2 rfl

end Yeah.Text.Percent
