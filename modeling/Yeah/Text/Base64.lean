import Mathlib.Data.List.Basic

namespace Yeah.Text.Base64

/-- The alphabet of base64url. -/
def letter (n : Nat) : Char :=
  if n < 26 then Char.ofNat (65 + n)
  else if n < 52 then Char.ofNat (71 + n)
  else if n < 62 then Char.ofNat (n - 4)
  else if n = 62 then '-'
  else '_'

/-- Both alphabets are read. -/
def digit (c : Char) : Option Nat :=
  if c.isUpper then some (c.toNat - 65)
  else if c.isLower then some (c.toNat - 71)
  else if c.isDigit then some (c.toNat + 4)
  else if c = '-' ∨ c = '+' then some 62
  else if c = '_' ∨ c = '/' then some 63
  else none

def encode : List UInt8 → List Char
  | a :: b :: c :: rest =>
      let n := a.toNat * 65536 + b.toNat * 256 + c.toNat
      letter (n / 262144) :: letter (n / 4096 % 64) :: letter (n / 64 % 64) :: letter (n % 64) :: encode rest
  | [a, b] =>
      let n := a.toNat * 1024 + b.toNat * 4
      [letter (n / 4096), letter (n / 64 % 64), letter (n % 64)]
  | [a] =>
      let n := a.toNat * 16
      [letter (n / 64), letter (n % 64)]
  | [] => []

def ofDigits : List Nat → List UInt8
  | p :: q :: r :: s :: rest =>
      let n := p * 262144 + q * 4096 + r * 64 + s
      UInt8.ofNat (n / 65536) :: UInt8.ofNat (n / 256) :: UInt8.ofNat n :: ofDigits rest
  | [p, q, r] =>
      let n := p * 4096 + q * 64 + r
      [UInt8.ofNat (n / 1024), UInt8.ofNat (n / 4)]
  | [p, q] => [UInt8.ofNat ((p * 64 + q) / 16)]
  | _ => []

/-- Other characters are skipped. -/
def decode (text : List Char) : List UInt8 := ofDigits (text.filterMap digit)

theorem digit_letter {n : Nat} (h : n < 64) : digit (letter n) = some n :=
  (by decide : ∀ n : Fin 64, digit (letter n) = some n.val) ⟨n, h⟩

theorem ofNat_eq {n : Nat} {a : UInt8} (h : n % 256 = a.toNat) : UInt8.ofNat n = a := by
  rw [← UInt8.toNat_inj, UInt8.toNat_ofNat']
  exact h

theorem digit_letter_mod (n : Nat) : digit (letter (n % 64)) = some (n % 64) :=
  digit_letter (Nat.mod_lt n (by decide))

theorem digits_four (n : Nat) :
    n / 262144 * 262144 + n / 4096 % 64 * 4096 + n / 64 % 64 * 64 + n % 64 = n := by omega

theorem digits_three (n : Nat) : n / 4096 * 4096 + n / 64 % 64 * 64 + n % 64 = n := by omega

theorem digits_two (n : Nat) : n / 64 * 64 + n % 64 = n := by omega

theorem decode_three (a b c : UInt8) {rest : List UInt8} (ih : decode (encode rest) = rest) :
    decode (encode (a :: b :: c :: rest)) = a :: b :: c :: rest := by
  have ha := a.toNat_lt
  have hb := b.toNat_lt
  have hc := c.toNat_lt
  rw [decode] at ih
  rw [encode, decode]
  generalize hn : a.toNat * 65536 + b.toNat * 256 + c.toNat = n
  have hfirst : digit (letter (n / 262144)) = some (n / 262144) := digit_letter (by omega)
  have hbytes : UInt8.ofNat (n / 65536) = a ∧ UInt8.ofNat (n / 256) = b ∧ UInt8.ofNat n = c :=
    ⟨ofNat_eq (by omega), ofNat_eq (by omega), ofNat_eq (by omega)⟩
  have hsecond := digit_letter_mod (n / 4096)
  have hthird := digit_letter_mod (n / 64)
  have hlast := digit_letter_mod n
  rw [List.filterMap_cons_some hfirst, List.filterMap_cons_some hsecond, List.filterMap_cons_some hthird,
    List.filterMap_cons_some hlast]
  rw [ofDigits, ih, digits_four, hbytes.1, hbytes.2.1, hbytes.2.2]

theorem decode_two (a b : UInt8) : decode (encode [a, b]) = [a, b] := by
  have ha := a.toNat_lt
  have hb := b.toNat_lt
  rw [encode, decode]
  generalize hn : a.toNat * 1024 + b.toNat * 4 = n
  have hfirst : digit (letter (n / 4096)) = some (n / 4096) := digit_letter (by omega)
  have hbytes : UInt8.ofNat (n / 1024) = a ∧ UInt8.ofNat (n / 4) = b :=
    ⟨ofNat_eq (by omega), ofNat_eq (by omega)⟩
  have hsecond := digit_letter_mod (n / 64)
  have hlast := digit_letter_mod n
  rw [List.filterMap_cons_some hfirst, List.filterMap_cons_some hsecond, List.filterMap_cons_some hlast,
    List.filterMap_nil]
  rw [ofDigits, digits_three, hbytes.1, hbytes.2]

theorem decode_one (a : UInt8) : decode (encode [a]) = [a] := by
  have ha := a.toNat_lt
  rw [encode, decode]
  generalize hn : a.toNat * 16 = n
  have hfirst : digit (letter (n / 64)) = some (n / 64) := digit_letter (by omega)
  rw [List.filterMap_cons_some hfirst, List.filterMap_cons_some (digit_letter_mod n), List.filterMap_nil]
  rw [ofDigits, digits_two, ofNat_eq (a := a) (by omega)]

theorem decode_encode (bytes : List UInt8) : decode (encode bytes) = bytes := by
  induction bytes using encode.induct with
  | case1 a b c rest ih => exact decode_three a b c ih
  | case2 a b => exact decode_two a b
  | case3 a => exact decode_one a
  | case4 => rfl

end Yeah.Text.Base64
