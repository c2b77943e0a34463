import Yeah.Accounts.IpAddress
import Yeah.Text.Space

namespace Yeah.Accounts

open Digits Text

/-- `Number` of digits. -/
def digitsValue (t : List Char) : Nat := number 10 (t.map fun c => c.toNat - 48)

/-- `^\d{1,k}$` -/
def isDigits (k : Nat) (t : List Char) : Bool := 0 < t.length && t.length ≤ k && t.all Char.isDigit

def octet (n : Nat) (p : List Char) : Option Nat :=
  if !isDigits 3 p || digitsValue p > 255 then none else some (n * 256 + digitsValue p)

def ipv4ToInt (ip : List Char) : Option Nat :=
  let parts := ip.splitOn '.'
  if parts.length ≠ 4 then none else parts.foldlM octet 0

/-- `Number(bits)` is taken of digits only; no other text is in a valid list. -/
def entryMatches (ip entry : List Char) : Bool :=
  match entry.splitOn '/' with
  | base :: bits :: _ =>
      match ipv4ToInt ip, ipv4ToInt base with
      | some a, some b =>
          let len := digitsValue bits
          if len > 32 then false
          else if len = 0 then true
          else
            let shift := 2 ^ (32 - len)
            a / shift = b / shift
      | _, _ => false
  | base :: [] => ip = base
  | [] => false

def entries (list : String) : List (List Char) :=
  ((list.toList.splitOn ',').map (strip fun c => isSpace c.toNat)).filter (· ≠ [])

/-- `[0-9a-fA-F:.]` -/
def isAddressChar (c : Char) : Bool :=
  c.isDigit || ('a' ≤ c && c ≤ 'f') || ('A' ≤ c && c ≤ 'F') || c = ':' || c = '.'

def isValidEntry (e : List Char) : Bool :=
  match e.splitOn '/' with
  | base :: bits :: _ => (ipv4ToInt base).isSome && isDigits 2 bits && digitsValue bits ≤ 32
  | _ => e ≠ [] && e.all isAddressChar && ((ipv4ToInt e).isSome || e.contains ':')

def isValidIpList (list : String) : Bool := entries list ≠ [] && (entries list).all isValidEntry

/-- null/empty allowlist = any address. -/
def ipAllowed (ip : String) (list : Option String) : Bool :=
  if list.getD "" = "" then true else (entries (list.getD "")).any (entryMatches ip.toList)

/-! ### What a list denotes -/

/-- The first `len` bits are the same. -/
def IPv4.InRange (base : IPv4) (len : Nat) (ip : IPv4) : Prop :=
  ∀ i, 32 - len ≤ i → ip.toNat.testBit i = base.toNat.testBit i

/-- The entry begins with a range in which the address lies; `rest` is what follows it. -/
def Ranges (e : List Char) (rest : List (List Char)) : Address → Prop
  | .v4 ip => ∃ (base bits : List Char) (b : IPv4) (len : Nat), e.splitOn '/' = base :: bits :: rest ∧ b.Spells base ∧ Numeral 10 2 bits len ∧ len ≤ 32 ∧ b.InRange len ip
  | .v6 _ => False

def Denotes (e : List Char) (address : Address) : Prop := Spells e address ∨ Ranges e [] address

/-- The list has the very text of the address, or a range with it. -/
def Listed (list : String) (ip : String) (address : Address) : Prop :=
  ip.toList ∈ entries list ∨ ∃ e ∈ entries list, Ranges e [] address

def Respelled (list : String) (ip : String) (address : Address) : Prop :=
  ∃ e ∈ entries list, Spells e address ∧ e ≠ ip.toList

def Overlong (list : String) (address : Address) : Prop :=
  ∃ e ∈ entries list, ∃ p rest, Ranges e (p :: rest) address

section Parse

variable {t p e : List Char} {n k : Nat} {ip : IPv4}

theorem isDigits_iff : isDigits k t = true ↔ Numeral 10 k t (digitsValue t) := by
  rw [isDigits, Bool.and_eq_true, Bool.and_eq_true, decide_eq_true_eq, decide_eq_true_eq,
    List.all_eq_true]
  constructor
  · rintro ⟨⟨hpos, hlength⟩, hdigits⟩
    refine ⟨t.map fun c => c.toNat - 48, ?_, ?_, ?_, by rw [digitsValue]⟩
    · rwa [List.length_map]
    · rwa [List.length_map]
    · rw [List.forall₂_map_right_iff, List.forall₂_same]
      exact fun c hc => digitOf_ten_iff.2 ⟨hdigits c hc, rfl⟩
  · rintro ⟨ds, hpos, hlength, hds, -⟩
    rw [hds.length_eq]
    refine ⟨⟨hpos, hlength⟩, fun c hc => ?_⟩
    obtain ⟨d, hd⟩ := related_of_mem hds hc
    exact (digitOf_ten_iff.1 hd).1

theorem Numeral.value_eq (h : Numeral 10 k t n) : digitsValue t = n := by
  obtain ⟨ds, -, -, hds, rfl⟩ := h
  rw [digitsValue]
  congr 1
  induction hds with
  | nil => rfl
  | cons hd _ ih => rw [List.map_cons, ih, (digitOf_ten_iff.1 hd).2]

theorem octet_eq_some {m : Nat} :
    octet n p = some m ↔ ∃ o : Fin 256, Numeral 10 3 p o ∧ m = n * 256 + o := by
  rw [octet]
  constructor
  · intro h
    split_ifs at h with hbad
    simp only [Bool.or_eq_true, Bool.not_eq_true', decide_eq_true_eq, not_or, Bool.not_eq_false,
      not_lt] at hbad
    exact ⟨⟨digitsValue p, by omega⟩, isDigits_iff.1 hbad.1, (Option.some.inj h).symm⟩
  · rintro ⟨o, ho, rfl⟩
    have hvalue := ho.value_eq
    have hdigits : isDigits 3 p = true := isDigits_iff.2 (hvalue.symm ▸ ho)
    rw [if_neg, hvalue]
    simp only [hdigits, Bool.not_true, Bool.false_or, decide_eq_true_eq]
    omega

theorem four_of_length {α : Type} {l : List α} (h : l.length = 4) : ∃ a b c d, l = [a, b, c, d] := by
  match l, h with
  | [a, b, c, d], _ => exact ⟨a, b, c, d, rfl⟩

theorem ipv4ToInt_eq_some : ipv4ToInt t = some n ↔ ∃ ip : IPv4, ip.Spells t ∧ ip.toNat = n := by
  have htoNat : ∀ ip : IPv4, ip.toNat = (((0 * 256 + ip.a) * 256 + ip.b) * 256 + ip.c) * 256 + ip.d :=
    fun ip => rfl
  simp only [ipv4ToInt]
  constructor
  · intro h
    split_ifs at h with hlength
    rw [ne_eq, not_not] at hlength
    obtain ⟨p₁, p₂, p₃, p₄, hparts⟩ := four_of_length hlength
    rw [hparts] at h
    simp only [List.foldlM_cons, List.foldlM_nil, Option.bind_eq_bind, Option.bind_eq_some_iff,
      Option.pure_def, octet_eq_some] at h
    obtain ⟨_, ⟨a, ha, rfl⟩, _, ⟨b, hb, rfl⟩, _, ⟨c, hc, rfl⟩, _, ⟨d, hd, rfl⟩, hn⟩ := h
    refine ⟨⟨a, b, c, d⟩, ⟨[p₁, p₂, p₃, p₄], ?_, ?_⟩, (htoNat _).trans (Option.some.inj hn)⟩
    · rw [← hparts, List.intercalate_splitOn]
    · exact .cons ha (.cons hb (.cons hc (.cons hd .nil)))
  · rintro ⟨ip, hspells, rfl⟩
    have hparts := hspells.parts
    have hlength : (t.splitOn '.').length = 4 := hparts.length_eq
    obtain ⟨p₁, p₂, p₃, p₄, hsplit⟩ := four_of_length hlength
    rw [hsplit, IPv4.octets] at hparts
    simp only [List.forall₂_cons, List.Forall₂.nil, and_true] at hparts
    obtain ⟨ha, hb, hc, hd⟩ := hparts
    rw [if_neg (not_not.2 hlength), hsplit, htoNat]
    simp only [List.foldlM_cons, List.foldlM_nil, Option.bind_eq_bind, Option.bind_eq_some_iff,
      Option.pure_def, octet_eq_some]
    exact ⟨_, ⟨ip.a, ha, rfl⟩, _, ⟨ip.b, hb, rfl⟩, _, ⟨ip.c, hc, rfl⟩, _, ⟨ip.d, hd, rfl⟩, rfl⟩

theorem ipv4ToInt_spells {ip : IPv4} (h : ip.Spells t) : ipv4ToInt t = some ip.toNat :=
  ipv4ToInt_eq_some.2 ⟨ip, h, rfl⟩

theorem ipv4ToInt_colon (h : ':' ∈ t) : ipv4ToInt t = none := by
  cases hint : ipv4ToInt t with
  | none => rfl
  | some n =>
      obtain ⟨ip, hspells, -⟩ := ipv4ToInt_eq_some.1 hint
      exact absurd h hspells.not_mem.2

/-- Quotients by a power of two compare the bits from it on. -/
theorem inRange_iff {base : IPv4} {len : Nat} :
    base.InRange len ip ↔ ip.toNat / 2 ^ (32 - len) = base.toNat / 2 ^ (32 - len) := by
  constructor
  · intro h
    apply Nat.eq_of_testBit_eq
    intro i
    rw [Nat.testBit_div_two_pow, Nat.testBit_div_two_pow]
    exact h _ (Nat.le_add_left _ _)
  · intro h i hi
    have hbit := congrArg (Nat.testBit · (i - (32 - len))) h
    simp only [Nat.testBit_div_two_pow] at hbit
    rwa [Nat.sub_add_cancel hi] at hbit

theorem IPv4.toNat_lt (ip : IPv4) : ip.toNat < 2 ^ 32 := by
  have hlt : ip.toNat < 256 ^ ip.octets.length := number_lt fun _ ho => IPv4.lt_of_mem_octets ho
  have hlength : ip.octets.length = 4 := rfl
  rw [hlength] at hlt
  omega

end Parse

section Entries

variable {e : List Char} {ip list : String} {address : Address}

theorem entryMatches_range {base bits : List Char} {rest : List (List Char)}
    (he : e.splitOn '/' = base :: bits :: rest)
    (hvalid : isValidEntry e = true) (h : Canonical ip.toList address) :
    entryMatches ip.toList e = true ↔ Ranges e rest address := by
  simp only [isValidEntry, he, Bool.and_eq_true, decide_eq_true_eq, Option.isSome_iff_exists] at hvalid
  obtain ⟨⟨⟨n, hbase⟩, hbits⟩, hlen⟩ := hvalid
  obtain ⟨base', hspells, rfl⟩ := ipv4ToInt_eq_some.1 hbase
  simp only [entryMatches, he, hbase]
  cases address with
  | v6 ip => simp [ipv4ToInt_colon h.colon, Ranges]
  | v4 ip =>
      have hranges : Ranges e rest (.v4 ip) ↔ base'.InRange (digitsValue bits) ip := by
        constructor
        · rintro ⟨base₁, bits₁, b, len, hsplit, hb, hnumeral, -, hrange⟩
          rw [he, List.cons.injEq, List.cons.injEq] at hsplit
          obtain ⟨rfl, rfl, -⟩ := hsplit
          rw [ipv4ToInt_spells hb, Option.some.injEq] at hbase
          rwa [hnumeral.value_eq, IPv4.InRange, ← hbase]
        · exact fun hrange => ⟨base, bits, base', _, he, hspells, isDigits_iff.1 hbits, hlen, hrange⟩
      rw [hranges, inRange_iff, ipv4ToInt_spells h.spells]
      simp only [if_neg (not_lt.2 hlen)]
      split_ifs with hzero
      · have hip := ip.toNat_lt
        have hbase' := base'.toNat_lt
        simp only [hzero, Nat.sub_zero, true_iff]
        rw [Nat.div_eq_of_lt hip, Nat.div_eq_of_lt hbase']
      · rw [decide_eq_true_eq]

theorem entryMatches_text (he : '/' ∉ e) (t : List Char) : entryMatches t e = true ↔ e = t := by
  rw [entryMatches, List.splitOn_eq_singleton he]
  simp [eq_comm]

theorem no_range (he : '/' ∉ e) (rest : List (List Char)) : ¬ Ranges e rest address := by
  cases address with
  | v6 ip => exact id
  | v4 ip =>
      rintro ⟨base, bits, b, len, hsplit, -⟩
      rw [List.splitOn_eq_singleton he] at hsplit
      simp at hsplit

theorem splitOn_of_mem (he : '/' ∈ e) : ∃ base bits rest, e.splitOn '/' = base :: bits :: rest := by
  obtain ⟨base, after, rfl, hbase⟩ := List.eq_append_cons_of_mem he
  obtain ⟨bits, rest, hafter⟩ := List.exists_cons_of_ne_nil (List.splitOn_ne_nil '/' after)
  exact ⟨base, bits, rest, by rw [List.splitOn_append_cons_self_of_not_mem hbase, hafter]⟩

theorem Ranges.rest_eq {base bits : List Char} {rest rest' : List (List Char)}
    (he : e.splitOn '/' = base :: bits :: rest)
    (h : Ranges e rest' address) : rest' = rest := by
  cases address with
  | v6 ip => exact h.elim
  | v4 ip =>
      obtain ⟨base', bits', b, len, hsplit, -⟩ := h
      rw [he, List.cons.injEq, List.cons.injEq] at hsplit
      exact hsplit.2.2.symm

/-- What an entry of a valid list lets in. -/
theorem entryMatches_iff (hvalid : isValidEntry e = true) (h : Canonical ip.toList address) :
    entryMatches ip.toList e = true ↔ e = ip.toList ∨ ∃ rest, Ranges e rest address := by
  by_cases he : '/' ∈ e
  · have htext : e ≠ ip.toList := fun heq => h.spells.slash (heq ▸ he)
    obtain ⟨base, bits, rest, hsplit⟩ := splitOn_of_mem he
    rw [entryMatches_range hsplit hvalid h]
    constructor
    · exact fun hr => Or.inr ⟨rest, hr⟩
    · rintro (heq | ⟨rest', hr⟩)
      · exact absurd heq htext
      · rwa [Ranges.rest_eq hsplit hr] at hr
  · rw [entryMatches_text he]
    constructor
    · exact Or.inl
    · rintro (heq | ⟨rest, hr⟩)
      · exact heq
      · exact absurd hr (no_range he rest)

theorem ipAllowed_iff (hvalid : isValidIpList list = true) (h : Canonical ip.toList address) :
    ipAllowed ip (some list) = true ↔ Listed list ip address ∨ Overlong list address := by
  rw [isValidIpList, Bool.and_eq_true, decide_eq_true_eq, List.all_eq_true] at hvalid
  have hlist : list ≠ "" := by
    rintro rfl
    exact hvalid.1 (by decide)
  rw [ipAllowed, Option.getD_some, if_neg hlist, List.any_eq_true]
  constructor
  · rintro ⟨e, he, hmatch⟩
    rcases (entryMatches_iff (hvalid.2 e he) h).1 hmatch with heq | ⟨rest, hr⟩
    · exact Or.inl (Or.inl (heq ▸ he))
    · cases rest with
      | nil => exact Or.inl (Or.inr ⟨e, he, hr⟩)
      | cons p rest => exact Or.inr ⟨e, he, p, rest, hr⟩
  · have hsome : (∃ e ∈ entries list, e = ip.toList ∨ ∃ rest, Ranges e rest address) →
        ∃ e ∈ entries list, entryMatches ip.toList e = true := by
      rintro ⟨e, he, hmatch⟩
      exact ⟨e, he, (entryMatches_iff (hvalid.2 e he) h).2 hmatch⟩
    rintro ((hmem | ⟨e, he, hr⟩) | ⟨e, he, p, rest, hr⟩)
    · exact hsome ⟨_, hmem, Or.inl rfl⟩
    · exact hsome ⟨e, he, Or.inr ⟨[], hr⟩⟩
    · exact hsome ⟨e, he, Or.inr ⟨p :: rest, hr⟩⟩

theorem denotes_iff (h : Canonical ip.toList address) :
    (∃ e ∈ entries list, Denotes e address) ↔ Listed list ip address ∨ Respelled list ip address := by
  constructor
  · rintro ⟨e, he, hspells | hr⟩
    · by_cases heq : e = ip.toList
      · exact Or.inl (Or.inl (heq ▸ he))
      · exact Or.inr ⟨e, he, hspells, heq⟩
    · exact Or.inl (Or.inr ⟨e, he, hr⟩)
  · rintro ((hmem | ⟨e, he, hr⟩) | ⟨e, he, hspells, -⟩)
    · exact ⟨_, hmem, Or.inl h.spells⟩
    · exact ⟨e, he, Or.inr hr⟩
    · exact ⟨e, he, Or.inl hspells⟩

end Entries

/-- The allowlist is exact for an address that stands in it or in a range, and for one that no other spelling and no overlong range names. -/
theorem ipAllowed_denotes_iff (list ip : String) (address : Address) (hvalid : isValidIpList list = true)
    (h : Canonical ip.toList address) :
    ((ipAllowed ip (some list) = true ↔ ∃ e ∈ entries list, Denotes e address) ↔
      Listed list ip address ∨ (Respelled list ip address ↔ Overlong list address)) := by
  rw [ipAllowed_iff hvalid h, denotes_iff h]
  tauto

theorem ipAllowed_denotes_range :
    ipAllowed "10.200.1.1" (some "203.0.113.5, 10.0.0.0/8") = true ↔
      ∃ e ∈ entries "203.0.113.5, 10.0.0.0/8", Denotes e (.v4 ⟨10, 200, 1, 1⟩) := by
  have hip : Canonical "10.200.1.1".toList (.v4 ⟨10, 200, 1, 1⟩) := by
    rw [show "10.200.1.1".toList = IPv4.text ⟨10, 200, 1, 1⟩ by decide +kernel]
    exact .v4 _
  have hbase : IPv4.Spells ⟨10, 0, 0, 0⟩ "10.0.0.0".toList := by
    rw [show "10.0.0.0".toList = IPv4.text ⟨10, 0, 0, 0⟩ by decide +kernel]
    exact IPv4.text_spells _
  have hrange : Ranges "10.0.0.0/8".toList [] (.v4 ⟨10, 200, 1, 1⟩) := by
    refine ⟨"10.0.0.0".toList, "8".toList, ⟨10, 0, 0, 0⟩, 8, by decide +kernel, hbase,
      isDigits_iff.1 (by decide), by decide, ?_⟩
    exact inRange_iff.2 (by decide +kernel)
  exact (ipAllowed_denotes_iff "203.0.113.5, 10.0.0.0/8" "10.200.1.1" (.v4 ⟨10, 200, 1, 1⟩) (by decide +kernel) hip).2
    (Or.inl (Or.inr ⟨"10.0.0.0/8".toList, by decide +kernel, hrange⟩))

/-- The address is listed in capitals, and its owner is locked out. -/
theorem capitals_locked_out :
    ¬ ∀ (list ip : String) (address : Address), isValidIpList list = true → Canonical ip.toList address →
      (ipAllowed ip (some list) = true ↔ ∃ e ∈ entries list, Denotes e address) := by
  intro hclaim
  have hip : Canonical "2001:db8::1".toList (.v6 ⟨[0x2001, 0xdb8, 0, 0, 0, 0, 0, 1], rfl⟩) := by
    rw [show "2001:db8::1".toList = IPv6.text [0x2001, 0xdb8, 0, 0, 0, 0, 0, 1] [] by decide +kernel]
    exact .v6 ⟨_, rfl⟩
  have hleft : IPv6.Pieces false ["2001".toList, "DB8".toList] [0x2001, 0xdb8] := by
    refine .group ⟨[2, 0, 0, 1], by decide, by decide, ?_, by decide⟩
      (.group ⟨[13, 11, 8], by decide, by decide, ?_, by decide⟩ .nil)
    · simp [DigitOf]
    · simp [DigitOf]
      decide
  have hright : IPv6.Pieces true ["1".toList] [1] := by
    refine .group ⟨[1], by decide, by decide, ?_, by decide⟩ .nil
    simp [DigitOf]
  have hspells := IPv6.Spells.compressed hleft hright (by decide)
  have hallowed := (hclaim "2001:DB8::1" "2001:db8::1" _ (by decide +kernel) hip).2
    ⟨"2001:DB8::1".toList, by decide +kernel, Or.inl hspells⟩
  revert hallowed
  decide +kernel

end Yeah.Accounts
