import Yeah.Digits
import Yeah.Text.Replace
import Mathlib.Data.List.Forall2

namespace Yeah.Accounts

open Digits

/-! ### Numerals -/

def DigitOf (b : Nat) (c : Char) (d : Nat) : Prop :=
  d < b ∧ (c = Nat.digitChar d ∨ c = (Nat.digitChar d).toUpper)

/-- At most `k` digits in base `b`, leading zeros allowed. -/
def Numeral (b k : Nat) (t : List Char) (n : Nat) : Prop :=
  ∃ ds, 0 < ds.length ∧ ds.length ≤ k ∧ t.Forall₂ (DigitOf b) ds ∧ number b ds = n

def numeral (b k n : Nat) : List Char := (shortDigits b k n).map Nat.digitChar

/-! ### Addresses -/

structure IPv4 where
  a : Fin 256
  b : Fin 256
  c : Fin 256
  d : Fin 256

namespace IPv4

variable (ip : IPv4)

def octets : List Nat := [ip.a, ip.b, ip.c, ip.d]

def toNat : Nat := number 256 ip.octets

def groups : List (Fin 65536) := [⟨ip.a * 256 + ip.b, by omega⟩, ⟨ip.c * 256 + ip.d, by omega⟩]

def text : List Char := ['.'].intercalate (ip.octets.map (numeral 10 3))

/-- Four numbers with dots between. -/
def Spells (t : List Char) : Prop :=
  ∃ parts, t = ['.'].intercalate parts ∧ parts.Forall₂ (Numeral 10 3) ip.octets

end IPv4

structure IPv6 where
  groups : List (Fin 65536)
  eight : groups.length = 8

namespace IPv6

/-- Pieces between colons, and the groups that they give; the last one may be an IPv4 address. -/
inductive Pieces : Bool → List (List Char) → List (Fin 65536) → Prop
  | nil {quad : Bool} : Pieces quad [] []
  | group {quad : Bool} {p : List Char} {g : Fin 65536} {ps : List (List Char)} {gs : List (Fin 65536)}
      (hp : Numeral 16 4 p g) (hrest : Pieces quad ps gs) : Pieces quad (p :: ps) (g :: gs)
  | quad {p : List Char} {ip : IPv4} (hp : ip.Spells p) : Pieces true [p] ip.groups

/-- The text forms of an address, with zeros left out at one place or nowhere. -/
inductive Spells : List Char → List (Fin 65536) → Prop
  | full {ps : List (List Char)} {gs : List (Fin 65536)} (hps : Pieces true ps gs) (hlength : gs.length = 8) :
      Spells ([':'].intercalate ps) gs
  | compressed {ls rs : List (List Char)} {hs ts : List (Fin 65536)} (hls : Pieces false ls hs) (hrs : Pieces true rs ts)
      (hlength : hs.length + ts.length ≤ 7) :
      Spells ([':'].intercalate ls ++ "::".toList ++ [':'].intercalate rs) (hs ++ List.replicate (8 - (hs.length + ts.length)) 0 ++ ts)

def zeros (gs : List (Fin 65536)) : Nat := (gs.takeWhile (· = 0)).length

/-- Where the longest run of zeros begins, the first one of several. -/
def longest (gs : List (Fin 65536)) : Nat :=
  (List.range gs.length).foldl (fun best i => if zeros (gs.drop best) < zeros (gs.drop i) then i else best) 0

def groupText (g : Fin 65536) : List Char := numeral 16 4 g

def text (gs : List (Fin 65536)) (tail : List (List Char)) : List Char :=
  let i := longest gs
  let n := zeros (gs.drop i)
  if n < 2 then [':'].intercalate (gs.map groupText ++ tail)
  else [':'].intercalate ((gs.take i).map groupText) ++ "::".toList ++
    [':'].intercalate ((gs.drop (i + n)).map groupText ++ tail)

example : String.ofList (text [0x2001, 0xdb8, 0, 0, 1, 0, 0, 1] []) = "2001:db8::1:0:0:1" := by
  decide +kernel

end IPv6

inductive Address
  | v4 (ip : IPv4)
  | v6 (ip : IPv6)

def Spells (t : List Char) : Address → Prop
  | .v4 ip => ip.Spells t
  | .v6 ip => IPv6.Spells t ip.groups

/-- The canonical text. An IPv6 address may end in an embedded IPv4 address in dotted decimal. -/
inductive Canonical : List Char → Address → Prop
  | v4 (ip : IPv4) : Canonical ip.text (.v4 ip)
  | v6 (ip : IPv6) : Canonical (IPv6.text ip.groups []) (.v6 ip)
  | mixed (ip : IPv6) (embedded : IPv4) (h : ip.groups.drop 6 = embedded.groups) :
      Canonical (IPv6.text (ip.groups.take 6) [embedded.text]) (.v6 ip)

section Numerals

variable {b k n d : Nat} {c : Char} {t : List Char}

theorem numeral_spells (hb : 0 < b) (hk : 0 < k) (h : n < b ^ k) : Numeral b k (numeral b k n) n := by
  refine ⟨shortDigits b k n, (length_shortDigits hk).1, (length_shortDigits hk).2, ?_,
    number_shortDigits h⟩
  rw [numeral, List.forall₂_map_left_iff, List.forall₂_same]
  exact fun d hd => ⟨lt_of_mem_shortDigits hb hd, Or.inl rfl⟩

theorem related_of_mem {α β : Type} {R : α → β → Prop} {as : List α} {bs : List β} (h : as.Forall₂ R bs)
    {a : α} (ha : a ∈ as) :
    ∃ b, R a b := by
  induction h with
  | nil => cases ha
  | cons hab _ ih =>
      rcases List.mem_cons.1 ha with rfl | ha
      · exact ⟨_, hab⟩
      · exact ih ha

theorem Numeral.mem (h : Numeral b k t n) (hc : c ∈ t) : ∃ d, DigitOf b c d := by
  obtain ⟨ds, -, -, hds, -⟩ := h
  exact related_of_mem hds hc

theorem digitOf_ten_iff : DigitOf 10 c d ↔ c.isDigit = true ∧ d = c.toNat - 48 := by
  constructor
  · rintro ⟨hd, hc⟩
    have hall : ∀ d : Fin 10, (Nat.digitChar d.val).toUpper = Nat.digitChar d.val ∧
      (Nat.digitChar d.val).isDigit = true ∧
        d.val = (Nat.digitChar d.val).toNat - 48 := by decide
    obtain ⟨hupper, hdigit, hval⟩ := hall ⟨d, hd⟩
    have hc : c = Nat.digitChar d := hc.elim id fun h => h.trans hupper
    rw [hc]
    exact ⟨hdigit, hval⟩
  · rintro ⟨hc, rfl⟩
    rw [Char.isDigit, Bool.and_eq_true, decide_eq_true_eq, decide_eq_true_eq] at hc
    have hlow : 48 ≤ c.toNat := hc.1
    have hhigh : c.toNat ≤ 57 := hc.2
    refine ⟨by omega, Or.inl (Char.toNat_inj.1 ?_)⟩
    rw [Nat.toNat_digitChar_of_lt_ten (by omega)]
    omega

theorem Numeral.not_mem (h : Numeral b k t n) (hb : b ≤ 16) : '/' ∉ t ∧ ':' ∉ t ∧ '.' ∉ t := by
  have hall : ∀ d : Fin 16, ∀ c ∈ ['/', ':', '.'], c ≠ Nat.digitChar d.val ∧
    c ≠ (Nat.digitChar d.val).toUpper := by
    simp only [List.forall_mem_cons, List.not_mem_nil, false_imp_iff, implies_true, and_true]
    decide
  have hsign : ∀ c ∈ ['/', ':', '.'], c ∉ t := by
    intro c hsign hc
    obtain ⟨d, hd, hdigit⟩ := h.mem hc
    rcases hdigit with hdigit | hdigit
    · exact (hall ⟨d, by omega⟩ c hsign).1 hdigit
    · exact (hall ⟨d, by omega⟩ c hsign).2 hdigit
  exact ⟨hsign _ (by simp), hsign _ (by simp), hsign _ (by simp)⟩

theorem notMem_intercalate {c sep : Char} {ps : List (List Char)} (hsep : c ≠ sep) (h : ∀ p ∈ ps, c ∉ p) :
    c ∉ [sep].intercalate ps := by
  induction ps with
  | nil => exact List.not_mem_nil
  | cons p ps ih =>
      obtain ⟨hp, hps⟩ := List.forall_mem_cons.1 h
      cases ps with
      | nil => simpa using hp
      | cons q ps =>
          rw [List.intercalate_cons_cons, List.append_assoc, List.mem_append, List.mem_append,
            List.mem_singleton]
          rintro (hc | hc | hc)
          · exact hp hc
          · exact hsep hc
          · exact ih hps hc

end Numerals

section Texts

variable {quad : Bool} {ip : IPv4} {t : List Char} {ps tail : List (List Char)} {gs ts : List (Fin 65536)}

theorem IPv4.lt_of_mem_octets {o : Nat} (h : o ∈ ip.octets) : o < 256 := by
  simp only [IPv4.octets, List.mem_cons, List.not_mem_nil, or_false] at h
  omega

theorem IPv4.text_spells (ip : IPv4) : ip.Spells ip.text := by
  refine ⟨_, rfl, ?_⟩
  rw [List.forall₂_map_left_iff, List.forall₂_same]
  intro o ho
  have hlt := IPv4.lt_of_mem_octets ho
  exact numeral_spells (by decide) (by decide) (by omega)

theorem IPv4.Spells.parts (h : ip.Spells t) : (t.splitOn '.').Forall₂ (Numeral 10 3) ip.octets := by
  obtain ⟨parts, rfl, hparts⟩ := h
  have hdots : ∀ p ∈ parts, '.' ∉ p := by
    intro p hp
    obtain ⟨o, ho⟩ := related_of_mem hparts hp
    exact (ho.not_mem (by decide)).2.2
  rw [List.splitOn_intercalate _ hdots]
  · exact hparts
  · rintro rfl
    cases hparts

theorem IPv4.Spells.not_mem (h : ip.Spells t) : '/' ∉ t ∧ ':' ∉ t := by
  obtain ⟨parts, rfl, hparts⟩ := h
  have hsigns : ∀ p ∈ parts, '/' ∉ p ∧ ':' ∉ p := by
    intro p hp
    obtain ⟨o, ho⟩ := related_of_mem hparts hp
    exact ⟨(ho.not_mem (by decide)).1, (ho.not_mem (by decide)).2.1⟩
  exact ⟨notMem_intercalate (by decide) fun p hp => (hsigns p hp).1,
    notMem_intercalate (by decide) fun p hp => (hsigns p hp).2⟩

namespace IPv6

theorem Pieces.slash (h : Pieces quad ps gs) : ∀ p ∈ ps, '/' ∉ p := by
  induction h with
  | nil => simp
  | group hp _ ih => exact List.forall_mem_cons.2 ⟨(hp.not_mem (by decide)).1, ih⟩
  | quad hp => simpa using hp.not_mem.1

theorem Spells.slash (h : Spells t gs) : '/' ∉ t := by
  cases h with
  | full hps => exact notMem_intercalate (by decide) hps.slash
  | compressed hls hrs =>
      rw [List.mem_append, List.mem_append]
      rintro ((h | h) | h)
      · exact notMem_intercalate (by decide) hls.slash h
      · revert h
        decide
      · exact notMem_intercalate (by decide) hrs.slash h

theorem pieces_append (h : Pieces quad tail ts) (gs : List (Fin 65536)) :
    Pieces quad (gs.map groupText ++ tail) (gs ++ ts) := by
  induction gs with
  | nil => exact h
  | cons g gs ih => exact .group (numeral_spells (by decide) (by decide) g.isLt) ih

theorem zeros_append_drop (gs : List (Fin 65536)) :
    List.replicate (zeros gs) 0 ++ gs.drop (zeros gs) = gs := by
  induction gs with
  | nil => rfl
  | cons g gs ih =>
      by_cases hg : g = 0
      · have hzeros : zeros (g :: gs) = zeros gs + 1 := by simp [zeros, hg]
        rw [hzeros, List.replicate_succ, List.drop_succ_cons, List.cons_append, ih, hg]
      · have hzeros : zeros (g :: gs) = 0 := by simp [zeros, hg]
        rw [hzeros, List.replicate_zero, List.drop_zero, List.nil_append]

theorem text_spells (h : Pieces true tail ts) (hlength : gs.length + ts.length = 8) :
    Spells (text gs tail) (gs ++ ts) := by
  rw [text]
  generalize longest gs = i
  have hzeros := zeros_append_drop (gs.drop i)
  generalize zeros (gs.drop i) = n at hzeros ⊢
  rw [List.drop_drop] at hzeros
  split_ifs with hrun
  · exact .full (pieces_append h gs) (by rw [List.length_append, hlength])
  · have hgs := List.take_append_drop i gs
    rw [← hzeros] at hgs
    have hcount := congrArg List.length hgs
    simp only [List.length_append, List.length_replicate] at hcount
    have hspells := Spells.compressed (pieces_append .nil (gs.take i)) (pieces_append h (gs.drop (i + n)))
      (by simp only [List.length_append, List.length_nil]; omega)
    have hleft : 8 - ((gs.take i ++ []).length + (gs.drop (i + n) ++ ts).length) = n := by
      simp only [List.length_append, List.length_nil]
      omega
    have hall : gs.take i ++ List.replicate n 0 ++ (gs.drop (i + n) ++ ts) = gs ++ ts := by
      conv_rhs => rw [← hgs]
      simp only [List.append_assoc]
    rw [hleft, List.append_nil, List.append_nil, hall] at hspells
    exact hspells

theorem colon_mem_intercalate (p q : List Char) (ps : List (List Char)) :
    ':' ∈ [':'].intercalate (p :: q :: ps) := by
  rw [List.intercalate_cons_cons]
  simp

theorem colon_mem_text (hgs : 2 ≤ gs.length) (tail : List (List Char)) : ':' ∈ text gs tail := by
  rw [text]
  split_ifs
  · obtain ⟨g, g', gs, rfl⟩ : ∃ g g' gs', gs = g :: g' :: gs' := by
      cases gs with
      | nil => simp at hgs
      | cons g gs =>
          cases gs with
          | nil => simp at hgs
          | cons g' gs => exact ⟨g, g', gs, rfl⟩
    exact colon_mem_intercalate _ _ _
  · simp

end IPv6

theorem Canonical.spells {address : Address} (h : Canonical t address) : Spells t address := by
  cases h with
  | v4 ip => exact ip.text_spells
  | v6 ip =>
      have hlength : ip.groups.length + ([] : List (Fin 65536)).length = 8 := by
        rw [ip.eight, List.length_nil]
      have h := IPv6.text_spells .nil hlength
      rwa [List.append_nil] at h
  | mixed ip embedded hembedded =>
      have hlength : (ip.groups.take 6).length + embedded.groups.length = 8 := by
        rw [List.length_take, ip.eight]
        rfl
      have h := IPv6.text_spells (.quad embedded.text_spells) hlength
      rwa [← hembedded, List.take_append_drop] at h

theorem Spells.slash {address : Address} (h : Spells t address) : '/' ∉ t := by
  cases address with
  | v4 ip => exact IPv4.Spells.not_mem h |>.1
  | v6 ip => exact IPv6.Spells.slash h

theorem Canonical.colon {ip : IPv6} (h : Canonical t (.v6 ip)) : ':' ∈ t := by
  cases h with
  | v6 => exact IPv6.colon_mem_text (by rw [ip.eight]; decide) _
  | mixed => exact IPv6.colon_mem_text (by rw [List.length_take, ip.eight]; decide) _

end Texts

end Yeah.Accounts
