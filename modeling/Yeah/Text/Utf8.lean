import Mathlib.Data.List.Basic
import Mathlib.Tactic.SplitIfs

namespace Yeah.Utf8

/-- What is put in the place of bytes that make no character. -/
def replacement : Char := Char.ofNat 0xFFFD

/-- Where a decoder stands: between characters, or `k + 1` bytes before the end of one of which `acc` is read.
Only bytes from `lo` to `hi` go on with it, which are continuation bytes. -/
inductive Decoder where
  | start
  | need (k lo hi acc : Nat) (hlo : 0x80 ≤ lo) (hhi : hi ≤ 0xBF)

/-- A first byte: what it gives, and where the decoder stands after it. -/
def begins (b : Nat) : List Char × Decoder :=
  if b < 0x80 then ([Char.ofNat b], .start)
  else if 0xC2 ≤ b ∧ b ≤ 0xDF then ([], .need 0 0x80 0xBF (b - 0xC0) (by decide) (by decide))
  else if 0xE0 ≤ b ∧ b ≤ 0xEF then
    ([], .need 1 (if b = 0xE0 then 0xA0 else 0x80) (if b = 0xED then 0x9F else 0xBF) (b - 0xE0)
      (by split <;> decide) (by split <;> decide))
  else if 0xF0 ≤ b ∧ b ≤ 0xF4 then
    ([], .need 2 (if b = 0xF0 then 0x90 else 0x80) (if b = 0xF4 then 0x8F else 0xBF) (b - 0xF0)
      (by split <;> decide) (by split <;> decide))
  else ([replacement], .start)

/-- A byte more of a character: the last one, or one before the last `k + 1`. -/
def continues : Nat → Nat → List Char × Decoder
  | 0, acc => ([Char.ofNat acc], .start)
  | k + 1, acc => ([], .need k 0x80 0xBF acc (by decide) (by decide))

/-- A byte that does not go on with a character ends it, and is a first byte itself. -/
def step : Decoder → Nat → List Char × Decoder
  | .start, b => begins b
  | .need k lo hi acc _ _, b =>
      if lo ≤ b ∧ b ≤ hi then continues k (acc * 64 + (b - 0x80))
      else (replacement :: (begins b).1, (begins b).2)

def finish : Decoder → List Char
  | .start => []
  | .need .. => [replacement]

def decodeFrom : Decoder → List UInt8 → List Char
  | s, [] => finish s
  | s, b :: bs => (step s b.toNat).1 ++ decodeFrom (step s b.toNat).2 bs

/-- The text of some bytes, as `toString` gives it. -/
def decode (bytes : List UInt8) : List Char := decodeFrom .start bytes

def encode (text : List Char) : List UInt8 := text.flatMap String.utf8EncodeChar

def isContinuation (b : UInt8) : Bool := 0x80 ≤ b.toNat && b.toNat ≤ 0xBF

def StartsOnCharacter (bytes : List UInt8) : Prop := ∀ b ∈ bytes.head?, isContinuation b = false

def starts (bytes : List UInt8) : Nat := bytes.countP fun b => !isContinuation b

section Boundary

variable {x y : List UInt8} {b : UInt8}

theorem step_of_first (h : isContinuation b = false) (s : Decoder) :
    step s b.toNat = (finish s ++ (begins b.toNat).1, (begins b.toNat).2) := by
  cases s with
  | start => rfl
  | need k lo hi acc hlo hhi =>
      have hout : ¬ (lo ≤ b.toNat ∧ b.toNat ≤ hi) := by
        simp only [isContinuation, Bool.and_eq_false_iff, decide_eq_false_iff_not] at h
        omega
      rw [step, if_neg hout]
      rfl

theorem decodeFrom_append (s : Decoder) (x : List UInt8) (hy : StartsOnCharacter y) :
    decodeFrom s (x ++ y) = decodeFrom s x ++ decode y := by
  induction x generalizing s with
  | nil =>
      cases y with
      | nil => rw [List.append_nil]; exact (List.append_nil _).symm
      | cons b y =>
          have hb : isContinuation b = false := hy b rfl
          change (step s b.toNat).1 ++ decodeFrom (step s b.toNat).2 y = finish s ++ decode (b :: y)
          rw [step_of_first hb]
          exact List.append_assoc _ _ _
  | cons b x ih => rw [List.cons_append, decodeFrom, decodeFrom, ih, List.append_assoc]

theorem startsOnCharacter_flatten {chunks : List (List UInt8)} (h : ∀ c ∈ chunks, StartsOnCharacter c) :
    StartsOnCharacter chunks.flatten := by
  induction chunks with
  | nil => exact fun b hb => by cases hb
  | cons c chunks ih =>
      intro b hb
      rw [List.flatten_cons] at hb
      cases c with
      | nil => exact ih (fun d hd => h d (List.mem_cons_of_mem _ hd)) b hb
      | cons a c => exact h _ List.mem_cons_self b hb

/-- Pieces cut between characters are decoded as the whole. -/
theorem decode_flatten {chunks : List (List UInt8)} (h : ∀ c ∈ chunks, StartsOnCharacter c) :
    decode chunks.flatten = chunks.flatMap decode := by
  induction chunks with
  | nil => rfl
  | cons c chunks ih =>
      have hrest : ∀ d ∈ chunks, StartsOnCharacter d := fun d hd => h d (List.mem_cons_of_mem _ hd)
      rw [List.flatten_cons, List.flatMap_cons, ← ih hrest]
      exact decodeFrom_append _ _ (startsOnCharacter_flatten hrest)

end Boundary

section Count

variable {b : UInt8} {x : List UInt8}

theorem begins_length (n : Nat) : (begins n).1.length + (finish (begins n).2).length = 1 := by
  unfold begins
  split_ifs <;> rfl

theorem step_length (s : Decoder) (b : UInt8) :
    (finish s).length + (if isContinuation b then 0 else 1) ≤
      (step s b.toNat).1.length + (finish (step s b.toNat).2).length := by
  have hbegins := begins_length b.toNat
  by_cases hb : isContinuation b = true
  · rw [if_pos hb]
    cases s with
    | start => exact Nat.zero_le _
    | need k lo hi acc hlo hhi =>
        rw [step]
        split
        · cases k with
          | zero => exact Nat.le_refl 1
          | succ k => exact Nat.le_refl 1
        · simp only [finish, List.length_cons, List.length_nil]
          omega
  · rw [if_neg hb, step_of_first (by simpa using hb), List.length_append]
    dsimp only
    omega

theorem starts_le (s : Decoder) (x : List UInt8) :
    starts x + (finish s).length ≤ (decodeFrom s x).length := by
  induction x generalizing s with
  | nil => exact Nat.le_of_eq (Nat.zero_add _)
  | cons b x ih =>
      have hstep := step_length s b
      have hrest := ih (step s b.toNat).2
      rw [decodeFrom, List.length_append]
      unfold starts at hrest ⊢
      rw [List.countP_cons]
      cases hb : isContinuation b <;> simp [hb] at hstep ⊢ <;> omega

/-- A continuation byte with no character before it gives a character that no first byte stands for. -/
theorem starts_lt (h : ¬ StartsOnCharacter x) : starts x < (decode x).length := by
  cases x with
  | nil => exact absurd (fun b hb => by cases hb) h
  | cons b x =>
      have hb : isContinuation b = true := by
        by_contra hn
        exact h fun c hc => by cases hc; simpa using hn
      have hbegins : begins b.toNat = ([replacement], .start) := by
        simp only [isContinuation, Bool.and_eq_true, decide_eq_true_eq] at hb
        rw [begins, if_neg (by omega), if_neg (by omega), if_neg (by omega), if_neg (by omega)]
      have hrest := starts_le .start x
      rw [decode, decodeFrom, step, hbegins, List.length_append]
      unfold starts at hrest ⊢
      rw [List.countP_cons, hb]
      simp only [Bool.not_true, Bool.false_eq_true, if_false, List.length_singleton]
      omega

theorem starts_flatten_le (chunks : List (List UInt8)) :
    starts chunks.flatten ≤ (chunks.flatMap decode).length := by
  induction chunks with
  | nil => exact Nat.le_refl _
  | cons c chunks ih =>
      have hc := starts_le .start c
      rw [List.flatten_cons, List.flatMap_cons, List.length_append]
      unfold starts at hc ih ⊢
      rw [List.countP_append]
      unfold decode at ih ⊢
      omega

theorem starts_flatten_lt {chunks : List (List UInt8)} {c : List UInt8} (hc : c ∈ chunks)
    (h : ¬ StartsOnCharacter c) : starts chunks.flatten < (chunks.flatMap decode).length := by
  obtain ⟨before, after, rfl⟩ := List.append_of_mem hc
  have hbefore := starts_flatten_le before
  have hafter := starts_flatten_le after
  have hlt := starts_lt h
  rw [List.flatten_append, List.flatten_cons, List.flatMap_append, List.flatMap_cons, List.length_append,
    List.length_append]
  unfold starts at hbefore hafter hlt ⊢
  rw [List.countP_append, List.countP_append]
  omega

end Count

section Encode

variable {n : Nat} {c : Char} {t : List UInt8}

theorem toNat_byte (h : n < 256) : (UInt8.ofNat n).toNat = n := by
  rw [UInt8.toNat_ofNat']
  exact Nat.mod_eq_of_lt h

theorem decodeFrom_byte (s : Decoder) (h : n < 256) :
    decodeFrom s (UInt8.ofNat n :: t) = (step s n).1 ++ decodeFrom (step s n).2 t := by
  rw [decodeFrom, toNat_byte h]

/-- The last `k + 1` bytes of a character, of which all but the first may be any continuation bytes. -/
theorem decodeFrom_last {lo hi acc : Nat} {hlo : 0x80 ≤ lo} {hhi : hi ≤ 0xBF} (h : lo ≤ n) (h' : n ≤ hi) :
    decodeFrom (.need 0 lo hi acc hlo hhi) (UInt8.ofNat n :: t) =
      Char.ofNat (acc * 64 + (n - 0x80)) :: decode t := by
  rw [decodeFrom_byte _ (by omega), step, if_pos ⟨h, h'⟩]
  rfl

theorem decodeFrom_next {k lo hi acc : Nat} {hlo : 0x80 ≤ lo} {hhi : hi ≤ 0xBF} (h : lo ≤ n)
    (h' : n ≤ hi) :
    decodeFrom (.need (k + 1) lo hi acc hlo hhi) (UInt8.ofNat n :: t) =
      decodeFrom (.need k 0x80 0xBF (acc * 64 + (n - 0x80)) (by decide) (by decide)) t := by
  rw [decodeFrom_byte _ (by omega), step, if_pos ⟨h, h'⟩]
  rfl

theorem decode_byte (h : n < 256) :
    decode (UInt8.ofNat n :: t) = (begins n).1 ++ decodeFrom (begins n).2 t :=
  decodeFrom_byte .start h

theorem decode_char (c : Char) (t : List UInt8) :
    decode (String.utf8EncodeChar c ++ t) = c :: decode t := by
  have hvalid : c.toNat < 0xD800 ∨ 0xDFFF < c.toNat ∧ c.toNat < 0x110000 := c.valid
  have hval : c.val.toNat = c.toNat := rfl
  have hchar : ∀ m, m = c.toNat → Char.ofNat m = c := by
    rintro m rfl
    exact Char.ofNat_toNat c
  unfold String.utf8EncodeChar
  simp only [hval]
  split_ifs with h1 h2 h3
  · rw [List.cons_append, decode_byte (by omega), begins, if_pos (by omega), hchar _ rfl]
    rfl
  · rw [List.cons_append, decode_byte (by omega), begins, if_neg (by omega), if_pos (by omega)]
    rw [List.cons_append, decodeFrom_last (by omega) (by omega), hchar _ (by omega)]
    rfl
  · rw [List.cons_append, decode_byte (by omega), begins, if_neg (by omega), if_neg (by omega),
      if_pos (by omega)]
    rw [List.cons_append, decodeFrom_next (by split <;> omega) (by split <;> omega)]
    rw [List.cons_append, decodeFrom_last (by omega) (by omega), hchar _ (by omega)]
    rfl
  · rw [List.cons_append, decode_byte (by omega), begins, if_neg (by omega), if_neg (by omega),
      if_neg (by omega), if_pos (by omega)]
    rw [List.cons_append, decodeFrom_next (by split <;> omega) (by split <;> omega)]
    rw [List.cons_append, decodeFrom_next (by omega) (by omega)]
    rw [List.cons_append, decodeFrom_last (by omega) (by omega), hchar _ (by omega)]
    rfl

theorem decode_encode (text : List Char) : decode (encode text) = text := by
  induction text with
  | nil => rfl
  | cons c text ih => rw [encode, List.flatMap_cons, decode_char, ← encode, ih]

theorem starts_first (h : n < 256) (hout : n < 0x80 ∨ 0xBF < n) :
    starts (UInt8.ofNat n :: t) = starts t + 1 := by
  refine List.countP_cons_of_pos ?_
  simp only [isContinuation, toNat_byte h, Bool.not_eq_true', Bool.and_eq_false_iff,
    decide_eq_false_iff_not]
  omega

theorem starts_next (h : n < 0x40) : starts (UInt8.ofNat (n + 0x80) :: t) = starts t := by
  refine List.countP_cons_of_neg ?_
  simp only [isContinuation, toNat_byte (show n + 0x80 < 256 by omega), Bool.not_eq_true', Bool.and_eq_false_iff,
    decide_eq_false_iff_not]
  omega

theorem starts_char (c : Char) : starts (String.utf8EncodeChar c) = 1 := by
  have hvalid : c.toNat < 0xD800 ∨ 0xDFFF < c.toNat ∧ c.toNat < 0x110000 := c.valid
  have hval : c.val.toNat = c.toNat := rfl
  have hmod : ∀ m, m % 0x40 < 0x40 := fun m => Nat.mod_lt _ (by decide)
  unfold String.utf8EncodeChar
  simp only [hval]
  split_ifs with h1 h2 h3
  · rw [starts_first (by omega) (by omega)]
    rfl
  · rw [starts_first (by omega) (by omega), starts_next (hmod _)]
    rfl
  · rw [starts_first (by omega) (by omega), starts_next (hmod _), starts_next (hmod _)]
    rfl
  · rw [starts_first (by omega) (by omega), starts_next (hmod _), starts_next (hmod _),
      starts_next (hmod _)]
    rfl

theorem starts_encode (text : List Char) : starts (encode text) = text.length := by
  induction text with
  | nil => rfl
  | cons c text ih =>
      have hc := starts_char c
      rw [encode, List.flatMap_cons, ← encode, List.length_cons]
      unfold starts at hc ih ⊢
      rw [List.countP_append]
      omega

/-- Pieces of a text are decoded as the whole exactly if they are cut between characters. -/
theorem flatMap_decode_iff {chunks : List (List UInt8)} {text : List Char}
    (h : chunks.flatten = encode text) :
    chunks.flatMap decode = decode chunks.flatten ↔ ∀ c ∈ chunks, StartsOnCharacter c := by
  constructor
  · intro heq c hc
    by_contra hsplit
    have hlt := starts_flatten_lt hc hsplit
    rw [heq, h, decode_encode, starts_encode] at hlt
    exact Nat.lt_irrefl _ hlt
  · exact fun hc => (decode_flatten hc).symm

end Encode

end Yeah.Utf8
