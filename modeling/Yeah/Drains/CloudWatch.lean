import Yeah.Deploy.Redact
import Yeah.Sorting
import Mathlib.Order.Lattice

namespace Yeah.Drains

open Deploy Sorting

structure LogLine where
  message : Units
  timestamp : Int
  deriving DecidableEq

structure LogEvent where
  timestamp : Int
  message : Units
  deriving DecidableEq

/-- The message cut, and never empty. -/
def event (l : LogLine) : LogEvent :=
  ⟨l.timestamp, if l.message.take 200000 = [] then utf16 " " else l.message.take 200000⟩

/-- The turns of `for (let i = 0; i < events.length; i += batchSize)`. -/
def turns (n batchSize : Nat) : Nat := (n + batchSize - 1) / batchSize

def slices {α : Type} (events : List α) (batchSize : Nat) : List (List α) :=
  (List.range (turns events.length batchSize)).map fun k => (events.drop (k * batchSize)).take batchSize

def buildCloudWatchBatches (lines : List LogLine) (batchSize : Nat) : List (List LogEvent) :=
  slices (sortOn LogEvent.timestamp (lines.map event)) batchSize

def cloudWatchBatches (lines : List LogLine) : List (List LogEvent) := buildCloudWatchBatches lines 1000

def isHigh (u : UInt16) : Bool := 0xD800 ≤ u && u < 0xDC00

def isLow (u : UInt16) : Bool := 0xDC00 ≤ u && u < 0xE000

def unitBytes (u : UInt16) : Nat := if u < 0x80 then 1 else if u < 0x800 then 2 else 3

/-- The bytes of a text in UTF-8; half a surrogate pair takes three, as what it is replaced by does. -/
def utf8Bytes : Units → Nat
  | [] => 0
  | [u] => unitBytes u
  | u :: v :: rest => if isHigh u && isLow v then 4 + utf8Bytes rest else unitBytes u + utf8Bytes (v :: rest)

/-- What CloudWatch counts for some events. -/
def batchBytes (events : List LogEvent) : Nat := (events.map fun e => utf8Bytes e.message + 26).sum

def MAX_EVENTS : Nat := 10000

def MAX_BYTES : Nat := 1048576

/-- The batches are the lines in the order of time, and CloudWatch takes each of them. -/
def Delivered (lines : List LogLine) (batches : List (List LogEvent)) : Prop :=
  StableSort LogEvent.timestamp (lines.map event) batches.flatten ∧
    ∀ b ∈ batches, b ≠ [] ∧ b.length ≤ MAX_EVENTS ∧ batchBytes b ≤ MAX_BYTES

/-- In the order of time, no thousand lines from a multiple of a thousand on are more than CloudWatch takes. -/
def Light (lines : List LogLine) : Prop :=
  ∀ s, StableSort LogEvent.timestamp (lines.map event) s →
    ∀ k, batchBytes ((s.drop (k * 1000)).take 1000) ≤ MAX_BYTES

section Slices

variable {α : Type} {l b : List α} {batchSize k : Nat}

theorem flatten_map_slices (l : List α) (batchSize n : Nat) :
    ((List.range n).map fun k => (l.drop (k * batchSize)).take batchSize).flatten = l.take (n * batchSize) := by
  induction n with
  | zero => simp
  | succ n ih =>
      rw [List.range_succ, List.map_append, List.flatten_append, ih, List.map_singleton, List.flatten_singleton,
        Nat.succ_mul, List.take_add]

theorem le_turns_mul {n : Nat} (h : 0 < batchSize) : n ≤ turns n batchSize * batchSize := by
  have hdiv := Nat.lt_div_mul_add (a := n + batchSize - 1) h
  unfold turns
  omega

theorem lt_turns_iff {n : Nat} (h : 0 < batchSize) : k < turns n batchSize ↔ k * batchSize < n := by
  rw [turns, Nat.lt_iff_add_one_le, Nat.le_div_iff_mul_le h, Nat.add_mul]
  omega

theorem flatten_slices (h : 0 < batchSize) : (slices l batchSize).flatten = l := by
  rw [slices, flatten_map_slices, List.take_of_length_le (le_turns_mul h)]

theorem mem_slices (h : 0 < batchSize) : b ∈ slices l batchSize ↔
    ∃ k, k * batchSize < l.length ∧ (l.drop (k * batchSize)).take batchSize = b := by
  simp only [slices, List.mem_map, List.mem_range, lt_turns_iff h]

theorem slices_size (h : 0 < batchSize) (hb : b ∈ slices l batchSize) :
    b ≠ [] ∧ b.length ≤ batchSize := by
  obtain ⟨k, hk, rfl⟩ := (mem_slices h).1 hb
  constructor
  · apply List.ne_nil_of_length_pos
    rw [List.length_take, List.length_drop]
    omega
  · rw [List.length_take]
    exact Nat.min_le_left _ _

end Slices

section Bytes

variable {lines : List LogLine}

theorem stableSort_batches :
    StableSort LogEvent.timestamp (lines.map event) (cloudWatchBatches lines).flatten := by
  have hflatten : (cloudWatchBatches lines).flatten = sortOn LogEvent.timestamp (lines.map event) :=
    flatten_slices (by decide)
  rw [hflatten]
  exact stableSort_sortOn _ _

theorem delivered_iff : Delivered lines (cloudWatchBatches lines) ↔ Light lines := by
  have hsort := stableSort_sortOn LogEvent.timestamp (lines.map event)
  have hpos : 0 < 1000 := by decide
  constructor
  · rintro ⟨-, hfits⟩ s hs k
    obtain rfl : s = sortOn LogEvent.timestamp (lines.map event) := hs.unique hsort
    by_cases hk : k * 1000 < (sortOn LogEvent.timestamp (lines.map event)).length
    · exact (hfits _ ((mem_slices hpos).2 ⟨k, hk, rfl⟩)).2.2
    · rw [List.drop_eq_nil_of_le (by omega)]
      decide
  · intro hlight
    refine ⟨stableSort_batches, fun b hb => ?_⟩
    obtain ⟨hne, hlength⟩ := slices_size hpos hb
    obtain ⟨k, -, rfl⟩ := (mem_slices hpos).1 hb
    exact ⟨hne, by unfold MAX_EVENTS; omega, hlight _ hsort k⟩

theorem isHigh_of_ascii {u : UInt16} (h : u < 0x80) : isHigh u = false := by
  have hlt : ¬ 0xD800 ≤ u := by
    rw [UInt16.le_iff_toNat_le]
    rw [UInt16.lt_iff_toNat_lt] at h
    simp at h ⊢
    omega
  simp [isHigh, hlt]

theorem utf8Bytes_cons_ascii {u : UInt16} (h : u < 0x80) (t : Units) :
    utf8Bytes (u :: t) = 1 + utf8Bytes t := by
  cases t with
  | nil => simp [utf8Bytes, unitBytes, h]
  | cons v t => simp [utf8Bytes, unitBytes, h, isHigh_of_ascii h]

theorem utf8Bytes_replicate (n : Nat) : utf8Bytes (List.replicate n star) = n := by
  induction n with
  | zero => rfl
  | succ n ih =>
      rw [List.replicate_succ, utf8Bytes_cons_ascii (by decide), ih]
      omega

theorem batchBytes_le {b : List LogEvent} {n : Nat} (h : ∀ e ∈ b, utf8Bytes e.message ≤ n) :
    batchBytes b ≤ b.length * (n + 26) := by
  induction b with
  | nil => exact Nat.zero_le _
  | cons e b ih =>
      have hrest := ih fun e' he' => h e' (List.mem_cons_of_mem _ he')
      have he := h e List.mem_cons_self
      rw [batchBytes] at hrest ⊢
      rw [List.map_cons, List.sum_cons, List.length_cons, Nat.succ_mul]
      omega

/-- Messages of at most 1022 bytes are never too much. -/
theorem light_of_short (h : ∀ l ∈ lines, utf8Bytes (event l).message ≤ 1022) : Light lines := by
  intro s hs k
  have hmem : ∀ e ∈ (s.drop (k * 1000)).take 1000, utf8Bytes e.message ≤ 1022 := by
    intro e he
    obtain ⟨l, hl, rfl⟩ :=
      List.mem_map.1 (hs.perm.mem_iff.1 (List.mem_of_mem_drop (List.mem_of_mem_take he)))
    exact h l hl
  have hlength : ((s.drop (k * 1000)).take 1000).length ≤ 1000 := by
    rw [List.length_take]
    exact Nat.min_le_left _ _
  have hbytes := batchBytes_le hmem
  unfold MAX_BYTES
  omega

end Bytes

/-- The batches keep every line, in the order of time, and are small in number; CloudWatch takes each of them exactly
if no thousand lines that go together are too heavy. Lines of at most 1022 bytes never are. -/
theorem cloudWatchBatches_iff (lines : List LogLine) :
    StableSort LogEvent.timestamp (lines.map event) (cloudWatchBatches lines).flatten ∧
      (∀ b ∈ cloudWatchBatches lines, b ≠ [] ∧ b.length ≤ MAX_EVENTS) ∧
      (Delivered lines (cloudWatchBatches lines) ↔ Light lines) ∧
      ((∀ l ∈ lines, utf8Bytes (event l).message ≤ 1022) → Delivered lines (cloudWatchBatches lines)) := by
  refine ⟨stableSort_batches, fun b hb => ?_, delivered_iff, fun h => delivered_iff.2 (light_of_short h)⟩
  obtain ⟨hne, hlength⟩ := slices_size (by decide) hb
  exact ⟨hne, by unfold MAX_EVENTS; omega⟩

theorem cloudWatchBatches_short :
    Delivered [⟨utf16 "b", 2⟩, ⟨[], 1⟩] (cloudWatchBatches [⟨utf16 "b", 2⟩, ⟨[], 1⟩]) :=
  (cloudWatchBatches_iff [⟨utf16 "b", 2⟩, ⟨[], 1⟩]).2.2.2 (by decide)

theorem not_light_of_long {m : Units} (hlength : m.length = 200000) (hbytes : utf8Bytes m = 200000) :
    ¬ Light (List.replicate 6 ⟨m, 0⟩) := by
  have hevent : event ⟨m, 0⟩ = ⟨0, m⟩ := by
    have hne : m ≠ [] := List.ne_nil_of_length_pos (by omega)
    simp only [event, List.take_of_length_le (Nat.le_of_eq hlength), hne, if_false]
  intro hlight
  rw [Light, List.map_replicate, hevent] at hlight
  have hsorted : StableSort LogEvent.timestamp (List.replicate 6 ⟨0, m⟩) (List.replicate 6 ⟨0, m⟩) :=
    ⟨List.Perm.refl _, List.pairwise_replicate.2 (Or.inr (Int.le_refl _)), fun _ => rfl⟩
  have hbatch := hlight _ hsorted 0
  rw [Nat.zero_mul, List.drop_zero, List.take_of_length_le (by rw [List.length_replicate]; decide), batchBytes,
    List.map_replicate, hbytes] at hbatch
  exact absurd hbatch (by decide)

theorem heavy_batch : ¬ Delivered (List.replicate 6 ⟨List.replicate 200000 star, 0⟩)
    (cloudWatchBatches (List.replicate 6 ⟨List.replicate 200000 star, 0⟩)) := by
  rw [delivered_iff]
  exact not_light_of_long List.length_replicate (utf8Bytes_replicate 200000)

end Yeah.Drains
