import Yeah.Digits
import Yeah.Backup.InstanceSchedule
import Mathlib.Data.List.Nodup
import Mathlib.Data.String.Basic

namespace Yeah.Backup.Instance

open Digits

/-! ### Dates -/

section Dates

variable {y m n day : Nat} {ns : List Nat}

/-- A year starts within two days of its mean place. -/
theorem yearStart_bounds (y : Nat) :
    146097 * y ≤ 400 * yearStart y + 396 ∧ 400 * yearStart y ≤ 146097 * y + 699 := by
  rw [yearStart]
  omega

theorem yearOf_spec (n : Nat) : yearStart (yearOf n) ≤ n ∧ n < yearStart (yearOf n + 1) := by
  rw [yearOf]
  generalize hy : n * 400 / 146097 = y
  have hprevious := yearStart_bounds (y - 1)
  have hnext := yearStart_bounds (y + 1 + 1)
  have hzero : yearStart 0 = 0 := rfl
  split_ifs with hafter hbefore
  · exact ⟨hafter, by omega⟩
  · have hpos : 0 < y := by
      rcases Nat.eq_zero_or_pos y with rfl | hpos
      · omega
      · exact hpos
    rw [Nat.sub_add_cancel hpos]
    exact ⟨by omega, hbefore⟩
  · omega

theorem yearStart_mono (h : m ≤ n) : yearStart m ≤ yearStart n := by
  have hm := yearStart_bounds m
  have hn := yearStart_bounds n
  rcases Nat.lt_or_eq_of_le h with hlt | rfl
  · omega
  · exact Nat.le_refl _

theorem yearOf_mono (h : m ≤ n) : yearOf m ≤ yearOf n := by
  by_contra hlt
  have hm := (yearOf_spec m).1
  have hn := (yearOf_spec n).2
  have hmono : yearStart (yearOf n + 1) ≤ yearStart (yearOf m) := yearStart_mono (by omega)
  omega

theorem yearStart_succ (y : Nat) : yearStart (y + 1) = yearStart y + (monthLengths y).sum := by
  have hfour : (y + 1 + 3) / 4 = (y + 3) / 4 + if y % 4 = 0 then 1 else 0 := by split_ifs <;> omega
  have hcentury : (y + 1 + 99) / 100 = (y + 99) / 100 + if y % 100 = 0 then 1 else 0 := by split_ifs <;> omega
  have hcycle : (y + 1 + 399) / 400 = (y + 399) / 400 + if y % 400 = 0 then 1 else 0 := by split_ifs <;> omega
  have hsum : (monthLengths y).sum = 365 + if isLeap y then 1 else 0 := by
    cases h : isLeap y <;> simp [monthLengths, h]
  have hleap : (if isLeap y then 1 else 0) + (if y % 100 = 0 then 1 else 0) =
      (if y % 4 = 0 then 1 else 0) + if y % 400 = 0 then 1 else 0 := by
    simp only [isLeap, Bool.or_eq_true, Bool.and_eq_true, decide_eq_true_eq, ne_eq]
    split_ifs <;> omega
  have hle : (y + 99) / 100 ≤ (y + 3) / 4 := by omega
  rw [yearStart, yearStart, hfour, hcentury, hcycle, hsum]
  omega

def monthDay (p : Nat × Nat) : Nat := p.1 * 100 + p.2

theorem monthOf_bounds (hlength : ∀ l ∈ ns, l ≤ 31) (h : day < ns.sum) :
    m ≤ (monthOf m ns day).1 ∧ (monthOf m ns day).1 < m + ns.length ∧ 1 ≤ (monthOf m ns day).2 ∧
      (monthOf m ns day).2 ≤ 31 := by
  induction ns generalizing m day with
  | nil => simp at h
  | cons l ns ih =>
      have hl := hlength l List.mem_cons_self
      rw [monthOf]
      rw [List.sum_cons] at h
      split_ifs with hlt
      · simp only [List.length_cons]
        omega
      · have hbelow : day - l < ns.sum := by omega
        have hrest := ih (m := m + 1) (fun l hl => hlength l (List.mem_cons_of_mem _ hl)) hbelow
        rw [List.length_cons]
        omega

theorem monthOf_lt (hlength : ∀ l ∈ ns, l ≤ 31) (h : day < n) (hn : n < ns.sum) :
    monthDay (monthOf m ns day) < monthDay (monthOf m ns n) := by
  induction ns generalizing m day n with
  | nil => simp at hn
  | cons l ns ih =>
      have hl := hlength l List.mem_cons_self
      have hrest : ∀ l ∈ ns, l ≤ 31 := fun l hl => hlength l (List.mem_cons_of_mem _ hl)
      rw [List.sum_cons] at hn
      rw [monthOf, monthOf]
      split_ifs with hday hn'
      · simp only [monthDay]
        omega
      · have hbelow : n - l < ns.sum := by omega
        have hlater := monthOf_bounds (m := m + 1) hrest hbelow
        simp only [monthDay]
        omega
      · omega
      · exact ih hrest (by omega) (by omega)

theorem monthLengths_le (y : Nat) : ∀ l ∈ monthLengths y, l ≤ 31 := by
  cases h : isLeap y <;> simp [monthLengths, h]

def dayNumber (t : Int) : Nat := (utcDay t + 719528).toNat

def dateNumber (t : Int) : Nat := (utcDate t).1 * 10000 + monthDay (utcDate t).2

def timeNumber (t : Int) : Nat :=
  (utcHours t).toNat * 10000 + (utcMinutes t).toNat * 100 + (utcSeconds t).toNat

theorem dayOfYear_lt (n : Nat) : n - yearStart (yearOf n) < (monthLengths (yearOf n)).sum := by
  have hn := yearOf_spec n
  have hnext := yearStart_succ (yearOf n)
  omega

theorem utcDate_bounds (t : Int) :
    1 ≤ (utcDate t).2.1 ∧ (utcDate t).2.1 ≤ 12 ∧ 1 ≤ (utcDate t).2.2 ∧ (utcDate t).2.2 ≤ 31 := by
  have h := monthOf_bounds (m := 1) (monthLengths_le (yearOf (dayNumber t))) (dayOfYear_lt (dayNumber t))
  have hlength : (monthLengths (yearOf (dayNumber t))).length = 12 := rfl
  rw [hlength] at h
  change 1 ≤ (utcDate t).2.1 ∧ (utcDate t).2.1 < 13 ∧ 1 ≤ (utcDate t).2.2 ∧ (utcDate t).2.2 ≤ 31 at h
  omega

theorem dateNumber_lt {s t : Int} (h : dayNumber s < dayNumber t) : dateNumber s < dateNumber t := by
  have hs := utcDate_bounds s
  have hyears : (utcDate s).1 ≤ (utcDate t).1 := yearOf_mono (Nat.le_of_lt h)
  rcases Nat.lt_or_eq_of_le hyears with hlt | heq
  · simp only [dateNumber, monthDay]
    omega
  · have hyear : yearOf (dayNumber s) = yearOf (dayNumber t) := heq
    have hstart := (yearOf_spec (dayNumber s)).1
    have hlt := dayOfYear_lt (dayNumber t)
    have hmonth : monthDay (utcDate s).2 < monthDay (utcDate t).2 := by
      change monthDay (monthOf 1 (monthLengths (yearOf (dayNumber s))) (dayNumber s - yearStart (yearOf (dayNumber s)))) <
        monthDay (monthOf 1 (monthLengths (yearOf (dayNumber t))) (dayNumber t - yearStart (yearOf (dayNumber t))))
      rw [hyear] at hstart ⊢
      exact monthOf_lt (monthLengths_le _) (by omega) hlt
    rw [dateNumber, dateNumber, heq]
    omega

end Dates

/-! ### Names -/

section Names

variable {ps qs : List (Char → Bool)} {p : Char → Bool} {cs : List Char} {n : Nat}

theorem fits_nil_iff : fits [] cs ↔ cs = [] := by cases cs <;> simp [fits]

theorem fits_cons_iff : fits (p :: ps) cs ↔ ∃ c rest, cs = c :: rest ∧ p c ∧ fits ps rest := by
  cases cs with
  | nil => simp [fits]
  | cons c rest => simp [fits]

theorem fits_append_iff :
    fits (ps ++ qs) cs ↔ ∃ front back, cs = front ++ back ∧ fits ps front ∧ fits qs back := by
  induction ps generalizing cs with
  | nil => simp [fits_nil_iff]
  | cons p ps ih =>
      rw [List.cons_append, fits_cons_iff]
      constructor
      · rintro ⟨c, rest, rfl, hc, hrest⟩
        obtain ⟨front, back, rfl, hfront, hback⟩ := ih.1 hrest
        exact ⟨c :: front, back, rfl, fits_cons_iff.2 ⟨c, front, rfl, hc, hfront⟩, hback⟩
      · rintro ⟨front, back, rfl, hfront, hback⟩
        obtain ⟨c, rest, rfl, hc, hrest⟩ := fits_cons_iff.1 hfront
        exact ⟨c, rest ++ back, rfl, hc, ih.2 ⟨rest, back, rfl, hrest, hback⟩⟩

theorem fits_literal_iff (l : List Char) : fits (l.map BEq.beq) cs ↔ cs = l := by
  induction l generalizing cs with
  | nil => exact fits_nil_iff
  | cons a l ih =>
      rw [List.map_cons, fits_cons_iff]
      constructor
      · rintro ⟨c, rest, rfl, hc, hrest⟩
        rw [ih.1 hrest, eq_of_beq hc]
      · rintro rfl
        exact ⟨a, l, rfl, BEq.rfl, ih.2 rfl⟩

theorem fits_replicate_iff : fits (List.replicate n p) cs ↔ cs.length = n ∧ ∀ c ∈ cs, p c := by
  induction n generalizing cs with
  | zero =>
      rw [List.replicate_zero, fits_nil_iff, List.length_eq_zero_iff]
      exact ⟨fun h => ⟨h, by simp [h]⟩, fun h => h.1⟩
  | succ n ih =>
      rw [List.replicate_succ, fits_cons_iff]
      constructor
      · rintro ⟨c, rest, rfl, hc, hrest⟩
        obtain ⟨hlength, hall⟩ := ih.1 hrest
        exact ⟨by rw [List.length_cons, hlength], List.forall_mem_cons.2 ⟨hc, hall⟩⟩
      · rintro ⟨hlength, hall⟩
        cases cs with
        | nil => simp at hlength
        | cons c rest =>
            obtain ⟨hc, hrest⟩ := List.forall_mem_cons.1 hall
            exact ⟨c, rest, rfl, hc, ih.2 ⟨by simpa using hlength, hrest⟩⟩

/-- The name of an instance backup: a day in eight digits and a time in six. -/
def Named (key : String) : Prop :=
  ∃ date time : List Char, key.toList = "yeah-instance/yeah-".toList ++ date ++ ['-'] ++ time ++
    ".sql.gz".toList ∧
    (date.length = 8 ∧ ∀ c ∈ date, c.isDigit) ∧ time.length = 6 ∧ ∀ c ∈ time, c.isDigit

theorem fits_name_iff {front back : List Char} :
    fits (front.map BEq.beq ++ List.replicate 8 Char.isDigit ++ [('-' == ·)] ++ List.replicate 6 Char.isDigit ++ back.map BEq.beq) cs ↔
      ∃ date time : List Char, cs = front ++ date ++ ['-'] ++ time ++ back ∧
        (date.length = 8 ∧ ∀ c ∈ date, c.isDigit) ∧ time.length = 6 ∧ ∀ c ∈ time, c.isDigit := by
  have hdash : [('-' == ·)] = ['-'].map BEq.beq := rfl
  rw [hdash, fits_append_iff]
  simp only [fits_append_iff, fits_literal_iff, fits_replicate_iff]
  constructor
  · rintro ⟨_, _, hkey, ⟨_, time, rfl, ⟨_, _, rfl, ⟨_, date, rfl, rfl, hdate⟩, rfl⟩, htime⟩, rfl⟩
    exact ⟨date, time, hkey, hdate, htime⟩
  · rintro ⟨date, time, hkey, hdate, htime⟩
    exact ⟨_, _, hkey, ⟨_, time, rfl, ⟨_, _, rfl, ⟨_, date, rfl, rfl, hdate⟩, rfl⟩, htime⟩, rfl⟩

theorem isOurs_iff {key : String} : isOurs key ↔ Named key := fits_name_iff

end Names

/-! ### Keys -/

section Keys

variable {s t : Int}

def FourDigits (t : Int) : Prop := 1000 ≤ (utcDate t).1 ∧ (utcDate t).1 ≤ 9999

theorem pad_toList {n : Nat} (h : n < 100) : (pad n).toList = (digits 10 2 n).map Nat.digitChar :=
  (by decide : ∀ n : Fin 100, (pad n.val).toList = (digits 10 2 n.val).map Nat.digitChar) ⟨n, h⟩

theorem repr_toList {n : Nat} (h : 1000 ≤ n) (h' : n ≤ 9999) :
    n.repr.toList = (digits 10 4 n).map Nat.digitChar := by
  rw [Nat.toList_repr, Nat.toDigits_of_base_le (by decide) (by omega), Nat.toDigits_of_base_le (by decide) (by omega),
    Nat.toDigits_of_base_le (by decide) (by omega), Nat.toDigits_of_lt_base (by omega)]
  have hfirst : n / 10 / 10 / 10 % 10 = n / 10 / 10 / 10 := Nat.mod_eq_of_lt (by omega)
  simp [digits, hfirst]

theorem dateNumber_lt_pow (h : FourDigits t) : dateNumber t < 10 ^ 8 := by
  have hdate := utcDate_bounds t
  have hyear := h.2
  simp only [dateNumber, monthDay]
  omega

theorem seconds_eq (t : Int) :
    t / 1000 = 86400 * utcDay t + 3600 * utcHours t + 60 * utcMinutes t + utcSeconds t := by
  rw [utcDay, utcHours, utcMinutes, utcSeconds]
  have hminutes : t / 60000 = t / 1000 / 60 := by omega
  have hhours : t / 3600000 = t / 1000 / 60 / 60 := by omega
  have hdays : t / 86400000 = t / 1000 / 60 / 60 / 24 := by omega
  rw [hminutes, hhours, hdays]
  omega

theorem time_bounds (t : Int) :
    (utcHours t).toNat < 24 ∧ (utcMinutes t).toNat < 60 ∧ (utcSeconds t).toNat < 60 := by
  rw [utcHours, utcMinutes, utcSeconds]
  omega

theorem timeNumber_lt_pow (t : Int) : timeNumber t < 10 ^ 6 := by
  have h := time_bounds t
  rw [timeNumber]
  omega

theorem instanceBackupKey_toList (h : FourDigits t) :
    (instanceBackupKey t).toList = "yeah-instance/yeah-".toList ++
        (digits 10 8 (dateNumber t)).map Nat.digitChar ++ ['-'] ++
      (digits 10 6 (timeNumber t)).map Nat.digitChar ++ ".sql.gz".toList := by
  obtain ⟨hmonth, hmonth', hday, hday'⟩ := utcDate_bounds t
  obtain ⟨hhour, hminute, hsecond⟩ := time_bounds t
  have hmd : digits 10 4 (monthDay (utcDate t).2) = digits 10 2 (utcDate t).2.1 ++
    digits 10 2 (utcDate t).2.2 :=
    digits_append (j := 2) (k := 2) (by decide) (by omega)
  have hdate : digits 10 8 (dateNumber t) = digits 10 4 (utcDate t).1 ++
    digits 10 4 (monthDay (utcDate t).2) :=
    digits_append (j := 4) (k := 4) (by decide) (by rw [monthDay]; omega)
  have hms : digits 10 4 ((utcMinutes t).toNat * 100 + (utcSeconds t).toNat) =
      digits 10 2 (utcMinutes t).toNat ++ digits 10 2 (utcSeconds t).toNat :=
    digits_append (j := 2) (k := 2) (by decide) (by omega)
  have htime : digits 10 6 (timeNumber t) =
      digits 10 2 (utcHours t).toNat ++
        digits 10 4 ((utcMinutes t).toNat * 100 + (utcSeconds t).toNat) := by
    rw [timeNumber, Nat.add_assoc]
    exact digits_append (j := 2) (k := 4) (by decide) (by omega)
  rw [hdate, hmd, htime, hms]
  simp only [instanceBackupKey, INSTANCE_BACKUP_PREFIX, String.toList_append, repr_toList h.1 h.2, pad_toList (show (utcDate t).2.1 < 100 by omega),
    pad_toList (show (utcDate t).2.2 < 100 by omega), pad_toList (show (utcHours t).toNat < 100 by omega),
    pad_toList (show (utcMinutes t).toNat < 100 by omega), pad_toList (show (utcSeconds t).toNat < 100 by omega), List.map_append]
  simp

theorem digitChar_isDigit {d : Nat} (h : d < 10) : (Nat.digitChar d).isDigit :=
  (by decide : ∀ d : Fin 10, (Nat.digitChar d.val).isDigit) ⟨d, h⟩

theorem digitChar_lt (m n : Nat) (h : m < n) (hn : n < 10) : Nat.digitChar m < Nat.digitChar n :=
  (by decide : ∀ m n : Fin 10, m < n → Nat.digitChar m.val < Nat.digitChar n.val) ⟨m, Nat.lt_trans h hn⟩ ⟨n, hn⟩ h

theorem isDigit_of_mem {k n : Nat} {c : Char} (h : c ∈ (digits 10 k n).map Nat.digitChar) :
    c.isDigit := by
  obtain ⟨d, hd, rfl⟩ := List.mem_map.1 h
  exact digitChar_isDigit (lt_of_mem_digits (by decide) hd)

theorem named_instanceBackupKey (h : FourDigits t) : Named (instanceBackupKey t) :=
  ⟨_, _, instanceBackupKey_toList h, ⟨by simp, fun _ => isDigit_of_mem⟩, by simp, fun _ => isDigit_of_mem⟩

theorem digitChars_lt {k m n : Nat} (h : m < n) (hn : n < 10 ^ k) :
    (digits 10 k m).map Nat.digitChar < (digits 10 k n).map Nat.digitChar :=
  map_lt_map digitChar_lt (fun _ hd => lt_of_mem_digits (by decide) hd) (digits_lt h hn)

/-- The seconds of two times are in the order of their days, and on one day in that of the time. -/
theorem seconds_lt (h : s / 1000 < t / 1000) (hs : FourDigits s) :
    dayNumber s < dayNumber t ∨ dayNumber s = dayNumber t ∧ timeNumber s < timeNumber t := by
  have hpos : 0 < utcDay s + 719528 := by
    by_contra hn
    have hday : (utcDay s + 719528).toNat = 0 := by omega
    have hyear : (utcDate s).1 = 0 := by
      rw [utcDate, hday]
      rfl
    have := hs.1
    omega
  have hs := seconds_eq s
  have ht := seconds_eq t
  have hbounds (u : Int) : (0 ≤ utcHours u ∧ utcHours u < 24) ∧ (0 ≤ utcMinutes u ∧ utcMinutes u < 60) ∧
    0 ≤ utcSeconds u ∧ utcSeconds u < 60 := by
    rw [utcHours, utcMinutes, utcSeconds]
    omega
  have hboundss := hbounds s
  have hboundst := hbounds t
  rw [dayNumber, dayNumber, timeNumber, timeNumber]
  omega

theorem instanceBackupKey_lt (hs : FourDigits s) (ht : FourDigits t) (h : s / 1000 < t / 1000) :
    instanceBackupKey s < instanceBackupKey t := by
  rw [String.lt_iff, instanceBackupKey_toList hs, instanceBackupKey_toList ht]
  simp only [List.append_assoc]
  apply List.append_left_lt
  rcases seconds_lt h hs with hday | ⟨hday, htime⟩
  · exact append_lt_append (by simp) (digitChars_lt (dateNumber_lt hday) (dateNumber_lt_pow ht)) _ _
  · have hdate : dateNumber s = dateNumber t := by
      have hsame : utcDate s = utcDate t := by
        have hs' : (utcDay s + 719528).toNat = (utcDay t + 719528).toNat := hday
        rw [utcDate, utcDate, hs']
      rw [dateNumber, dateNumber, hsame]
    rw [hdate]
    apply List.append_left_lt
    apply List.append_left_lt
    exact append_lt_append (by simp) (digitChars_lt htime (timeNumber_lt_pow t)) _ _

theorem instanceBackupKey_congr (h : s / 1000 = t / 1000) :
    instanceBackupKey s = instanceBackupKey t := by
  have hday : utcDay s = utcDay t := by
    rw [utcDay, utcDay]
    omega
  have hhours : utcHours s = utcHours t := by
    rw [utcHours, utcHours]
    omega
  have hminutes : utcMinutes s = utcMinutes t := by
    rw [utcMinutes, utcMinutes]
    omega
  have hseconds : utcSeconds s = utcSeconds t := by
    rw [utcSeconds, utcSeconds, h]
  have hdate : utcDate s = utcDate t := by rw [utcDate, utcDate, hday]
  rw [instanceBackupKey, instanceBackupKey, hdate, hhours, hminutes, hseconds]

theorem instanceBackupKey_lt_iff (hs : FourDigits s) (ht : FourDigits t) :
    instanceBackupKey s < instanceBackupKey t ↔ s / 1000 < t / 1000 := by
  refine ⟨fun h => ?_, instanceBackupKey_lt hs ht⟩
  rcases Int.lt_trichotomy (s / 1000) (t / 1000) with hlt | heq | hgt
  · exact hlt
  · rw [instanceBackupKey_congr heq] at h
    exact absurd h (String.lt_irrefl _)
  · exact absurd h (String.lt_asymm (instanceBackupKey_lt ht hs hgt))

end Keys

/-! ### What is deleted -/

section Selection

variable {α : Type} [LinearOrder α] {l : List α} {a : α} {n : Nat}

theorem mem_drop_iff (h : l.Pairwise fun a b => b < a) :
    a ∈ l.drop n ↔ a ∈ l ∧ n ≤ (l.filter (a < ·)).length := by
  induction l generalizing n with
  | nil => simp
  | cons b l ih =>
      obtain ⟨hhead, htail⟩ := List.pairwise_cons.1 h
      cases n with
      | zero => simp
      | succ n =>
          rw [List.drop_succ_cons, ih htail, List.mem_cons]
          constructor
          · rintro ⟨hmem, hn⟩
            rw [List.filter_cons_of_pos (by simpa using hhead a hmem), List.length_cons]
            exact ⟨Or.inr hmem, Nat.succ_le_succ hn⟩
          · rintro ⟨rfl | hmem, hn⟩
            · have hnone : (a :: l).filter (a < ·) = [] := by
                rw [List.filter_eq_nil_iff, List.forall_mem_cons]
                refine ⟨by simp, fun c hc => ?_⟩
                simpa using Std.le_of_lt (hhead c hc)
              rw [hnone] at hn
              cases hn
            · rw [List.filter_cons_of_pos (by simpa using hhead a hmem), List.length_cons] at hn
              exact ⟨hmem, Nat.le_of_succ_le_succ hn⟩

theorem sort_pairwise_lt {l : List String} (h : l.Nodup) :
    (Sorting.sort compare l).reverse.Pairwise fun a b => b < a := by
  rw [List.pairwise_reverse]
  have hsorted : (Sorting.sort compare l).Pairwise fun a b => (compare a b).isLE :=
    Sorting.sort_pairwise l
  have hnodup : (Sorting.sort compare l).Nodup := (List.mergeSort_perm _ _).nodup_iff.2 h
  refine (hsorted.and hnodup).imp fun {a b} hab => ?_
  have hle : a ≤ b := compare_le_iff_le.1 (Ordering.isLE_iff_ne_gt.1 hab.1)
  exact lt_of_le_of_ne hle hab.2

theorem mem_instanceBackupsToDelete_iff {keys : List String} (h : (keys.filter isOurs).Nodup) {k : String}
    {keep : Int} :
    k ∈ instanceBackupsToDelete keys keep ↔
      k ∈ keys.filter isOurs ∧ keep ≤ ((keys.filter isOurs).filter (k < ·)).length := by
  have hperm : ((Sorting.sort compare (keys.filter isOurs)).reverse).Perm (keys.filter isOurs) :=
    (List.reverse_perm _).trans (List.mergeSort_perm _ _)
  rw [instanceBackupsToDelete, mem_drop_iff (sort_pairwise_lt h), hperm.mem_iff,
    (hperm.filter _).length_eq]
  refine and_congr_right fun _ => ?_
  omega

end Selection

variable {dates : List Int} {foreign listing : List String} {keep : Int} {t : Int}

theorem filter_isOurs_perm (hdates : ∀ t ∈ dates, FourDigits t) (hforeign : ∀ k ∈ foreign, ¬ Named k)
    (hlisting : listing.Perm (dates.map instanceBackupKey ++ foreign)) :
    (listing.filter isOurs).Perm (dates.map instanceBackupKey) := by
  have hkeys : (dates.map instanceBackupKey).filter isOurs = dates.map instanceBackupKey := by
    rw [List.filter_eq_self, List.forall_mem_map]
    exact fun t ht => isOurs_iff.2 (named_instanceBackupKey (hdates t ht))
  have hnone : foreign.filter isOurs = [] := by
    rw [List.filter_eq_nil_iff]
    exact fun k hk h => hforeign k hk (isOurs_iff.1 h)
  have h := hlisting.filter isOurs
  rwa [List.filter_append, hkeys, hnone, List.append_nil] at h

theorem nodup_keys (hdates : ∀ t ∈ dates, FourDigits t) (hnodup : (dates.map (· / 1000)).Nodup) :
    (dates.map instanceBackupKey).Nodup := by
  rw [List.Nodup, List.pairwise_map] at hnodup ⊢
  refine hnodup.imp_of_mem fun {s t} hs ht hne hkey => ?_
  have hs' := hdates s hs
  have ht' := hdates t ht
  rcases lt_or_gt_of_ne hne with hlt | hgt
  · exact absurd hkey (ne_of_lt (instanceBackupKey_lt hs' ht' hlt))
  · exact absurd hkey (ne_of_gt (instanceBackupKey_lt ht' hs' hgt))

theorem newer_length (hdates : ∀ t ∈ dates, FourDigits t) (ht : FourDigits t) :
    ((dates.map instanceBackupKey).filter (instanceBackupKey t < ·)).length = (dates.filter fun u => t / 1000 < u / 1000).length := by
  have hfilter : dates.filter ((fun k => decide (instanceBackupKey t < k)) ∘ instanceBackupKey) =
      dates.filter fun u => decide (t / 1000 < u / 1000) := by
    refine List.filter_congr fun u hu => ?_
    rw [Function.comp_apply, decide_eq_decide]
    exact instanceBackupKey_lt_iff ht (hdates u hu)
  rw [List.filter_map, List.length_map, hfilter]

end Yeah.Backup.Instance
