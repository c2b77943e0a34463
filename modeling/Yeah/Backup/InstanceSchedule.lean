import Yeah.Sorting

namespace Yeah.Backup.Instance

/-! Times are milliseconds since 1970. -/

def utcDay (t : Int) : Int := t / 86400000

def utcHours (t : Int) : Int := t / 3600000 % 24

def utcMinutes (t : Int) : Int := t / 60000 % 60

def utcSeconds (t : Int) : Int := t / 1000 % 60

def yearStart (y : Nat) : Nat := 365 * y + (y + 3) / 4 + (y + 399) / 400 - (y + 99) / 100

def isLeap (y : Nat) : Bool := y % 4 = 0 && (y % 100 ≠ 0 || y % 400 = 0)

/-- The mean length of a year gives the year up to one. -/
def yearOf (day : Nat) : Nat :=
  let y := day * 400 / 146097
  if yearStart (y + 1) ≤ day then y + 1 else if day < yearStart y then y - 1 else y

def monthLengths (y : Nat) : List Nat :=
  [31, if isLeap y then 29 else 28, 31, 30, 31, 30, 31, 31, 30, 31, 30, 31]

/-- The month (from 1) and the day of the month (from 1) of a day of the year (from 0). -/
def monthOf (month : Nat) : List Nat → Nat → Nat × Nat
  | [], day => (month, day + 1)
  | n :: ns, day => if day < n then (month, day + 1) else monthOf (month + 1) ns (day - n)

/-- `getUTCFullYear`, `getUTCMonth() + 1` and `getUTCDate`, from year 0 on. -/
def utcDate (t : Int) : Nat × Nat × Nat :=
  let day := (utcDay t + 719528).toNat
  (yearOf day, monthOf 1 (monthLengths (yearOf day)) (day - yearStart (yearOf day)))

def INSTANCE_BACKUP_PREFIX : String := "yeah-instance/"

def INSTANCE_BACKUP_MAX_RETENTION : Int := 90

def MIN_GAP_MS : Int := 20 * 60 * 60 * 1000

structure InstanceBackupSchedule where
  enabled : Bool
  storageId : Option String
  hourUtc : Int
  lastAt : Option Int

def isInstanceBackupDue (now : Int) (s : InstanceBackupSchedule) (force : Bool) : Bool :=
  if s.storageId = none then false
  else if force then true
  else if !s.enabled then false
  else if utcHours now ≠ s.hourUtc then false
  else match s.lastAt with
    | none => true
    | some lastAt => MIN_GAP_MS ≤ now - lastAt

def validateInstanceBackupSettings (hourUtc retention : Int) : Option String :=
  if hourUtc < 0 ∨ 23 < hourUtc then some "the hour must be a whole number from 0 to 23"
  else if retention < 1 ∨ INSTANCE_BACKUP_MAX_RETENTION < retention then
    some s!"keep between 1 and {INSTANCE_BACKUP_MAX_RETENTION} backups"
  else none

def pad (n : Nat) : String := if n < 10 then "0" ++ n.repr else n.repr

def instanceBackupKey (at' : Int) : String :=
  let (year, month, date) := utcDate at'
  let d := year.repr ++ pad month ++ pad date
  let t := pad (utcHours at').toNat ++ pad (utcMinutes at').toNat ++ pad (utcSeconds at').toNat
  INSTANCE_BACKUP_PREFIX ++ "yeah-" ++ d ++ "-" ++ t ++ ".sql.gz"

/-- `/^yeah-instance\/yeah-\d{8}-\d{6}\.sql\.gz$/` -/
def KEY_PATTERN : List (Char → Bool) :=
  "yeah-instance/yeah-".toList.map BEq.beq ++ List.replicate 8 Char.isDigit ++ [('-' == ·)] ++
    List.replicate 6 Char.isDigit ++ ".sql.gz".toList.map BEq.beq

def fits : List (Char → Bool) → List Char → Bool
  | [], [] => true
  | p :: ps, c :: cs => p c && fits ps cs
  | _, _ => false

def isOurs (key : String) : Bool := fits KEY_PATTERN key.toList

def instanceBackupsToDelete (keys : List String) (keep : Int) : List String :=
  let ours := (Sorting.sort compare (keys.filter isOurs)).reverse
  ours.drop (max 0 keep).toNat

/-- A backup puts off every further one in the same hour. -/
theorem not_due_within_hour {s : InstanceBackupSchedule} {at' now : Int} (hlast : s.lastAt = some at')
    (hhour : now / 3600000 = at' / 3600000) : isInstanceBackupDue now s false = false := by
  have hgap : ¬ MIN_GAP_MS ≤ now - at' := by
    rw [MIN_GAP_MS]
    omega
  simp [isInstanceBackupDue, hlast, hgap]

end Yeah.Backup.Instance
