import Yeah.Backup.InstanceSchedule

namespace Yeah.Backup.Instance

/-- A tick, or a backup that is asked for. -/
structure Trigger where
  time : Int
  force : Bool
  deriving DecidableEq

/-- The settings that a run leaves alone. -/
structure Plan where
  storageId : String
  hourUtc : Int
  retention : Int
  valid : validateInstanceBackupSettings hourUtc retention = none

variable (p : Plan)

def isDue (lastAt : Option Int) (e : Trigger) : Bool :=
  isInstanceBackupDue e.time ⟨true, some p.storageId, p.hourUtc, lastAt⟩ e.force

/-- The triggers that start a backup, each of which succeeds and sets the last time. -/
def backups : Option Int → List Trigger → List Trigger
  | _, [] => []
  | lastAt, e :: es => if isDue p lastAt e then e :: backups (some e.time) es else backups lastAt es

def TICK_MS : Int := 15 * 60 * 1000

def Ordered (es : List Trigger) : Prop := es.Pairwise fun d e => d.time ≤ e.time

def Ticking (es : List Trigger) : Prop :=
  ∀ before e after, es = before ++ e :: after → before ≠ [] → ∃ d ∈ before, d.force = false ∧
    e.time ≤ d.time + TICK_MS

variable {p} {lastAt : Option Int} {a b e : Trigger} {es : List Trigger}

theorem hour_bounds (p : Plan) : 0 ≤ p.hourUtc ∧ p.hourUtc ≤ 23 := by
  have h := p.valid
  rw [validateInstanceBackupSettings] at h
  split_ifs at h with hhour
  omega

theorem isDue_force (h : e.force = true) : isDue p lastAt e = true := by
  simp [isDue, isInstanceBackupDue, h]

/-- A tick is due at its hour when the last backup is far enough away. -/
theorem isDue_tick_iff (h : e.force = false) :
    isDue p lastAt e = true ↔ utcHours e.time = p.hourUtc ∧
      ∀ last, lastAt = some last → MIN_GAP_MS ≤ e.time - last := by
  cases lastAt <;> simp [isDue, isInstanceBackupDue, h]

theorem backups_eq_cons {bs : List Trigger} (h : backups p lastAt es = b :: bs) :
    ∃ mid rest, es = mid ++ b :: rest ∧ (∀ e ∈ mid, isDue p lastAt e = false) ∧ isDue p lastAt b = true ∧
      backups p (some b.time) rest = bs := by
  induction es with
  | nil => cases h
  | cons e es ih =>
      rw [backups] at h
      split_ifs at h with hdue
      · obtain ⟨rfl, hrest⟩ := List.cons.inj h
        exact ⟨[], es, rfl, by simp, hdue, hrest⟩
      · obtain ⟨mid, rest, rfl, hmid, hb, hrest⟩ := ih h
        refine ⟨e :: mid, rest, rfl, List.forall_mem_cons.2 ⟨by simpa using hdue, hmid⟩, hb, hrest⟩

theorem backups_eq_append {xs ys : List Trigger} (h : backups p lastAt es = xs ++ a :: b :: ys) :
    ∃ before mid rest, es = before ++ a :: (mid ++ b :: rest) ∧
      (∀ e ∈ mid, isDue p (some a.time) e = false) ∧
      isDue p (some a.time) b = true := by
  induction xs generalizing lastAt es with
  | nil =>
      obtain ⟨before, rest, rfl, -, -, hrest⟩ := backups_eq_cons h
      obtain ⟨mid, rest, rfl, hmid, hb, -⟩ := backups_eq_cons hrest
      exact ⟨before, mid, rest, rfl, hmid, hb⟩
  | cons x xs ih =>
      obtain ⟨before, rest, rfl, -, -, hrest⟩ := backups_eq_cons h
      obtain ⟨before', mid, rest, rfl, hmid, hb⟩ := ih hrest
      exact ⟨before ++ x :: before', mid, rest, by simp, hmid, hb⟩

/-- The backup hour comes within a day. -/
theorem exists_window (hour t : Int) (h : 0 ≤ hour) (h' : hour ≤ 23) :
    ∃ w, t ≤ w ∧ w < t + 86400000 ∧ ∀ u, w ≤ u → u < w + 3600000 → utcHours u = hour := by
  refine ⟨t + (hour * 3600000 - t) % 86400000, by omega, by omega, fun u hu hu' => ?_⟩
  rw [utcHours]
  omega

theorem exists_first {w : Int} (h : ∃ e ∈ es, w ≤ e.time) :
    ∃ before e after, es = before ++ e :: after ∧ w ≤ e.time ∧ ∀ d ∈ before, d.time < w := by
  induction es with
  | nil => simp at h
  | cons e es ih =>
      by_cases he : w ≤ e.time
      · exact ⟨[], e, es, rfl, he, by simp⟩
      · obtain ⟨d, hd, hw⟩ := h
        have hmem : d ∈ es := (List.mem_cons.1 hd).resolve_left (by rintro rfl; exact he hw)
        obtain ⟨before, d, after, rfl, hd, hbefore⟩ := ih ⟨d, hmem, hw⟩
        exact ⟨e :: before, d, after, rfl, hd, List.forall_mem_cons.2 ⟨by omega, hbefore⟩⟩

theorem exists_soon {before mid rest : List Trigger} {w : Int} (hordered : Ordered es)
    (hticking : Ticking es)
    (hes : es = before ++ a :: (mid ++ b :: rest)) (ha : a.time < w) (hb : w ≤ b.time) :
    ∃ e ∈ mid ++ [b], w ≤ e.time ∧ e.time < w + TICK_MS := by
  have hsome : ∃ e ∈ mid ++ [b], w ≤ e.time := ⟨b, by simp, hb⟩
  obtain ⟨soon, e, after, hsplit, he, hsoon⟩ := exists_first hsome
  have hwhole : es = (before ++ a :: soon) ++ e :: (after ++ rest) := by
    have hmid : mid ++ b :: rest = soon ++ e :: (after ++ rest) := by
      rw [← List.singleton_append, ← List.append_assoc, hsplit, List.append_assoc, List.cons_append]
    rw [hes, hmid, List.append_assoc, List.cons_append]
  obtain ⟨d, hd, -, htick⟩ := hticking _ e _ hwhole (by simp)
  have hearly : d.time < w := by
    rcases List.mem_append.1 hd with hd | hd
    · rw [Ordered, hes, List.pairwise_append] at hordered
      exact Int.lt_of_le_of_lt (hordered.2.2 d hd a List.mem_cons_self) ha
    · rcases List.mem_cons.1 hd with rfl | hd
      · exact ha
      · exact hsoon d hd
  exact ⟨e, hsplit ▸ by simp, he, by omega⟩

theorem gap_lt {before mid rest : List Trigger} (hordered : Ordered es) (hticking : Ticking es)
    (hes : es = before ++ a :: (mid ++ b :: rest)) (hmid : ∀ e ∈ mid, isDue p (some a.time) e = false) :
    b.time - a.time < 48 * 60 * 60 * 1000 := by
  by_contra hfar
  obtain ⟨hlow, hhigh⟩ := hour_bounds p
  obtain ⟨w, hw, hw', hhour⟩ := exists_window p.hourUtc (a.time + MIN_GAP_MS) hlow hhigh
  rw [MIN_GAP_MS] at hw hw'
  obtain ⟨e, hmem, he, hsoon⟩ := exists_soon (w := w) hordered hticking hes (by omega) (by omega)
  rw [TICK_MS] at hsoon
  have hin : e ∈ mid := by
    rcases List.mem_append.1 hmem with hin | hin
    · exact hin
    · rw [List.mem_singleton.1 hin] at hsoon
      omega
  have hnot := hmid e hin
  cases hforce : e.force with
  | true =>
      rw [isDue_force hforce] at hnot
      cases hnot
  | false =>
      have hdue : isDue p (some a.time) e = true := by
        rw [isDue_tick_iff hforce]
        refine ⟨hhour e.time he (by omega), fun last hlast => ?_⟩
        obtain rfl := Option.some.inj hlast
        rw [MIN_GAP_MS]
        omega
      rw [hdue] at hnot
      cases hnot

theorem gap_ge {last : Int} (h : isDue p (some last) b = true) (hb : b.force = false) :
    20 * 60 * 60 * 1000 ≤ b.time - last :=
  ((isDue_tick_iff hb).1 h).2 last rfl

/-- Over any run of ticks and backups that are asked for: less than 48 hours between two backups, and a scheduled one at least 20
hours after the one before it, within the run or before. -/
theorem backups_gaps (p : Plan) (lastAt : Option Int) (es : List Trigger) (hordered : Ordered es)
    (hticking : Ticking es) :
    (∀ xs ys a b, backups p lastAt es = xs ++ a :: b :: ys →
      b.time - a.time < 48 * 60 * 60 * 1000 ∧ (b.force = false → 20 * 60 * 60 * 1000 ≤ b.time - a.time)) ∧
    ∀ b bs last, backups p lastAt es = b :: bs → lastAt = some last → b.force = false →
      20 * 60 * 60 * 1000 ≤ b.time - last := by
  constructor
  · intro xs ys a b h
    obtain ⟨before, mid, rest, hes, hmid, hb⟩ := backups_eq_append h
    exact ⟨gap_lt hordered hticking hes hmid, gap_ge hb⟩
  · rintro b bs last h rfl hb
    obtain ⟨mid, rest, -, -, hdue, -⟩ := backups_eq_cons h
    exact gap_ge hdue hb

/-- A tick at three o'clock, and a backup that is asked for ten minutes later. -/
theorem backups_gaps_manual :
    let p : Plan := ⟨"s3", 3, 7, by decide⟩
    let es : List Trigger := [⟨10800000, false⟩, ⟨11400000, true⟩]
    backups p none es = es ∧ (11400000 : Int) - 10800000 < 48 * 60 * 60 * 1000 := by
  intro p es
  have hes : backups p none es = [] ++ ⟨10800000, false⟩ :: ⟨11400000, true⟩ :: [] := by decide
  refine ⟨hes, ?_⟩
  refine ((backups_gaps p none es (by simp [es, Ordered]) ?_).1 [] [] ⟨10800000, false⟩ ⟨11400000, true⟩ hes).1
  intro before e after h hne
  rcases before with _ | ⟨d, _ | ⟨d', before⟩⟩
  · exact absurd rfl hne
  · obtain ⟨rfl, hrest⟩ := List.cons.inj h
    obtain ⟨rfl, -⟩ := List.cons.inj hrest
    exact ⟨_, List.mem_cons_self, rfl, by decide⟩
  · obtain ⟨-, hrest⟩ := List.cons.inj h
    obtain ⟨-, hrest⟩ := List.cons.inj hrest
    simp at hrest

end Yeah.Backup.Instance
