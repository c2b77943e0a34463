import Yeah.Backup.Executions
import Mathlib.Algebra.GroupWithZero.Nat
import Mathlib.Data.List.Nodup

namespace Yeah.Backup.Retention

open Executions

abbrev Files := Place → Bool

/-- What the worker and the API find, and how their calls go. -/
structure Calls where
  serverId : String
  storages : List String
  storageSelect : (storageId : String) → Option String
  objectDelete : (storageId key : String) → Option String
  /-- The connection or the removal fails: the file stays, and the call returns all the same. -/
  unlinkFails : (path : String) → Bool
  rowDelete : (id : String) → Option String

section Loop

/-- Deletes the files and the rows one after another, up to the first exception; with each row the files as they are when
it is deleted. -/
def deleteEach (removeFile : Execution → Files → Except String Files) (rowDelete : String → Option String) :
    List Execution → Files → List (Execution × Files) × Option String
  | [], _ => ([], none)
  | e :: es, files =>
      match removeFile e files, rowDelete e.id with
      | .error m, _ => ([], some m)
      | .ok _, some m => ([], some m)
      | .ok files, none =>
          let r := deleteEach removeFile rowDelete es files
          ((e, files) :: r.1, r.2)

end Loop

section Source

variable (calls : Calls)

def removeFile (e : Execution) (files : Files) : Except String Files :=
  match e.filePath, e.s3StorageId with
  | none, _ => .ok files
  | some path, none => .ok (if calls.unlinkFails path then files else Function.update files (.file calls.serverId path) false)
  | some path, some storage =>
      match calls.storageSelect storage with
      | some m => .error m
      | none =>
          if storage ∈ calls.storages then
            match calls.objectDelete storage path with
            | some m => .error m
            | none => .ok (Function.update files (.object storage path) false)
          else .ok files

/-- What the prune route does before it deletes the row: best effort. -/
def deleteBackupFile (e : Execution) (files : Files) : Except String Files :=
  match e.filePath, e.s3StorageId with
  | none, _ => .ok files
  | some path, none => .ok (if calls.unlinkFails path then files else Function.update files (.file calls.serverId path) false)
  | some path, some storage =>
      match calls.storageSelect storage with
      | some m => .error m
      | none =>
          if storage ∈ calls.storages ∧ calls.objectDelete storage path = none then .ok (Function.update files (.object storage path) false)
          else .ok files

def selected (schedule : Schedule) (now : Nat) (es : List Execution) : List Execution :=
  es.filter fun e => e.id ∈ toDelete schedule now es

/-- The successful executions of a schedule, in any order, go in. -/
def applyRetention (schedule : Schedule) (now : Nat) (rows : List Execution) (files : Files) :
    List (Execution × Files) × Option String :=
  deleteEach (removeFile calls) calls.rowDelete (selected schedule now (newestFirst rows)) files

def keepCount (schedule : Schedule) (keep : Option Nat) : Nat :=
  max 1 ((keep <|> schedule.autoSyncKeepCount).getD 1)

def candidates (schedule : Schedule) (keep : Option Nat) (es : List Execution) : List Execution :=
  (es.drop (keepCount schedule keep)).filter (·.synced)

def prune (schedule : Schedule) (keep : Option Nat) (rows : List Execution) (files : Files) :
    List (Execution × Files) × Option String :=
  deleteEach (deleteBackupFile calls) calls.rowDelete (candidates schedule keep (newestFirst rows)) files

end Source

/-! ### What the retention promises -/

def sizes (es : List Execution) : Nat := (es.map fun e => e.sizeBytes.getD 0).sum

def Old (schedule : Schedule) (now : Nat) (e : Execution) : Prop :=
  0 < schedule.retentionDays ∧ e.createdAt < now - schedule.retentionDays * 24 * 60 * 60 * 1000

/-- The `i`-th, counted from the newest, is outside of a limit: of the count, the age, or the size of it and all newer ones. -/
def Outside (schedule : Schedule) (now : Nat) (es : List Execution) (i : Nat) (e : Execution) : Prop :=
  (0 < schedule.retentionCount ∧ schedule.retentionCount ≤ i) ∨ Old schedule now e ∨
    (0 < schedule.retentionSizeGb ∧ schedule.retentionSizeGb * 1024 * 1024 * 1024 < sizes (es.take (i + 1)))

instance (schedule : Schedule) (now : Nat) (e : Execution) : Decidable (Old schedule now e) :=
  inferInstanceAs (Decidable (_ ∧ _))

instance (schedule : Schedule) (now : Nat) (es : List Execution) (i : Nat) (e : Execution) :
    Decidable (Outside schedule now es i e) :=
  inferInstanceAs (Decidable (_ ∨ _ ∨ _))

def due (schedule : Schedule) (now : Nat) (es : List Execution) : List Execution :=
  (es.zipIdx.filter fun q => 0 < q.2 ∧ Outside schedule now es q.2 q.1).map (·.1)

/-- Exactly the due rows are deleted (those before it, if a call throws), each after its file is gone. -/
structure Keeps (schedule : Schedule) (now : Nat) (es : List Execution) (stored : String → Option Place)
    (r : List (Execution × Files) × Option String) : Prop where
  exact : ∃ rest, due schedule now es = r.1.map (·.1) ++ rest ∧ (r.2 = none → rest = [])
  gone : ∀ d ∈ r.1, d.1.filePath = none ∨ ∀ p, stored d.1.id = some p → d.2 p = false

/-- Only what is beyond the newest ones that are kept, and confirmed by the browser. -/
def Prudent (schedule : Schedule) (keep : Option Nat) (es : List Execution)
    (r : List (Execution × Files) × Option String) : Prop :=
  ∀ d ∈ r.1, d.1.synced = true ∧ ∃ i, es[i]? = some d.1 ∧ keepCount schedule keep ≤ i

/-! ### What is selected -/

section Selected

variable {schedule : Schedule} {now : Nat} {es : List Execution} {i j : Nat} {e : Execution}

theorem index_of_id (hn : (es.map (·.id)).Nodup) {e' : Execution} (hi : es[i]? = some e)
    (hj : es[j]? = some e') (he : e'.id = e.id) :
    j = i := by
  have hlt : j < (es.map (·.id)).length := by
    obtain ⟨hlt, -⟩ := List.getElem?_eq_some_iff.1 hj
    simpa using hlt
  refine (List.getElem?_inj hlt hn).1 ?_
  rw [List.getElem?_map, List.getElem?_map, hi, hj, Option.map_some, Option.map_some, he]

theorem mem_overLimit (limit : Nat) (x : String) (c : Nat) :
    x ∈ overLimit limit c es ↔ ∃ j e, es[j]? = some e ∧ e.id = x ∧
      limit < c + sizes (es.take (j + 1)) := by
  induction es generalizing c with
  | nil => simp [overLimit]
  | cons e es ih =>
      have hhead : (∃ j e', (e :: es)[j]? = some e' ∧ e'.id = x ∧ limit < c + sizes ((e :: es).take (j + 1))) ↔
          (e.id = x ∧ limit < c + e.sizeBytes.getD 0) ∨
              x ∈ overLimit limit (c + e.sizeBytes.getD 0) es := by
        rw [ih]
        constructor
        · rintro ⟨j, e', hj, hid, hlim⟩
          cases j with
          | zero =>
              obtain rfl : e = e' := by simpa using hj
              exact Or.inl ⟨hid, by simpa [sizes] using hlim⟩
          | succ j => exact Or.inr ⟨j, e', by simpa using hj, hid, by simpa [sizes, Nat.add_assoc] using hlim⟩
        · rintro (⟨hid, hlim⟩ | ⟨j, e', hj, hid, hlim⟩)
          · exact ⟨0, e, rfl, hid, by simpa [sizes] using hlim⟩
          · exact ⟨j + 1, e', by simpa using hj, hid, by simpa [sizes, Nat.add_assoc] using hlim⟩
      rw [hhead, overLimit]
      split_ifs with h
      · rw [List.mem_cons, eq_comm]
        simp [h]
      · simp [h]

/-- The marks of the source are the limits, counted from the newest. -/
theorem mem_toDelete_iff (hn : (es.map (·.id)).Nodup) (hi : es[i]? = some e) :
    e.id ∈ toDelete schedule now es ↔ Outside schedule now es i e := by
  have hcount : e.id ∈ (es.drop schedule.retentionCount).map (·.id) ↔ schedule.retentionCount ≤ i := by
    constructor
    · intro h
      obtain ⟨e', he', hid⟩ := List.mem_map.1 h
      obtain ⟨k, hk⟩ := List.mem_iff_getElem?.1 he'
      rw [List.getElem?_drop] at hk
      have := index_of_id hn hi hk hid
      omega
    · intro h
      refine List.mem_map_of_mem (List.mem_iff_getElem?.2 ⟨i - schedule.retentionCount, ?_⟩)
      rw [List.getElem?_drop, Nat.add_sub_cancel' h, hi]
  have hold : e.id ∈ (es.filter fun e => e.createdAt < now - schedule.retentionDays * 24 * 60 * 60 * 1000).map (·.id) ↔
      e.createdAt < now - schedule.retentionDays * 24 * 60 * 60 * 1000 := by
    constructor
    · intro h
      obtain ⟨e', he', hid⟩ := List.mem_map.1 h
      obtain ⟨he', hold⟩ := List.mem_filter.1 he'
      obtain rfl : e' = e := List.inj_on_of_nodup_map hn he' (List.mem_of_getElem? hi) hid
      exact of_decide_eq_true hold
    · exact fun h => List.mem_map_of_mem (List.mem_filter.2 ⟨List.mem_of_getElem? hi, decide_eq_true h⟩)
  have hsize : e.id ∈ overLimit (schedule.retentionSizeGb * 1024 * 1024 * 1024) 0 es ↔
      schedule.retentionSizeGb * 1024 * 1024 * 1024 < sizes (es.take (i + 1)) := by
    rw [mem_overLimit]
    constructor
    · rintro ⟨j, e', hj, hid, hlim⟩
      obtain rfl := index_of_id hn hi hj hid
      simpa using hlim
    · exact fun hlim => ⟨i, e, hi, rfl, by simpa using hlim⟩
  rw [toDelete, List.mem_append, List.mem_append, Outside, Old, or_assoc]
  refine or_congr ?_ (or_congr ?_ ?_)
  · split_ifs with h
    · simpa [h] using hcount
    · simp [h]
  · split_ifs with h
    · simpa [h] using hold
    · simp [h]
  · split_ifs with h
    · simpa [h] using hsize
    · simp [h]

theorem filter_zipIdx {α : Type} (p : Nat → α → Prop) [∀ i a, Decidable (p i a)] (q : α → Bool) (l : List α)
    (k : Nat)
    (h : ∀ i a, l[i]? = some a → (q a = true ↔ p (k + i) a)) :
    ((l.zipIdx k).filter fun r => p r.2 r.1).map (·.1) = l.filter q := by
  induction l generalizing k with
  | nil => rfl
  | cons a l ih =>
      have hhead := h 0 a rfl
      have htail := ih (k + 1) fun i b hb => by
        rw [h (i + 1) b (by simpa using hb), show k + (i + 1) = k + 1 + i by omega]
      rw [List.zipIdx_cons, List.filter_cons, List.filter_cons]
      by_cases hp : p k a
      · rw [if_pos (decide_eq_true hp), if_pos (hhead.2 hp), List.map_cons, htail]
      · rw [if_neg (by simpa using hp), if_neg (by simpa [hhead] using hp), htail]

theorem newestFirst_nodup {rows : List Execution} (hn : (rows.map (·.id)).Nodup) :
    ((newestFirst rows).map (·.id)).Nodup :=
  (((List.perm_insertionSort _ rows).map _).nodup_iff).2 hn

def NewestOutside (schedule : Schedule) (now : Nat) (e : Execution) : Prop :=
  Old schedule now e ∨ (0 < schedule.retentionSizeGb ∧ schedule.retentionSizeGb * 1024 * 1024 * 1024 < e.sizeBytes.getD 0)

instance (schedule : Schedule) (now : Nat) (e : Execution) : Decidable (NewestOutside schedule now e) :=
  inferInstanceAs (Decidable (_ ∨ _))

theorem outside_zero_iff : Outside schedule now (e :: es) 0 e ↔ NewestOutside schedule now e := by
  simp only [Outside, NewestOutside, Old, sizes]
  simp
  omega

/-- The source selects what is due, and with it the newest where that is outside of a limit. -/
theorem selected_eq (hn : ((e :: es).map (·.id)).Nodup) :
    selected schedule now (e :: es) = if NewestOutside schedule now e then e :: due schedule now (e :: es) else due schedule now (e :: es) := by
  have hmem (i : Nat) (a : Execution) (ha : (e :: es)[i]? = some a) :
      decide (a.id ∈ toDelete schedule now (e :: es)) = true ↔ Outside schedule now (e :: es) i a := by
    rw [decide_eq_true_eq, mem_toDelete_iff hn ha]
  have hdue : due schedule now (e :: es) = es.filter fun a => a.id ∈ toDelete schedule now (e :: es) := by
    rw [due, List.zipIdx_cons, List.filter_cons, if_neg (by simp)]
    refine filter_zipIdx (fun i a => 0 < i ∧ Outside schedule now (e :: es) i a) _ es 1 fun i a ha => ?_
    rw [hmem (i + 1) a (by simpa using ha), Nat.add_comm]
    exact ⟨fun h => ⟨by omega, h⟩, fun h => h.2⟩
  rw [selected, List.filter_cons, hdue]
  by_cases h : NewestOutside schedule now e
  · rw [if_pos ((hmem 0 e rfl).2 (outside_zero_iff.2 h)), if_pos h]
  · rw [if_neg fun hs => h (outside_zero_iff.1 ((hmem 0 e rfl).1 hs)), if_neg h]

end Selected

/-! ### What is deleted -/

section Deleted

variable (calls : Calls)

def removalError (e : Execution) : Option String :=
  match e.filePath, e.s3StorageId with
  | some path, some storage => (calls.storageSelect storage).or (if storage ∈ calls.storages then calls.objectDelete storage path else none)
  | _, _ => none

def Blocked (e : Execution) : Prop := removalError calls e ≠ none ∨ calls.rowDelete e.id ≠ none

instance (e : Execution) : Decidable (Blocked calls e) := inferInstanceAs (Decidable (_ ∨ _))

def cleared (e : Execution) : Option Place :=
  (access calls.storages calls.serverId e.s3StorageId e.filePath).filter fun p =>
    match p with
    | .file _ path => !calls.unlinkFails path
    | .object _ _ => true

def clear (p : Option Place) (files : Files) : Files := fun q => files q && !decide (p = some q)

theorem clear_some (p : Place) (files : Files) :
    clear (some p) files = Function.update files p false := by
  funext q
  by_cases hq : q = p
  · simp [clear, hq]
  · simp [clear, Function.update_of_ne hq, Ne.symm hq]

theorem clear_none (files : Files) : clear none files = files := by
  funext q
  simp [clear]

/-- With each row the files as they are when it is deleted. -/
def trace : List Execution → Files → List (Execution × Files)
  | [], _ => []
  | e :: es, files => (e, clear (cleared calls e) files) :: trace es (clear (cleared calls e) files)

theorem removeFile_eq (e : Execution) (files : Files) :
    removeFile calls e files = match removalError calls e with
      | some m => .error m
      | none => .ok (clear (cleared calls e) files) := by
  cases hp : e.filePath with
  | none => simp [removeFile, removalError, cleared, access, hp, clear_none]
  | some path =>
      cases hs : e.s3StorageId with
      | none =>
          have hplace : access calls.storages calls.serverId none (some path) =
              some (.file calls.serverId path) :=
            rfl
          rw [cleared, hp, hs, hplace, Option.filter_some]
          by_cases hu : calls.unlinkFails path = true
          · simp [removeFile, removalError, hp, hs, hu, clear_none]
          · simp [removeFile, removalError, hp, hs, hu, clear_some]
      | some storage =>
          cases hsel : calls.storageSelect storage with
          | some m => simp [removeFile, removalError, hp, hs, hsel]
          | none =>
              by_cases hm : storage ∈ calls.storages
              · have hplace : access calls.storages calls.serverId (some storage) (some path) =
                    some (.object storage path) :=
                  if_pos hm
                rw [cleared, hp, hs, hplace, Option.filter_some]
                cases hd : calls.objectDelete storage path with
                | some m => simp [removeFile, removalError, hp, hs, hsel, hm, hd]
                | none => simp [removeFile, removalError, hp, hs, hsel, hm, hd, clear_some]
              · have hplace : access calls.storages calls.serverId (some storage) (some path) = none :=
                  if_neg hm
                rw [cleared, hp, hs, hplace, Option.filter_none]
                simp [removeFile, removalError, hp, hs, hsel, hm, clear_none]

def reached (es : List Execution) : List Execution := es.takeWhile fun e => ¬ Blocked calls e

theorem deleteEach_eq (es : List Execution) (files : Files) :
    (deleteEach (removeFile calls) calls.rowDelete es files).1 = trace calls (reached calls es) files ∧
      ((deleteEach (removeFile calls) calls.rowDelete es files).2 = none → reached calls es = es) := by
  induction es generalizing files with
  | nil => exact ⟨rfl, fun _ => rfl⟩
  | cons e es ih =>
      obtain ⟨hrows, hnone⟩ := ih (clear (cleared calls e) files)
      rw [deleteEach, removeFile_eq]
      cases he : removalError calls e with
      | some m =>
          have hblocked : reached calls (e :: es) = [] := by simp [reached, Blocked, he]
          rw [hblocked]
          exact ⟨rfl, fun h => by cases h⟩
      | none =>
          cases hr : calls.rowDelete e.id with
          | some m =>
              have hblocked : reached calls (e :: es) = [] := by simp [reached, Blocked, hr]
              rw [hblocked]
              exact ⟨rfl, fun h => by cases h⟩
          | none =>
              have hgoes : reached calls (e :: es) = e :: reached calls es := by
                simp [reached, Blocked, he, hr]
              rw [hgoes, trace]
              exact ⟨congrArg (_ :: ·) hrows, fun h => congrArg (e :: ·) (hnone h)⟩

theorem trace_getElem? (es : List Execution) (files : Files) (i : Nat) :
    (trace calls es files)[i]? =
      es[i]?.map fun e => (e, fun p => files p && !(es.take (i + 1)).any fun e' => cleared calls e' = some p) := by
  induction es generalizing files i with
  | nil => rfl
  | cons e es ih =>
      cases i with
      | zero =>
          simp only [trace, List.getElem?_cons_zero, Option.map_some, List.take_succ_cons, List.take_zero, List.any_cons, List.any_nil,
            Bool.or_false]
          rfl
      | succ i =>
          rw [trace, List.getElem?_cons_succ, ih, List.getElem?_cons_succ, List.take_succ_cons]
          simp only [List.any_cons, clear, Bool.not_or, Bool.and_assoc]

theorem trace_map_fst (es : List Execution) (files : Files) : (trace calls es files).map (·.1) = es := by
  induction es generalizing files with
  | nil => rfl
  | cons e es ih => rw [trace, List.map_cons, ih]

theorem prefix_deleteEach (remove : Execution → Files → Except String Files)
    (rowDelete : String → Option String)
    (es : List Execution) (files : Files) : (deleteEach remove rowDelete es files).1.map (·.1) <+: es := by
  induction es generalizing files with
  | nil => exact List.prefix_rfl
  | cons e es ih =>
      rw [deleteEach]
      split
      · exact List.nil_prefix
      · exact List.nil_prefix
      · exact List.cons_prefix_cons.2 ⟨rfl, ih _⟩

end Deleted

/-! ### When the retention keeps its promise -/

section Promise

variable (calls : Calls) (schedule : Schedule) (now : Nat) (es : List Execution) (files : Files) (stored : String → Option Place)

/-- The newest is inside of the limits, unless a call throws for it: then no row is reached. -/
def NewestSafe : Prop := ∀ e, es.head? = some e → NewestOutside schedule now e → Blocked calls e

/-- The row at `i` has no dump, or its dump was gone before, or a removal up to its own leads to it and does not fail. -/
def Freed (i : Nat) (e : Execution) : Prop :=
  e.filePath = none ∨ ∀ p, stored e.id = some p → files p = false ∨
    ∃ e' ∈ es.take (i + 1), cleared calls e' = some p

/-- With the newest inside of the limits, each due row that the calls reach. -/
def DueFreed : Prop :=
  (∀ e, es.head? = some e → ¬ NewestOutside schedule now e) →
    ∀ i e, (reached calls (due schedule now es))[i]? = some e →
      Freed calls (reached calls (due schedule now es)) files stored i e

variable {calls schedule now es files stored}

theorem notMem_due {e : Execution} (hn : ((e :: es).map (·.id)).Nodup) (h : NewestOutside schedule now e) :
    e ∉ due schedule now (e :: es) := by
  have hsel : (selected schedule now (e :: es)).Nodup := (List.Nodup.of_map _ hn).filter _
  rw [selected_eq hn, if_pos h] at hsel
  exact (List.nodup_cons.1 hsel).1

variable (calls files stored) in
theorem gone_iff (hs : List Execution) :
    (∀ d ∈ trace calls hs files, d.1.filePath = none ∨ ∀ p, stored d.1.id = some p → d.2 p = false) ↔
      ∀ i e, hs[i]? = some e → Freed calls hs files stored i e := by
  have hfree (i : Nat) (p : Place) : (files p && !(hs.take (i + 1)).any fun e' => cleared calls e' = some p) = false ↔
      files p = false ∨ ∃ e' ∈ hs.take (i + 1), cleared calls e' = some p := by
    rw [Bool.and_eq_false_iff, Bool.not_eq_false', List.any_eq_true]
    simp only [decide_eq_true_eq]
  constructor
  · intro h i e he
    have hd := h _ (List.mem_of_getElem? ((trace_getElem? calls hs files i).trans (congrArg _ he)))
    exact hd.imp_right fun hp p hst => (hfree i p).1 (hp p hst)
  · intro h d hd
    obtain ⟨i, hi⟩ := List.mem_iff_getElem?.1 hd
    rw [trace_getElem?] at hi
    obtain ⟨e, he, rfl⟩ := Option.map_eq_some_iff.1 hi
    exact (h i e he).imp_right fun hp p hst => (hfree i p).2 (hp p hst)

theorem exact_iff (hn : (es.map (·.id)).Nodup) :
    (∃ rest, due schedule now es =
        (deleteEach (removeFile calls) calls.rowDelete (selected schedule now es) files).1.map (·.1) ++ rest ∧
      ((deleteEach (removeFile calls) calls.rowDelete (selected schedule now es) files).2 = none → rest = [])) ↔
      NewestSafe calls schedule now es := by
  obtain ⟨hrows, hnone⟩ := deleteEach_eq calls (selected schedule now es) files
  rw [hrows, trace_map_fst]
  cases es with
  | nil => exact ⟨fun _ e he => absurd he (by simp), fun _ => ⟨[], rfl, fun _ => rfl⟩⟩
  | cons e es =>
      rw [selected_eq hn] at hnone ⊢
      by_cases h : NewestOutside schedule now e
      · rw [if_pos h] at hnone ⊢
        by_cases hb : Blocked calls e
        · -- nothing is deleted, and a call threw
          have hnil : reached calls (e :: due schedule now (e :: es)) = [] := by simp [reached, hb]
          refine ⟨fun _ e' he' _ => ?_, fun _ => ⟨due schedule now (e :: es), by rw [hnil]; rfl, fun ht => ?_⟩⟩
          · obtain rfl : e = e' := by simpa using he'
            exact hb
          · have := hnone ht
            rw [hnil] at this
            cases this
        · -- the newest is deleted, and it is not due
          have hcons : reached calls (e :: due schedule now (e :: es)) =
              e :: reached calls (due schedule now (e :: es)) := by
            simp [reached, hb]
          refine ⟨?_, fun hsafe => absurd (hsafe e rfl h) hb⟩
          rintro ⟨rest, hdue, -⟩
          refine absurd ?_ (notMem_due hn h)
          rw [hdue, hcons]
          exact List.mem_cons_self
      · rw [if_neg h] at hnone ⊢
        obtain ⟨rest, hrest⟩ :=
          List.takeWhile_prefix (fun a => decide ¬ Blocked calls a) (l := due schedule now (e :: es))
        refine ⟨fun _ e' he' ho => ?_, fun _ => ⟨rest, hrest.symm, fun ht => ?_⟩⟩
        · obtain rfl : e = e' := by simpa using he'
          exact absurd ho h
        · have hall : reached calls (due schedule now (e :: es)) = due schedule now (e :: es) := hnone ht
          rw [reached] at hall
          rw [hall] at hrest
          simpa using hrest

theorem prune_prudent (keep : Option Nat) (rows : List Execution) :
    Prudent schedule keep (newestFirst rows) (prune calls schedule keep rows files) := by
  intro d hd
  have hmem : d.1 ∈ candidates schedule keep (newestFirst rows) :=
    (prefix_deleteEach (deleteBackupFile calls) calls.rowDelete _ files).subset (List.mem_map_of_mem hd)
  obtain ⟨hdrop, hsynced⟩ := List.mem_filter.1 hmem
  obtain ⟨i, hi⟩ := List.mem_iff_getElem?.1 hdrop
  rw [List.getElem?_drop] at hi
  exact ⟨hsynced, _, hi, Nat.le_add_right _ _⟩

/-- The limits hold for the newest backup too, although the prune route keeps one at least; and a file whose removal fails,
or whose storage was deleted, does not keep its row. -/
theorem retention_keeps_iff (calls : Calls) (schedule : Schedule) (now : Nat)
    (rows : {l : List Execution // (l.map (·.id)).Nodup})
    (files : Files) (stored : String → Option Place) :
    (Keeps schedule now (newestFirst rows.1) stored (applyRetention calls schedule now rows.1 files) ∧
        ∀ keep, Prudent schedule keep (newestFirst rows.1) (prune calls schedule keep rows.1 files)) ↔
      NewestSafe calls schedule now (newestFirst rows.1) ∧
        DueFreed calls schedule now (newestFirst rows.1) files stored := by
  have hn := newestFirst_nodup rows.2
  have hgone := gone_iff calls files stored (reached calls (selected schedule now (newestFirst rows.1)))
  rw [← (deleteEach_eq calls _ files).1] at hgone
  have hkeeps : Keeps schedule now (newestFirst rows.1) stored (applyRetention calls schedule now rows.1 files) ↔
      NewestSafe calls schedule now (newestFirst rows.1) ∧
        ∀ i e, (reached calls (selected schedule now (newestFirst rows.1)))[i]? = some e →
          Freed calls (reached calls (selected schedule now (newestFirst rows.1))) files stored i e :=
    ⟨fun h => ⟨(exact_iff hn).1 h.exact, hgone.1 h.gone⟩, fun h => ⟨(exact_iff hn).2 h.1, hgone.2 h.2⟩⟩
  rw [hkeeps, and_iff_left fun keep => prune_prudent keep rows.1]
  refine and_congr_right fun hsafe => ?_
  rw [DueFreed]
  generalize newestFirst rows.1 = es at hn hsafe
  cases es with
  | nil => exact ⟨fun h _ => h, fun h => h fun e he => absurd he (by simp)⟩
  | cons e es =>
      by_cases h : NewestOutside schedule now e
      · have hnil : reached calls (selected schedule now (e :: es)) = [] := by
          rw [selected_eq hn, if_pos h]
          simp [reached, hsafe e rfl h]
        rw [hnil]
        exact ⟨fun _ hin => absurd h (hin e rfl), fun _ i e' he' => by simp at he'⟩
      · have hin : ∀ e', (e :: es).head? = some e' → ¬ NewestOutside schedule now e' := by
          intro e' he'
          obtain rfl : e = e' := by simpa using he'
          exact h
        rw [selected_eq hn, if_neg h]
        exact ⟨fun hall _ => hall, fun hall => hall hin⟩

def onlyBackup : Execution :=
  ⟨"e", "s", "d", .success, some "f", none, some (2 * 1024 * 1024 * 1024), 0, false⟩

def oneGb : Schedule := ⟨"s", "d", true, 0, 0, 1, none, none⟩

theorem only_backup_deleted :
    ¬ (Keeps oneGb 0 (newestFirst [onlyBackup]) (fun _ => some (.file "h" "f"))
          (applyRetention ⟨"h", [], fun _ => none, fun _ _ => none, fun _ => false, fun _ => none⟩ oneGb 0 [onlyBackup] fun _ => true) ∧
        ∀ keep, Prudent oneGb keep (newestFirst [onlyBackup])
          (prune ⟨"h", [], fun _ => none, fun _ _ => none, fun _ => false, fun _ => none⟩ oneGb keep [onlyBackup] fun _ => true)) := by
  rintro ⟨⟨⟨rest, hdue, -⟩, -⟩, -⟩
  have hnone : due oneGb 0 (newestFirst [onlyBackup]) = [] := rfl
  rw [hnone] at hdue
  have := (List.append_eq_nil_iff.1 hdue.symm).1
  revert this
  decide

end Promise

end Yeah.Backup.Retention
