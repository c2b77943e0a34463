import Yeah.Text.Mask
import Yeah.Text.Space
import Mathlib.Data.List.Sort

namespace Yeah.Deploy

open Yeah.Text

/-- A text as its UTF-16 code units, as JavaScript measures and splits it. -/
abbrev Units := List UInt16

def utf16 (s : String) : Units :=
  s.toList.flatMap fun c =>
    let n := c.toNat
    if n < 0x10000 then [n.toUInt16]
    else [((n - 0x10000) / 0x400 + 0xD800).toUInt16, ((n - 0x10000) % 0x400 + 0xDC00).toUInt16]

def star : UInt16 := 42

def redacted : Units := [star, star, star]

def minSecretLength : Nat := 6

/-- Values worth masking, longest first so a value containing another is replaced whole. -/
def secretValues (values : List Units) : List Units :=
  (((values.map (strip fun u => isSpace u.toNat)).filter
    fun v => minSecretLength ≤ v.length).eraseDups).insertionSort fun a b => b.length ≤ a.length

def redactSecrets (text : Units) (secrets : List Units) : Units :=
  secrets.foldl (fun out secret =>
    if secret <:+: out then redacted.intercalate (split secret out) else out) text

inductive Status
  | success
  | failed
  deriving DecidableEq

/-- What a deployment writes: the text built up in the worker and the lines it published. -/
structure Log where
  log : Units
  events : List Units
  deriving DecidableEq

def appendAndPublish (secrets : List Units) (w : Log) (rawLine : Units) : Log :=
  let line := if secrets ≠ [] then redactSecrets rawLine secrets else rawLine
  ⟨w.log ++ line, w.events ++ [line]⟩

/-- What `finish` adds to the stored log; the line of a failure went through the log itself. -/
def trailer : Status → Units
  | .success => utf16 "\n\x1b[32mDeployment completed.\x1b[0m\n"
  | .failed => []

def finish (status : Status) (w : Log) : Log := { w with log := w.log ++ trailer status }

/-- The lines are those of the worker and the chunks that the channel delivers. -/
def deployLog (redactEnvInLogs : Bool) (values lines : List Units) (status : Status) : Log :=
  let secrets := if redactEnvInLogs then secretValues values else []
  finish status (lines.foldl (appendAndPublish secrets) ⟨[], []⟩)

def Log.Clean (w : Log) (secrets : List Units) : Prop :=
  ∀ s ∈ secrets, ¬ s <:+: w.log ∧ ¬ s <:+: w.events.flatten

instance (w : Log) (secrets : List Units) : Decidable (w.Clean secrets) :=
  inferInstanceAs (Decidable (∀ s ∈ secrets, ¬ s <:+: w.log ∧ ¬ s <:+: w.events.flatten))

/-- The secret cannot be confused with a mark or with a part of one. -/
def MarkProof (s : Units) : Prop := s.head? ≠ some star ∧ s.getLast? ≠ some star ∧ ¬ redacted <:+: s

instance (s : Units) : Decidable (MarkProof s) :=
  inferInstanceAs (Decidable (s.head? ≠ some star ∧ s.getLast? ≠ some star ∧ ¬ redacted <:+: s))

example : secretValues [utf16 "abcdef", utf16 " abcdef-extra ", utf16 "true", utf16 "abcdef"] =
    [utf16 "abcdef-extra", utf16 "abcdef"] := by decide

example : redactSecrets (utf16 "key=abcdef-extra abcdef") [utf16 "abcdef-extra", utf16 "abcdef"] =
    utf16 "key=*** ***" := by decide

variable {secrets values lines : List Units} {s : Units}

theorem length_of_mem_secretValues (h : s ∈ secretValues values) : minSecretLength ≤ s.length := by
  rw [secretValues, List.mem_insertionSort, List.mem_eraseDups, List.mem_filter] at h
  exact of_decide_eq_true h.2

theorem ne_nil_of_mem_secretValues (h : s ∈ secretValues values) : s ≠ [] := by
  rintro rfl
  exact absurd (length_of_mem_secretValues h) (by decide)

theorem redactSecrets_eq_foldl (text : Units) (secrets : List Units) :
    redactSecrets text secrets = secrets.foldl (fun t s => replaceAll s redacted t) text := by
  refine congrArg (fun f => secrets.foldl f text) (funext fun t => funext fun s => ?_)
  split_ifs with h
  · exact intercalate_split s redacted t
  · exact (replaceAll_eq_self h).symm

theorem redactSecrets_of_not_infix {text : Units} (h : ∀ s ∈ secrets, ¬ s <:+: text) :
    redactSecrets text secrets = text := by
  induction secrets with
  | nil => rfl
  | cons s secrets ih =>
      obtain ⟨hs, hss⟩ := List.forall_mem_cons.mp h
      have h' := ih hss
      rw [redactSecrets] at h' ⊢
      rwa [List.foldl_cons, if_neg hs]

theorem appendAndPublish_eq (secrets : List Units) (w : Log) (line : Units) :
    appendAndPublish secrets w line =
      ⟨w.log ++ redactSecrets line secrets, w.events ++ [redactSecrets line secrets]⟩ := by
  cases secrets <;> simp [appendAndPublish, redactSecrets]

theorem foldl_appendAndPublish (secrets lines : List Units) (w : Log) :
    lines.foldl (appendAndPublish secrets) w =
      ⟨w.log ++ (lines.map (redactSecrets · secrets)).flatten,
        w.events ++ lines.map (redactSecrets · secrets)⟩ := by
  induction lines generalizing w with
  | nil => simp
  | cons line lines ih => rw [List.foldl_cons, ih, appendAndPublish_eq]; simp

theorem deployLog_eq (values lines : List Units) (status : Status) :
    deployLog true values lines status =
      ⟨(lines.map (redactSecrets · (secretValues values))).flatten ++ trailer status,
        lines.map (redactSecrets · (secretValues values))⟩ := by
  simp [deployLog, finish, foldl_appendAndPublish]

theorem clean_iff (values lines : List Units) (status : Status) :
    (deployLog true values lines status).Clean (secretValues values) ↔
      ∀ s ∈ secretValues values,
        ¬ s <:+: (lines.map (redactSecrets · (secretValues values))).flatten ++ trailer status := by
  rw [deployLog_eq]
  refine forall₂_congr fun s _ => and_iff_left_of_imp fun h h' => ?_
  exact h (h'.trans (List.prefix_append _ _).isInfix)

theorem MarkProof.apart (h : MarkProof s) (hs : s ≠ []) : Apart redacted s where
  start u hu hm := by
    obtain ⟨a, u, rfl⟩ := List.exists_cons_of_ne_nil hu
    have ha : a = star := by simpa [redacted] using hm.subset (List.mem_cons_self ..)
    subst ha
    refine ⟨fun hp => h.1 ?_, fun hp => h.1 ?_⟩
    · obtain ⟨t, rfl⟩ := hp
      rfl
    · obtain ⟨b, s, rfl⟩ := List.exists_cons_of_ne_nil hs
      rw [List.cons_prefix_cons] at hp
      rw [hp.1, List.head?_cons]
  finish v hv hm := by
    rintro ⟨t, rfl⟩
    have ha : v.getLast hv = star := by simpa [redacted] using hm.subset (List.getLast_mem hv)
    refine h.2.1 ?_
    rw [List.getLast?_append_of_ne_nil _ hv, List.getLast?_eq_some_getLast hv, ha]
  inside := h.2.2

def readable (values lines : List Units) (status : Status) : List (List (Option UInt16)) :=
  lines.map (mask (secretValues values)) ++ [(trailer status).map some]

theorem render_readable (hv : ∀ s ∈ secretValues values, MarkProof s) (status : Status) :
    (lines.map (redactSecrets · (secretValues values))).flatten ++ trailer status =
      render redacted (readable values lines status).flatten := by
  have ha : ∀ s ∈ secretValues values, Apart redacted s :=
    fun s hs => (hv s hs).apart (ne_nil_of_mem_secretValues hs)
  have hr : ∀ line, redactSecrets line (secretValues values) =
      render redacted (mask (secretValues values) line) := by
    intro line
    rw [redactSecrets_eq_foldl, render_mask (by decide) ha]
  simp [readable, render_append, render_flatten, hr, Function.comp_def]

/-- With every line clean, a value shows only across the end of a line or in the trailer. -/
theorem clean_iff_no_seam (hv : ∀ s ∈ secretValues values, MarkProof s) (status : Status) :
    (deployLog true values lines status).Clean (secretValues values) ↔
      ∀ s ∈ secretValues values, ¬ s <:+: trailer status ∧
        ¬ Seam (readable values lines status) (s.map some) := by
  rw [clean_iff, render_readable hv]
  refine forall₂_congr fun s hs => ?_
  have hne := ne_nil_of_mem_secretValues hs
  have hm : s.map some ≠ [] := by simpa using hne
  rw [((hv s hs).apart hne).infix_render_iff (by decide), infix_flatten_iff hm, not_or]
  refine and_congr_left fun _ => ?_
  rw [not_exists]
  constructor
  · intro h ht
    exact h ((trailer status).map some) ⟨by simp [readable], ht.map some⟩
  · rintro h part ⟨hp, hi⟩
    rw [readable, List.mem_append, List.mem_map, List.mem_singleton] at hp
    rcases hp with ⟨line, -, rfl⟩ | rfl
    · exact not_infix_mask hs hne line hi
    · obtain ⟨u, hu, he⟩ := List.infix_map_iff.mp hi
      rw [List.map_injective_iff.mpr (Option.some_injective _) he] at h
      exact h hu

theorem redactSecrets_singleton (values : List Units) (c : UInt16) :
    redactSecrets [c] (secretValues values) = [c] := by
  refine redactSecrets_of_not_infix fun s hs h => ?_
  have := h.length_le
  have := length_of_mem_secretValues hs
  simp [minSecretLength] at *
  omega

/-- Every way to split a text leaves it clean only if it holds no value: the channel
may deliver one code unit at a time. -/
theorem clean_all_splits_iff (values : List Units) (text : Units) (status : Status) :
    (∀ lines : List Units, lines.flatten = text →
        (deployLog true values lines status).Clean (secretValues values)) ↔
      ∀ s ∈ secretValues values, ¬ s <:+: text ++ trailer status := by
  constructor
  · intro h
    have ht : (text.map ([·])).flatten = text := by rw [← List.flatMap_def, List.flatMap_singleton']
    have hc := (clean_iff _ _ _).mp (h (text.map ([·])) ht)
    have hr : (text.map ([·])).map (redactSecrets · (secretValues values)) = text.map ([·]) := by
      rw [List.map_map]
      exact List.map_congr_left fun c _ => redactSecrets_singleton values c
    rwa [hr, ht] at hc
  · rintro h lines rfl
    rw [clean_iff]
    have hl : ∀ line ∈ lines, redactSecrets line (secretValues values) = line := fun line hl =>
      redactSecrets_of_not_infix fun s hs hi => h s hs
        ((hi.trans (List.infix_of_mem_flatten hl)).trans (List.prefix_append _ _).isInfix)
    rwa [List.map_congr_left hl, List.map_id']

end Yeah.Deploy
