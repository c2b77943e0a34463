import Yeah.Deploy.EnvFile
import Yeah.Doubles
import Mathlib.Order.PiLex

namespace Yeah.Updates

open Doubles

structure ParsedVersionTag where
  hasV : Bool
  parts : List Nat
  suffix : List Char
  deriving DecidableEq

/-- `(?:\.\d+)` at most `k` times, and the text behind. -/
def dotted : Nat → List Char → List (List Char) × List Char
  | 0, s => ([], s)
  | k + 1, s =>
      match s with
      | '.' :: t =>
          if t.takeWhile Char.isDigit = [] then ([], s)
          else
            let (groups, rest) := dotted k (t.dropWhile Char.isDigit)
            (t.takeWhile Char.isDigit :: groups, rest)
      | _ => ([], s)

/-- `^(v)?(\d+(?:\.\d+){0,3})(.*)$`, the second group cut at its dots. -/
def matchVersionTag (tag : List Char) : Option (Bool × List (List Char) × List Char) :=
  let (hasV, s) := match tag with
    | 'v' :: s => (true, s)
    | s => (false, s)
  let (groups, suffix) := dotted 3 (s.dropWhile Char.isDigit)
  if s.takeWhile Char.isDigit = [] ∨ suffix.any Deploy.isLineTerminator then none
  else some (hasV, s.takeWhile Char.isDigit :: groups, suffix)

def parseVersionTag (tag : String) : Option ParsedVersionTag :=
  (matchVersionTag tag.toList).map fun (hasV, numbers, suffix) => ⟨hasV, numbers.map ofDigits, suffix⟩

/-- The difference at place `i`, places that are not there being zero. -/
def partsDiff (a b : List Nat) (i : Nat) : Int := a.getD i 0 - b.getD i 0

def compareVersionParts (a b : List Nat) : Int :=
  match (List.range (max a.length b.length)).find? fun i => partsDiff a b i ≠ 0 with
  | some i => partsDiff a b i
  | none => 0

structure Candidate where
  name : String
  parsed : ParsedVersionTag

/-- One turn of the loop over the listed names. -/
def better (current : ParsedVersionTag) (best : Option Candidate) (name : String) : Option Candidate :=
  match parseVersionTag name with
  | none => best
  | some parsed =>
      if parsed.hasV ≠ current.hasV ∨ parsed.suffix ≠ current.suffix then best
      else
        match best with
        | none => some ⟨name, parsed⟩
        | some b => if compareVersionParts parsed.parts b.parsed.parts > 0 then some ⟨name, parsed⟩ else some b

/-- The answer is the list of names that Docker Hub gives, if it gives one. -/
def latestDockerHubTag (answer : Option (List String)) (currentTag : String) : Option String :=
  match parseVersionTag currentTag, answer with
  | some current, some names =>
      match names.foldl (better current) none with
      | none => none
      | some best =>
          some (if compareVersionParts best.parsed.parts current.parts > 0 then best.name else currentTag)
  | _, _ => none

/-- The version that a tag writes, its numbers as large as they are. -/
def writtenVersion (tag : String) : Option ParsedVersionTag :=
  (matchVersionTag tag.toList).map fun (hasV, numbers, suffix) => ⟨hasV, numbers.map written, suffix⟩

/-- No component of the version is too large for a double. -/
def Exact (tag : String) : Prop := ∀ v ∈ writtenVersion tag, ∀ n ∈ v.parts, n < 2 ^ 53

namespace ParsedVersionTag

def SameShape (v w : ParsedVersionTag) : Prop := v.hasV = w.hasV ∧ v.suffix = w.suffix

end ParsedVersionTag

section Order

def places (parts : List Nat) : Lex (Nat → Nat) := toLex fun i => parts.getD i 0

variable {a b c : List Nat}

theorem partsDiff_of_le {i : Nat} (h : max a.length b.length ≤ i) : partsDiff a b i = 0 := by
  have ha : a.getD i 0 = 0 := by
    rw [List.getD_eq_getElem?_getD, List.getElem?_eq_none (by omega), Option.getD_none]
  have hb : b.getD i 0 = 0 := by
    rw [List.getD_eq_getElem?_getD, List.getElem?_eq_none (by omega), Option.getD_none]
  rw [partsDiff, ha, hb]
  rfl

/-- The result is the difference at the first place where there is one. -/
theorem compareVersionParts_cases (a b : List Nat) :
    (∃ i, (∀ j < i, partsDiff a b j = 0) ∧ partsDiff a b i ≠ 0 ∧ compareVersionParts a b = partsDiff a b i) ∨
      ((∀ i, partsDiff a b i = 0) ∧ compareVersionParts a b = 0) := by
  cases hfind : (List.range (max a.length b.length)).find? fun i => partsDiff a b i ≠ 0 with
  | some i =>
      obtain ⟨hi, -, hbefore⟩ := List.find?_range_eq_some.1 hfind
      refine Or.inl ⟨i, fun j hj => ?_, by simpa using hi, by rw [compareVersionParts, hfind]⟩
      simpa using hbefore j hj
  | none =>
      refine Or.inr ⟨fun i => ?_, by rw [compareVersionParts, hfind]⟩
      by_cases hi : i < max a.length b.length
      · simpa using List.find?_range_eq_none.1 hfind i hi
      · exact partsDiff_of_le (by omega)

theorem places_lt_iff : places a < places b ↔
    ∃ i, (∀ j < i, a.getD j 0 = b.getD j 0) ∧ a.getD i 0 < b.getD i 0 := Iff.rfl

theorem compareVersionParts_pos : 0 < compareVersionParts a b ↔ places b < places a := by
  rcases compareVersionParts_cases a b with ⟨i, hbefore, hi, heq⟩ | ⟨hall, heq⟩
  · rw [heq, places_lt_iff]
    constructor
    · intro hpos
      refine ⟨i, fun j hj => ?_, ?_⟩
      · have := hbefore j hj
        unfold partsDiff at this
        omega
      · unfold partsDiff at hpos
        omega
    · rintro ⟨k, hk, hlt⟩
      rcases Nat.lt_trichotomy i k with hik | rfl | hik
      · have := hk i hik
        unfold partsDiff at hi
        omega
      · unfold partsDiff
        omega
      · have := hbefore k hik
        unfold partsDiff at this
        omega
  · rw [heq, places_lt_iff]
    refine ⟨fun h => absurd h (Int.lt_irrefl 0), ?_⟩
    rintro ⟨k, -, hlt⟩
    have := hall k
    unfold partsDiff at this
    omega

theorem compareVersionParts_nonpos : compareVersionParts a b ≤ 0 ↔ places a ≤ places b := by
  rw [← Int.not_lt, compareVersionParts_pos]
  exact not_lt

end Order

section Choice

variable {current : ParsedVersionTag} {names : List String} {name : String} {best : Option Candidate}

theorem parseVersionTag_of_exact {tag : String} (h : Exact tag) :
    parseVersionTag tag = writtenVersion tag := by
  rw [parseVersionTag, writtenVersion]
  cases hmatch : matchVersionTag tag.toList with
  | none => rfl
  | some groups =>
      obtain ⟨hasV, numbers, suffix⟩ := groups
      have hnumbers : numbers.map ofDigits = numbers.map written :=
        List.map_congr_left fun t ht =>
          double_of_lt (h ⟨hasV, numbers.map written, suffix⟩ (by simp [writtenVersion, hmatch]) _
            (List.mem_map_of_mem ht))
      simp only [Option.map_some, hnumbers]

/-- The name is listed for a version of the shape. -/
def Fits (current : ParsedVersionTag) (name : String) (parsed : ParsedVersionTag) : Prop :=
  parseVersionTag name = some parsed ∧ parsed.SameShape current

/-- What the loop has found after some names: nothing only if none fits, else a greatest one that does. -/
def Best (current : ParsedVersionTag) (names : List String) : Option Candidate → Prop
  | none => ∀ name ∈ names, ∀ parsed, ¬ Fits current name parsed
  | some b => b.name ∈ names ∧ Fits current b.name b.parsed ∧
      ∀ name ∈ names, ∀ parsed, Fits current name parsed → places parsed.parts ≤ places b.parsed.parts

theorem better_of_not_fits (h : ∀ parsed, ¬ Fits current name parsed) :
    better current best name = best := by
  rw [better]
  cases hparse : parseVersionTag name with
  | none => rfl
  | some parsed =>
      refine if_pos ?_
      by_contra hshape
      rw [not_or, not_not, not_not] at hshape
      exact h parsed ⟨hparse, hshape⟩

theorem better_of_fits {parsed : ParsedVersionTag} (h : Fits current name parsed) :
    better current best name =
      match best with
      | none => some ⟨name, parsed⟩
      | some b => if compareVersionParts parsed.parts b.parsed.parts > 0 then some ⟨name, parsed⟩ else some b := by
  obtain ⟨hparse, hV, hsuffix⟩ := h
  simp only [better, hparse, hV, hsuffix, ne_eq, not_true, or_self, if_false]

theorem Best.step (h : Best current names best) (name : String) :
    Best current (names ++ [name]) (better current best name) := by
  by_cases hfits : ∃ parsed, Fits current name parsed
  · obtain ⟨parsed, hfits⟩ := hfits
    have hself : ∀ p, Fits current name p → p = parsed :=
      fun p hp => Option.some_inj.1 (hp.1.symm.trans hfits.1)
    rw [better_of_fits hfits]
    cases best with
    | none =>
        refine ⟨by simp, hfits, List.forall_mem_append.2 ⟨?_, List.forall_mem_singleton.2 ?_⟩⟩
        · exact fun other hother p hp => absurd hp (h other hother p)
        · intro p hp
          rw [hself p hp]
    | some b =>
        obtain ⟨hb, hbfits, hmax⟩ := h
        by_cases hlt : compareVersionParts parsed.parts b.parsed.parts > 0
        · simp only [hlt, if_true]
          refine ⟨by simp, hfits, List.forall_mem_append.2 ⟨?_, List.forall_mem_singleton.2 ?_⟩⟩
          · exact fun other hother p hp => (hmax other hother p hp).trans (compareVersionParts_pos.1 hlt).le
          · intro p hp
            rw [hself p hp]
        · simp only [hlt, if_false]
          refine ⟨List.mem_append_left _ hb, hbfits,
            List.forall_mem_append.2 ⟨hmax, List.forall_mem_singleton.2 ?_⟩⟩
          intro p hp
          rw [hself p hp]
          exact compareVersionParts_nonpos.1 (by omega)
  · have hskip : ∀ parsed, ¬ Fits current name parsed := fun parsed hp => hfits ⟨parsed, hp⟩
    rw [better_of_not_fits hskip]
    cases best with
    | none => exact List.forall_mem_append.2 ⟨h, List.forall_mem_singleton.2 hskip⟩
    | some b =>
        obtain ⟨hb, hbfits, hmax⟩ := h
        refine ⟨List.mem_append_left _ hb, hbfits,
          List.forall_mem_append.2 ⟨hmax, List.forall_mem_singleton.2 ?_⟩⟩
        exact fun p hp => absurd hp (hskip p)

theorem best_foldl (current : ParsedVersionTag) (names : List String) :
    Best current names (names.foldl (better current) none) := by
  induction names using List.reverseRecOn with
  | nil => exact fun name hname => absurd hname List.not_mem_nil
  | append_singleton names name ih =>
      rw [List.foldl_append]
      exact ih.step name

end Choice

/-- An offered tag is no downgrade, and the comparison of versions is a total preorder. -/
theorem latest_not_downgrade {currentTag : String} {names : List String} (current : ParsedVersionTag)
    (hcurrent : writtenVersion currentTag = some current)
    (hexact : ∀ tag ∈ currentTag :: names, Exact tag) :
    (∀ tag, latestDockerHubTag (some names) currentTag = some tag → (tag = currentTag ∨ tag ∈ names) ∧
      ∃ v, writtenVersion tag = some v ∧ v.SameShape current ∧ places current.parts ≤ places v.parts ∧
        (∀ name ∈ names, ∀ w, writtenVersion name = some w → w.SameShape current →
          places w.parts ≤ places v.parts) ∧
        ((∀ name ∈ names, ∀ w, writtenVersion name = some w → w.SameShape current →
          places w.parts ≤ places current.parts) → tag = currentTag)) ∧
    (latestDockerHubTag (some names) currentTag = none →
      ∀ name ∈ names, ∀ w, writtenVersion name = some w → ¬ w.SameShape current) ∧
    (∀ a b, 0 < compareVersionParts a b ↔ places b < places a) ∧
    (∀ a b, compareVersionParts a b ≤ 0 ∨ compareVersionParts b a ≤ 0) ∧
    ∀ a b c, compareVersionParts a b ≤ 0 → compareVersionParts b c ≤ 0 → compareVersionParts a c ≤ 0 := by
  have hfits : ∀ name ∈ names, ∀ w, writtenVersion name = some w → w.SameShape current →
    Fits current name w :=
    fun name hname w hw hshape =>
      ⟨(parseVersionTag_of_exact (hexact name (List.mem_cons_of_mem _ hname))).trans hw, hshape⟩
  have hparse : parseVersionTag currentTag = some current :=
    (parseVersionTag_of_exact (hexact currentTag List.mem_cons_self)).trans hcurrent
  have hbest := best_foldl current names
  refine ⟨?_, ?_, fun a b => compareVersionParts_pos, ?_, ?_⟩
  · intro tag htag
    cases hfold : names.foldl (better current) none with
    | none => simp [latestDockerHubTag, hparse, hfold] at htag
    | some b =>
        rw [hfold] at hbest
        obtain ⟨hb, ⟨hbparse, hbshape⟩, hmax⟩ := hbest
        have hwritten : writtenVersion b.name = some b.parsed :=
          (parseVersionTag_of_exact (hexact b.name (List.mem_cons_of_mem _ hb))).symm.trans hbparse
        have hlisted : ∀ name ∈ names, ∀ w, writtenVersion name = some w → w.SameShape current →
            places w.parts ≤ places b.parsed.parts :=
          fun name hname w hw hshape => hmax name hname w (hfits name hname w hw hshape)
        by_cases hlt : compareVersionParts b.parsed.parts current.parts > 0
        · obtain rfl : b.name = tag := by simpa [latestDockerHubTag, hparse, hfold, hlt] using htag
          have hgt := compareVersionParts_pos.1 hlt
          refine ⟨Or.inr hb, b.parsed, hwritten, hbshape, hgt.le, hlisted, fun hnone => ?_⟩
          exact absurd hgt (hnone b.name hb b.parsed hwritten hbshape).not_gt
        · obtain rfl : currentTag = tag := by simpa [latestDockerHubTag, hparse, hfold, hlt] using htag
          have hle : places b.parsed.parts ≤ places current.parts :=
            compareVersionParts_nonpos.1 (by omega)
          exact ⟨Or.inl rfl, current, hcurrent, ⟨rfl, rfl⟩, le_refl _,
            fun name hname w hw hshape => (hlisted name hname w hw hshape).trans hle, fun _ => rfl⟩
  · intro hnone name hname w hw hshape
    cases hfold : names.foldl (better current) none with
    | none =>
        rw [hfold] at hbest
        exact hbest name hname w (hfits name hname w hw hshape)
    | some b => simp [latestDockerHubTag, hparse, hfold] at hnone
  · intro a b
    rw [compareVersionParts_nonpos, compareVersionParts_nonpos]
    exact le_total _ _
  · intro a b c
    rw [compareVersionParts_nonpos, compareVersionParts_nonpos, compareVersionParts_nonpos]
    exact le_trans

theorem latest_not_downgrade_alpine :
    latestDockerHubTag (some ["15-alpine", "17", "16.4-alpine"]) "16-alpine" = some "16.4-alpine" ∧
      ("16.4-alpine" = "16-alpine" ∨ "16.4-alpine" ∈ ["15-alpine", "17", "16.4-alpine"]) := by
  have hlatest : latestDockerHubTag (some ["15-alpine", "17", "16.4-alpine"]) "16-alpine" =
      some "16.4-alpine" := by decide
  have hexact : ∀ tag ∈ ["16-alpine", "15-alpine", "17", "16.4-alpine"], Exact tag := by
    unfold Exact
    decide
  exact ⟨hlatest, ((latest_not_downgrade ⟨false, [16], "-alpine".toList⟩ (by decide) hexact).1
    _ hlatest).1⟩

end Yeah.Updates
