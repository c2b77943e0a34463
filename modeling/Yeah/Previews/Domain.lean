import Yeah.Environments
import Yeah.Proxy.Agree
import Yeah.Text.Replace
import Yeah.Text.Stamp

namespace Yeah.Previews

open Environments Proxy Text

/-- `pr-<n>-<app-slug>.<server wildcard>` -/
def previewDomain (parentName : String) (prNumber : Nat) (wildcardDomain : String) : String :=
  "pr-" ++ toString prNumber ++ "-" ++ resourceSlug parentName ++ "." ++ wildcardDomain

/-- A preview, as far as its host depends on it. -/
structure Hosted where
  parentId : String
  parentName : String
  prNumber : Nat
  wildcardDomain : String

namespace Hosted

variable (p : Hosted)

def domain : String := previewDomain p.parentName p.prNumber p.wildcardDomain

def label : List Char :=
  "pr-".toList ++ (Nat.toDigits 10 p.prNumber ++ '-' :: (resourceSlug p.parentName).toList)

/-- The name has a letter or a digit, and the host and its first label are not too long. -/
structure Fits : Prop where
  slug : resourceSlug p.parentName ≠ ""
  label : p.label.length ≤ 63
  total : p.domain.length ≤ 253

end Hosted

section Slug

variable {c : Char} {name : String}

theorem isHostChar_of_slug (h : isSlugChar c = true) : isHostChar c = true ∧ c ≠ '-' ∧ c ≠ '.' := by
  rw [isSlugChar, decide_eq_true_eq] at h
  simp only [Char.le_def, UInt32.le_iff_toNat_le] at h
  have hrange : (97 ≤ c.toNat ∧ c.toNat ≤ 122) ∨ (48 ≤ c.toNat ∧ c.toNat ≤ 57) := h
  refine ⟨?_, ?_, ?_⟩
  · rw [isHostChar, Bool.or_eq_true, Bool.or_eq_true]
    left
    rcases hrange with hlower | hdigit
    · left
      exact Bool.and_eq_true_iff.2 ⟨decide_eq_true hlower.1, decide_eq_true hlower.2⟩
    · right
      exact Bool.and_eq_true_iff.2 ⟨decide_eq_true hdigit.1, decide_eq_true hdigit.2⟩
  · rintro rfl
    revert hrange
    decide
  · rintro rfl
    revert hrange
    decide

theorem not_of_mem_splitOnP {α : Type} {p : α → Bool} {l s : List α} (hs : s ∈ l.splitOnP p) {a : α}
    (ha : a ∈ s) : p a = false := by
  induction l generalizing s with
  | nil =>
      rw [List.splitOnP_nil, List.mem_singleton] at hs
      simp [hs] at ha
  | cons x l ih =>
      rw [List.splitOnP_cons_eq_if_modifyHead] at hs
      obtain ⟨t, rest, hrest⟩ := List.exists_cons_of_ne_nil (List.splitOnP_ne_nil p l)
      split_ifs at hs with hx
      · rcases List.mem_cons.1 hs with rfl | hs
        · cases ha
        · exact ih hs ha
      · rw [hrest, List.modifyHead_cons] at hs
        rcases List.mem_cons.1 hs with rfl | hs
        · rcases List.mem_cons.1 ha with rfl | ha
          · simpa using hx
          · exact ih (by simp [hrest]) ha
        · exact ih (by simp [hrest, hs]) ha

theorem mem_of_getLast_intercalate {sep : List Char} {ps : List (List Char)} (hps : ∀ p ∈ ps, p ≠ [])
    (h : (sep.intercalate ps).getLast? = some c) : ∃ p ∈ ps, c ∈ p := by
  induction ps with
  | nil => simp at h
  | cons p ps ih =>
      obtain ⟨-, hrest⟩ := List.forall_mem_cons.1 hps
      cases ps with
      | nil => exact ⟨p, by simp, List.mem_of_getLast? (by simpa using h)⟩
      | cons q ps =>
          rw [List.intercalate_cons_cons] at h
          have hne : sep.intercalate (q :: ps) ≠ [] := by
            have hq : q ≠ [] := hrest q List.mem_cons_self
            cases ps with
            | nil => simpa using hq
            | cons r ps => simp [List.intercalate_cons_cons, hq]
          rw [List.getLast?_append_of_ne_nil _ hne] at h
          obtain ⟨s, hs, hc⟩ := ih hrest h
          exact ⟨s, List.mem_cons_of_mem _ hs, hc⟩

def slugPieces (name : String) : List (List Char) :=
  ((name.toList.flatMap lower).splitOnP fun c => !isSlugChar c).filter (· ≠ [])

theorem slugPieces_mem {p : List Char} (hp : p ∈ slugPieces name) :
    p ≠ [] ∧ ∀ c ∈ p, isSlugChar c = true := by
  obtain ⟨hp, hne⟩ := List.mem_filter.1 hp
  refine ⟨by simpa using hne, fun c hc => ?_⟩
  simpa using not_of_mem_splitOnP hp hc

theorem resourceSlug_toList (name : String) :
    (resourceSlug name).toList = ['-'].intercalate (slugPieces name) := String.toList_ofList

theorem resourceSlug_mem (h : c ∈ (resourceSlug name).toList) : isHostChar c = true ∧ c ≠ '.' := by
  rw [resourceSlug_toList] at h
  rcases mem_intercalate h with h | ⟨p, hp, hc⟩
  · rw [List.mem_singleton.1 h]
    decide
  · have hslug := isHostChar_of_slug ((slugPieces_mem hp).2 c hc)
    exact ⟨hslug.1, hslug.2.2⟩

theorem resourceSlug_getLast (name : String) : (resourceSlug name).toList.getLast? ≠ some '-' := by
  rw [resourceSlug_toList]
  intro h
  obtain ⟨p, hp, hc⟩ := mem_of_getLast_intercalate (fun p hp => (slugPieces_mem hp).1) h
  exact (isHostChar_of_slug ((slugPieces_mem hp).2 _ hc)).2.1 rfl

end Slug

section Label

variable {p q : Hosted}

theorem domain_toList (p : Hosted) : p.domain.toList = p.label ++ '.' :: p.wildcardDomain.toList := by
  simp [Hosted.domain, previewDomain, Hosted.label]

theorem dot_notMem_label (p : Hosted) : '.' ∉ p.label := by
  intro h
  simp only [Hosted.label, List.mem_append, List.mem_cons] at h
  rcases h with h | h | h | h
  · revert h
    decide
  · exact absurd (Nat.isDigit_of_mem_toDigits (by decide) (by decide) h) (by decide)
  · cases h
  · exact (resourceSlug_mem h).2 rfl

/-- The first label is one of a hostname unless the slug is empty or too long. -/
theorem isLabel_label : isLabel p.label = true ↔
    resourceSlug p.parentName ≠ "" ∧ p.label.length ≤ 63 := by
  have hchars : p.label.all isHostChar = true := by
    rw [List.all_eq_true]
    intro c hc
    simp only [Hosted.label, List.mem_append, List.mem_cons] at hc
    rcases hc with hc | hc | rfl | hc
    · exact List.all_eq_true.1 (by decide) c hc
    · have hdigit := Nat.isDigit_of_mem_toDigits (by decide) (by decide) hc
      simp [isHostChar, hdigit]
    · rfl
    · exact (resourceSlug_mem hc).1
  have hhead : p.label.head? = some 'p' := rfl
  have hlast : p.label.getLast? ≠ some '-' ↔ resourceSlug p.parentName ≠ "" := by
    rw [Hosted.label, ← List.append_assoc, not_iff_not]
    constructor
    · intro h
      by_contra hne
      have hslug : (resourceSlug p.parentName).toList ≠ [] :=
        fun hnil => hne (String.toList_eq_nil_iff.1 hnil)
      rw [List.append_cons, List.getLast?_append_of_ne_nil _ hslug] at h
      exact resourceSlug_getLast _ h
    · intro h
      rw [h]
      exact List.getLast?_concat
  have hne : p.label ≠ [] := fun hnil => by rw [hnil] at hhead; cases hhead
  simp only [isLabel, Bool.and_eq_true, decide_eq_true_eq, hchars, hhead, hne, hlast,
    not_false_eq_true, ne_eq]
  constructor
  · exact fun h => ⟨h.2, h.1.1.1.2⟩
  · exact fun h => ⟨⟨⟨⟨trivial, h.2⟩, trivial⟩, by decide⟩, h.1⟩

theorem isValidHostname_domain (h : isValidHostname p.wildcardDomain = true) :
    isValidHostname p.domain = true ↔ p.Fits := by
  have hnil : p.wildcardDomain.toList.splitOn '.' ≠ [] := List.splitOn_ne_nil _ _
  have hsplit : p.domain.toList.splitOn '.' = p.label :: p.wildcardDomain.toList.splitOn '.' := by
    rw [domain_toList, List.splitOn_append_cons_self_of_not_mem (dot_notMem_label p)]
  simp only [isValidHostname, Bool.and_eq_true, decide_eq_true_eq] at h
  obtain ⟨⟨⟨-, -⟩, hlabels⟩, htop⟩ := h
  have hlast : (p.label :: p.wildcardDomain.toList.splitOn '.').getLast? =
      (p.wildcardDomain.toList.splitOn '.').getLast? := by
    rw [List.getLast?_cons_of_ne_nil hnil]
  simp only [isValidHostname, hsplit, Bool.and_eq_true, decide_eq_true_eq, List.dropLast_cons_of_ne_nil hnil, List.all_cons, hlabels, hlast, htop,
    isLabel_label]
  constructor
  · rintro ⟨⟨⟨htotal, -⟩, ⟨hslug, hlabel⟩, -⟩, -⟩
    exact ⟨hslug, hlabel, htotal⟩
  · rintro ⟨hslug, hlabel, htotal⟩
    exact ⟨⟨⟨htotal, List.cons_ne_nil _ _⟩, ⟨hslug, hlabel⟩, trivial⟩, trivial⟩

/-- The host tells the number, the slug and the wildcard. -/
theorem domain_inj : p.domain = q.domain ↔
    p.prNumber = q.prNumber ∧ resourceSlug p.parentName = resourceSlug q.parentName ∧
      p.wildcardDomain = q.wildcardDomain := by
  constructor
  · intro h
    rw [← String.toList_inj, domain_toList, domain_toList] at h
    obtain ⟨hlabel, hwildcard⟩ := append_cons_inj_left (dot_notMem_label p) (dot_notMem_label q) h
    obtain ⟨hnumber, hslug⟩ :=
      append_cons_inj_left (dash_notMem_toDigits _) (dash_notMem_toDigits _) (List.append_cancel_left hlabel)
    exact ⟨toDigits_injective hnumber, String.toList_inj.1 hslug, String.toList_inj.1 hwildcard⟩
  · rintro ⟨hnumber, hslug, hwildcard⟩
    rw [Hosted.domain, Hosted.domain, previewDomain, previewDomain, hnumber, hslug, hwildcard]

end Label

def Different (p q : Hosted) : Prop := p.parentId ≠ q.parentId ∨ p.prNumber ≠ q.prNumber

/-- The hosts of previews are valid and distinct unless a slug is empty, too long or shared by two applications. -/
theorem previewDomains_iff (previews : Set Hosted)
    (h : ∀ p ∈ previews, isValidHostname p.wildcardDomain = true) :
    ((∀ p ∈ previews, isValidHostname p.domain = true) ∧ ∀ p ∈ previews, ∀ q ∈ previews, Different p q → p.domain ≠ q.domain) ↔
      (∀ p ∈ previews, p.Fits) ∧ ∀ p ∈ previews, ∀ q ∈ previews, p.parentId ≠ q.parentId →
          p.prNumber = q.prNumber →
        p.wildcardDomain = q.wildcardDomain → resourceSlug p.parentName ≠ resourceSlug q.parentName := by
  have hvalid : (∀ p ∈ previews, isValidHostname p.domain = true) ↔ ∀ p ∈ previews, p.Fits :=
    forall₂_congr fun p hp => isValidHostname_domain (h p hp)
  rw [hvalid, and_congr_right_iff]
  intro _
  constructor
  · intro hdistinct p hp q hq hid hnumber hwildcard hslug
    exact hdistinct p hp q hq (Or.inl hid) (domain_inj.2 ⟨hnumber, hslug, hwildcard⟩)
  · intro hslugs p hp q hq hdifferent heq
    obtain ⟨hnumber, hslug, hwildcard⟩ := domain_inj.1 heq
    rcases hdifferent with hid | hne
    · exact hslugs p hp q hq hid hnumber hwildcard hslug
    · exact hne hnumber

theorem previewDomains_two :
    isValidHostname (Hosted.mk "1" "My API" 12 "apps.example.com").domain = true ∧
    (Hosted.mk "1" "My API" 12 "apps.example.com").domain ≠ (Hosted.mk "2" "Web" 12 "apps.example.com").domain := by
  have hall :=
    (previewDomains_iff {Hosted.mk "1" "My API" 12 "apps.example.com", Hosted.mk "2" "Web" 12 "apps.example.com"} ?_).2 ⟨?_, ?_⟩
  · exact ⟨hall.1 _ (by simp), hall.2 _ (by simp) _ (by simp) (Or.inl (by decide))⟩
  · rintro p (rfl | rfl) <;> decide +kernel
  · rintro p (rfl | rfl) <;> exact ⟨by decide +kernel, by decide +kernel, by decide +kernel⟩
  · have hne : resourceSlug "My API" ≠ resourceSlug "Web" := by decide +kernel
    rintro p (rfl | rfl) q (rfl | rfl) hid - -
    · exact absurd rfl hid
    · exact hne
    · exact hne.symm
    · exact absurd rfl hid

/-- A name without letters of ASCII, and two names with one slug. -/
theorem previewDomains_collide :
    isValidHostname (Hosted.mk "1" "東京" 12 "apps.example.com").domain = false ∧
    Different (Hosted.mk "1" "My API" 12 "apps.example.com") (Hosted.mk "2" "my-api" 12 "apps.example.com") ∧
    (Hosted.mk "1" "My API" 12 "apps.example.com").domain = (Hosted.mk "2" "my-api" 12 "apps.example.com").domain ∧
    ¬ ∀ previews : Set Hosted, (∀ p ∈ previews, isValidHostname p.wildcardDomain = true) →
      (∀ p ∈ previews, isValidHostname p.domain = true) ∧
          ∀ p ∈ previews, ∀ q ∈ previews, Different p q → p.domain ≠ q.domain := by
  have hinvalid : isValidHostname (Hosted.mk "1" "東京" 12 "apps.example.com").domain = false := by
    decide +kernel
  refine ⟨hinvalid, Or.inl (by decide), by decide +kernel, fun hclaim => ?_⟩
  have hvalid :=
    (hclaim {Hosted.mk "1" "東京" 12 "apps.example.com"} (by rintro p rfl; decide +kernel)).1 _ rfl
  rw [hinvalid] at hvalid
  cases hvalid

end Yeah.Previews
