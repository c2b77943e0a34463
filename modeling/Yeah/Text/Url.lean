import Yeah.Text.Lines
import Mathlib.Data.List.TakeWhile
import Mathlib.Tactic.SplitIfs

namespace Yeah.Text

/-- The parts of a URL with a login and a port, as they are written. -/
structure Url where
  scheme : List Char
  user : List Char
  password : List Char
  host : List Char
  port : Nat
  path : List Char
  query : List (List Char × List Char)

namespace Url

def queryText : List (List Char × List Char) → List Char
  | [] => []
  | p :: query => '?' :: ['&'].intercalate ((p :: query).map fun p => p.1 ++ '=' :: p.2)

def text (u : Url) : List Char :=
  u.scheme ++ ':' :: '/' :: '/' :: (u.user ++ ':' :: u.password ++ '@' :: (u.host ++ ':' :: Nat.toDigits 10 u.port) ++
    (u.path ++ queryText u.query))

/-- What stands before the first character of a kind, and what stands from there on. -/
def cut (p : Char → Bool) (t : List Char) : List Char × List Char := (t.takeWhile fun c => !p c, t.dropWhile fun c => !p c)

/-- The same for one character, which is left out. -/
def cutAt (c : Char) (t : List Char) : Option (List Char × List Char) :=
  if c ∈ t then some (t.takeWhile (· ≠ c), (t.dropWhile (· ≠ c)).tail) else none

def afterSlashes : List Char → Option (List Char)
  | '/' :: '/' :: rest => some rest
  | _ => none

def endsAuthority (c : Char) : Bool := c = '/' || c = '?' || c = '#'

def endsPath (c : Char) : Bool := c = '?' || c = '#'

def readPair (t : List Char) : List Char × List Char := (cutAt '=' t).getD (t, [])

def readQuery (t : List Char) : List (List Char × List Char) :=
  if t.head? = some '?' then ((t.tail.takeWhile (· ≠ '#')).splitOn '&').map readPair else []

/-- The generic syntax of URIs, the authority being a login, a host and a port. -/
def read (t : List Char) : Option Url :=
  (cutAt ':' t).bind fun s => (afterSlashes s.2).bind fun rest =>
    (cutAt '@' (cut endsAuthority rest).1).bind fun a => (cutAt ':' a.1).bind fun login => (cutAt ':' a.2).bind fun place =>
      if '@' ∉ a.2 ∧ place.2 ≠ [] ∧ place.2.all Char.isDigit then
        some ⟨s.1, login.1, login.2, place.1, Nat.ofDigitChars 10 place.2 0, (cut endsPath (cut endsAuthority rest).2).1,
          readQuery (cut endsPath (cut endsAuthority rest).2).2⟩
      else none

/-- No part holds a character that ends it. -/
structure Plain (u : Url) : Prop where
  scheme : ':' ∉ u.scheme
  user : ∀ c ∈ u.user, c ∉ [':', '@', '/', '?', '#']
  password : ∀ c ∈ u.password, c ∉ [':', '@', '/', '?', '#']
  host : ∀ c ∈ u.host, c ∉ [':', '@', '/', '?', '#']
  path : ∀ c ∈ u.path, endsPath c = false
  rooted : u.path ≠ [] → u.path.head? = some '/'
  key : ∀ p ∈ u.query, ∀ c ∈ p.1, c ∉ ['&', '=', '#']
  value : ∀ p ∈ u.query, ∀ c ∈ p.2, c ∉ ['&', '#']

theorem cut_append {p : Char → Bool} {a rest : List Char} (ha : ∀ c ∈ a, p c = false) (hrest : ∀ c ∈ rest.head?, p c = true) :
    cut p (a ++ rest) = (a, rest) := by
  have hpos : ∀ c ∈ a, (!p c) = true := fun c hc => by rw [ha c hc]; rfl
  rw [cut, List.takeWhile_append_of_pos hpos, List.dropWhile_append_of_pos hpos]
  cases rest with
  | nil => simp
  | cons c rest => simp [hrest c rfl]

theorem cutAt_append {c : Char} {a : List Char} (ha : c ∉ a) (b : List Char) : cutAt c (a ++ c :: b) = some (a, b) := by
  have hpos : ∀ d ∈ a, decide (d ≠ c) = true := fun d hd => decide_eq_true fun he => ha (he ▸ hd)
  rw [cutAt, if_pos (List.mem_append_right _ List.mem_cons_self), List.takeWhile_append_of_pos hpos, List.dropWhile_append_of_pos hpos]
  simp

theorem readPair_text {p : List Char × List Char} (h : ∀ c ∈ p.1, c ∉ ['&', '=', '#']) : readPair (p.1 ++ '=' :: p.2) = p := by
  rw [readPair, cutAt_append fun hc => h _ hc (by simp)]
  rfl

theorem readQuery_text {query : List (List Char × List Char)} (hkey : ∀ p ∈ query, ∀ c ∈ p.1, c ∉ ['&', '=', '#'])
    (hvalue : ∀ p ∈ query, ∀ c ∈ p.2, c ∉ ['&', '#']) : readQuery (queryText query) = query := by
  cases hlist : query with
  | nil => rfl
  | cons p rest =>
  have hwritten : queryText query = '?' :: ['&'].intercalate (query.map fun p => p.1 ++ '=' :: p.2) := by
    rw [hlist]
    rfl
  rw [← hlist, hwritten]
  have hpiece : ∀ d : Char, d = '&' ∨ d = '#' → ∀ p ∈ query, d ∉ p.1 ++ '=' :: p.2 := by
    intro d hd p hp hmem
    rcases List.mem_append.1 hmem with hmem | hmem
    · exact hkey p hp d hmem (by rcases hd with rfl | rfl <;> simp)
    · rcases List.mem_cons.1 hmem with rfl | hmem
      · rcases hd with hd | hd <;> cases hd
      · exact hvalue p hp d hmem (by rcases hd with rfl | rfl <;> simp)
  have hhash : '#' ∉ ['&'].intercalate (query.map fun p => p.1 ++ '=' :: p.2) := by
    intro hmem
    rcases mem_intercalate hmem with hd | ⟨l, hl, hd⟩
    · cases List.mem_singleton.1 hd
    · obtain ⟨p, hp, rfl⟩ := List.mem_map.1 hl
      exact hpiece _ (Or.inr rfl) p hp hd
  have hwhole : (['&'].intercalate (query.map fun p => p.1 ++ '=' :: p.2)).takeWhile (· ≠ '#') =
      ['&'].intercalate (query.map fun p => p.1 ++ '=' :: p.2) := by
    apply List.takeWhile_eq_self_iff.2
    exact fun c hc => decide_eq_true fun he => hhash (he ▸ hc)
  rw [readQuery, List.head?_cons, if_pos rfl, List.tail_cons, hwhole, List.splitOn_intercalate]
  · rw [List.map_map]
    exact (List.map_congr_left fun p hp => readPair_text (hkey p hp)).trans (List.map_id _)
  · intro l hl
    obtain ⟨p, hp, rfl⟩ := List.mem_map.1 hl
    exact hpiece _ (Or.inl rfl) p hp
  · simp [hlist]

/-- A URL is read as the parts it was written from. -/
theorem read_text {u : Url} (h : u.Plain) : read u.text = some u := by
  have hdigit : ∀ c ∈ Nat.toDigits 10 u.port, c.isDigit = true := fun c hc =>
    Nat.isDigit_of_mem_toDigits (by decide) (by decide) hc
  have hnot : ∀ {part : List Char}, (∀ c ∈ part, c ∉ [':', '@', '/', '?', '#']) → ∀ d ∈ [':', '@', '/', '?', '#'], d ∉ part :=
    fun hpart d hd hmem => hpart d hmem hd
  have hends : ∀ {part : List Char}, (∀ c ∈ part, c ∉ [':', '@', '/', '?', '#']) → ∀ c ∈ part, endsAuthority c = false := by
    intro part hpart c hc
    have := hpart c hc
    simp only [List.mem_cons, List.not_mem_nil, or_false, not_or] at this
    simp [endsAuthority, this]
  have hlogin : '@' ∉ u.user ++ ':' :: u.password := by
    simp only [List.mem_append, List.mem_cons, not_or]
    exact ⟨hnot h.user _ (by simp), by decide, hnot h.password _ (by simp)⟩
  have hauthority : ∀ c ∈ u.user ++ ':' :: u.password ++ '@' :: (u.host ++ ':' :: Nat.toDigits 10 u.port), endsAuthority c = false := by
    intro c hc
    simp only [List.mem_append, List.mem_cons] at hc
    rcases hc with (hc | rfl | hc) | rfl | hc | rfl | hc
    · exact hends h.user c hc
    · rfl
    · exact hends h.password c hc
    · rfl
    · exact hends h.host c hc
    · rfl
    · have hd := hdigit c hc
      rw [endsAuthority, Bool.or_eq_false_iff, Bool.or_eq_false_iff]
      refine ⟨⟨?_, ?_⟩, ?_⟩ <;> apply decide_eq_false <;> rintro rfl <;> cases hd
  have hquery : ∀ c ∈ (queryText u.query).head?, c = '?' := by
    intro c hc
    revert hc
    cases u.query with
    | nil => exact fun hc => by cases hc
    | cons p query => exact fun hc => (Option.some.inj hc).symm
  have hrest : ∀ c ∈ (u.path ++ queryText u.query).head?, endsAuthority c = true := by
    intro c hc
    by_cases hpath : u.path = []
    · rw [hpath, List.nil_append] at hc
      rw [hquery c hc]
      rfl
    · rw [List.head?_append, h.rooted hpath] at hc
      obtain rfl := Option.some.inj hc
      rfl
  have hplace : cutAt ':' (u.host ++ ':' :: Nat.toDigits 10 u.port) = some (u.host, Nat.toDigits 10 u.port) :=
    cutAt_append (hnot h.host _ (by simp)) _
  rw [read, text, cutAt_append h.scheme]
  simp only [Option.bind_some, afterSlashes]
  rw [cut_append hauthority hrest]
  simp only [cutAt_append hlogin, Option.bind_some, cutAt_append (hnot h.user ':' (by simp)), hplace]
  have hat : '@' ∉ u.host ++ ':' :: Nat.toDigits 10 u.port := by
    simp only [List.mem_append, List.mem_cons, not_or]
    exact ⟨hnot h.host _ (by simp), by decide, fun hc => by cases hdigit _ hc⟩
  rw [if_pos ⟨hat, Nat.toDigits_ne_nil, List.all_eq_true.2 hdigit⟩, cut_append h.path fun c hc => by rw [hquery c hc]; rfl,
    Nat.ofDigitChars_toDigits (by decide) (by decide), readQuery_text h.key h.value]

theorem cut_part {p : Char → Bool} {t : List Char} {c : Char} (h : c ∈ (cut p t).1) : p c = false := by
  have := List.mem_takeWhile_imp h
  simpa using this

theorem cutAt_part {c : Char} {t : List Char} {s : List Char × List Char} (h : cutAt c t = some s) :
    c ∉ s.1 ∧ s.1 ⊆ t ∧ s.2 ⊆ t := by
  rw [cutAt] at h
  split at h
  · obtain rfl := Option.some.inj h
    refine ⟨fun hc => ?_, (List.takeWhile_sublist _).subset, fun d hd => (List.dropWhile_sublist _).subset (List.mem_of_mem_tail hd)⟩
    simpa using List.mem_takeWhile_imp hc
  · cases h

/-- A host is never read with a character that ends it. -/
theorem host_of_read {t : List Char} {u : Url} (h : read t = some u) : ∀ c ∈ u.host, c ∉ [':', '@', '/', '?', '#'] := by
  obtain ⟨s, -, h⟩ := Option.bind_eq_some_iff.1 h
  obtain ⟨rest, -, h⟩ := Option.bind_eq_some_iff.1 h
  obtain ⟨a, ha, h⟩ := Option.bind_eq_some_iff.1 h
  obtain ⟨login, -, h⟩ := Option.bind_eq_some_iff.1 h
  obtain ⟨place, hplace, h⟩ := Option.bind_eq_some_iff.1 h
  split at h
  next hpart =>
    obtain rfl := Option.some.inj h
    obtain ⟨hcolon, hhost, -⟩ := cutAt_part hplace
    intro c hc hmem
    have hends : endsAuthority c = false := cut_part ((cutAt_part ha).2.2 (hhost hc))
    simp only [List.mem_cons, List.not_mem_nil, or_false] at hmem
    rcases hmem with rfl | rfl | rfl | rfl | rfl
    · exact hcolon hc
    · exact hpart.1 (hhost hc)
    all_goals cases hends
  next => cases h

end Url

end Yeah.Text
