import Yeah.Deploy.EnvFile
import Mathlib.Data.Bool.AllAny

namespace Yeah.Deploy

open Text

def prefixOf : Availability → List Char
  | .runtime => []
  | .build => "build:".toList
  | .both => "both:".toList

def entryLine (e : EnvEntry) : List Char := prefixOf e.availability ++ lineOf e

/-- Inverse of `parseEnvContent` for the table editor: `build:`/`both:` prefixes, runtime has none. -/
def serializeEnvEntries (entries : List EnvEntry) : String :=
  String.ofList ((entries.map entryLine).flatMap (· ++ ['\n']))

def lineEntry (raw : List Char) : Option EnvEntry :=
  let line := strip (fun c => isSpace c.toNat) raw
  if line = [] || line.head? = some '#' then none else readLine line

theorem parseEnvContent_eq (content : String) :
    parseEnvContent content = (content.toList.splitOn '\n').filterMap lineEntry := rfl

/-- Entries that a line can say. -/
structure InRange (e : EnvEntry) : Prop where
  key : isKey e.key.toList
  line : ∀ c ∈ e.value.toList, isLineTerminator c = false
  trimmed : ∀ c ∈ e.value.toList.getLast?, isSpace c.toNat = false

section Line

variable {key value : List Char}

theorem takeWhile_key (h : isKey key) (value : List Char) :
    (key ++ '=' :: value).takeWhile isKeyChar = key := by
  exact takeWhile_span (fun c hc => isKeyChar_of_mem h hc) fun c hc => by cases hc; rfl

theorem dropWhile_key (h : isKey key) (value : List Char) :
    (key ++ '=' :: value).dropWhile isKeyChar = '=' :: value := by
  exact dropWhile_span (fun c hc => isKeyChar_of_mem h hc) fun c hc => by cases hc; rfl

/-- A key has no colon, so a runtime line has no marker. -/
theorem not_marked (h : isKey key) (value word : List Char) (hword : ∀ c ∈ word, isKeyChar c) :
    ¬ word ++ [':'] <+: key ++ '=' :: value := by
  rintro ⟨rest, hline⟩
  have hdrop := dropWhile_key h value
  rw [← hline, List.append_assoc, List.dropWhile_append_of_pos fun c hc => hword c hc] at hdrop
  rw [List.singleton_append, List.dropWhile_cons_of_neg (by decide)] at hdrop
  cases hdrop

-- `delta`, as `rfl` alone would take the texts apart.
theorem prefixOf_runtime : prefixOf .runtime = [] := by
  delta prefixOf
  rfl

theorem prefixOf_build : prefixOf .build = "build:".toList := by
  delta prefixOf
  rfl

theorem prefixOf_both : prefixOf .both = "both:".toList := by
  delta prefixOf
  rfl

theorem readAvailability_line (h : isKey key) (value : List Char) (availability : Availability) :
    readAvailability (prefixOf availability ++ (key ++ '=' :: value)) = (availability, key ++ '=' :: value) := by
  cases availability with
  | runtime =>
      have hbuild : ¬ "build:".toList <+: key ++ '=' :: value :=
        not_marked h value "build".toList (List.all_iff_forall_prop.1 (by decide))
      have hboth : ¬ "both:".toList <+: key ++ '=' :: value :=
        not_marked h value "both".toList (List.all_iff_forall_prop.1 (by decide))
      rw [prefixOf_runtime, List.nil_append, readAvailability, if_neg hbuild, if_neg hboth]
  | build =>
      rw [prefixOf_build, readAvailability, if_pos (List.prefix_append _ _)]
      rfl
  | both =>
      have hbuild : ¬ "build:".toList <+: "both:".toList ++ (key ++ '=' :: value) := by
        rintro ⟨rest, hline⟩
        cases hline
      rw [prefixOf_both, readAvailability, if_neg hbuild, if_pos (List.prefix_append _ _)]
      rfl

theorem readLine_entryLine {e : EnvEntry} (hkey : isKey e.key.toList)
    (hline : ∀ c ∈ e.value.toList, isLineTerminator c = false) :
    readLine (entryLine e) = some e := by
  have hall : e.value.toList.all (fun c => !isLineTerminator c) = true :=
    List.all_eq_true.2 fun c hc => by simp [hline c hc]
  rw [readLine, entryLine, lineOf, readAvailability_line hkey]
  simp [takeWhile_key hkey, dropWhile_key hkey, hkey, hall]

theorem isSpace_of_keyChar {c : Char} (h : isKeyChar c) : isSpace c.toNat = false := by
  have hrange := keyChar_range h
  exact isSpace_of_range (by omega)

theorem strip_entryLine {e : EnvEntry} (h : InRange e) :
    strip (fun c => isSpace c.toNat) (entryLine e) = entryLine e := by
  apply strip_of_ends
  · intro c hc
    obtain ⟨k, ks, hk⟩ := List.exists_cons_of_ne_nil (key_ne_nil h.key)
    rw [entryLine, lineOf, hk] at hc
    cases ha : e.availability with
    | runtime =>
        obtain rfl : k = c := by simpa [ha, prefixOf_runtime] using hc
        exact isSpace_of_keyChar (isKeyChar_of_mem h.key (hk ▸ List.mem_cons_self))
    | build =>
        obtain rfl : 'b' = c := by simpa [ha, prefixOf_build] using hc
        decide
    | both =>
        obtain rfl : 'b' = c := by simpa [ha, prefixOf_both] using hc
        decide
  · intro c hc
    rcases List.eq_nil_or_concat e.value.toList with hv | ⟨v, d, hv⟩
    · obtain rfl : '=' = c := by simpa [entryLine, lineOf, hv] using hc
      decide
    · have hline : entryLine e = prefixOf e.availability ++ (e.key.toList ++ '=' :: v) ++ [d] := by
        simp [entryLine, lineOf, hv]
      rw [hline, List.getLast?_concat] at hc
      obtain rfl : d = c := Option.some_inj.1 hc
      exact h.trimmed d (by simp [hv])

theorem entryLine_ne_nil (e : EnvEntry) : entryLine e ≠ [] := by
  rw [entryLine, lineOf]
  simp

theorem head_entryLine {e : EnvEntry} (h : isKey e.key.toList) : (entryLine e).head? ≠ some '#' := by
  obtain ⟨k, ks, hk⟩ := List.exists_cons_of_ne_nil (key_ne_nil h)
  have hchar : isKeyChar k := isKeyChar_of_mem h (hk ▸ List.mem_cons_self)
  cases ha : e.availability with
  | runtime =>
      intro hc
      obtain rfl : k = '#' := by simpa [entryLine, lineOf, ha, prefixOf_runtime, hk] using hc
      cases hchar
  | build => simp [entryLine, ha, prefixOf_build]
  | both => simp [entryLine, ha, prefixOf_both]

theorem lineEntry_entryLine {e : EnvEntry} (h : InRange e) : lineEntry (entryLine e) = some e := by
  rw [lineEntry, strip_entryLine h]
  simp [entryLine_ne_nil, head_entryLine h.key, readLine_entryLine h.key h.line]

end Line

section Range

variable {e : EnvEntry} {line : List Char}

theorem readAvailability_append (line : List Char) :
    prefixOf (readAvailability line).1 ++ (readAvailability line).2 = line := by
  rw [readAvailability]
  split_ifs with hbuild hboth
  · exact List.prefix_iff_eq_append.1 hbuild
  · exact List.prefix_iff_eq_append.1 hboth
  · rfl

theorem line_of_readLine (h : readLine line = some e) :
    line = prefixOf e.availability ++ (e.key.toList ++ '=' :: e.value.toList) := by
  rw [readLine] at h
  dsimp only at h
  split at h
  · next value hvalue =>
    split at h
    · have htext := List.takeWhile_append_dropWhile (p := isKeyChar) (l := (readAvailability line).2)
      rw [hvalue] at htext
      rw [← Option.some_inj.1 h, String.toList_ofList, String.toList_ofList, htext,
        readAvailability_append]
    · cases h
  · cases h

theorem suffix_of_readLine (h : readLine line = some e) : e.value.toList <:+ line :=
  ⟨prefixOf e.availability ++ (e.key.toList ++ ['=']), by conv_rhs => rw [line_of_readLine h]
                                                          simp⟩

theorem getLast_strip {α : Type} {p : α → Bool} {s : List α} {c : α} (h : c ∈ (strip p s).getLast?) :
    p c = false := by
  rw [strip, List.getLast?_reverse] at h
  have hp := List.head?_dropWhile_not p (s.dropWhile p).reverse
  rw [Option.mem_def.1 h] at hp
  exact hp

theorem getLast_trimmed {raw : List Char} {c : Char}
    (h : c ∈ (strip (fun c => isSpace c.toNat) raw).getLast?) : isSpace c.toNat = false := by
  generalize hp : (fun c : Char => isSpace c.toNat) = p at h
  have hc := getLast_strip h
  rw [← hp] at hc
  exact hc

theorem getLast_of_suffix {α : Type} {s t : List α} {c : α} (h : s <:+ t) (hc : c ∈ s.getLast?) :
    c ∈ t.getLast? := by
  obtain ⟨u, rfl⟩ := h
  rw [List.getLast?_append, Option.mem_def.1 hc]
  rfl

theorem readLine_of_lineEntry {raw : List Char} (h : lineEntry raw = some e) :
    readLine (strip (fun c => isSpace c.toNat) raw) = some e := by
  rw [lineEntry] at h
  split at h
  · cases h
  · exact h

theorem inRange_of_lineEntry {raw : List Char} (h : lineEntry raw = some e) : InRange e := by
  have hread := readLine_of_lineEntry h
  obtain ⟨hkey, hline⟩ := readLine_eq_some hread
  refine ⟨hkey, hline, ?_⟩
  intro c hc
  exact getLast_trimmed (getLast_of_suffix (suffix_of_readLine hread) hc)

theorem inRange_of_mem {content : String} (h : e ∈ parseEnvContent content) : InRange e := by
  obtain ⟨raw, -, hraw⟩ := List.mem_filterMap.1 h
  exact inRange_of_lineEntry hraw

end Range

section RoundTrip

variable {entries : List EnvEntry}

theorem feed_not_mem_entryLine {e : EnvEntry} (h : InRange e) : '\n' ∉ entryLine e := by
  rw [entryLine, lineOf, List.mem_append, List.mem_append, List.mem_cons, not_or, not_or, not_or]
  refine ⟨?_, not_mem_key h.key rfl, by decide, fun hm => ?_⟩
  · cases e.availability <;> decide
  · have hline := h.line _ hm
    cases hline

/-- Nothing that a line of the text can say is lost in writing it. -/
theorem parse_serialize (h : ∀ e ∈ entries, InRange e) :
    parseEnvContent (serializeEnvEntries entries) = entries := by
  have hsplit : (entries.map entryLine).flatMap (·.splitOn '\n') = entries.map entryLine := by
    rw [List.flatMap_map, List.flatMap_congr fun e he => List.splitOn_eq_singleton (feed_not_mem_entryLine (h e he))]
    exact List.flatMap_pure_eq_map _ _
  have hentries : (entries.map entryLine).filterMap lineEntry = entries := by
    rw [List.filterMap_map]
    refine Eq.trans (List.filterMap_congr fun e he => ?_) List.filterMap_some
    exact lineEntry_entryLine (h e he)
  rw [parseEnvContent_eq, serializeEnvEntries, String.toList_ofList, splitOn_lines, hsplit,
    List.filterMap_append, hentries]
  exact List.append_nil _

end RoundTrip

/-- Entries survive the text, and every text survives as its entries. -/
theorem env_roundtrip (entries : List EnvEntry) (content : String) :
    ((∀ e ∈ entries, InRange e) → parseEnvContent (serializeEnvEntries entries) = entries) ∧
      parseEnvContent (serializeEnvEntries (parseEnvContent content)) = parseEnvContent content :=
  ⟨parse_serialize, parse_serialize fun _ => inRange_of_mem⟩

theorem env_roundtrip_marked :
    parseEnvContent (serializeEnvEntries [⟨"A", "both:#x=", .build⟩]) = [⟨"A", "both:#x=", .build⟩] :=
  (env_roundtrip [⟨"A", "both:#x=", .build⟩] "").1 (by
    intro e he
    obtain rfl := List.mem_singleton.1 he
    exact ⟨by decide, List.all_iff_forall_prop.1 (by decide), fun c hc => by cases hc; decide⟩)

end Yeah.Deploy
