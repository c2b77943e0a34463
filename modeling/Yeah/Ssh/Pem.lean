import Yeah.Drains.CloudWatch
import Yeah.Services.TemplateEnv

namespace Yeah.Ssh

open Text Drains Services

/-! ### The block of a text -/

/-- `match(/.{1,width}/g)`, which finds nothing in a text without characters. -/
def wrapped (width : Nat) (letters : List Char) : Option (List (List Char)) :=
  if letters = [] then none else some (slices letters width)

def beginLine (label : String) : List Char := ("-----BEGIN " ++ label ++ "-----").toList

def endLine (label : String) : List Char := ("-----END " ++ label ++ "-----").toList

def pem (label : String) (width : Nat) (bytes : List UInt8) : Option String := do
  let letters ← wrapped width (base64 bytes).toList
  pure (String.ofList (beginLine label ++ '\n' :: (['\n'].intercalate letters ++ '\n' :: (endLine label ++ ['\n']))))

/-- The bytes between the two lines of a label. -/
def readPem (label : String) (text : String) : Option (List UInt8) :=
  match text.toList.splitOn '\n' with
  | [] => none
  | first :: rest =>
      if first = beginLine label ∧ endLine label ∈ rest then
        some (Base64.decode (rest.takeWhile fun line => line ≠ endLine label).flatten)
      else none

/-! ### The alphabet -/

/-- A character of the padded standard alphabet. -/
def isBase64 (c : Char) : Bool := (Base64.digit c).isSome && c ≠ '-' && c ≠ '_' || c = '='

section Alphabet

variable {bytes : List UInt8} {c : Char}

theorem letter_large {n : Nat} (h : 63 ≤ n) : Base64.letter n = '_' := by
  rw [Base64.letter, if_neg (by omega), if_neg (by omega), if_neg (by omega), if_neg (by omega)]

theorem mem_encode (h : c ∈ Base64.encode bytes) : ∃ n : Fin 64, c = Base64.letter n.val := by
  have hone (n : Nat) : ∃ m : Fin 64, Base64.letter n = Base64.letter m.val := by
    by_cases hn : n < 64
    · exact ⟨⟨n, hn⟩, rfl⟩
    · exact ⟨63, (letter_large (by omega)).trans (letter_large (Nat.le_refl 63)).symm⟩
  induction bytes using Base64.encode.induct with
  | case1 a b d rest ih =>
      rw [Base64.encode] at h
      simp only [List.mem_cons] at h
      rcases h with rfl | rfl | rfl | rfl | h
      · exact hone _
      · exact hone _
      · exact hone _
      · exact hone _
      · exact ih h
  | case2 a b =>
      rw [Base64.encode] at h
      simp only [List.mem_cons, List.not_mem_nil, or_false] at h
      rcases h with rfl | rfl | rfl
      · exact hone _
      · exact hone _
      · exact hone _
  | case3 a =>
      rw [Base64.encode] at h
      simp only [List.mem_cons, List.not_mem_nil, or_false] at h
      rcases h with rfl | rfl
      · exact hone _
      · exact hone _
  | case4 => cases h

/-- The letter of the standard alphabet. -/
def standard (c : Char) : Char := if c = '-' then '+' else if c = '_' then '/' else c

theorem standard_letter (n : Fin 64) :
    isBase64 (standard (Base64.letter n.val)) = true ∧
      Base64.digit (standard (Base64.letter n.val)) = Base64.digit (Base64.letter n.val) := by
  revert n
  decide

theorem toList_base64 : (base64 bytes).toList =
    (Base64.encode bytes).map standard ++
      List.replicate ((4 - ((Base64.encode bytes).map standard).length % 4) % 4) '=' := by
  rw [base64, String.toList_ofList]
  rfl

theorem isBase64_of_mem (h : c ∈ (base64 bytes).toList) : isBase64 c = true := by
  rw [toList_base64, List.mem_append] at h
  rcases h with h | h
  · obtain ⟨d, hd, rfl⟩ := List.mem_map.1 h
    obtain ⟨n, rfl⟩ := mem_encode hd
    exact (standard_letter n).1
  · rw [List.eq_of_mem_replicate h]
    rfl

theorem decode_base64 (bytes : List UInt8) : Base64.decode (base64 bytes).toList = bytes := by
  have hletters : ((Base64.encode bytes).map standard).filterMap Base64.digit =
      (Base64.encode bytes).filterMap Base64.digit := by
    rw [List.filterMap_map]
    apply List.filterMap_congr
    intro c hc
    obtain ⟨n, rfl⟩ := mem_encode hc
    exact (standard_letter n).2
  have hpadding (k : Nat) : (List.replicate k '=').filterMap Base64.digit = [] :=
    List.filterMap_eq_nil_iff.2 fun c hc => by rw [List.eq_of_mem_replicate hc]; rfl
  rw [Base64.decode, toList_base64, List.filterMap_append, hletters, hpadding, List.append_nil]
  exact Base64.decode_encode bytes

theorem base64_ne_nil (h : bytes ≠ []) : (base64 bytes).toList ≠ [] := by
  intro hnil
  apply h
  rw [← decode_base64 bytes, hnil]
  rfl

end Alphabet

/-! ### A block is read back -/

section Block

variable {label text : String} {width : Nat} {bytes : List UInt8} {line : List Char} {c : Char}

theorem isBase64_of_mem_slice (hw : 0 < width) (hl : line ∈ slices (base64 bytes).toList width) (hc : c ∈ line) :
    isBase64 c = true := by
  have hmem : c ∈ (base64 bytes).toList := by
    rw [← flatten_slices (l := (base64 bytes).toList) hw]
    exact List.mem_flatten.2 ⟨line, hl, hc⟩
  exact isBase64_of_mem hmem

theorem feed_notMem_slice (hw : 0 < width) (hl : line ∈ slices (base64 bytes).toList width) : '\n' ∉ line :=
  fun hc => absurd (isBase64_of_mem_slice hw hl hc) (by decide)

theorem slice_ne_endLine (hw : 0 < width) (hl : line ∈ slices (base64 bytes).toList width) :
    line ≠ endLine label := by
  rintro rfl
  have hdash : '-' ∈ endLine label := by simp [endLine]
  exact absurd (isBase64_of_mem_slice hw hl hdash) (by decide)

theorem slices_ne_nil (hw : 0 < width) (h : bytes ≠ []) : slices (base64 bytes).toList width ≠ [] := by
  intro hnil
  apply base64_ne_nil h
  rw [← flatten_slices (l := (base64 bytes).toList) hw, hnil, List.flatten_nil]

/-- The lines of a block, after the last of which nothing follows. -/
theorem pem_lines (hlabel : '\n' ∉ label.toList) (hw : 0 < width) (h : pem label width bytes = some text) :
    bytes ≠ [] ∧ text.toList.splitOn '\n' =
      beginLine label :: (slices (base64 bytes).toList width ++ [endLine label, []]) := by
  have hbegin : '\n' ∉ beginLine label := by simp [beginLine, hlabel]
  have hend : '\n' ∉ endLine label := by simp [endLine, hlabel]
  by_cases hb : (base64 bytes).toList = []
  · rw [pem, wrapped, if_pos hb] at h
    cases h
  · rw [pem, wrapped, if_neg hb] at h
    obtain rfl := (Option.some.inj h).symm
    have hbytes : bytes ≠ [] := by
      rintro rfl
      exact hb rfl
    refine ⟨hbytes, ?_⟩
    rw [String.toList_ofList, List.splitOn_append_cons_self_of_not_mem hbegin, List.splitOn_append_cons_self,
      List.splitOn_intercalate _ (fun line hl => feed_notMem_slice hw hl) (slices_ne_nil hw hbytes),
      List.splitOn_append_cons_self_of_not_mem hend, List.splitOn_nil]

theorem readPem_pem (hlabel : '\n' ∉ label.toList) (hw : 0 < width) (h : pem label width bytes = some text) :
    readPem label text = some bytes := by
  rw [readPem, (pem_lines hlabel hw h).2]
  have hbody : (slices (base64 bytes).toList width ++ [endLine label, []]).takeWhile
      (fun line => line ≠ endLine label) = slices (base64 bytes).toList width := by
    rw [List.takeWhile_append_of_pos fun line hl => by simpa using slice_ne_endLine hw hl]
    simp
  dsimp only
  rw [if_pos ⟨rfl, by simp⟩, hbody, flatten_slices hw, decode_base64]

theorem pem_isSome (label : String) (width : Nat) (h : bytes ≠ []) : ∃ text, pem label width bytes = some text := by
  rw [pem, wrapped, if_neg (base64_ne_nil h)]
  exact ⟨_, rfl⟩

end Block

end Yeah.Ssh
