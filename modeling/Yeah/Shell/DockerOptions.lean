import Yeah.Shell.Quote
import Yeah.Text.Space
import Yeah.Text.Words

namespace Yeah.Shell

open Text Text.Words

def reservedDockerFlags : List String := ["--name", "-d", "--detach", "--rm", "--env-file", "--restart"]

/-- The quote that is open. -/
inductive OpenQuote
  | single
  | double

/-- The loop over the characters: `current` is `none` outside a word, the result is `none` if a quote stays open.
After `++i` the character is taken as it is. -/
def splitOptions : Bool → Option OpenQuote → Option (List Char) → List Char → Option (List (List Char))
  | _, some _, _, [] => none
  | _, none, current, [] => some current.toList
  | true, quote, current, ch :: rest => splitOptions false quote (some (current.getD [] ++ [ch])) rest
  | false, some .single, current, ch :: rest =>
      if ch = '\'' then splitOptions false none current rest
      else splitOptions false (some .single) (some (current.getD [] ++ [ch])) rest
  | false, some .double, current, ch :: rest =>
      if ch = '"' then splitOptions false none current rest
      else if ch = '\\' ∧ rest.head?.any (· ∈ ['"', '$', '\x60']) then splitOptions true (some .double) current rest
      else splitOptions false (some .double) (some (current.getD [] ++ [ch])) rest
  | false, none, current, ch :: rest =>
      if ch = '\'' then splitOptions false (some .single) (some (current.getD [])) rest
      else if ch = '"' then splitOptions false (some .double) (some (current.getD [])) rest
      else if ch = '\\' ∧ rest ≠ [] then splitOptions true none (some (current.getD [])) rest
      else if isSpace ch.toNat then (splitOptions false none none rest).map (current.toList ++ ·)
      else splitOptions false none (some (current.getD [] ++ [ch])) rest

/-- `arg.split("=")[0]` -/
def flagOf (arg : String) : String := String.ofList (arg.toList.takeWhile (· ≠ '='))

/-- Splits a free-text "extra docker run options" field into arguments. -/
def parseDockerOptions (input : String) : Except String (List String) :=
  match splitOptions false none none input.toList with
  | none => .error "unclosed quote in the docker options"
  | some parts =>
      let args := parts.map String.ofList
      match args.find? fun arg => flagOf arg ∈ reservedDockerFlags with
      | some arg => .error ("the " ++ flagOf arg ++ " option is managed by yeah and cannot be overridden here")
      | none => .ok args

section Split

def isWhite (c : Char) : Bool := isSpace c.toNat

/-- The characters that the splitter lets a backslash escape inside double quotes. -/
def optionEscapes (c : Char) : Bool := c ∈ ['"', '$', '\x60']

def contextOf : Bool → Option OpenQuote → Context
  | false, none => .bare
  | false, some .single => .single
  | false, some .double => .double
  | true, none => .escaped
  | true, some .single => .escaped
  | true, some .double => .escapedDouble

/-- What `++i` needs: a character, and between double quotes one that a backslash escapes. -/
def Ready (t : List Char) : Bool → Option OpenQuote → Prop
  | false, _ => True
  | true, none => t ≠ []
  | true, some .single => False
  | true, some .double => t.head?.any optionEscapes = true

theorem read_slash {u t : List Char} (h : ¬ t.head?.any optionEscapes = true) :
    cut isWhite optionEscapes .double (some (u ++ ['\\'])) t = cut isWhite optionEscapes .escapedDouble (some u) t := by
  cases t with
  | nil => rfl
  | cons c t =>
      have hc : optionEscapes c = false := by simpa using h
      have hquote : c ≠ '"' := by
        rintro rfl
        cases hc
      rw [cut_cons (by simp), cut_cons (by simp)]
      by_cases hslash : c = '\\'
      · simp [next, emit, hslash, show optionEscapes '\\' = false from rfl]
      · simp [next, emit, hslash, hquote, hc]

theorem splitOptions_eq {t : List Char} {taken : Bool} {quote : Option OpenQuote}
    {current : Option (List Char)}
    (hready : Ready t taken quote) (hcurrent : quote.isSome = true → current.isSome = true) :
    splitOptions taken quote current t = cut isWhite optionEscapes (contextOf taken quote) current t := by
  have hfalse : ∀ {s : List Char} {q : Option OpenQuote}, Ready s false q :=
    fun {_} {q} => by cases q <;> trivial
  induction t generalizing taken quote current with
  | nil =>
      cases taken with
      | false =>
          rcases quote with _ | _ | _
          · rfl
          · rfl
          · rfl
      | true =>
          rcases quote with _ | _ | _
          · exact absurd rfl hready
          · exact hready.elim
          · cases hready
  | cons ch rest ih =>
      cases taken with
      | true =>
          rcases quote with _ | _ | _
          · rw [splitOptions, ih hfalse (by simp), contextOf, contextOf, cut_cons (by simp)]
            rfl
          · exact hready.elim
          · have hch : optionEscapes ch = true := hready
            rw [splitOptions, ih hfalse (by simp), contextOf, contextOf, cut_cons (by simp)]
            simp [next, emit, hch]
      | false =>
          rcases quote with _ | _ | _
          · rw [splitOptions]
            split_ifs with hsingle hdouble hslash hspace
            · rw [ih hfalse (by simp), contextOf, contextOf, cut_cons (by simp [hsingle]; rfl)]
              simp [next, emit, hsingle]
            · rw [ih hfalse (by simp), contextOf, contextOf, cut_cons (by simp [hdouble]; rfl)]
              simp [next, emit, hdouble]
            · have hrest : Ready rest true none := hslash.2
              rw [ih hrest (by simp), contextOf, contextOf, cut_cons (by simp [hslash.1]; rfl)]
              simp [next, emit, hslash.1]
            · rw [ih hfalse (by simp), contextOf, cut_separator hspace]
            · by_cases hend : ch = '\\'
              · obtain rfl : rest = [] := by simpa [hend] using hslash
                have hwhite : isWhite '\\' = false := rfl
                rw [hend, splitOptions, contextOf, cut_cons (by simp [hwhite])]
                simp [next, emit, cut]
              · rw [ih hfalse (by simp), contextOf, cut_cons (by simpa [isWhite] using hspace)]
                simp [next, emit, hsingle, hdouble, hend]
          · obtain ⟨u, rfl⟩ := Option.isSome_iff_exists.1 (hcurrent rfl)
            rw [splitOptions]
            split_ifs with hsingle
            · rw [ih hfalse (by simp), contextOf, contextOf, cut_cons (by simp)]
              simp [next, emit, hsingle]
            · rw [ih hfalse (by simp), contextOf, cut_cons (by simp)]
              simp [next, emit, hsingle]
          · obtain ⟨u, rfl⟩ := Option.isSome_iff_exists.1 (hcurrent rfl)
            rw [splitOptions]
            split_ifs with hdouble hslash
            · rw [ih hfalse (by simp), contextOf, contextOf, cut_cons (by simp)]
              simp [next, emit, hdouble]
            · have hrest : Ready rest true (some .double) := hslash.2
              rw [ih hrest (by simp), contextOf, contextOf, cut_cons (by simp)]
              simp [next, emit, hslash.1]
            · rw [ih hfalse (by simp), contextOf, cut_cons (by simp)]
              by_cases hend : ch = '\\'
              · rw [hend, Option.getD_some, read_slash fun h => hslash ⟨hend, h⟩]
                simp [next, emit]
              · simp [next, emit, hdouble, hend]

/-- The splitter is a reader of words. -/
theorem parseDockerOptions_eq (input : String) :
    parseDockerOptions input =
      match cut isWhite optionEscapes .bare none input.toList with
      | none => .error "unclosed quote in the docker options"
      | some parts =>
          match (parts.map String.ofList).find? fun arg => flagOf arg ∈ reservedDockerFlags with
          | some arg => .error ("the " ++ flagOf arg ++ " option is managed by yeah and cannot be overridden here")
          | none => .ok (parts.map String.ofList) := by
  have hsplit : splitOptions false none none input.toList =
      cut isWhite optionEscapes .bare none input.toList :=
    splitOptions_eq trivial (by simp)
  rw [parseDockerOptions, hsplit]

end Split

section Quoted

theorem shellQuote_toList (value : String) :
    (shellQuote value).toList = '\'' :: (value.toList.flatMap (fun c => if c = '\'' then ['\'', '\\', '\'', '\''] else [c]) ++ ['\'']) := by
  have hescape : "'\\''".toList = ['\'', '\\', '\'', '\''] := rfl
  rw [shellQuote, String.toList_append, String.toList_append, String.toList_ofList, String.toList_ofList,
    hescape, List.append_assoc]
  rfl

theorem cut_shellQuote (value : String) (rest : List Char) :
    cut isWhite optionEscapes .bare none ((shellQuote value).toList ++ rest) = cut isWhite optionEscapes .bare (some value.toList) rest := by
  have hquote : isWhite '\'' = false := rfl
  have hslash : isWhite '\\' = false := rfl
  have hbody := @cut_quoted isWhite optionEscapes ⟨hquote, hslash⟩ value.toList [] rest
  rw [shellQuote_toList, List.cons_append, List.append_assoc, cut_cons (by simp [hquote])]
  exact hbody

theorem cut_joined (args : List String) :
    cut isWhite optionEscapes .bare none ([' '].intercalate (args.map fun arg => (shellQuote arg).toList)) = some (args.map String.toList) := by
  have hblank : isWhite ' ' = true := rfl
  induction args with
  | nil => rfl
  | cons arg args ih =>
      cases args with
      | nil =>
          have hone := cut_shellQuote arg []
          rw [List.append_nil] at hone
          simpa [cut] using hone
      | cons arg' args =>
          have hcut : cut isWhite optionEscapes .bare none
              ([' '].intercalate ((shellQuote arg').toList :: args.map fun arg => (shellQuote arg).toList)) = some ((arg' :: args).map String.toList) :=
                ih
          rw [List.map_cons, List.map_cons, List.intercalate_cons_cons, List.append_assoc, cut_shellQuote, List.singleton_append,
            cut_separator hblank, hcut]
          rfl

theorem parseDockerOptions_joined (args : List String) :
    parseDockerOptions (" ".intercalate (args.map shellQuote)) =
      match args.find? fun arg => flagOf arg ∈ reservedDockerFlags with
      | some arg => .error ("the " ++ flagOf arg ++ " option is managed by yeah and cannot be overridden here")
      | none => .ok args := by
  have htext : (" ".intercalate (args.map shellQuote)).toList =
      [' '].intercalate (args.map fun arg => (shellQuote arg).toList) := by
    rw [String.toList_intercalate, List.map_map]
    rfl
  have hargs : (args.map String.toList).map String.ofList = args := by
    rw [List.map_map]
    exact (List.map_congr_left fun arg _ => String.ofList_toList).trans (List.map_id args)
  rw [parseDockerOptions_eq, htext, cut_joined]
  dsimp only
  rw [hargs]

end Quoted

/-- Quoting undoes the splitting, and a shell reads a quoted text as one word. -/
theorem quote_parse (args : List String) (text : String) :
    (parseDockerOptions (" ".intercalate (args.map shellQuote)) = .ok args ↔ ∀ arg ∈ args, flagOf arg ∉ reservedDockerFlags) ∧
      ((∃ message, parseDockerOptions (" ".intercalate (args.map shellQuote)) = .error message) ↔ ∃ arg ∈ args, flagOf arg ∈ reservedDockerFlags) ∧
      words (shellQuote text) = some [text] := by
  have hone : words (shellQuote text) = some [text] := by
    have hread := readWords_quote text none []
    rw [List.append_nil] at hread
    rw [words, hread]
    simp [readWords]
  rw [parseDockerOptions_joined]
  cases hfind : args.find? fun arg => flagOf arg ∈ reservedDockerFlags with
  | none =>
      have hnone : ∀ arg ∈ args, flagOf arg ∉ reservedDockerFlags := by simpa using hfind
      have hnot : ¬ ∃ arg ∈ args, flagOf arg ∈ reservedDockerFlags := by
        rintro ⟨arg, harg, hflag⟩
        exact hnone arg harg hflag
      exact ⟨iff_of_true rfl hnone, iff_of_false (by simp) hnot, hone⟩
  | some arg =>
      have harg : arg ∈ args := List.mem_of_find?_eq_some hfind
      have hflag : flagOf arg ∈ reservedDockerFlags := by simpa using List.find?_some hfind
      exact ⟨iff_of_false (by simp) fun hnone => hnone arg harg hflag,
        iff_of_true ⟨_, rfl⟩ ⟨arg, harg, hflag⟩, hone⟩

end Yeah.Shell
