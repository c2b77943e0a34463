import Yeah.Shell.DockerOptions

namespace Yeah.Shell

open Text Text.Words

/-- A blank of the POSIX locale. -/
def isBlank (c : Char) : Bool := c = ' ' || c = '\t'

/-- The characters that keep their backslash from standing for itself inside double quotes. -/
def posixEscapes (c : Char) : Bool := c ∈ ['"', '$', '\x60', '\\']

/-- Word splitting and quote removal of a shell, for a text that holds nothing else; `none` if a quote stays open. -/
def posixWords (t : List Char) : Option (List (List Char)) := cut isBlank posixEscapes .bare none t

/-- Characters that make a shell do more than split and unquote: expansions, operators, globs, comments. -/
def isActive (c : Char) : Bool := c ∈ "$\x60~&;|<>()*?[#".toList

def passive : Context → Char → Bool
  | .bare, c => !isActive c
  | .double, c => c ≠ '$' && c ≠ '\x60'
  | _, _ => true

/-- Words, quoted parts and escapes only, on one line; a backslash at the end escapes nothing. -/
def Simple : Context → List Char → Prop
  | m, [] => m ≠ .escaped
  | m, c :: cs => c ≠ '\n' ∧ passive m c = true ∧ Simple (next posixEscapes m c) cs

/-- No other white space than blanks outside quotes. -/
def BlanksOnly : Context → List Char → Prop
  | _, [] => True
  | m, c :: cs => (m = .bare → isWhite c = true → isBlank c = true) ∧ BlanksOnly (next posixEscapes m c) cs

/-- No backslash that is escaped inside double quotes. -/
def NoSlashEscaped : Context → List Char → Prop
  | _, [] => True
  | m, c :: cs => ¬ (m = .escapedDouble ∧ c = '\\') ∧ NoSlashEscaped (next posixEscapes m c) cs

instance Simple.decide : (m : Context) → (t : List Char) → Decidable (Simple m t)
  | m, [] => inferInstanceAs (Decidable (m ≠ .escaped))
  | m, c :: cs =>
      have := Simple.decide (next posixEscapes m c) cs
      inferInstanceAs (Decidable (_ ∧ _ ∧ _))

instance BlanksOnly.decide : (m : Context) → (t : List Char) → Decidable (BlanksOnly m t)
  | _, [] => isTrue trivial
  | m, c :: cs =>
      have := BlanksOnly.decide (next posixEscapes m c) cs
      inferInstanceAs (Decidable ((_ → _ → _) ∧ _))

instance NoSlashEscaped.decide : (m : Context) → (t : List Char) → Decidable (NoSlashEscaped m t)
  | _, [] => isTrue trivial
  | m, c :: cs =>
      have := NoSlashEscaped.decide (next posixEscapes m c) cs
      inferInstanceAs (Decidable (_ ∧ _))

section Agree

variable {m : Context} {c : Char}

theorem optionEscapes_eq (h : c ≠ '\\') : optionEscapes c = posixEscapes c := by
  simp [optionEscapes, posixEscapes, h]

theorem next_eq (h : ¬ (m = .escapedDouble ∧ c = '\\')) :
    next optionEscapes m c = next posixEscapes m c := by
  cases m with
  | escapedDouble => rw [next, next, optionEscapes_eq fun hc => h ⟨rfl, hc⟩]
  | bare | single | double | escaped => rfl

theorem emit_eq (h : ¬ (m = .escapedDouble ∧ c = '\\')) :
    emit optionEscapes m c = emit posixEscapes m c := by
  cases m with
  | escapedDouble => rw [emit, emit, optionEscapes_eq fun hc => h ⟨rfl, hc⟩]
  | bare | single | double | escaped => rfl

theorem isWhite_of_isBlank (h : isBlank c = true) : isWhite c = true := by
  simp only [isBlank, Bool.or_eq_true, decide_eq_true_eq] at h
  rcases h with rfl | rfl
  · rfl
  · rfl

theorem ne_of_isWhite (h : isWhite c = true) : c ≠ '\'' ∧ c ≠ '"' ∧ c ≠ '\\' := by
  refine ⟨?_, ?_, ?_⟩
  · rintro rfl
    cases h
  · rintro rfl
    cases h
  · rintro rfl
    cases h

theorem next_bare_of_isWhite {escapes : Char → Bool} (h : isWhite c = true) :
    next escapes .bare c = .bare := by
  simp [next, ne_of_isWhite h]

theorem next_bare_of_isBlank {escapes : Char → Bool} (h : isBlank c = true) :
    next escapes .bare c = .bare :=
  next_bare_of_isWhite (isWhite_of_isBlank h)

/-- The splitter and a shell go through the same contexts. -/
theorem cut_eq {t : List Char} {w : Option (List Char)} (hblanks : BlanksOnly m t)
    (hslash : NoSlashEscaped m t) :
    cut isWhite optionEscapes m w t = cut isBlank posixEscapes m w t := by
  induction t generalizing m w with
  | nil => cases m <;> rfl
  | cons c cs ih =>
      by_cases hc : m = .bare ∧ isBlank c = true
      · obtain ⟨rfl, hc⟩ := hc
        have hstay : next posixEscapes .bare c = .bare := next_bare_of_isBlank hc
        have hrest := ih (w := none) hblanks.2 hslash.2
        rw [hstay] at hrest
        rw [cut_separator (isWhite_of_isBlank hc), cut_separator hc, hrest]
      · have hwhite : ¬ (m = .bare ∧ isWhite c = true) := fun h => hc ⟨h.1, hblanks.1 h.1 h.2⟩
        rw [cut_cons hwhite, cut_cons hc, next_eq hslash.1, emit_eq hslash.1]
        exact ih hblanks.2 hslash.2

end Agree

section Apart

def isQuoting (c : Char) : Bool := c = '"' || c = '\'' || c = '\\'

def inDouble : Context → Bool
  | .double | .escapedDouble => true
  | .bare | .single | .escaped => false

def inSingle : Context → Bool
  | .single => true
  | .bare | .double | .escaped | .escapedDouble => false

/-- After a backslash of the shell, and after one of the splitter outside double quotes. -/
def Paired : Context → Context → Prop
  | .escaped, c | .escapedDouble, c => c = .single ∨ c = .escaped ∨ c = .escapedDouble
  | .single, _ => True
  | .bare, c | .double, c => c ≠ .escaped

/-- The splitter has read more into the word than the shell: what it is ahead is made of quotes and backslashes, and
it tells in which quotes one of the two is and the other is not. -/
structure Apart (p c : Context) (ahead : List Char) : Prop where
  quoting : ∀ a ∈ ahead, isQuoting a = true
  double : (ahead.count '"' + (inDouble p).toNat + (inDouble c).toNat) % 2 = 0
  single : (ahead.count '\'' + (inSingle p).toNat + (inSingle c).toNat) % 2 = 0
  paired : Paired p c
  last : (p = .escaped ∨ p = .escapedDouble) → c = .single → ahead.getLast? = some '\\'
  start : ahead = [] → p = .double ∧ c = .escapedDouble

variable {p c : Context} {ahead : List Char} {ch : Char}

theorem isQuoting_iff : isQuoting ch = true ↔ ch = '"' ∨ ch = '\'' ∨ ch = '\\' := by
  simp [isQuoting, or_assoc]

theorem double_step {escapes : Char → Bool} (h : escapes '"' = true) (m : Context) (ch : Char) :
    ((emit escapes m ch).count '"' + (inDouble (next escapes m ch)).toNat + (inDouble m).toNat + [ch].count '"') % 2 = 0 := by
  cases m with
  | bare =>
      by_cases hs : ch = '\'' <;> by_cases hd : ch = '"' <;> by_cases hb : ch = '\\' <;> simp_all [emit, next, inDouble]
  | single => by_cases hs : ch = '\'' <;> by_cases hd : ch = '"' <;> simp_all [emit, next, inDouble]
  | double => by_cases hd : ch = '"' <;> by_cases hb : ch = '\\' <;> simp_all [emit, next, inDouble]
  | escaped => by_cases hd : ch = '"' <;> simp_all [emit, next, inDouble]
  | escapedDouble =>
      by_cases hd : ch = '"' <;> by_cases he : escapes ch = true <;> by_cases hb : ch = '\\' <;> simp_all [emit, next, inDouble]

theorem single_step (escapes : Char → Bool) (m : Context) (ch : Char) :
    ((emit escapes m ch).count '\'' + (inSingle (next escapes m ch)).toNat + (inSingle m).toNat + [ch].count '\'') % 2 = 0 := by
  cases m with
  | bare =>
      by_cases hs : ch = '\'' <;> by_cases hd : ch = '"' <;> by_cases hb : ch = '\\' <;> simp_all [emit, next, inSingle]
  | single => by_cases hs : ch = '\'' <;> simp_all [emit, next, inSingle]
  | double => by_cases hd : ch = '"' <;> by_cases hb : ch = '\\' <;> by_cases hs : ch = '\'' <;> simp_all [emit, next, inSingle]
  | escaped => by_cases hs : ch = '\'' <;> simp_all [emit, next, inSingle]
  | escapedDouble =>
      by_cases hs : ch = '\'' <;> by_cases he : escapes ch = true <;> by_cases hb : ch = '\\' <;> simp_all [emit, next, inSingle]

theorem Paired.step (h : Paired p c) (hch : isQuoting ch = true) :
    Paired (next posixEscapes p ch) (next optionEscapes c ch) := by
  rcases isQuoting_iff.1 hch with rfl | rfl | rfl
  · cases p <;> cases c <;> first | trivial | simp_all [Paired, next, posixEscapes, optionEscapes]
  · cases p <;> cases c <;> first | trivial | simp_all [Paired, next, posixEscapes, optionEscapes]
  · cases p <;> cases c <;> first | trivial | simp_all [Paired, next, posixEscapes, optionEscapes]

theorem quoting_emit {escapes : Char → Bool} (hch : isQuoting ch = true) (m : Context) :
    ∀ a ∈ emit escapes m ch, isQuoting a = true := by
  intro a ha
  have hmem : a = ch ∨ a = '\\' := by
    cases m <;> simp only [emit] at ha <;> (try split_ifs at ha) <;> simp_all [or_comm]
  rcases hmem with rfl | rfl
  · exact hch
  · rfl

/-- The shell never catches up by what it reads from one character. -/
theorem Apart.not_prefix (h : Apart p c ahead) (hch : isQuoting ch = true) :
    ¬ ahead ++ emit optionEscapes c ch <+: emit posixEscapes p ch := by
  intro hprefix
  cases ahead with
  | nil =>
      obtain ⟨rfl, rfl⟩ := h.start rfl
      rcases isQuoting_iff.1 hch with rfl | rfl | rfl
      · simp [emit, optionEscapes] at hprefix
      · simp [emit, optionEscapes] at hprefix
      · simp [emit, optionEscapes] at hprefix
  | cons a rest =>
      -- Where the shell reads one character into the word, the splitter is ahead by that one and has read nothing.
      have hone : emit posixEscapes p ch = [ch] → a = ch ∧ rest = [] ∧ emit optionEscapes c ch = [] := by
        intro hemit
        rw [hemit, List.cons_append, List.cons_prefix_cons, List.prefix_nil,
          List.append_eq_nil_iff] at hprefix
        exact hprefix
      have hescaped : emit optionEscapes .escaped ch ≠ [] := by simp [emit]
      have hslash : emit optionEscapes .escapedDouble ch ≠ [] := by
        rw [emit]
        split_ifs <;> simp
      cases p with
      | bare => rcases isQuoting_iff.1 hch with rfl | rfl | rfl <;> simp [emit] at hprefix
      | escaped =>
          obtain ⟨rfl, rfl, hnone⟩ := hone rfl
          rcases h.paired with rfl | rfl | rfl
          · have hlast := h.last (Or.inl rfl) rfl
            obtain rfl : a = '\\' := by simpa using hlast
            cases hnone
          · exact hescaped hnone
          · exact hslash hnone
      | single =>
          by_cases hq : ch = '\''
          · simp [emit, hq] at hprefix
          · obtain ⟨rfl, rfl, hnone⟩ := hone (by simp [emit, hq])
            have hsingle := h.single
            cases c <;> simp [emit, inSingle, hq] at hnone hsingle
      | double =>
          have hq : ch = '\'' := by
            rcases isQuoting_iff.1 hch with rfl | rfl | rfl
            · simp [emit] at hprefix
            · rfl
            · simp [emit] at hprefix
          obtain ⟨rfl, rfl, hnone⟩ := hone (by simp [emit, hq])
          have hdouble := h.double
          cases c <;> simp [emit, inDouble, hq, optionEscapes] at hnone hdouble
      | escapedDouble =>
          by_cases hq : ch = '\''
          · subst hq
            have hdouble := h.double
            obtain ⟨rfl, htail⟩ := List.cons_prefix_cons.1 hprefix
            have hlength := htail.length_le
            rcases h.paired with rfl | rfl | rfl
            · have hlast := h.last (Or.inr rfl) rfl
              have hrest : rest = [] := by
                rcases List.prefix_cons_iff.1 ((List.prefix_append rest _).trans htail) with hnil | ⟨t, ht, hnil⟩
                · exact hnil
                · rw [List.prefix_nil] at hnil
                  simp [ht, hnil] at hlast
              simp [hrest, inDouble] at hdouble
            · have hrest : rest = [] := by simpa [emit] using hlength
              simp [hrest, inDouble] at hdouble
            · simp [emit, optionEscapes] at hlength
          · obtain ⟨rfl, rfl, hnone⟩ := hone (by
              rcases isQuoting_iff.1 hch with rfl | rfl | rfl
              · rfl
              · exact absurd rfl hq
              · rfl)
            rcases h.paired with rfl | rfl | rfl
            · simp [emit, hq] at hnone
            · exact hescaped hnone
            · exact hslash hnone

theorem pending_next (hch : isQuoting ch = true)
    (h : next posixEscapes p ch = .escaped ∨ next posixEscapes p ch = .escapedDouble) :
    ch = '\\' ∧ emit posixEscapes p ch = [] := by
  rcases isQuoting_iff.1 hch with rfl | rfl | rfl
  · cases p <;> simp [next, posixEscapes] at h
  · cases p <;> simp [next, posixEscapes] at h
  · cases p <;> simp_all [next, posixEscapes, emit]

theorem single_of_next (h : next optionEscapes c '\\' = .single) : c = .single := by
  cases c <;> simp [next, optionEscapes] at h
  rfl

theorem Apart.step (h : Apart p c ahead) (hch : isQuoting ch = true) {v v' : List Char}
    (heq : emit posixEscapes p ch ++ v = ahead ++ emit optionEscapes c ch ++ v') :
    ∃ ahead', ahead ++ emit optionEscapes c ch = emit posixEscapes p ch ++ ahead' ∧
      Apart (next posixEscapes p ch) (next optionEscapes c ch) ahead' := by
  rcases List.append_eq_append_iff.1 heq with ⟨ahead', hahead, -⟩ | ⟨t, ht, -⟩
  · refine ⟨ahead', hahead, ?_⟩
    have hne : ahead' ≠ [] := by
      rintro rfl
      exact h.not_prefix hch (by simp [hahead])
    have hcount : ∀ a, (ahead ++ emit optionEscapes c ch).count a =
        (emit posixEscapes p ch ++ ahead').count a :=
      fun a => by rw [hahead]
    constructor
    · intro a ha
      have hmem : a ∈ ahead ++ emit optionEscapes c ch := hahead ▸ List.mem_append_right _ ha
      rcases List.mem_append.1 hmem with hmem | hmem
      · exact h.quoting a hmem
      · exact quoting_emit hch c a hmem
    · have hp := @double_step posixEscapes rfl p ch
      have hc := @double_step optionEscapes rfl c ch
      have hdouble := h.double
      have hcounts := hcount '"'
      simp only [List.count_append] at hcounts
      omega
    · have hp := single_step posixEscapes p ch
      have hc := single_step optionEscapes c ch
      have hsingle := h.single
      have hcounts := hcount '\''
      simp only [List.count_append] at hcounts
      omega
    · exact h.paired.step hch
    · intro hpending hsingle
      obtain ⟨rfl, hnone⟩ := pending_next hch hpending
      obtain rfl := single_of_next hsingle
      rw [hnone, List.nil_append] at hahead
      rw [← hahead]
      exact List.getLast?_concat
    · exact fun hnil => absurd hnil hne
  · exact absurd ⟨t, ht.symm⟩ (h.not_prefix hch)

theorem emit_ordinary (escapes : Char → Bool) (hch : isQuoting ch = false) (m : Context) :
    emit escapes m ch = [ch] ∨ m = .escapedDouble ∧ escapes ch = false ∧
      emit escapes m ch = ['\\', ch] := by
  have hne : ch ≠ '"' ∧ ch ≠ '\'' ∧ ch ≠ '\\' := by simpa [isQuoting, and_assoc] using hch
  obtain ⟨hdouble, hsingle, hslash⟩ := hne
  cases m with
  | bare | single | double | escaped => simp [emit, *]
  | escapedDouble => cases he : escapes ch <;> simp [emit, *]

/-- An ordinary character is read into the word by both, behind what one of them is ahead. -/
theorem Apart.ordinary (h : Apart p c ahead) (hch : isQuoting ch = false) (hpassive : passive p ch = true)
    (v v' : List Char) :
    emit posixEscapes p ch ++ v ≠ ahead ++ emit optionEscapes c ch ++ v' := by
  intro heq
  have hslash : ch ≠ '\\' := by
    rintro rfl
    cases hch
  cases ahead with
  | nil =>
      obtain ⟨rfl, rfl⟩ := h.start rfl
      have hescapes : optionEscapes ch = false := by
        have hne : ch ≠ '"' := by
          rintro rfl
          cases hch
        have hactive : ch ≠ '$' ∧ ch ≠ '\x60' := by simpa [passive] using hpassive
        simp [optionEscapes, hne, hactive]
      rcases emit_ordinary posixEscapes hch .double with hp | ⟨hp, -⟩
      · have hc : emit optionEscapes .escapedDouble ch = ['\\', ch] := by simp [emit, hescapes, hslash]
        rw [hp, hc] at heq
        exact hslash (List.cons.inj heq).1
      · cases hp
  | cons a rest =>
      have ha := h.quoting a List.mem_cons_self
      rcases emit_ordinary posixEscapes hch p with hp | ⟨rfl, hescapes, hp⟩
      · rw [hp] at heq
        rw [← (List.cons.inj heq).1, hch] at ha
        cases ha
      · rw [hp] at heq
        obtain ⟨hhead, htail⟩ := List.cons.inj heq
        cases rest with
        | cons b rest =>
            have hb := h.quoting b (by simp)
            rw [← (List.cons.inj htail).1, hch] at hb
            cases hb
        | nil =>
            have hoption : optionEscapes ch = false := by rw [optionEscapes_eq hslash, hescapes]
            have hdouble := h.double
            rw [← hhead] at hdouble
            rcases h.paired with rfl | rfl | rfl
            · simp [inDouble] at hdouble
            · simp [inDouble] at hdouble
            · have hc : emit optionEscapes .escapedDouble ch = ['\\', ch] := by
                simp [emit, hoption, hslash]
              rw [hc] at htail
              exact hslash (List.cons.inj htail).1

theorem not_isWhite_of_isQuoting (hch : isQuoting ch = true) : isWhite ch = false := by
  rcases isQuoting_iff.1 hch with rfl | rfl | rfl <;> rfl

/-- Once apart, the splitter and a shell read different words. -/
theorem Apart.cut_ne {t u : List Char} {parts : List (List Char)} (h : Apart p c ahead)
    (hsimple : Simple p t)
    (hposix : cut isBlank posixEscapes p (some u) t = some parts) :
    cut isWhite optionEscapes c (some (u ++ ahead)) t ≠ some parts := by
  intro hoption
  induction t generalizing p c u ahead with
  | nil =>
      cases p with
      | bare =>
          obtain rfl : [u] = parts := Option.some_inj.1 hposix
          obtain ⟨v, rest, hparts⟩ := cut_extends hoption
          obtain ⟨hhead, -⟩ := List.cons.inj hparts
          rw [List.append_assoc, List.self_eq_append_right, List.append_eq_nil_iff] at hhead
          cases (h.start hhead.1).1
      | escaped => exact hsimple rfl
      | single | double | escapedDouble => cases hposix
  | cons ch cs ih =>
      obtain ⟨hfeed, hpassive, hrest⟩ := hsimple
      have hahead : p ≠ .double → ahead ≠ [] := fun hp hnil => hp (h.start hnil).1
      by_cases hblank : p = .bare ∧ isBlank ch = true
      · obtain ⟨rfl, hblank⟩ := hblank
        rw [cut_separator hblank] at hposix
        obtain ⟨rest, -, rfl⟩ := Option.map_eq_some_iff.1 hposix
        obtain ⟨v, rest', hparts⟩ := cut_extends hoption
        obtain ⟨hhead, -⟩ := List.cons.inj hparts
        rw [List.append_assoc, List.self_eq_append_right, List.append_eq_nil_iff] at hhead
        exact hahead (by simp) hhead.1
      · rw [cut_cons hblank, Option.getD_some] at hposix
        obtain ⟨v, rest, rfl⟩ := cut_extends hposix
        by_cases hwhite : c = .bare ∧ isWhite ch = true
        · obtain ⟨rfl, hwhite⟩ := hwhite
          have hch : isQuoting ch = false := by
            rw [Bool.eq_false_iff]
            intro hch
            rw [not_isWhite_of_isQuoting hch] at hwhite
            cases hwhite
          rw [cut_separator hwhite] at hoption
          obtain ⟨rest', -, hparts⟩ := Option.map_eq_some_iff.1 hoption
          have hhead := (List.cons.inj hparts).1
          rw [List.append_assoc] at hhead
          have hmem : ch ∈ ahead := by
            rw [List.append_cancel_left hhead]
            rcases emit_ordinary posixEscapes hch p with hp | ⟨-, -, hp⟩ <;> simp [hp]
          rw [h.quoting ch hmem] at hch
          cases hch
        · rw [cut_cons hwhite, Option.getD_some] at hoption
          obtain ⟨v', rest', hparts⟩ := cut_extends hoption
          have hhead := (List.cons.inj hparts).1
          rw [List.append_assoc, List.append_assoc, List.append_assoc, ← List.append_assoc ahead] at hhead
          have heq := List.append_cancel_left hhead
          cases hch : isQuoting ch with
          | false => exact h.ordinary hch hpassive v v' heq
          | true =>
              obtain ⟨ahead', hstep, hnext⟩ := h.step hch heq
              rw [List.append_assoc, hstep, ← List.append_assoc] at hoption
              exact ih hnext hrest hposix hoption

end Apart

section Split

/-- Where the splitter and a shell read the same words, no other white space separates words and no backslash is escaped
inside double quotes. -/
theorem regular_of_cut {t : List Char} {m : Context} {w : Option (List Char)} {parts : List (List Char)}
    (hsimple : Simple m t)
    (hposix : cut isBlank posixEscapes m w t = some parts)
    (hoption : cut isWhite optionEscapes m w t = some parts) :
    BlanksOnly m t ∧ NoSlashEscaped m t := by
  induction t generalizing m w parts with
  | nil => exact ⟨trivial, trivial⟩
  | cons c cs ih =>
      obtain ⟨hfeed, hpassive, hrest⟩ := hsimple
      by_cases hslash : m = .escapedDouble ∧ c = '\\'
      · obtain ⟨rfl, rfl⟩ := hslash
        have hapart : Apart .double .escapedDouble [] :=
          ⟨by simp, by decide, by decide, by simp [Paired], by simp, by simp⟩
        rw [cut_cons (by simp)] at hposix hoption
        have hne := hapart.cut_ne hrest hposix
        rw [List.append_nil] at hne
        exact absurd hoption hne
      · rw [BlanksOnly, NoSlashEscaped]
        by_cases hblank : m = .bare ∧ isBlank c = true
        · obtain ⟨rfl, hblank⟩ := hblank
          have hstay : next posixEscapes .bare c = .bare := next_bare_of_isBlank hblank
          rw [hstay] at hrest ⊢
          rw [cut_separator hblank] at hposix
          rw [cut_separator (isWhite_of_isBlank hblank)] at hoption
          obtain ⟨rest, hrestp, rfl⟩ := Option.map_eq_some_iff.1 hposix
          obtain ⟨rest', hresto, heq⟩ := Option.map_eq_some_iff.1 hoption
          obtain rfl : rest' = rest := List.append_cancel_left heq
          obtain ⟨hb, hs⟩ := ih hrest hrestp hresto
          exact ⟨⟨fun _ _ => hblank, hb⟩, hslash, hs⟩
        · by_cases hwhite : m = .bare ∧ isWhite c = true
          · obtain ⟨rfl, hwhite⟩ := hwhite
            have hseparator : isBlank c = false := by simpa using hblank
            have hcount := count_cut (ne_of_isWhite hwhite) hseparator hposix
            rw [cut_separator hwhite] at hoption
            obtain ⟨rest, hresto, rfl⟩ := Option.map_eq_some_iff.1 hoption
            have hle := count_cut_le (ne_of_isWhite hwhite) hresto
            have hw : w.toList.flatten = w.getD [] := by cases w <;> simp
            rw [List.flatten_append, List.count_append, hw, List.count_cons_self] at hcount
            rw [Option.getD_none, List.count_nil] at hle
            omega
          · rw [cut_cons hblank] at hposix
            rw [cut_cons hwhite, next_eq hslash, emit_eq hslash] at hoption
            obtain ⟨hb, hs⟩ := ih hrest hposix hoption
            exact ⟨⟨fun hm hw => absurd ⟨hm, hw⟩ hwhite, hb⟩, hslash, hs⟩

theorem foldl_next_eq {t : List Char} {m : Context} (h : NoSlashEscaped m t) :
    t.foldl (next optionEscapes) m = t.foldl (next posixEscapes) m := by
  induction t generalizing m with
  | nil => rfl
  | cons c cs ih => rw [List.foldl_cons, List.foldl_cons, next_eq h.1, ih h.2]

end Split

/-- Options are split as a shell splits them unless a backslash is escaped inside double quotes or a word holds white
space that is no blank. -/
theorem parseDockerOptions_posix_iff (input : String) (hsimple : Simple .bare input.toList) :
    (∀ parts, posixWords input.toList = some parts → (∀ part ∈ parts, flagOf (String.ofList part) ∉ reservedDockerFlags) →
        (parseDockerOptions input = .ok (parts.map String.ofList) ↔ BlanksOnly .bare input.toList ∧ NoSlashEscaped .bare input.toList)) ∧
      (posixWords input.toList = none → NoSlashEscaped .bare input.toList →
        parseDockerOptions input = .error "unclosed quote in the docker options") := by
  constructor
  · intro parts hparts hflags
    constructor
    · intro hok
      refine regular_of_cut hsimple hparts ?_
      rw [parseDockerOptions_eq] at hok
      cases hcut : cut isWhite optionEscapes .bare none input.toList with
      | none => rw [hcut] at hok; cases hok
      | some parts' =>
          rw [hcut] at hok
          dsimp only at hok
          split at hok
          · cases hok
          · have hmap := Except.ok.inj hok
            rw [List.map_injective_iff.2 (fun _ _ => String.ofList_injective) hmap]
    · rintro ⟨hblanks, hslash⟩
      have hnone : ((parts.map String.ofList).find? fun arg => flagOf arg ∈ reservedDockerFlags) = none := by
        rw [List.find?_eq_none]
        intro arg harg
        obtain ⟨part, hpart, rfl⟩ := List.mem_map.1 harg
        simpa using hflags part hpart
      rw [parseDockerOptions_eq, cut_eq hblanks hslash, ← posixWords, hparts]
      dsimp only
      rw [hnone]
  · intro hopen hslash
    have hnone : cut isWhite optionEscapes .bare none input.toList = none := by
      rw [← Option.not_isSome_iff_eq_none, cut_isSome fun c => next_bare_of_isWhite, foldl_next_eq hslash,
        ← cut_isSome (w := none) fun c => next_bare_of_isBlank, ← posixWords, hopen]
      simp
    rw [parseDockerOptions_eq, hnone]

theorem parseDockerOptions_posix_mixed :
    parseDockerOptions "-v 'a b':/x\\ y --label \"q\\\"\"" = .ok (["-v".toList, "a b:/x y".toList, "--label".toList, "q\"".toList].map String.ofList) :=
  ((parseDockerOptions_posix_iff "-v 'a b':/x\\ y --label \"q\\\"\"" (by decide +kernel)).1 _ (by decide +kernel) (by decide +kernel)).2 (by decide +kernel)

/-- In double quotes the splitter does not take a backslash for an escaped one, and then takes the closing quote for one. -/
theorem escaped_slash_unclosed :
    Simple .bare "\"\\\\\"".toList ∧ posixWords "\"\\\\\"".toList = some ["\\".toList] ∧
      parseDockerOptions "\"\\\\\"" = .error "unclosed quote in the docker options" := by
  exact ⟨by decide +kernel, by decide +kernel, rfl⟩

end Yeah.Shell
