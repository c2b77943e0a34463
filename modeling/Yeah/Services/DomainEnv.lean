import Yeah.Compose.Override
import Yeah.Deploy.EnvFile
import Yeah.Environments
import Mathlib.Data.List.TakeWhile
import Mathlib.Data.Bool.AllAny

namespace Yeah.Services

open Compose Deploy Proxy Text

/-- `replace(/[^a-z0-9]+/g, "_")`; after a mark the next ones of its run are dropped. -/
def joinRuns : Bool → List Char → List Char
  | _, [] => []
  | marked, c :: cs =>
      if Environments.isSlugChar c then c :: joinRuns false cs
      else if marked then joinRuns true cs else '_' :: joinRuns true cs

def norm (s : List Char) : List Char := joinRuns false (s.flatMap Environments.lower)

inductive AddressKind
  | fqdn
  | url
  deriving DecidableEq

def AddressKind.stem : AddressKind → List Char
  | .fqdn => "SERVICE_FQDN_".toList
  | .url => "SERVICE_URL_".toList

/-- The bare host, or its address. -/
def AddressKind.address (kind : AddressKind) (host : String) : List Char :=
  match kind with
  | .fqdn => host.toList
  | .url => "https://".toList ++ host.toList

/-- `[A-Z0-9_]` -/
def isNameChar (c : Char) : Bool := c.isUpper || c.isDigit || c = '_'

def readAs (kind : AddressKind) (line : List Char) : Option (AddressKind × List Char × List Char) :=
  let rest := line.drop kind.stem.length
  let name := rest.takeWhile isNameChar
  match rest.dropWhile isNameChar with
  | '=' :: value => if kind.stem <+: line ∧ name ≠ [] then some (kind, name, value) else none
  | _ => none

/-- `^(SERVICE_(FQDN|URL)_([A-Z0-9_]+))=(.*)$`, of which `.` matches line breaks here. -/
def variableOf (line : List Char) : Option (AddressKind × List Char × List Char) :=
  (readAs .fqdn line).or (readAs .url line)

/-- `_(\d+)` up to the end of the name, after a service of one character or more. -/
def portAt (name : List Char) (i : Nat) : Bool :=
  0 < i && (name.drop i).head? = some '_' && name.drop (i + 1) ≠ [] && (name.drop (i + 1)).all Char.isDigit

def cutAt (name : List Char) (i : Nat) : List Char × Option (List Char) :=
  (name.take i, some (name.drop (i + 1)))

/-- `([A-Z0-9_]+?)(?:_(\d+))?` takes as short a service as it can. -/
def serviceAndPort (name : List Char) : List Char × Option (List Char) :=
  match (List.range name.length).find? (portAt name) with
  | some i => cutAt name i
  | none => (name, none)

def hostFor (domains : List StackDomain) (service : List Char) (port : Option (List Char)) :
    Option String :=
  match domains.filter fun d => norm d.service.toList = norm service with
  | [] => none
  | first :: rest => some (((port.bind fun p => (first :: rest).find? fun d => d.port.repr.toList = p).getD first).domain)

/-- One turn of `map`. -/
def syncLine (domains : List StackDomain) (line : List Char) : List Char :=
  match variableOf line with
  | some (kind, name, value) =>
      if value.all fun c => !isLineTerminator c then
        match hostFor domains (serviceAndPort name).1 (serviceAndPort name).2 with
        | some host => kind.stem ++ (name ++ '=' :: kind.address host)
        | none => line
      else line
  | none => line

def syncDomainEnv (envContent : String) (domains : List StackDomain) : String :=
  if domains = [] then envContent
  else String.ofList (['\n'].intercalate ((envContent.toList.splitOn '\n').map (syncLine domains)))

/-! ### What the lines should say -/

/-- A line without its end, and whether a carriage return belongs to the end. -/
abbrev EnvLine := List Char × Bool

def ending (crlf : Bool) : List Char := if crlf then ['\r'] else []

def endedLine (piece : List Char) : EnvLine :=
  if piece.getLast? = some '\r' then (piece.dropLast, true) else (piece, false)

def envLines (text : List Char) : List EnvLine :=
  let pieces := text.splitOn '\n'
  pieces.dropLast.map endedLine ++ pieces.getLast?.toList.map (·, false)

/-- The ways to read a name, the longest service first. -/
def readings (name : List Char) : List (List Char × Option (List Char)) :=
  (name, none) :: (((List.range name.length).filter (portAt name)).reverse.map (cutAt name))

def owner (domains : List StackDomain) (name : List Char) : Option String :=
  (readings name).findSome? fun r => hostFor domains r.1 r.2

def wantedLine (domains : List StackDomain) (line : List Char) : List Char :=
  match variableOf line with
  | some (kind, name, _) =>
      match owner domains name with
      | some host => kind.stem ++ (name ++ '=' :: kind.address host)
      | none => line
  | none => line

/-- The text with the addresses as they should be, its line ends kept. -/
def wantedEnv (envContent : String) (domains : List StackDomain) : String :=
  String.ofList (['\n'].intercalate ((envLines envContent.toList).map fun l => wantedLine domains l.1 ++ ending l.2))

/-- The expression passes the line over: `.` matches no line break, and the carriage return of a line end is one. -/
def Unseen (value : List Char) (crlf : Bool) : Prop :=
  crlf = true ∨ ∃ c ∈ value, isLineTerminator c = true

/-- The name is one of a service and a port. -/
def PortOf (name service port : List Char) : Prop :=
  name = service ++ '_' :: port ∧ service ≠ [] ∧ port ≠ [] ∧ ∀ c ∈ port, c.isDigit = true

/-- The line is seen, and a shorter service before a port gives the same host; or the line holds its address already and is left as it is. -/
def RightFor (domains : List StackDomain) (kind : AddressKind) (name value : List Char) (crlf : Bool)
    (host : String) : Prop :=
  (¬ Unseen value crlf ∧ ∀ service port, PortOf name service port → hostFor domains service (some port) = some host) ∨
    (value = kind.address host ∧
      (Unseen value crlf ∨ ∃ service port, PortOf name service port ∧ hostFor domains service (some port) = none))

def Right (domains : List StackDomain) (l : EnvLine) : Prop :=
  ∀ kind name value host, variableOf l.1 = some (kind, name, value) → owner domains name = some host →
    RightFor domains kind name value l.2 host

section Reading

variable {line name value : List Char} {kind k : AddressKind}

theorem readAs_eq_some : readAs kind line = some (k, name, value) ↔
    k = kind ∧ line = kind.stem ++ (name ++ '=' :: value) ∧ name ≠ [] ∧
      ∀ c ∈ name, isNameChar c = true := by
  simp only [readAs]
  constructor
  · intro h
    split at h
    · next v hv =>
      split_ifs at h with hname
      obtain ⟨⟨rest, rfl⟩, hne⟩ := hname
      rw [List.drop_left] at h hv hne
      simp only [Option.some.injEq, Prod.mk.injEq] at h
      obtain ⟨rfl, rfl, rfl⟩ := h
      exact ⟨rfl, by rw [← hv, List.takeWhile_append_dropWhile], hne,
        fun c hc => List.mem_takeWhile_imp hc⟩
    · cases h
  · rintro ⟨rfl, rfl, hne, hname⟩
    have hend : ∀ c ∈ ('=' :: value).head?, isNameChar c = false := by
      intro c hc
      obtain rfl : '=' = c := by simpa using hc
      decide
    rw [List.drop_left, dropWhile_span hname hend, takeWhile_span hname hend]
    simp [hne]

theorem stem_ne (u v : List Char) : AddressKind.fqdn.stem ++ u ≠ AddressKind.url.stem ++ v := by
  have hfqdn : AddressKind.fqdn.stem = "SERVICE_".toList ++ 'F' :: "QDN_".toList := by decide
  have hurl : AddressKind.url.stem = "SERVICE_".toList ++ 'U' :: "RL_".toList := by decide
  intro h
  rw [hfqdn, hurl, List.append_assoc, List.append_assoc, List.append_cancel_left_eq, List.cons_append,
    List.cons_append, List.cons.injEq] at h
  exact absurd h.1 (by decide)

theorem variableOf_eq_some : variableOf line = some (kind, name, value) ↔
    line = kind.stem ++ (name ++ '=' :: value) ∧ name ≠ [] ∧ ∀ c ∈ name, isNameChar c = true := by
  rw [variableOf, Option.or_eq_some_iff, readAs_eq_some, readAs_eq_some]
  constructor
  · rintro (⟨rfl, h⟩ | ⟨-, rfl, h⟩)
    · exact h
    · exact h
  · intro h
    cases kind with
    | fqdn => exact Or.inl ⟨rfl, h⟩
    | url =>
        refine Or.inr ⟨?_, rfl, h⟩
        rw [Option.eq_none_iff_forall_ne_some]
        rintro ⟨k, n, v⟩ hread
        have hline := (readAs_eq_some.1 hread).2.1
        rw [h.1] at hline
        exact stem_ne _ _ hline.symm

end Reading

section Ports

variable {name : List Char} {i j : Nat}

theorem portAt_iff : portAt name i = true ↔
    ∃ service port, PortOf name service port ∧ service.length = i := by
  simp only [portAt, Bool.and_eq_true, decide_eq_true_eq, List.all_eq_true]
  constructor
  · rintro ⟨⟨⟨hpos, hhead⟩, hne⟩, hdigits⟩
    obtain ⟨port, hport⟩ : ∃ port, name.drop i = '_' :: port := List.head?_eq_some_iff.1 hhead
    have hdrop : name.drop (i + 1) = port := by rw [← List.drop_drop, hport]; rfl
    rw [hdrop] at hne hdigits
    have hlength : i < name.length := by
      by_contra hlong
      rw [List.drop_of_length_le (not_lt.1 hlong)] at hport
      cases hport
    refine ⟨name.take i, port, ⟨by rw [← hport, List.take_append_drop], ?_, hne, hdigits⟩, ?_⟩
    · rw [← List.length_pos_iff, List.length_take]
      omega
    · rw [List.length_take]
      omega
  · rintro ⟨service, port, ⟨rfl, hservice, hport, hdigits⟩, rfl⟩
    have hdrop : (service ++ '_' :: port).drop (service.length + 1) = port := by
      rw [← List.drop_drop, List.drop_left]
      rfl
    rw [hdrop, List.drop_left]
    exact ⟨⟨⟨List.length_pos_iff.2 hservice, rfl⟩, hport⟩, hdigits⟩

/-- A port has no underscore, so there is one place for it. -/
theorem PortOf.unique {service service' port port' : List Char} (h : PortOf name service port)
    (h' : PortOf name service' port') :
    service = service' ∧ port = port' := by
  have hnotMem : ∀ p : List Char, (∀ c ∈ p, c.isDigit = true) → '_' ∉ p.reverse := by
    intro p hp hmem
    have hdigit := hp '_' (List.mem_reverse.1 hmem)
    revert hdigit
    decide
  have hreverse := congrArg List.reverse (h.1.symm.trans h'.1)
  rw [List.reverse_append, List.reverse_append, List.reverse_cons, List.reverse_cons, List.append_assoc,
    List.append_assoc] at hreverse
  obtain ⟨hp, hs⟩ := append_cons_inj_left (hnotMem port h.2.2.2) (hnotMem port' h'.2.2.2) hreverse
  exact ⟨List.reverse_inj.1 hs, List.reverse_inj.1 hp⟩

theorem cutAt_append (service port : List Char) :
    cutAt (service ++ '_' :: port) service.length = (service, some port) := by
  rw [cutAt, List.take_left, ← List.drop_drop, List.drop_left]
  rfl

theorem readings_plain (h : ∀ service port, ¬ PortOf name service port) :
    readings name = [(name, none)] ∧ serviceAndPort name = (name, none) := by
  have hat : ∀ i, portAt name i = false := by
    intro i
    rw [← Bool.not_eq_true, portAt_iff]
    rintro ⟨service, port, hport, -⟩
    exact h service port hport
  have hfilter : (List.range name.length).filter (portAt name) = [] := by simp [hat]
  have hfind : (List.range name.length).find? (portAt name) = none := by simp [hat]
  rw [readings, serviceAndPort, hfilter, hfind]
  exact ⟨rfl, rfl⟩

theorem readings_port {service port : List Char} (h : PortOf name service port) :
    readings name = [(name, none), (service, some port)] ∧
      serviceAndPort name = (service, some port) := by
  have hpred : portAt name = fun i => decide (i = service.length) := by
    funext i
    rw [Bool.eq_iff_iff, portAt_iff, decide_eq_true_eq]
    constructor
    · rintro ⟨service', port', h', rfl⟩
      rw [(h.unique h').1]
    · exact fun hi => ⟨service, port, h, hi.symm⟩
  have hlength : service.length < name.length := by
    rw [h.1]
    simp
  have hfilter : (List.range name.length).filter (portAt name) = [service.length] := by
    rw [hpred, List.filter_eq, List.count_eq_one_of_mem List.nodup_range (List.mem_range.2 hlength)]
    rfl
  have hfind : (List.range name.length).find? (portAt name) = some service.length := by
    rw [← List.head?_filter, hfilter]
    rfl
  rw [readings, serviceAndPort, hfilter, hfind]
  have hcut : cutAt name service.length = (service, some port) := by
    rw [h.1]
    exact cutAt_append service port
  simp [hcut]

end Ports

section Lines

variable {domains : List StackDomain} {line name value : List Char} {kind : AddressKind} {crlf : Bool}

theorem hostFor_valid (h : ∀ d ∈ domains, isValidHostname d.domain = true) {service : List Char}
    {port : Option (List Char)} {host : String}
    (hhost : hostFor domains service port = some host) : isValidHostname host = true := by
  rw [hostFor] at hhost
  split at hhost
  · cases hhost
  · next first rest hown =>
    have hmem : ∀ d ∈ first :: rest, isValidHostname d.domain = true := by
      intro d hd
      rw [← hown] at hd
      exact h d (List.mem_of_mem_filter hd)
    obtain rfl := Option.some.inj hhost
    cases hfind : port.bind fun p => (first :: rest).find? fun d => d.port.repr.toList = p with
    | none => exact hmem first List.mem_cons_self
    | some d =>
        obtain ⟨p, -, hp⟩ := Option.bind_eq_some_iff.1 hfind
        exact hmem d (List.mem_of_find?_eq_some hp)

theorem address_plain {host : String} (h : isValidHostname host = true) (kind : AddressKind) :
    ∀ c ∈ kind.address host, isLineTerminator c = false := by
  have hhost : ∀ c ∈ host.toList, isLineTerminator c = false := by
    intro c hc
    have halnum : c.isAlphanum = true → isLineTerminator c = false := by
      intro hc
      have hrange := keyChar_range (c := c) (by simp [isKeyChar, hc])
      simp only [isLineTerminator, Bool.or_eq_false_iff, decide_eq_false_iff_not]
      omega
    rcases hostText_of_valid h c hc with hc | rfl
    · rcases isAlphanum_of_host hc with hc | rfl
      · exact halnum hc
      · rfl
    · rfl
  cases kind with
  | fqdn => exact hhost
  | url =>
      intro c hc
      rcases List.mem_append.1 hc with hc | hc
      · exact List.all_iff_forall_prop.1 (by decide : "https://".toList.all fun c => isLineTerminator c = false) c hc
      · exact hhost c hc

/-- The carriage return of a line end is part of the value that the expression sees. -/
theorem variableOf_ended (h : variableOf line = some (kind, name, value)) :
    variableOf (line ++ ending crlf) = some (kind, name, value ++ ending crlf) := by
  obtain ⟨rfl, hname⟩ := variableOf_eq_some.1 h
  exact variableOf_eq_some.2 ⟨by simp, hname⟩

theorem variableOf_ended_none (h : variableOf line = none) : variableOf (line ++ ending crlf) = none := by
  cases crlf with
  | false => rwa [ending, if_neg (by decide), List.append_nil]
  | true =>
      rw [Option.eq_none_iff_forall_ne_some]
      rintro ⟨kind, name, value⟩ hread
      obtain ⟨hline, hname⟩ := variableOf_eq_some.1 hread
      have hending : ending true = ['\r'] := rfl
      rw [hending] at hline
      cases value using List.reverseRecOn with
      | nil =>
          have hlast := congrArg List.getLast? hline
          rw [List.getLast?_concat, ← List.append_assoc, List.getLast?_concat] at hlast
          cases hlast
      | append_singleton value c =>
          have hconcat : kind.stem ++ (name ++ '=' :: (value ++ [c])) = kind.stem ++
            (name ++ '=' :: value) ++ [c] := by simp
          rw [hconcat] at hline
          rw [variableOf_eq_some.2 ⟨(List.append_inj' hline rfl).1, hname⟩] at h
          cases h

theorem unseen_iff : (value ++ ending crlf).all (fun c => !isLineTerminator c) = true ↔
    ¬ Unseen value crlf := by
  rw [List.all_append, Bool.and_eq_true, List.all_eq_true, Unseen, not_or]
  cases crlf with
  | false => simp [ending]
  | true => simp [ending, isLineTerminator]

theorem prefixed_inj (scheme : List Char) {host host' : String} :
    scheme ++ host.toList = scheme ++ host'.toList ↔ host = host' := by
  rw [List.append_cancel_left_eq, String.toList_inj]

theorem address_inj {host host' : String} : kind.address host = kind.address host' ↔ host = host' := by
  cases kind with
  | fqdn => exact String.toList_inj
  | url => exact prefixed_inj "https://".toList

theorem portOf_cases (name : List Char) :
    (∀ service port, ¬ PortOf name service port) ∨ ∃ service port, PortOf name service port := by
  by_cases h : ∃ service port, PortOf name service port
  · exact Or.inr h
  · exact Or.inl fun service port hport => h ⟨service, port, hport⟩

/-- Without an owner the short reading has no host either. -/
theorem short_none (h : owner domains name = none) :
    hostFor domains (serviceAndPort name).1 (serviceAndPort name).2 = none := by
  rw [owner, List.findSome?_eq_none_iff] at h
  rcases portOf_cases name with hplain | ⟨service, port, hport⟩
  · rw [(readings_plain hplain).2]
    exact h (name, none) (by simp [(readings_plain hplain).1])
  · rw [(readings_port hport).2]
    exact h (service, some port) (by simp [(readings_port hport).1])

theorem syncLine_owned {host : String} (howner : owner domains name = some host)
    (hread : variableOf line = some (kind, name, value)) :
    syncLine domains (line ++ ending crlf) = kind.stem ++ (name ++ '=' :: kind.address host) ++
      ending crlf ↔
      RightFor domains kind name value crlf host := by
  have hended : variableOf (line ++ ending crlf) = some (kind, name, value ++ ending crlf) :=
    variableOf_ended hread
  obtain ⟨rfl, -⟩ := variableOf_eq_some.1 hread
  have hkept : kind.stem ++ (name ++ '=' :: value) ++ ending crlf = kind.stem ++
    (name ++ '=' :: kind.address host) ++ ending crlf ↔
      value = kind.address host := by simp
  simp only [syncLine, hended]
  by_cases hunseen : Unseen value crlf
  · rw [if_neg (mt unseen_iff.1 (not_not.2 hunseen)), hkept]
    simp [RightFor, hunseen]
  · rw [if_pos (unseen_iff.2 hunseen)]
    have hcrlf : ending crlf = [] := by
      cases crlf with
      | false => rfl
      | true => exact absurd (Or.inl rfl) hunseen
    rw [hcrlf, List.append_nil, List.append_nil] at hkept ⊢
    rcases portOf_cases name with hplain | ⟨service, port, hport⟩
    · obtain ⟨hreadings, hshort⟩ := readings_plain hplain
      have hhost : hostFor domains name none = some host := by simpa [owner, hreadings] using howner
      simp only [hshort, hhost, true_iff]
      exact Or.inl ⟨hunseen, fun service port hport => absurd hport (hplain service port)⟩
    · obtain ⟨-, hshort⟩ := readings_port hport
      simp only [hshort]
      have hall : (∀ s p, PortOf name s p → hostFor domains s (some p) = some host) ↔
        hostFor domains service (some port) = some host := by
        constructor
        · exact fun h => h service port hport
        · intro h s p hp
          obtain ⟨rfl, rfl⟩ := hport.unique hp
          exact h
      have hany : (∃ s p, PortOf name s p ∧ hostFor domains s (some p) = none) ↔
        hostFor domains service (some port) = none := by
        constructor
        · rintro ⟨s, p, hp, h⟩
          obtain ⟨rfl, rfl⟩ := hport.unique hp
          exact h
        · exact fun h => ⟨service, port, hport, h⟩
      rw [RightFor, hall, hany]
      cases hhost : hostFor domains service (some port) with
      | none => simp [hunseen, hkept]
      | some other =>
          have hset : kind.stem ++ (name ++ '=' :: kind.address other) = kind.stem ++
            (name ++ '=' :: kind.address host) ↔ other = host := by
            simp [address_inj]
          simp [hunseen, hset]

theorem syncLine_eq_iff (domains : List StackDomain) (l : EnvLine) :
    syncLine domains (l.1 ++ ending l.2) = wantedLine domains l.1 ++ ending l.2 ↔ Right domains l := by
  obtain ⟨line, crlf⟩ := l
  simp only [Right]
  cases hread : variableOf line with
  | none => simp [syncLine, wantedLine, hread, variableOf_ended_none hread]
  | some v =>
      obtain ⟨kind, name, value⟩ := v
      cases howner : owner domains name with
      | none =>
          simp only [syncLine, wantedLine, hread, howner, variableOf_ended hread, short_none howner,
            ite_self, true_iff]
          rintro k n v host hvariable howner'
          simp only [Option.some.injEq, Prod.mk.injEq] at hvariable
          obtain ⟨rfl, rfl, rfl⟩ := hvariable
          rw [howner] at howner'
          cases howner'
      | some host =>
          simp only [wantedLine, hread, howner]
          rw [syncLine_owned howner hread]
          constructor
          · rintro h k n v host' hvariable howner'
            simp only [Option.some.injEq, Prod.mk.injEq] at hvariable
            obtain ⟨rfl, rfl, rfl⟩ := hvariable
            rw [howner, Option.some.injEq] at howner'
            exact howner' ▸ h
          · exact fun h => h kind name value host rfl howner

theorem syncLine_cases (domains : List StackDomain) (line : List Char) : syncLine domains line = line ∨
    ∃ kind name value service port host, variableOf line = some (kind, name, value) ∧
      serviceAndPort name = (service, port) ∧
      hostFor domains service port = some host ∧
        syncLine domains line = kind.stem ++ (name ++ '=' :: kind.address host) := by
  rw [syncLine]
  cases hread : variableOf line with
  | none => exact Or.inl rfl
  | some v =>
      obtain ⟨kind, name, value⟩ := v
      dsimp only
      split_ifs with hplain
      · cases hhost : hostFor domains (serviceAndPort name).1 (serviceAndPort name).2 with
        | none => exact Or.inl rfl
        | some host => exact Or.inr ⟨kind, name, value, _, _, host, rfl, rfl, hhost, rfl⟩
      · exact Or.inl rfl

theorem syncLine_syncLine (hvalid : ∀ d ∈ domains, isValidHostname d.domain = true) (line : List Char) :
    syncLine domains (syncLine domains line) = syncLine domains line := by
  rcases syncLine_cases domains line with hkept | ⟨kind, name, value, service, port, host, hread, hshort, hhost, hset⟩
  · rw [hkept, hkept]
  · have hname := (variableOf_eq_some.1 hread).2
    have hagain : variableOf (kind.stem ++ (name ++ '=' :: kind.address host)) =
        some (kind, name, kind.address host) :=
      variableOf_eq_some.2 ⟨rfl, hname⟩
    have hplain : (kind.address host).all (fun c => !isLineTerminator c) = true := by
      rw [List.all_eq_true]
      intro c hc
      rw [address_plain (hostFor_valid hvalid hhost) kind c hc]
      rfl
    rw [hset, syncLine]
    simp only [hagain, hplain, hshort, hhost, if_true]

theorem variable_no_feed (hname : ∀ c ∈ name, isNameChar c = true) {host : String}
    (hhost : isValidHostname host = true) :
    '\n' ∉ kind.stem ++ (name ++ '=' :: kind.address host) := by
  have hstem : '\n' ∉ kind.stem := by cases kind <;> decide
  rw [List.mem_append, List.mem_append, List.mem_cons]
  rintro (h | h | h | h)
  · exact hstem h
  · exact absurd (hname _ h) (by decide)
  · cases h
  · exact absurd (address_plain hhost kind _ h) (by decide)

theorem syncLine_no_feed (hvalid : ∀ d ∈ domains, isValidHostname d.domain = true) (h : '\n' ∉ line) :
    '\n' ∉ syncLine domains line := by
  rcases syncLine_cases domains line with hkept | ⟨kind, name, value, service, port, host, hread, hshort, hhost, hset⟩
  · rwa [hkept]
  · rw [hset]
    exact variable_no_feed (variableOf_eq_some.1 hread).2.2 (hostFor_valid hvalid hhost)

theorem wantedLine_no_feed (hvalid : ∀ d ∈ domains, isValidHostname d.domain = true) (h : '\n' ∉ line) :
    '\n' ∉ wantedLine domains line := by
  rw [wantedLine]
  cases hread : variableOf line with
  | none => exact h
  | some v =>
      obtain ⟨kind, name, value⟩ := v
      dsimp only
      cases howner : owner domains name with
      | none => exact h
      | some host =>
          obtain ⟨r, -, hhost⟩ := List.exists_of_findSome?_eq_some howner
          exact variable_no_feed (variableOf_eq_some.1 hread).2.2 (hostFor_valid hvalid hhost)

end Lines

section Texts

variable {domains : List StackDomain} {text : String}

theorem endedLine_append (piece : List Char) :
    (endedLine piece).1 ++ ending (endedLine piece).2 = piece := by
  rw [endedLine]
  split_ifs with h
  · obtain ⟨front, rfl⟩ := List.getLast?_eq_some_iff.1 h
    simp [ending]
  · simp [ending]

theorem envLines_append (text : List Char) :
    (envLines text).map (fun l => l.1 ++ ending l.2) = text.splitOn '\n' := by
  have hne := List.splitOn_ne_nil '\n' text
  conv_rhs => rw [← List.dropLast_append_getLast hne]
  rw [envLines, List.map_append, List.map_map, List.getLast?_eq_some_getLast hne]
  congr 1
  · conv_rhs => rw [← List.map_id (text.splitOn '\n').dropLast]
    exact List.map_congr_left fun piece _ => endedLine_append piece
  · simp [ending]

theorem syncDomainEnv_toList (text : String) (domains : List StackDomain) :
    (syncDomainEnv text domains).toList = ['\n'].intercalate ((text.toList.splitOn '\n').map (syncLine domains)) := by
  rw [syncDomainEnv]
  split_ifs with hnil
  · have hkept : ∀ line, syncLine [] line = line := by
      intro line
      rcases syncLine_cases [] line with h | ⟨_, _, _, _, _, _, -, -, hhost, -⟩
      · exact h
      · cases hhost
    rw [hnil, List.map_congr_left fun line _ => hkept line, List.map_id', List.intercalate_splitOn]
  · exact String.toList_ofList

theorem syncDomainEnv_pieces (hvalid : ∀ d ∈ domains, isValidHostname d.domain = true) (text : String) :
    (syncDomainEnv text domains).toList.splitOn '\n' = (text.toList.splitOn '\n').map (syncLine domains) := by
  rw [syncDomainEnv_toList, List.splitOn_intercalate]
  · rintro piece hpiece
    obtain ⟨line, hline, rfl⟩ := List.mem_map.1 hpiece
    exact syncLine_no_feed hvalid (notMem_of_mem_splitOn hline)
  · simp [List.splitOn_ne_nil]

theorem syncDomainEnv_idem (hvalid : ∀ d ∈ domains, isValidHostname d.domain = true) (text : String) :
    syncDomainEnv (syncDomainEnv text domains) domains = syncDomainEnv text domains := by
  rw [← String.toList_inj, syncDomainEnv_toList, syncDomainEnv_pieces hvalid, syncDomainEnv_toList,
    List.map_map]
  congr 1
  exact List.map_congr_left fun line _ => syncLine_syncLine hvalid line

theorem envLines_no_feed {l : EnvLine} {text : List Char} (hl : l ∈ envLines text) : '\n' ∉ l.1 := by
  intro h
  have hpiece : l.1 ++ ending l.2 ∈ text.splitOn '\n' := by
    rw [← envLines_append]
    exact List.mem_map_of_mem hl
  exact notMem_of_mem_splitOn hpiece (List.mem_append_left _ h)

theorem wantedEnv_pieces (hvalid : ∀ d ∈ domains, isValidHostname d.domain = true) (text : String) :
    (wantedEnv text domains).toList.splitOn '\n' = (envLines text.toList).map fun l => wantedLine domains l.1 ++ ending l.2 := by
  rw [wantedEnv, String.toList_ofList, List.splitOn_intercalate]
  · rintro piece hpiece
    obtain ⟨l, hl, rfl⟩ := List.mem_map.1 hpiece
    rw [List.mem_append, not_or]
    refine ⟨wantedLine_no_feed hvalid (envLines_no_feed hl), ?_⟩
    cases l.2 <;> decide
  · intro hnil
    rw [List.map_eq_nil_iff] at hnil
    have hpieces := envLines_append text.toList
    rw [hnil] at hpieces
    exact List.splitOn_ne_nil _ _ hpieces.symm

theorem splitOn_inj {s t : String} : s.toList.splitOn '\n' = t.toList.splitOn '\n' ↔ s = t := by
  constructor
  · intro h
    have hs : s.toList = ['\n'].intercalate (s.toList.splitOn '\n') :=
      (List.intercalate_splitOn '\n').symm
    rw [← String.toList_inj, hs, h, List.intercalate_splitOn]
  · rintro rfl
    rfl

/-- Saving domains sets the lines as it should, and twice as once, unless a line is passed over or a shorter service takes it. -/
theorem syncDomainEnv_iff (text : String) (domains : List StackDomain)
    (hvalid : ∀ d ∈ domains, isValidHostname d.domain = true) :
    (syncDomainEnv text domains = wantedEnv text domains ∧ syncDomainEnv (syncDomainEnv text domains) domains = syncDomainEnv text domains) ↔
      ∀ l ∈ envLines text.toList, Right domains l := by
  rw [and_iff_left (syncDomainEnv_idem hvalid text), ← splitOn_inj, syncDomainEnv_pieces hvalid, wantedEnv_pieces hvalid, ← envLines_append,
    List.map_map, List.map_inj_left]
  exact forall₂_congr fun l _ => syncLine_eq_iff domains l

theorem syncDomainEnv_api :
    syncDomainEnv "SERVICE_URL_API_3000=x\nA=1" [⟨"api", "a.example.com", 80⟩, ⟨"api", "b.example.com", 3000⟩] = "SERVICE_URL_API_3000=https://b.example.com\nA=1" ∧
      ∀ l ∈ envLines "SERVICE_URL_API_3000=x\nA=1".toList, Right [⟨"api", "a.example.com", 80⟩, ⟨"api", "b.example.com", 3000⟩] l := by
  have hvalid : ∀ d ∈ [StackDomain.mk "api" "a.example.com" 80, ⟨"api", "b.example.com", 3000⟩], isValidHostname d.domain = true := by
    decide +kernel
  exact ⟨by decide +kernel, (syncDomainEnv_iff "SERVICE_URL_API_3000=x\nA=1" _ hvalid).1 ⟨by decide +kernel, by decide +kernel⟩⟩

/-- A line of a file with the other line ends, and a service that is called web-2. -/
theorem domain_lines_missed :
    syncDomainEnv "SERVICE_FQDN_WEB=x\r\n" [⟨"web", "web.example.com", 80⟩] = "SERVICE_FQDN_WEB=x\r\n" ∧
    wantedEnv "SERVICE_FQDN_WEB=x\r\n" [⟨"web", "web.example.com", 80⟩] = "SERVICE_FQDN_WEB=web.example.com\r\n" ∧
    syncDomainEnv "SERVICE_FQDN_WEB_2=x" [⟨"web", "web.example.com", 80⟩, ⟨"web-2", "two.example.com", 80⟩] = "SERVICE_FQDN_WEB_2=web.example.com" ∧
    wantedEnv "SERVICE_FQDN_WEB_2=x" [⟨"web", "web.example.com", 80⟩, ⟨"web-2", "two.example.com", 80⟩] = "SERVICE_FQDN_WEB_2=two.example.com" ∧
    ¬ ∀ (text : String) (domains : List StackDomain), (∀ d ∈ domains, isValidHostname d.domain = true) →
      syncDomainEnv text domains = wantedEnv text domains ∧
        syncDomainEnv (syncDomainEnv text domains) domains = syncDomainEnv text domains := by
  have hkept : syncDomainEnv "SERVICE_FQDN_WEB=x\r\n" [⟨"web", "web.example.com", 80⟩] =
      "SERVICE_FQDN_WEB=x\r\n" := by
    decide +kernel
  have hwanted : wantedEnv "SERVICE_FQDN_WEB=x\r\n" [⟨"web", "web.example.com", 80⟩] =
      "SERVICE_FQDN_WEB=web.example.com\r\n" := by
    decide +kernel
  refine ⟨hkept, hwanted, by decide +kernel, by decide +kernel, fun hclaim => ?_⟩
  have hsame := (hclaim "SERVICE_FQDN_WEB=x\r\n" [⟨"web", "web.example.com", 80⟩] (by decide +kernel)).1
  rw [hkept, hwanted] at hsame
  revert hsame
  decide

end Texts

end Yeah.Services
