import Yeah.Compose.Interpolate
import Yeah.Proxy.Agree
import Yeah.Tables
import Yeah.Text.Replace

namespace Yeah.Compose

open Yaml Proxy Text

/-- `/^[a-zA-Z0-9][a-zA-Z0-9._-]{0,63}$/` -/
def isValidComposeService (name : String) : Bool :=
  name.length ≤ 64 && name.toList.head?.any Char.isAlphanum && name.toList.all fun c => c.isAlphanum || c ∈ ['.', '_', '-']

/-- `JSON.stringify` -/
def stringify (s : String) : String := "\"" ++ String.ofList (jsonBody s.toList) ++ "\""

/-- `s.split("$").join(sep)` -/
def splitJoin (sep s : String) : String := sep.intercalate ((s.toList.splitOn '$').map String.ofList)

/-- The override that routes a service of an application's compose file through the proxy. -/
def composeProxyOverride (service : String) (labels : List String) : String :=
  let q := stringify
  "\n".intercalate ([ "services:", "  " ++ service ++ ":", "    networks:", "      - default", "      - " ++ q PROXY_NETWORK_NAME, "    labels:" ] ++
    (labels.map fun l => "      - " ++ q (splitJoin "$" l)) ++
    [ "networks:", "  " ++ q PROXY_NETWORK_NAME ++ ":", "    external: true", "" ])

structure StackDomain where
  service : String
  domain : String
  port : Nat
  deriving DecidableEq

/-- A service of a compose file, and whether it has a `network_mode`. -/
structure StackService where
  name : String
  networkMode : Bool
  deriving DecidableEq

/-- The services of a compose file that `parseComposeStack` accepts: the keys of an object. -/
structure Stack where
  services : List StackService
  valid : ∀ s ∈ services, isValidComposeService s.name = true
  nodup : (services.map (·.name)).Nodup

def stackProject (serviceId : Uuid) : String := "yeah-svc-" ++ serviceId.text

section Override

variable (lower : String → String)

def routedServices (services : List StackService) (domains : List StackDomain) : List StackService :=
  services.filter fun s => !s.networkMode && domains.any fun d => d.service = s.name

def domainLabels (project name : String) (d : StackDomain × Nat) : List String :=
  traefikLabels (project ++ "-" ++ name ++ "-" ++ d.2.repr) (computeRouting (normalizeHost lower d.1.domain) [] .none) d.1.port

def stackLabels (project : String) (domains : List StackDomain) (name : String) : List String :=
  (domains.zipIdx.filter fun d => d.1.service = name).flatMap (domainLabels lower project name)

def composeStackOverride (services : List StackService) (project : String)
    (domains : List StackDomain) : String :=
  let q (s : String) := stringify (splitJoin "$$" s)
  let routed := routedServices services domains
  if routed = [] then "services: \x7b\x7d\n"
  else
    "\n".intercalate (["services:"] ++
      (routed.flatMap fun s =>
        [ "  " ++ s.name ++ ":", "    networks:", "      default: \x7b\x7d", "      " ++ q PROXY_NETWORK_NAME ++ ": \x7b\x7d", "    labels:" ] ++
          (stackLabels lower project domains s.name).map fun l => "      - " ++ q l) ++
      [ "networks:", "  " ++ q PROXY_NETWORK_NAME ++ ":", "    external: true", "" ])

end Override

/-! ### What Compose reads -/

def labelsOf (t : Node) (service : String) : Option (List String) :=
  (((t.get "services").bind (·.get service)).bind (·.get "labels")).bind Node.strs

def composeLabels (env : List Char → List Char) (text service : String) : Option (List String) :=
  ((parse text.toList).bind (labelsOf · service)).bind
    (·.mapM fun l => (interpolate env .text l.toList).map String.ofList)

/-! ### The document that is written -/

def attachDoc (networks : Node) (labels : List String) : Node :=
  .mapOf [("networks", networks), ("labels", .seqOf ((labels.map Raw.json).map .scalar))]

/-- A list of networks, in the two ways that Compose knows. -/
def networkList : Node := .seqOf ([.plain "default".toList, .json PROXY_NETWORK_NAME].map .scalar)

def networkMap : Node :=
  .map (.ofList [(.plain "default".toList, .map .nil), (.json PROXY_NETWORK_NAME, .map .nil)])

def proxyNetwork : Node :=
  .map (.ofList [(.json PROXY_NETWORK_NAME, .mapOf [("external", .word "true")])])

/-- The services with their labels, each on the networks `n`. -/
def overrideDoc (n : Node) (services : List (String × List String)) : Node :=
  .mapOf [("services", .mapOf (services.map fun e => (e.1, attachDoc n e.2))), ("networks", proxyNetwork)]

theorem toList_splitJoin (sep s : String) :
    (splitJoin sep s).toList = s.toList.flatMap fun c => if c = '$' then sep.toList else [c] := by
  rw [splitJoin, String.toList_intercalate, List.map_map, ← intercalate_splitOn_sep]
  simp [Function.comp_def]

theorem splitJoin_once (s : String) : splitJoin "$" s = s := by
  rw [← String.toList_inj, toList_splitJoin]
  have hsame : (fun c => if c = '$' then "$".toList else [c]) = fun c => [c] := by
    funext c
    split_ifs with hc
    · rw [hc]
      rfl
    · rfl
  rw [hsame, List.flatMap_singleton']

theorem splitJoin_twice (s : String) : (splitJoin "$$" s).toList = escapeDollar s.toList :=
  toList_splitJoin "$$" s

/-- A way to name the networks. -/
structure Networks (n : Node) : Prop where
  printable : n.Printable
  below : n.Below
  sound : n.sound = true
  height : n.height ≤ 2

theorem networks_list : Networks networkList := by
  have hvalue : ∀ r ∈ [Raw.plain "default".toList, Raw.json PROXY_NETWORK_NAME], r.Good ∧
    r.value.isSome = true := by
    intro r hr
    simp only [List.mem_cons, List.not_mem_nil, or_false] at hr
    rcases hr with rfl | rfl
    · exact ⟨(by decide : isPlain "default".toList = true), by decide⟩
    · exact ⟨good_json _, by rw [value_json]; rfl⟩
  refine ⟨printable_scalars (fun r hr => (hvalue r hr).1) (by simp), trivial,
    sound_scalars fun r hr => (hvalue r hr).2, ?_⟩
  rw [networkList, height_scalars]
  decide

theorem networks_map : Networks networkMap := by
  refine ⟨printable_fields fun e he => ?_, by nofun, ?_, ?_⟩
  · simp only [List.mem_cons, List.not_mem_nil, or_false] at he
    rcases he with rfl | rfl
    · exact ⟨(by decide : isPlain "default".toList = true), trivial⟩
    · exact ⟨good_json _, trivial⟩
  · rw [networkMap, sound_fields]
    simp only [List.map_cons, List.map_nil, value_json]
    decide
  · decide

section Document

variable {n : Node}

theorem lines_attachDoc (hn : n.Below) (labels : List String) :
    (attachDoc n labels).lines 4 =
      (4, "networks:".toList) :: (n.lines 6 ++ (4, "labels:".toList) :: labels.map fun l => (6, '-' :: ' ' :: (Raw.json l).text)) := by
  have hlabels : (Node.seqOf ((labels.map Raw.json).map .scalar)).lines (4 + 2) =
      labels.map fun l => (6, '-' :: ' ' :: (Raw.json l).text) := by
    rw [lines_scalars, List.map_map]
    rfl
  have hhead :=
    head_below (.plain "labels".toList) (v := .seqOf ((labels.map Raw.json).map .scalar)) trivial
  rw [attachDoc, Node.mapOf, lines_fields]
  simp only [List.map_cons, List.map_nil, List.flatMap_cons, List.flatMap_nil, List.append_nil,
    head_below _ hn, hhead, hlabels]
  rfl

theorem lines_overrideDoc {services : List (String × List String)} (hne : services ≠ []) :
    (overrideDoc n services).lines 0 =
      (0, "services:".toList) :: ((services.flatMap fun e => (2, e.1.toList ++ [':']) :: (attachDoc n e.2).lines 4) ++
        [(0, "networks:".toList), (2, (Raw.json PROXY_NETWORK_NAME).text ++ [':']), (4, "external: true".toList)]) := by
  have hbelow : (Node.mapOf (services.map fun e => (e.1, attachDoc n e.2))).Below := by
    obtain ⟨e, l, rfl⟩ := List.exists_cons_of_ne_nil hne
    intro hnil
    cases hnil
  have hservices : (Node.mapOf (services.map fun e => (e.1, attachDoc n e.2))).lines 2 =
      services.flatMap fun e => (2, e.1.toList ++ [':']) :: (attachDoc n e.2).lines 4 := by
    rw [Node.mapOf, lines_fields, List.map_map, List.flatMap_map]
    refine List.flatMap_congr fun e _ => ?_
    have hattach : (attachDoc n e.2).Below := by
      intro hnil
      cases hnil
    rw [Function.comp_apply, head_below _ hattach]
    rfl
  rw [overrideDoc, Node.mapOf, lines_fields]
  simp only [List.map_cons, List.map_nil, List.flatMap_cons, List.flatMap_nil, List.append_nil,
    head_below _ hbelow, hservices]
  rfl

theorem isPlain_of_service {name : String} (h : isValidComposeService name = true) :
    isPlain name.toList = true := by
  simp only [isValidComposeService, Bool.and_eq_true] at h
  refine isPlain_of_word (fun c hc => ?_) h.1.2
  have := List.all_eq_true.1 h.2 c hc
  simp only [List.mem_cons, List.not_mem_nil, or_false, Bool.or_eq_true, decide_eq_true_eq] at this
  rcases this with ha | rfl | rfl | rfl
  · simp [isWordChar, ha]
  all_goals decide

theorem printable_attachDoc (hn : Networks n) {labels : List String} (hne : labels ≠ []) :
    (attachDoc n labels).Printable := by
  refine printable_mapOf fun e he => ?_
  simp only [List.mem_cons, List.not_mem_nil, or_false] at he
  rcases he with rfl | rfl
  · exact ⟨(by decide : isPlain "networks".toList = true), hn.printable⟩
  · refine ⟨(by decide : isPlain "labels".toList = true),
      printable_scalars (fun r hr => ?_) (by simpa using hne)⟩
    obtain ⟨l, -, rfl⟩ := List.mem_map.1 hr
    exact good_json l

theorem sound_attachDoc (hn : Networks n) (labels : List String) : (attachDoc n labels).sound = true := by
  have hlabels : (Node.seqOf ((labels.map Raw.json).map .scalar)).sound = true :=
    sound_scalars fun r hr => by
    obtain ⟨l, -, rfl⟩ := List.mem_map.1 hr
    rw [value_json]
    rfl
  rw [attachDoc, sound_mapOf _ (Word.keys ["networks", "labels"] rfl (by decide))]
  simp only [List.map_cons, List.map_nil, List.all_cons, List.all_nil, hn.sound, hlabels]
  decide

theorem height_attachDoc (hn : Networks n) (labels : List String) : (attachDoc n labels).height ≤ 3 := by
  refine height_fields fun e he => ?_
  simp only [List.map_cons, List.map_nil, List.mem_cons, List.not_mem_nil, or_false] at he
  rcases he with rfl | rfl
  · exact hn.height
  · rw [height_scalars]
    decide

/-- The services of an override: with their labels, under the names that a compose file may have. -/
structure Attached (services : List (String × List String)) : Prop where
  ne_nil : services ≠ []
  valid : ∀ e ∈ services, isValidComposeService e.1 = true
  nodup : (services.map (·.1)).Nodup
  labels : ∀ e ∈ services, e.2 ≠ []

theorem parse_overrideDoc (hn : Networks n) {services : List (String × List String)}
    (h : Attached services) :
    parse (textOf ((overrideDoc n services).lines 0)) = some (overrideDoc n services) := by
  have hprintable : (Node.mapOf (services.map fun e => (e.1, attachDoc n e.2))).Printable :=
    printable_mapOf fun e he => by
    obtain ⟨f, hf, rfl⟩ := List.mem_map.1 he
    exact ⟨isPlain_of_service (h.valid f hf), printable_attachDoc hn (h.labels f hf)⟩
  have hsound : (Node.mapOf (services.map fun e => (e.1, attachDoc n e.2))).sound = true := by
    have hkeys : ((services.map (·.1)).map fun s => (Raw.plain s.toList).value).Nodup :=
      h.nodup.map fun s t => value_plain_inj
    rw [Node.mapOf, sound_fields, Bool.and_eq_true, decide_eq_true_eq, List.map_map, List.map_map]
    rw [List.map_map] at hkeys
    refine ⟨hkeys, List.all_eq_true.2 fun e he => ?_⟩
    simp only [List.map_map, List.mem_map, Function.comp] at he
    obtain ⟨f, -, rfl⟩ := he
    simp [Raw.value, sound_attachDoc hn]
  have hheight : (Node.mapOf (services.map fun e => (e.1, attachDoc n e.2))).height ≤ 4 :=
    height_fields fun e he => by
    simp only [List.map_map, List.mem_map, Function.comp] at he
    obtain ⟨f, -, rfl⟩ := he
    exact height_attachDoc hn f.2
  have hproxy : proxyNetwork.Printable ∧ proxyNetwork.sound = true ∧ proxyNetwork.height ≤ 4 := by
    refine ⟨printable_fields fun e he => ?_, ?_, by decide⟩
    · rw [List.mem_singleton.1 he]
      exact ⟨good_json _, printable_mapOf fun e he => by
        rw [List.mem_singleton.1 he]
        exact ⟨by decide, (by decide : isPlain "true".toList = true)⟩⟩
    · rw [proxyNetwork, sound_fields]
      simp only [List.map_cons, List.map_nil, List.all_cons, List.all_nil, value_json]
      decide
  rw [parse_textOf, if_pos]
  · rw [overrideDoc, sound_mapOf _ (Word.keys ["services", "networks"] rfl (by decide))]
    simp [hsound, hproxy.2.1]
  · refine printable_mapOf fun e he => ?_
    simp only [List.mem_cons, List.not_mem_nil, or_false] at he
    rcases he with rfl | rfl
    · exact ⟨(by decide : isPlain "services".toList = true), hprintable⟩
    · exact ⟨(by decide : isPlain "networks".toList = true), hproxy.1⟩
  · intro hnil
    cases hnil
  · have htop : (overrideDoc n services).height ≤ 5 := height_fields fun e he => by
      simp only [List.map_cons, List.map_nil, List.mem_cons, List.not_mem_nil, or_false] at he
      rcases he with rfl | rfl
      · exact hheight
      · exact hproxy.2.2
    exact htop.trans (by decide)

theorem labelsOf_overrideDoc (services : List (String × List String)) (service : String) :
    labelsOf (overrideDoc n services) service =
      if isOther service.toList then none else (services.find? fun e => e.1 = service).map (·.2) := by
  have hservices : (overrideDoc n services).get "services" =
      some (.mapOf (services.map fun e => (e.1, attachDoc n e.2))) :=
    get_mapOf (Word.keys ["services", "networks"] rfl (by decide)) _
  have hlabels (labels : List String) : ((attachDoc n labels).get "labels").bind Node.strs = some labels := by
    rw [attachDoc, get_mapOf (Word.keys ["networks", "labels"] rfl (by decide))]
    have := strs_scalars Raw.json id labels fun l _ => value_json l
    simpa using this
  rw [labelsOf, hservices, Option.bind_some, get_plain]
  split_ifs with hs
  · rfl
  · rw [List.find?_map, Option.map_map]
    change (((services.find? fun e => e.1 = service).map fun e => attachDoc n e.2).bind _).bind _ = _
    cases services.find? fun e => e.1 = service with
    | none => rfl
    | some e => exact hlabels e.2

end Document

section ReadBack

theorem labels_ne_nil (name : String) (routing : Routing) (port : Nat) :
    traefikLabels name routing port ≠ [] := by
  rw [traefikLabels]
  exact List.cons_ne_nil _ _

theorem intercalate_blank {lines : List String} {ls : List Line}
    (h : lines.map String.toList = ls.map lineText) :
    ("\n".intercalate (lines ++ [""])).toList = textOf ls := by
  have hnl : "\n".toList = ['\n'] := rfl
  rw [String.toList_intercalate, List.map_append, h, hnl]
  rfl

theorem networks_blank (a b : List String) (c : String) :
    a ++ b ++ ["networks:", c, "    external: true", ""] = (a ++ b ++ ["networks:", c, "    external: true"]) ++ [""] := by
  simp

theorem toList_composeProxyOverride (service : String) (labels : List String) :
    (composeProxyOverride service labels).toList = textOf ((overrideDoc networkList [(service, labels)]).lines 0) := by
  rw [composeProxyOverride, networks_blank]
  refine intercalate_blank ?_
  rw [lines_overrideDoc (by simp), List.flatMap_cons, List.flatMap_nil,
    lines_attachDoc networks_list.below]
  simp [splitJoin_once, lineText, List.replicate, networkList, Node.seqOf, Items.ofList, Node.lines,
    Items.lines, stringify, Raw.text, Raw.json, Function.comp_def]

/-- What the stack's override says of its routed services. -/
def stackAttached (lower : String → String) (services : List StackService) (project : String)
    (domains : List StackDomain) :
    List (String × List String) :=
  (routedServices services domains).map fun s => (s.name, (stackLabels lower project domains s.name).map (splitJoin "$$"))

theorem toList_composeStackOverride (lower : String → String) (services : List StackService)
    (project : String) (domains : List StackDomain)
    (hne : routedServices services domains ≠ []) :
    (composeStackOverride lower services project domains).toList =
      textOf ((overrideDoc networkMap (stackAttached lower services project domains)).lines 0) := by
  have hq : splitJoin "$$" PROXY_NETWORK_NAME = PROXY_NETWORK_NAME := by decide
  rw [composeStackOverride]
  dsimp only
  rw [if_neg hne, networks_blank]
  refine intercalate_blank ?_
  rw [lines_overrideDoc (by simpa [stackAttached] using hne), stackAttached, List.flatMap_map]
  simp only [lines_attachDoc networks_map.below]
  simp [hq, lineText, List.replicate, networkMap, Fields.ofList, Node.lines, Fields.lines, head, stringify, Raw.text, Raw.json, Function.comp_def,
    List.map_flatMap]

theorem attached_proxy {service : String} (h : isValidComposeService service = true) {labels : List String}
    (hne : labels ≠ []) :
    Attached [(service, labels)] where
  ne_nil := by simp
  valid e he := by
    rw [List.mem_singleton.1 he]
    exact h
  nodup := by simp
  labels e he := by
    rw [List.mem_singleton.1 he]
    exact hne

theorem stackLabels_ne_nil (lower : String → String) (project : String) {domains : List StackDomain}
    {name : String}
    (h : ∃ d ∈ domains, d.service = name) : stackLabels lower project domains name ≠ [] := by
  obtain ⟨d, hd, rfl⟩ := h
  obtain ⟨i, hi, hget⟩ := List.mem_iff_getElem.1 hd
  intro hnil
  have hmem : (d, i) ∈ domains.zipIdx.filter fun e => e.1.service = d.service := by
    rw [List.mem_filter, List.mem_zipIdx_iff_getElem?, List.getElem?_eq_getElem hi, hget]
    simp
  exact labels_ne_nil _ _ _ (List.flatMap_eq_nil_iff.1 hnil _ hmem)

theorem mem_routedServices {services : List StackService} {domains : List StackDomain} {s : StackService} :
    s ∈ routedServices services domains ↔
      s ∈ services ∧ s.networkMode = false ∧ ∃ d ∈ domains, d.service = s.name := by
  simp [routedServices]

theorem nodup_routed (stack : Stack) (domains : List StackDomain) :
    ((routedServices stack.services domains).map (·.name)).Nodup :=
  stack.nodup.sublist (List.filter_sublist.map _)

theorem attached_stack (lower : String → String) (stack : Stack) (project : String)
    (domains : List StackDomain)
    (hne : routedServices stack.services domains ≠ []) :
    Attached (stackAttached lower stack.services project domains) where
  ne_nil := by simpa [stackAttached] using hne
  valid e he := by
    obtain ⟨s, hs, rfl⟩ := List.mem_map.1 he
    exact stack.valid s (mem_routedServices.1 hs).1
  nodup := by
    rw [stackAttached, List.map_map]
    exact nodup_routed stack domains
  labels e he := by
    obtain ⟨s, hs, rfl⟩ := List.mem_map.1 he
    simpa using stackLabels_ne_nil lower project (mem_routedServices.1 hs).2.2

theorem mapM_self_iff {α : Type} (f : α → Option α) (l : List α) :
    l.mapM f = some l ↔ ∀ a ∈ l, f a = some a := by
  induction l with
  | nil => simp
  | cons a l ih =>
      rw [List.mapM_cons, List.forall_mem_cons, ← ih]
      cases f a with
      | none => simp
      | some b => cases l.mapM f <;> simp

theorem composeLabels_proxy (env : List Char → List Char) {service : String}
    (h : isValidComposeService service = true)
    {labels : List String} (hne : labels ≠ []) :
    composeLabels env (composeProxyOverride service labels) service =
      if isOther service.toList then none else labels.mapM fun l => (interpolate env .text l.toList).map String.ofList := by
  rw [composeLabels, toList_composeProxyOverride, parse_overrideDoc networks_list (attached_proxy h hne), Option.bind_some,
    labelsOf_overrideDoc]
  split_ifs <;> simp

theorem composeLabels_stack (lower : String → String) (env : List Char → List Char) (stack : Stack)
    (project : String)
    (domains : List StackDomain) {s : StackService} (hs : s ∈ routedServices stack.services domains) :
    composeLabels env (composeStackOverride lower stack.services project domains) s.name =
      if isOther s.name.toList then none else some (stackLabels lower project domains s.name) := by
  have hne : routedServices stack.services domains ≠ [] := List.ne_nil_of_mem hs
  have hfind : (stackAttached lower stack.services project domains).find? (fun e => e.1 = s.name) =
      some (s.name, (stackLabels lower project domains s.name).map (splitJoin "$$")) := by
    rw [stackAttached, List.find?_map]
    exact congrArg (Option.map _) (Tables.find?_key (nodup_routed stack domains) hs)
  rw [composeLabels, toList_composeStackOverride _ _ _ _ hne, parse_overrideDoc networks_map (attached_stack lower stack project domains hne),
    Option.bind_some, labelsOf_overrideDoc]
  split_ifs
  · rfl
  · have hself : ((stackLabels lower project domains s.name).map (splitJoin "$$")).mapM
        (fun l => (interpolate env .text l.toList).map String.ofList) = some (stackLabels lower project domains s.name) := by
      induction stackLabels lower project domains s.name with
      | nil => rfl
      | cons l ls ih => simp [splitJoin_twice, interpolate_escapeDollar, ih]
    rw [hfind]
    exact hself

theorem composeLabels_unrouted (lower : String → String) (env : List Char → List Char) (stack : Stack)
    (project : String)
    (domains : List StackDomain) {service : String}
    (h : ∀ s ∈ routedServices stack.services domains, s.name ≠ service) :
    composeLabels env (composeStackOverride lower stack.services project domains) service = none := by
  by_cases hne : routedServices stack.services domains = []
  · have htext : composeStackOverride lower stack.services project domains = "services: \x7b\x7d\n" :=
      if_pos hne
    have hdoc : "services: \x7b\x7d\n".toList =
        textOf ((Node.mapOf [("services", .map .nil)]).lines 0) := by
      decide
    have hparse : parse (textOf ((Node.mapOf [("services", .map .nil)]).lines 0)) =
        some (Node.mapOf [("services", .map .nil)]) := by
      rw [parse_textOf (printable_mapOf fun e he => by
        rw [List.mem_singleton.1 he]
        exact ⟨by decide, trivial⟩) (by nofun) (by decide), if_pos (by decide)]
    rw [composeLabels, htext, hdoc, hparse]
    rfl
  · have hfind : (stackAttached lower stack.services project domains).find? (fun e => e.1 = service) = none := by
      rw [stackAttached, List.find?_map]
      exact Option.map_eq_none_iff.2 (List.find?_eq_none.2 fun s hs he => h s hs (of_decide_eq_true he))
    rw [composeLabels, toList_composeStackOverride _ _ _ _ hne, parse_overrideDoc networks_map (attached_stack lower stack project domains hne),
      Option.bind_some, labelsOf_overrideDoc, hfind]
    split_ifs <;> rfl

end ReadBack

section Survival

theorem dollar_ruleOf (hosts : List String) :
    '$' ∈ (ruleOf hosts).toList ↔ ∃ h ∈ hosts, '$' ∈ h.toList := by
  have hsep : " || ".toList = [' ', '|', '|', ' '] := rfl
  rw [ruleOf, String.toList_intercalate, hsep]
  constructor
  · intro h
    rcases mem_intercalate h with h | ⟨l, hl, h⟩
    · simp at h
    · simp only [List.map_map, List.mem_map, Function.comp] at hl
      obtain ⟨host, hhost, rfl⟩ := hl
      exact ⟨host, hhost, by simpa using h⟩
  · rintro ⟨host, hhost, h⟩
    refine mem_intercalate_of_mem _ (l := ("Host(`" ++ host ++ "`)").toList) ?_ (by simp [h])
    exact List.mem_map_of_mem (List.mem_map_of_mem hhost)

/-- The `$` of a routing's labels: in the redirect's replacement, and in hosts. -/
theorem dollar_traefikLabels {name : String} (hname : '$' ∉ name.toList) (routing : Routing) (port : Nat) :
    (∀ l ∈ traefikLabels name routing port, '$' ∉ l.toList) ↔
        routing.redirect = none ∧ ∀ h ∈ routing.hosts, '$' ∉ h.toList := by
  have hport : '$' ∉ Nat.toDigits 10 port := fun h =>
    absurd (Nat.isDigit_of_mem_toDigits (by decide) (by decide) h) (by decide)
  cases hr : routing.redirect with
  | none => simp [traefikLabels, hr, hname, hport, dollar_ruleOf, PROXY_NETWORK_NAME]
  | some r => simp [traefikLabels, hr]

theorem proxy_labels_iff {name service : String} (hname : '$' ∉ name.toList)
    (hservice : isValidComposeService service = true)
    (routing : Routing) (port : Nat) :
    (∀ env, composeLabels env (composeProxyOverride service (traefikLabels name routing port)) service = some (traefikLabels name routing port)) ↔
      isOther service.toList = false ∧ routing.redirect = none ∧ ∀ h ∈ routing.hosts, '$' ∉ h.toList := by
  rw [← dollar_traefikLabels hname routing port]
  simp only [composeLabels_proxy _ hservice (labels_ne_nil name routing port)]
  cases hother : isOther service.toList with
  | true => simp
  | false =>
      simp only [Bool.false_eq_true, if_false, true_and, mapM_self_iff]
      refine ⟨fun h l hl => (interpolate_self_iff _).1 fun env => ?_, fun h env l hl => ?_⟩
      · obtain ⟨r, hr, hl⟩ := Option.map_eq_some_iff.1 (h env l hl)
        rw [hr, ← hl, String.toList_ofList]
      · rw [(interpolate_self_iff _).2 (h l hl) env, Option.map_some, String.ofList_toList]

theorem dollar_appContainer (id : Uuid) : '$' ∉ (appContainer id).toList :=
  (named_appContainer id).notMem (by decide) (by decide)

/-- For every routing of an application and of a stack, whatever the variables are. -/
theorem override_labels_iff (lower : String → String) (id : Uuid) {service : String}
    (hservice : isValidComposeService service = true)
    (routing : Routing) (port : Nat) (stack : Stack) (domains : List StackDomain) :
    ((∀ env, composeLabels env (composeProxyOverride service (traefikLabels (appContainer id) routing port)) service =
        some (traefikLabels (appContainer id) routing port)) ↔
      isOther service.toList = false ∧ routing.redirect = none ∧ ∀ h ∈ routing.hosts, '$' ∉ h.toList) ∧
    ((∀ env, ∀ s ∈ routedServices stack.services domains,
        composeLabels env (composeStackOverride lower stack.services (stackProject id) domains) s.name =
          some (stackLabels lower (stackProject id) domains s.name)) ↔
      ∀ s ∈ routedServices stack.services domains, isOther s.name.toList = false) := by
  refine ⟨proxy_labels_iff (dollar_appContainer id) hservice routing port, fun h s hs => ?_,
    fun h env s hs => ?_⟩
  · by_contra hother
    have := h (fun _ => []) s hs
    rw [composeLabels_stack lower _ stack _ domains hs, if_pos (by simpa using hother)] at this
    cases this
  · rw [composeLabels_stack lower _ stack _ domains hs, if_neg (by simp [h s hs])]

theorem override_labels_iff_web : isValidComposeService "web" = true ∧ ∀ env,
    composeLabels env (composeProxyOverride "web" (traefikLabels (appContainer (.fill 'a' rfl)) ⟨["a.com"], "a.com", none⟩ 80)) "web" =
      some (traefikLabels (appContainer (.fill 'a' rfl)) ⟨["a.com"], "a.com", none⟩ 80) :=
  ⟨by decide, (override_labels_iff id (.fill 'a' rfl) (by decide : isValidComposeService "web" = true) ⟨["a.com"], "a.com", none⟩ 80
    ⟨[], by simp, by simp⟩ []).1.2 ⟨by decide, rfl, by decide⟩⟩

/-- A redirect to the root: Compose does not leave its replacement as it is. -/
theorem redirect_interpolated : ¬ ∀ env,
    composeLabels env (composeProxyOverride "web" (traefikLabels (appContainer (.fill 'a' rfl)) (computeRouting "a.com" [] .wwwToRoot) 80)) "web" =
      some (traefikLabels (appContainer (.fill 'a' rfl)) (computeRouting "a.com" [] .wwwToRoot) 80) :=
        fun h => by
  have hredirect := ((proxy_labels_iff (dollar_appContainer _) (by decide) _ 80).1 h).2.1
  revert hredirect
  decide

end Survival

end Yeah.Compose
