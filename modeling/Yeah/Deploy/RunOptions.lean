import Yeah.Deploy.Job
import Yeah.Shell.DockerOptions
import Yeah.Shell.Flags
import Yeah.Text.Stamp
import Mathlib.Data.List.Infix

namespace Yeah.Deploy

open Shell Shell.Flags Text

/-- The options of an application, each of them one word of the command. -/
def dockerOptionArgs (dockerOptions : String) : List String :=
  match parseDockerOptions dockerOptions with
  | .ok args => args
  | .error _ => []

def isImageChar (c : Char) : Bool := c.isAlphanum || c ∈ "._/:-".toList

/-- `/@sha256:[a-f0-9]{64}$/` -/
def endsInDigest (text : List Char) : Bool :=
  let tail := text.drop (text.length - 72)
  72 ≤ text.length && "@sha256:".toList <+: tail && (tail.drop 8).all fun c => c.isDigit || c ∈ "abcdef".toList

def isValidDockerImage (image : String) : Bool :=
  let text := image.toList
  let ref := if endsInDigest text then text.take (text.length - 72) else text
  let lastSegment := (ref.splitOn '/').getLast?.getD []
  0 < utf16Length image && utf16Length image ≤ 512 && ref.head?.any Char.isAlphanum && ref.all isImageChar &&
    lastSegment.count ':' ≤ 1 && lastSegment.getLast? ≠ some ':' && !("//".toList <:+: ref : Bool)

section Docker

/-- Of the flags of `docker run`, those that the platform uses or keeps for itself; `true` takes a value. -/
def documentedFlags : List (String × Bool) :=
  [("detach", false), ("rm", false), ("name", true), ("env-file", true), ("restart", true), ("log-opt", true), ("memory", true),
    ("cpus", true), ("volume", true), ("health-cmd", true), ("health-interval", true), ("health-timeout", true), ("health-retries", true),
    ("health-start-period", true), ("publish", true), ("network", true), ("label", true)]

def documentedLetters : List (Char × String) := [('d', "detach"), ('v', "volume"), ('p', "publish")]

/-- A table of the flags of `docker run`. -/
structure Documents (t : Table) : Prop where
  flags : ∀ f ∈ documentedFlags, t.takesValue f.1 = some f.2
  letters : ∀ l ∈ documentedLetters, t.letter l.1 = some l.2

/-- What `docker run` does with its arguments. -/
structure Run where
  set : List Setting
  image : String
  command : List String

/-- `none` where docker refuses the arguments. -/
def dockerRun (t : Table) (args : List String) : Option Run :=
  match readArgs t none args with
  | some (set, .words (image :: command)) => some ⟨set, image, command⟩
  | _ => none

/-- The flags that stand behind the names in `RESERVED_DOCKER_FLAGS`. -/
def isReserved (s : Setting) : Bool := s.1 ∈ ["name", "detach", "rm", "env-file", "restart"]

end Docker

section Args

variable (settings : Settings) (a : Application)

def optionsBefore (c : Context) : List String :=
  ["-d", "--name", a.containerName, "--env-file", a.envFile] ++ logRotationFlags ++
    (resourceLimitFlags a ++ volumeFlags a c.volumes ++ healthFlags a)

def optionsAfter (c : Context) : List String :=
  (match given (resolveDomain settings a c.server) with
    | none => ["-p", s!"{a.port}:{a.port}"]
    | some _ => ["--network", proxyNetworkName, "--label", "traefik.enable=false"]) ++ ["--restart", "unless-stopped"]

def runArgs (c : Context) : List String :=
  optionsBefore a c ++ settings.parseDockerOptions a.dockerOptions ++ optionsAfter settings a c ++
    [a.imageRef]

theorem script_runCommand (c : Context) :
    Command.script (runCommand settings a c) = Script.prog ("docker" :: "run" :: runArgs settings a c) := by
  rw [runCommand, Command.script, runArgs, optionsBefore, optionsAfter]
  simp only [List.cons_append, List.append_assoc]
  rfl

end Args

section Platform

variable {t : Table} (ht : Documents t)

def Holds (t : Table) (args : List String) (own : List Setting) : Prop :=
  ∃ set, Reads t args set ∧ set.filter isReserved = own

theorem Holds.append {xs ys : List String} {own own' : List Setting} (h : Holds t xs own)
    (h' : Holds t ys own') : Holds t (xs ++ ys) (own ++ own') := by
  obtain ⟨set, hset, hown⟩ := h
  obtain ⟨set', hset', hown'⟩ := h'
  exact ⟨set ++ set', hset.append hset', by rw [List.filter_append, hown, hown']⟩

theorem holds_nil : Holds t [] [] := ⟨[], Reads.nil, rfl⟩

include ht

theorem holds_long (name : String) (hmem : (name, true) ∈ documentedFlags) (hname : isName name)
    (value : String) :
    Holds t ["--" ++ name, value] ([(name, value)].filter isReserved) :=
  ⟨_, reads_value (readArg_long hname (ht.flags _ hmem)), rfl⟩

theorem holds_equals (name : String) (hmem : (name, true) ∈ documentedFlags) (hname : isName name)
    (value : String) :
    Holds t ["--" ++ name ++ "=" ++ value] ([(name, value)].filter isReserved) :=
  ⟨_, reads_settings (readArg_equals hname (ht.flags _ hmem) value), rfl⟩

theorem holds_letter (c : Char) (name : String) {arg : String} (harg : arg.toList = ['-', c]) (hc : c ≠ '-')
    (hletter : (c, name) ∈ documentedLetters)
    (hmem : (name, true) ∈ documentedFlags) (value : String) :
    Holds t [arg, value] ([(name, value)].filter isReserved) :=
  ⟨_, reads_value (readArg_letter harg hc (ht.letters _ hletter) (ht.flags _ hmem)), rfl⟩

theorem holds_detach : Holds t ["-d"] [("detach", "true")] := by
  have hletter : t.letter 'd' = some "detach" := ht.letters ('d', "detach") (by simp [documentedLetters])
  have htakes : t.takesValue "detach" = some false :=
    ht.flags ("detach", false) (by simp [documentedFlags])
  refine ⟨[("detach", "true")], reads_settings ?_, rfl⟩
  have hread : readArg t "-d" = readShort t ['d'] := rfl
  rw [hread, readShort, hletter]
  dsimp only
  rw [htakes]
  rfl

theorem holds_logRotation : Holds t logRotationFlags [] :=
  (holds_long ht "log-opt" (by simp [documentedFlags]) (by decide) "max-size=10m").append
    (holds_long ht "log-opt" (by simp [documentedFlags]) (by decide) "max-file=3")

theorem holds_resourceLimits (a : Application) : Holds t (resourceLimitFlags a) [] := by
  have hmemory : Holds t ((a.memoryLimitMb.filter (· ≠ 0)).elim [] fun m => [s!"--memory={m}m"]) [] := by
    cases a.memoryLimitMb.filter (· ≠ 0) with
    | none => exact holds_nil
    | some m => exact holds_equals ht "memory" (by simp [documentedFlags]) (by decide) s!"{m}m"
  have hcpus : Holds t ((given a.cpuLimit).elim [] fun cpu => [s!"--cpus={cpu}"]) [] := by
    cases given a.cpuLimit with
    | none => exact holds_nil
    | some cpu => exact holds_equals ht "cpus" (by simp [documentedFlags]) (by decide) cpu
  exact hmemory.append hcpus

theorem holds_volumes (a : Application) (volumes : List Volume) : Holds t (volumeFlags a volumes) [] := by
  induction volumes with
  | nil => exact holds_nil
  | cons v volumes ih =>
      have hvolume : ∀ value, Holds t ["-v", value] [] := fun value =>
        holds_letter ht 'v' "volume" rfl (by decide) (by simp [documentedLetters]) (by simp [documentedFlags]) value
      rw [volumeFlags, List.flatMap_cons]
      refine @Holds.append t _ (volumeFlags a volumes) [] [] ?_ ih
      dsimp only
      split
      · exact hvolume _
      · exact hvolume _
      · exact hvolume _
      · exact hvolume _

theorem holds_health (a : Application) : Holds t (healthFlags a) [] := by
  rw [healthFlags]
  split
  · exact holds_nil
  · dsimp only
    exact (holds_long ht "health-cmd" (by simp [documentedFlags]) (by decide) _).append
      ((holds_long ht "health-interval" (by simp [documentedFlags]) (by decide) _).append
        ((holds_long ht "health-timeout" (by simp [documentedFlags]) (by decide) _).append
          ((holds_long ht "health-retries" (by simp [documentedFlags]) (by decide) _).append
            (holds_long ht "health-start-period" (by simp [documentedFlags]) (by decide) _))))

theorem holds_before (a : Application) (c : Context) :
    Holds t (optionsBefore a c) [("detach", "true"), ("name", a.containerName), ("env-file", a.envFile)] := by
  have hname : Holds t ["--name", a.containerName] [("name", a.containerName)] :=
    holds_long ht "name" (by simp [documentedFlags]) (by decide) _
  have henv : Holds t ["--env-file", a.envFile] [("env-file", a.envFile)] :=
    holds_long ht "env-file" (by simp [documentedFlags]) (by decide) _
  have hlimits :=
    ((holds_resourceLimits ht a).append (holds_volumes ht a c.volumes)).append (holds_health ht a)
  exact (((holds_detach ht).append (hname.append henv)).append (holds_logRotation ht)).append hlimits

theorem holds_after (settings : Settings) (a : Application) (c : Context) :
    Holds t (optionsAfter settings a c) [("restart", "unless-stopped")] := by
  have hrestart : Holds t ["--restart", "unless-stopped"] [("restart", "unless-stopped")] :=
    holds_long ht "restart" (by simp [documentedFlags]) (by decide) _
  rw [optionsAfter]
  split
  · exact (holds_letter ht 'p' "publish" rfl (by decide) (by simp [documentedLetters]) (by simp [documentedFlags]) _).append hrestart
  · exact ((holds_long ht "network" (by simp [documentedFlags]) (by decide) _).append
      (holds_long ht "label" (by simp [documentedFlags]) (by decide) _)).append hrestart

end Platform

section Image

variable {t : Table}

theorem readArg_word {arg : String} (h : arg.toList.head? ≠ some '-') : readArg t arg = .word := by
  rw [readArg]
  split
  · next text he => simp [he] at h
  · next text he => simp [he] at h
  · rfl

theorem head_of_isValidDockerImage {image : String} (h : isValidDockerImage image = true) :
    image.toList.head? ≠ some '-' := by
  intro hdash
  simp only [isValidDockerImage, Bool.and_eq_true] at h
  have hhead := h.1.1.1.1.2
  have hchar : '-'.isAlphanum = false := rfl
  split_ifs at hhead
  · rw [List.head?_take] at hhead
    split_ifs at hhead
    · cases hhead
    · simp [hdash, hchar] at hhead
  · simp [hdash, hchar] at hhead

theorem head_imageRef {a : Application}
    (h : a.buildPack = .image → isValidDockerImage (a.dockerImage.getD "") = true) :
    a.imageRef.toList.head? ≠ some '-' := by
  rw [Application.imageRef]
  split_ifs with hpack
  · exact head_of_isValidDockerImage (h hpack)
  · have hname : a.containerName.toList = "yeah-app-".toList ++ a.id.toList := String.toList_append
    rw [hname]
    simp

theorem head_port (n : Nat) : (s!"{n}:{n}").toList.head? ≠ some '-' := by
  have hport : (s!"{n}:{n}").toList = Nat.toDigits 10 n ++ ':' :: (toString n).toList := by
    have hrepr : (toString n).toList = Nat.toDigits 10 n := Nat.toList_repr
    have htext : s!"{n}:{n}" = toString n ++ ":" ++ toString n := rfl
    rw [htext, String.toList_append, String.toList_append, List.append_assoc, hrepr]
    rfl
  rw [hport]
  cases hdigits : Nat.toDigits 10 n with
  | nil => simp
  | cons d ds =>
      rintro hdash
      obtain rfl : d = '-' := by simpa using hdash
      exact dash_notMem_toDigits n (by simp [hdigits])

end Image

section Smuggled

variable (settings : Settings) (a : Application) (c : Context)

/-- Of the reserved flags only the platform's own are set, and the image is the deployment's, with no command. -/
def Own (r : Run) : Prop :=
  r.set.filter isReserved = [("detach", "true"), ("name", a.containerName), ("env-file", a.envFile), ("restart", "unless-stopped")] ∧
    r.image = a.imageRef ∧ r.command = []

variable {settings a c} {t : Table}

/-- A flag at the end of the options takes the next word of the platform for its value, and the one after it is the image. -/
theorem readArgs_after (name : String) :
    ∃ image command, readArgs t (some name) (optionsAfter settings a c ++ [a.imageRef]) =
      some ([(name, (optionsAfter settings a c).headD "")], .words (image :: command)) ∧
        command ≠ [] := by
  rw [optionsAfter]
  split
  · refine ⟨s!"{a.port}:{a.port}", ["--restart", "unless-stopped", a.imageRef], ?_, by simp⟩
    have hword := readArg_word (t := t) (head_port a.port)
    simp only [List.cons_append, List.nil_append, readArgs, hword, Option.map_some, List.headD_cons]
  · refine ⟨proxyNetworkName, ["--label", "traefik.enable=false", "--restart", "unless-stopped", a.imageRef], ?_, by simp⟩
    have hword : readArg t proxyNetworkName = .word := readArg_word (by decide)
    simp only [List.cons_append, List.nil_append, readArgs, hword, Option.map_some, List.headD_cons]

theorem dockerRun_runArgs (ht : Documents t)
    (himage : a.buildPack = .image → isValidDockerImage (a.dockerImage.getD "") = true) {args : List String}
    (hargs : settings.parseDockerOptions a.dockerOptions = args) :
    (∀ r, dockerRun t (runArgs settings a c) = some r → Own a r) ↔
      readArgs t none args = none ∨ ∃ set, Reads t args set ∧ ∀ s ∈ set, isReserved s = false := by
  obtain ⟨before, hbefore, hown⟩ := holds_before ht a c
  obtain ⟨after, hafter, hown'⟩ := holds_after ht settings a c
  have hword := readArg_word (t := t) (head_imageRef himage)
  have hall : readArgs t none (runArgs settings a c) =
      ((readArgs t none args).bind fun r => resume t r (optionsAfter settings a c ++ [a.imageRef])).map fun r => (before ++ r.1, r.2) := by
    rw [runArgs, hargs, List.append_assoc, List.append_assoc, hbefore.readArgs_append, readArgs_append]
  rw [dockerRun, hall]
  cases hread : readArgs t none args with
  | none => simp
  | some r =>
      obtain ⟨set, ending⟩ := r
      cases ending with
      | closed =>
          have hreads : Reads t args set := hread
          have hrest : resume t (set, .closed) (optionsAfter settings a c ++ [a.imageRef]) =
              some (set ++ after, .words [a.imageRef]) := by
            rw [resume]
            dsimp only
            rw [hafter.readArgs_append, readArgs, hword]
            simp
          rw [Option.bind_some, hrest, Option.map_some]
          dsimp only
          constructor
          · intro h
            have hset := (h _ rfl).1
            simp only [List.filter_append, hown, hown'] at hset
            have hlength := congrArg List.length hset
            simp only [List.length_append, List.length_cons, List.length_nil] at hlength
            have hnil : set.filter isReserved = [] := List.length_eq_zero_iff.1 (by omega)
            exact Or.inr ⟨set, hreads, fun s hs => by simpa using List.filter_eq_nil_iff.1 hnil s hs⟩
          · rintro (hnone | ⟨set', hset', hfree⟩) r hr
            · cases hnone
            · rw [Reads, hread] at hset'
              obtain rfl : set = set' := congrArg Prod.fst (Option.some_inj.1 hset')
              obtain rfl := Option.some_inj.1 hr
              have hnil : set.filter isReserved = [] :=
                List.filter_eq_nil_iff.2 fun s hs => by simp [hfree s hs]
              refine ⟨?_, rfl, rfl⟩
              simp only [List.filter_append, hown, hown', hnil]
              rfl
      | missing name =>
          obtain ⟨image, command, hafter', hne⟩ := @readArgs_after settings a c t name
          rw [Option.bind_some, resume]
          dsimp only
          rw [hafter', Option.map_some, Option.map_some]
          refine iff_of_false (fun h => hne (h _ rfl).2.2) ?_
          rintro (hnone | ⟨set', hset', -⟩)
          · cases hnone
          · rw [Reads, hread] at hset'
            cases hset'
      | words args' =>
          have hne : ∃ image command, args' ++
            (optionsAfter settings a c ++ [a.imageRef]) = image :: command ∧ command ≠ [] := by
            cases args' with
            | cons image args' => exact ⟨image, _, rfl, by simp⟩
            | nil =>
                rw [optionsAfter]
                split
                · exact ⟨_, _, rfl, by simp⟩
                · exact ⟨_, _, rfl, by simp⟩
          obtain ⟨image, command, hwords, hne⟩ := hne
          rw [Option.bind_some, resume]
          dsimp only
          rw [hwords, Option.map_some]
          refine iff_of_false (fun h => hne (h _ rfl).2.2) ?_
          rintro (hnone | ⟨set', hset', -⟩)
          · cases hnone
          · rw [Reads, hread] at hset'
            cases hset'

end Smuggled

/-- The platform keeps its own flags and its own image exactly if docker reads the options alone as flags, each with its
value, none of which is a reserved one, or refuses them. -/
theorem runOptions_own_iff {settings : Settings}
    (hsettings : settings.parseDockerOptions = dockerOptionArgs) (a : Application) (c : Context)
    (himage : a.buildPack = .image → isValidDockerImage (a.dockerImage.getD "") = true) {t : Table}
    (ht : Documents t) {args : List String}
    (haccepted : parseDockerOptions a.dockerOptions = .ok args) :
    (∀ r, dockerRun t (runArgs settings a c) = some r → Own a r) ↔
      readArgs t none args = none ∨ ∃ set, Reads t args set ∧ ∀ s ∈ set, isReserved s = false := by
  refine dockerRun_runArgs ht himage ?_
  rw [hsettings, dockerOptionArgs, haccepted]

/-- The documented flags, and three more that people pass. -/
def dockerTable : Table where
  takesValue name :=
    (documentedFlags ++ [("tty", false), ("interactive", false), ("env", true)]).lookup name
  letter c := (documentedLetters ++ [('t', "tty"), ('i', "interactive"), ('e', "env")]).lookup c

theorem documents_dockerTable : Documents dockerTable where
  flags := by decide +kernel
  letters := by decide +kernel

def realSettings : Settings := { plain with parseDockerOptions := dockerOptionArgs }

def webContext : Context := ⟨⟨"d", "a", none, none⟩, ⟨"s", "web", false, none⟩, [], none, none⟩

theorem runOptions_own_env :
    ∃ r, dockerRun dockerTable (runArgs realSettings { website with dockerOptions := "-t --env 'A=--rm'" } webContext) = some r ∧
      Own { website with dockerOptions := "-t --env 'A=--rm'" } r := by
  have hsome : (dockerRun dockerTable (runArgs realSettings { website with dockerOptions := "-t --env 'A=--rm'" } webContext)).isSome := by
    decide +kernel
  have haccepted : parseDockerOptions "-t --env 'A=--rm'" = .ok ["-t", "--env", "A=--rm"] := rfl
  obtain ⟨r, hr⟩ := Option.isSome_iff_exists.1 hsome
  refine ⟨r, hr, (runOptions_own_iff rfl { website with dockerOptions := "-t --env 'A=--rm'" } webContext ?_ documents_dockerTable haccepted).2 ?_ r hr⟩
  · intro hpack
    cases hpack
  · exact Or.inr ⟨[("tty", "true"), ("env", "A=--rm")], by decide +kernel, by decide +kernel⟩

/-- A word that is no flag runs another image, and letters in a row set a reserved flag. -/
theorem options_smuggled :
    (parseDockerOptions "evil/image sh" = .ok ["evil/image", "sh"] ∧
      (dockerRun dockerTable (runArgs realSettings { website with dockerOptions := "evil/image sh" } webContext)).map Run.image = some "evil/image") ∧
    parseDockerOptions "-td=false" = .ok ["-td=false"] ∧
      (dockerRun dockerTable (runArgs realSettings { website with dockerOptions := "-td=false" } webContext)).map (fun r => r.set.filter isReserved) =
        some [("detach", "true"), ("name", "yeah-app-a"), ("env-file", "/opt/yeah-apps/a/.env"), ("detach", "false"), ("restart", "unless-stopped")] := by
  refine ⟨⟨rfl, by decide +kernel⟩, rfl, by decide +kernel⟩

end Yeah.Deploy
