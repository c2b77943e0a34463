import Yeah.Deploy.Application
import Yeah.Shell.Command

namespace Yeah.Deploy

/-- A program with its words, and the directory that it starts in. -/
structure Program where
  dir : String
  argv : List String
  deriving DecidableEq

abbrev Script := Shell.Cmd Program String String

namespace Script

def prog (argv : List String) : Script := .run fun v => ⟨v "PWD", argv⟩

def cd (dir : String) : Script :=
  .and (prog ["cd", dir]) (.set "PWD" fun v => if dir.startsWith "/" then dir else v "PWD" ++ "/" ++ dir)

/-- `>/dev/null` -/
def silent (s : Script) : Script := .out s fun _ => "/dev/null"

/-- `… || true` -/
def orTrue (s : Script) : Script := .or s .nop

end Script

open Script

structure PreDeployContext where
  applicationId : String
  imageRef : String
  envFile : String
  network : String
  mirrorFlags : List String
  deriving DecidableEq

def preDeployContainerName (applicationId : String) : String := s!"yeah-predeploy-{applicationId}"

def appImageRepository (applicationId : String) : String := s!"yeah-app-{applicationId}"

/-- The first hexadecimal digits of an id. -/
def shortId (id : String) : String := String.ofList ((id.toList.filter fun c => c ≠ '-').take 12)

def deploymentImageRef (applicationId deploymentId : String) : String :=
  s!"{appImageRepository applicationId}:dep-{(shortId deploymentId).toLower}"

def proxyNetworkName : String := "yeah-proxy-net"
def wakerContainerName : String := "yeah-waker"
def proxyDir : String := "/opt/yeah-proxy"
def wakerDir : String := s!"{proxyDir}/waker"
def wakeConfigDir : String := s!"{proxyDir}/wake"
def wakerScriptPath : String := s!"{wakerDir}/waker.cjs"
def wakeConfigPath (containerName : String) : String := s!"{wakeConfigDir}/{containerName}.json"
def dynamicPath (containerName : String) : String := s!"{proxyDir}/dynamic/{containerName}.yml"
def logRotationFlags : List String := ["--log-opt", "max-size=10m", "--log-opt", "max-file=3"]
def deployCommandTimeoutSeconds : Nat := 600
def staticBaseImage : String := "nginx:alpine"

/-- The commands that a deployment sends, one constructor for each builder. -/
inductive Command
  | mkdir (dir : String)
  | chmod (file : String)
  | cloneOrPull (appDir cloneUrl branch : String) (targetCommitSha sshKeyPath : Option String)
  | setOrigin (repoDir url : String)
  | revParse (repoDir : String)
  | registryLogin (host username passwordFile : String)
  | registryLogout (host : String)
  | registryExists (ref : String)
  | registryPush (localImage ref : String)
  | pull (image : String)
  | buildInline (buildArgs : List String) (image inlineDir : String)
  | buildStatic (repoDir dockerfile image : String)
  | ensureTool (tool url shell : String)
  | nixpacksBuild (repoDir image : String) (env : List String)
  | ensureBuildKit
  | railpackBuild (repoDir image : String) (env : List String)
  | buildRepo (repoDir : String) (buildArgs : List String) (image : String)
  | prepareFile (filesDir path : String)
  | reuseImage (ref localImage : String)
  | tag (ref localImage : String)
  | tagDeploymentImage (applicationId deploymentId : String)
  | preDeploy (command : String) (c : PreDeployContext)
  | stopOld (containerName : String) (graceSeconds : Int)
  | run (containerName envFile : String) (flags network : List String) (imageRef : String)
  | joinNetwork (network slug containerName : String)
  | composeUp (repoDir project envFile : String) (files : List String) (waitSeconds : Nat)
  | composeJoin (network project slug main : String)
  | removeRouting (containerName : String)
  | prepareWakerDirs
  | ensureWaker
  | removeWakeConfig (containerName : String)
  | healthWait (containerName : String) (maxSeconds : Nat)
  | postDeploy (command containerName : String)
  | appImages (applicationId : String)
  | removeRefs (refs : List String)
  deriving DecidableEq

/-- `docker network inspect` first, so an existing network is never touched. -/
def ensureNetwork (network : String) : Script :=
  .or (silent (prog ["docker", "network", "inspect", network])) (silent (prog ["docker", "network", "create", network]))

def pullScript (cloneUrl branch ref : String) : Script :=
  .sub (.and (cd "repo")
    (.and (prog ["git", "remote", "set-url", "origin", cloneUrl])
      (.and (prog ["git", "fetch", "origin", branch]) (prog ["git", "reset", "--hard", ref]))))

def cloneScript (cloneUrl branch ref : String) : Script :=
  .sub (.and (prog ["git", "clone", "--branch", branch, "--single-branch", cloneUrl, "repo"])
    (.and (cd "repo") (prog ["git", "reset", "--hard", ref])))

def checkoutScript (appDir cloneUrl branch ref : String) : Script :=
  .and (cd appDir)
    (.sub (.or (.and (prog ["test", "-d", "repo/.git"]) (pullScript cloneUrl branch ref)) (cloneScript cloneUrl branch ref)))

def cloneOrPullScript (appDir cloneUrl branch : String)
    (targetCommitSha sshKeyPath : Option String) : Script :=
  let checkout := checkoutScript appDir cloneUrl branch (targetCommitSha.getD s!"origin/{branch}")
  match given sshKeyPath with
  | some key => .and (.set "GIT_SSH_COMMAND" fun _ => s!"ssh -i {key} -o IdentitiesOnly=yes -o StrictHostKeyChecking=accept-new") checkout
  | none => checkout

/-- A `break` leaves `rc` changed, and the rounds that are left do nothing. -/
def healthWaitScript (name : String) (maxSeconds : Nat) : Script :=
  let inspect (format : String) : Script := prog ["docker", "inspect", "-f", format, name]
  let test (x y : String) : Script := .run fun v => ⟨v "PWD", ["[", v x, "=", y, "]"]⟩
  Shell.Cmd.sequence
    [.set "rc" fun _ => "2",
      .each "i" (fun _ => s!"$(seq 1 {max 1 ((maxSeconds + 1) / 2)})")
        (.ite (test "rc" "2")
          (Shell.Cmd.sequence
            [.assign "running" (inspect "\x7b\x7b.State.Running\x7d\x7d"),
              .assign "status" (inspect "\x7b\x7b.State.Health.Status\x7d\x7d"),
              .ite (test "status" "healthy") (.set "rc" fun _ => "0")
                (.ite (.or (test "status" "unhealthy") (test "running" "false")) (.set "rc" fun _ => "1") (prog ["sleep", "2"]))])
          .nop),
      .ite (.run fun v => ⟨v "PWD", ["[", v "rc", "-ne", "0", "]"]⟩)
        (.seq (prog ["echo", "healthcheck: last container log lines:"]) (prog ["docker", "logs", "--tail", "40", name])) .nop,
      .exit fun v => v "rc" |>.toNat!]

def ensureWakerScript : Script :=
  Shell.Cmd.sequence
    [.set "changed" fun _ => "0",
      .ite (prog ["cmp", "-s", s!"{wakerScriptPath}.new", wakerScriptPath]) (prog ["rm", "-f", s!"{wakerScriptPath}.new"])
        (.seq (prog ["mv", s!"{wakerScriptPath}.new", wakerScriptPath]) (.set "changed" fun _ => "1")),
      .ite (silent (prog ["docker", "inspect", wakerContainerName]))
        (.ite (.run fun v => ⟨v "PWD", ["[", v "changed", "=", "1", "]"]⟩) (silent (prog ["docker", "restart", wakerContainerName]))
          (orTrue (silent (prog ["docker", "start", wakerContainerName]))))
        (silent (prog (["docker", "run", "-d", "--name", wakerContainerName, "--restart", "unless-stopped", "--network", proxyNetworkName,
          "--label", "traefik.enable=false", "--memory", "96m"] ++ logRotationFlags ++
          ["-v", "/var/run/docker.sock:/var/run/docker.sock", "-v", s!"{wakerDir}:/app:ro", "-v", s!"{wakeConfigDir}:/wake:ro",
            "-e", "WAKER_PORT=8080", "node:22-alpine", "node", "/app/waker.cjs"])))]

namespace Command

def script : Command → Script
  | mkdir dir => prog ["mkdir", "-p", dir]
  | chmod file => prog ["chmod", "600", file]
  | cloneOrPull appDir cloneUrl branch target key => cloneOrPullScript appDir cloneUrl branch target key
  | setOrigin repoDir url => prog ["git", "-C", repoDir, "remote", "set-url", "origin", url]
  | revParse repoDir => .and (cd repoDir) (prog ["git", "rev-parse", "HEAD"])
  | registryLogin host username passwordFile =>
      Shell.Cmd.sequence
        [.inp (prog ["docker", "login", host, "-u", username, "--password-stdin"]) fun _ => passwordFile,
          .status "rc", prog ["rm", "-f", passwordFile], .exit fun v => (v "rc").toNat!]
  | registryLogout host => orTrue (silent (prog ["docker", "logout", host]))
  | registryExists ref => silent (prog ["docker", "pull", "-q", ref])
  | registryPush localImage ref => .and (prog ["docker", "tag", localImage, ref]) (prog ["docker", "push", ref])
  | pull image => prog ["docker", "pull", image]
  | buildInline buildArgs image inlineDir =>
      prog (["docker", "build"] ++ buildArgs.flatMap (fun e => ["--build-arg", e]) ++ ["-t", image, inlineDir])
  | buildStatic repoDir dockerfile image =>
      .and (cd repoDir) (.pipe (prog ["printf", "%s", dockerfile]) (prog ["docker", "build", "-t", image, "-f", "-", "."]))
  | ensureTool tool url shell =>
      .or (silent (prog ["command", "-v", tool])) (.sub (.pipe (prog ["curl", "-sSL", url]) (prog [shell])))
  | nixpacksBuild repoDir image env =>
      prog (["nixpacks", "build", repoDir, "--name", image] ++ env.flatMap fun e => ["--env", e])
  | ensureBuildKit =>
      .or (.sub (.and (silent (prog ["docker", "inspect", "yeah-buildkit"])) (silent (prog ["docker", "start", "yeah-buildkit"]))))
        (silent (prog ["docker", "run", "-d", "--restart", "unless-stopped", "--privileged", "--name", "yeah-buildkit", "moby/buildkit"]))
  | railpackBuild repoDir image env =>
      .and (.set "BUILDKIT_HOST" fun _ => "docker-container://yeah-buildkit")
        (prog (["railpack", "build", repoDir, "--name", image] ++ env.flatMap fun e => ["--env", e]))
  | buildRepo repoDir buildArgs image =>
      .and (cd repoDir) (prog (["docker", "build"] ++ buildArgs.flatMap (fun e => ["--build-arg", e]) ++ ["-t", image, "."]))
  | prepareFile filesDir path => .and (prog ["mkdir", "-p", filesDir]) (prog ["rm", "-rf", path])
  | reuseImage ref localImage =>
      .and (silent (prog ["docker", "image", "inspect", ref])) (prog ["docker", "tag", ref, localImage])
  | tag ref localImage => prog ["docker", "tag", ref, localImage]
  | tagDeploymentImage applicationId deploymentId =>
      prog ["docker", "tag", appImageRepository applicationId, deploymentImageRef applicationId deploymentId]
  | preDeploy command c =>
      let name := preDeployContainerName c.applicationId
      Shell.Cmd.sequence
        [silent (prog ["docker", "rm", "-f", name]),
          prog (["timeout", s!"{deployCommandTimeoutSeconds}", "docker", "run", "--rm", "--name", name, "--env-file", c.envFile,
            "--network", c.network] ++ c.mirrorFlags ++ ["--entrypoint", "sh", c.imageRef, "-c", command]),
          .status "rc",
          .ite (.run fun v => ⟨v "PWD", ["[", v "rc", "-ne", "0", "]"]⟩) (silent (prog ["docker", "rm", "-f", name])) .nop,
          .exit fun v => (v "rc").toNat!]
  | stopOld containerName graceSeconds =>
      .seq (silent (prog ["docker", "stop", "-t", s!"{max 0 graceSeconds}", containerName]))
        (orTrue (silent (prog ["docker", "rm", "-f", containerName])))
  | run containerName envFile flags network imageRef =>
      prog (["docker", "run", "-d", "--name", containerName, "--env-file", envFile] ++ logRotationFlags ++ flags ++ network ++
        ["--restart", "unless-stopped", imageRef])
  | joinNetwork network slug containerName =>
      .and (ensureNetwork network) (prog ["docker", "network", "connect", "--alias", slug, network, containerName])
  | composeUp repoDir project envFile files waitSeconds =>
      .and (cd repoDir)
        (prog (["docker", "compose", "-p", project, "--env-file", envFile] ++ files ++
          ["up", "-d", "--build", "--remove-orphans", "--wait", "--wait-timeout", s!"{max 10 waitSeconds}"]))
  | composeJoin network project slug main =>
      .and (ensureNetwork network)
        (.each "c" (fun _ => s!"$(docker ps -q --filter label=com.docker.compose.project={project})")
          (Shell.Cmd.sequence
            [.assign "s" (.run fun v => ⟨v "PWD", ["docker", "inspect", "-f",
                "\x7b\x7bindex .Config.Labels \"com.docker.compose.service\"\x7d\x7d", v "c"]⟩),
              .set "extra" fun _ => "",
              .and (.run fun v => ⟨v "PWD", ["[", v "s", "=", main, "]"]⟩) (.set "extra" fun _ => s!"--alias {slug}"),
              silent (.run fun v => ⟨v "PWD", ["docker", "network", "disconnect", "-f", network, v "c"]⟩),
              orTrue (.run fun v => ⟨v "PWD", ["docker", "network", "connect", "--alias", s!"{slug}-" ++ v "s", v "extra", network, v "c"]⟩)]))
  | removeRouting containerName =>
      .seq (prog ["rm", "-f", dynamicPath containerName, wakeConfigPath containerName])
        (orTrue (silent (prog ["docker", "start", containerName])))
  | prepareWakerDirs => prog ["mkdir", "-p", wakerDir, wakeConfigDir]
  | ensureWaker => ensureWakerScript
  | removeWakeConfig containerName =>
      .seq (prog ["rm", "-f", wakeConfigPath containerName]) (orTrue (silent (prog ["docker", "start", containerName])))
  | healthWait containerName maxSeconds => healthWaitScript containerName maxSeconds
  | postDeploy command containerName =>
      prog ["timeout", s!"{deployCommandTimeoutSeconds}", "docker", "exec", containerName, "sh", "-c", command]
  | appImages applicationId =>
      .seq (prog ["docker", "image", "ls", "-a", "--no-trunc", "--filter", s!"reference={appImageRepository applicationId}",
          "--format", "IMG|\x7b\x7b.ID\x7d\x7d|\x7b\x7b.Repository\x7d\x7d|\x7b\x7b.Tag\x7d\x7d|\x7b\x7b.Size\x7d\x7d|\x7b\x7b.CreatedSince\x7d\x7d"])
        (orTrue (prog ["docker", "inspect", "--format", "RUN|\x7b\x7b.Image\x7d\x7d", appImageRepository applicationId]))
  | removeRefs refs => orTrue (silent (prog (["docker", "image", "rm"] ++ refs)))

end Command

def dockerCall : List String → Option (String × List String)
  | "timeout" :: _ :: "docker" :: sub :: args => some (sub, args)
  | "docker" :: sub :: args => some (sub, args)
  | _ => none

/-- The program stops, removes or renames the container. -/
def Program.Displaces (p : Program) (containerName : String) : Prop :=
  ∃ sub args, dockerCall p.argv = some (sub, args) ∧
    sub ∈ ["stop", "kill", "restart", "pause", "rm", "rename", "container", "compose"] ∧
      containerName ∈ args

def Command.Displaces (c : Command) (containerName : String) : Prop :=
  ∃ p ∈ c.script.programs, ∃ v, (p v).Displaces containerName

theorem containerName_head (a : Application) : a.containerName.toList.take 6 = "yeah-a".toList := by
  simp [Application.containerName, toString]

theorem containerName_ne_preDeploy (a : Application) (id : String) :
    a.containerName ≠ preDeployContainerName id := by
  intro h
  have h' := containerName_head a
  have hid : (preDeployContainerName id).toList = "yeah-predeploy-".toList ++ id.toList := by
    change (toString "yeah-predeploy-" ++ toString id).toList = _
    simp [toString]
  rw [h, hid] at h'
  simp at h'

theorem containerName_ne_waker (a : Application) : a.containerName ≠ wakerContainerName := by
  intro h
  have h' := containerName_head a
  rw [h] at h'
  simp [wakerContainerName] at h'

theorem containerName_ne_force (a : Application) : a.containerName ≠ "-f" := by
  intro h
  have h' := containerName_head a
  rw [h] at h'
  simp at h'

section Displaces

variable {dir name sub w t : String} {args : List String}

theorem displaces_of_call {p : Program} (hcall : dockerCall p.argv = some (sub, args)) :
    p.Displaces name ↔
    sub ∈ ["stop", "kill", "restart", "pause", "rm", "rename", "container", "compose"] ∧ name ∈ args := by
  constructor
  · rintro ⟨sub', args', h, hsub, hname⟩
    cases hcall.symm.trans h
    exact ⟨hsub, hname⟩
  · rintro ⟨hsub, hname⟩
    exact ⟨sub, args, hcall, hsub, hname⟩

theorem displaces_docker : (Program.mk dir ("docker" :: sub :: args)).Displaces name ↔
    sub ∈ ["stop", "kill", "restart", "pause", "rm", "rename", "container", "compose"] ∧ name ∈ args :=
  displaces_of_call rfl

theorem displaces_timeout : (Program.mk dir ("timeout" :: t :: "docker" :: sub :: args)).Displaces name ↔
    sub ∈ ["stop", "kill", "restart", "pause", "rm", "rename", "container", "compose"] ∧ name ∈ args :=
  displaces_of_call rfl

theorem displaces_word : ¬ (Program.mk dir [w]).Displaces name := by simp [Program.Displaces, dockerCall]

theorem displaces_other (hdocker : w ≠ "docker") (htimeout : w ≠ "timeout") :
    ¬ (Program.mk dir (w :: args)).Displaces name := by
  rintro ⟨sub, args', h, -, -⟩
  rw [dockerCall] at h
  · cases h
  · rintro _ _ _ hcons
    cases hcons
    exact htimeout rfl
  · rintro _ _ hcons
    cases hcons
    exact hdocker rfl

end Displaces

open Shell.Cmd in
/-- Of all commands only the stop of the old container and `docker compose` displace a container
of an application. -/
theorem Command.displaces_cases {c : Command} {a : Application} (h : c.Displaces a.containerName) :
    (∃ n g, c = .stopOld n g) ∨ ∃ d p e f w, c = .composeUp d p e f w := by
  have hpre := containerName_ne_preDeploy a
  have hwaker := containerName_ne_waker a
  have hforce := containerName_ne_force a
  cases c with
  | stopOld name g => exact Or.inl ⟨name, g, rfl⟩
  | composeUp d p e f w => exact Or.inr ⟨d, p, e, f, w, rfl⟩
  | cloneOrPull d u b t k =>
      simp only [Displaces, script, cloneOrPullScript, checkoutScript, pullScript, cloneScript] at h
      split at h <;> simp [programs, displaces_other, cd, prog] at h
  | _ =>
      simp [Displaces, script, silent, orTrue, prog, cd, ensureNetwork, ensureWakerScript, healthWaitScript, programs,
        Shell.Cmd.sequence, displaces_docker, displaces_timeout, displaces_other, displaces_word, hpre, hwaker, hforce] at h

end Yeah.Deploy
