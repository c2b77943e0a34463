import Mathlib.Data.List.Basic

namespace Yeah.Deploy

inductive BuildPack
  | dockerfile
  | static
  | nixpacks
  | railpack
  | image
  | dockerfileInline
  | dockerCompose
  deriving DecidableEq

def buildPackUsesGit : BuildPack → Bool
  | .dockerfile | .static | .nixpacks | .railpack | .dockerCompose => true
  | .image | .dockerfileInline => false

inductive ApplicationStatus
  | idle
  | deploying
  | running
  | stopped
  | error
  deriving DecidableEq

inductive DeploymentStatus
  | queued
  | running
  | success
  | failed
  deriving DecidableEq

inductive Availability
  | runtime
  | build
  | both
  deriving DecidableEq

structure EnvEntry where
  key : String
  value : String
  availability : Availability
  deriving DecidableEq

/-- Entries handed to the build: build + both. -/
def buildTimeEntries (entries : List EnvEntry) : List EnvEntry :=
  entries.filter fun e => e.availability ≠ .runtime

inductive VolumeKind
  | volume
  | bind
  | database
  | file
  deriving DecidableEq

structure Volume where
  id : String
  kind : VolumeKind
  mountPath : String
  hostPath : Option String

structure Application where
  id : String
  name : String
  teamId : String
  environmentId : String
  serverId : String
  buildServerId : Option String
  repoUrl : String
  branch : String
  buildPack : BuildPack
  port : Nat
  envContent : String
  redactEnvInLogs : Bool
  domain : Option String
  githubInstallationId : Option Nat
  githubRepo : Option String
  gitSourceId : Option String
  gitRepo : Option String
  deployKey : Option String
  dockerImage : Option String
  publishDirectory : String
  staticSpa : Bool
  composeFile : String
  composeService : Option String
  sleepAfterMinutes : Option Nat
  maintenanceMode : Bool
  preDeployCommand : Option String
  postDeployCommand : Option String
  registryId : Option String
  registryImage : Option String
  rollbackImages : Nat
  healthPath : Option String
  healthIntervalSeconds : Nat
  healthTimeoutSeconds : Nat
  healthRetries : Nat
  healthStartPeriodSeconds : Nat
  dockerOptions : String
  stopGraceSeconds : Int
  memoryLimitMb : Option Nat
  cpuLimit : Option String
  previewOfId : Option String
  prNumber : Option Nat

structure Server where
  id : String
  name : String
  proxyActive : Bool
  wildcardDomain : Option String

structure Registry where
  host : String
  username : String

structure GitSource where
  provider : String
  baseUrl : String
  username : String
  token : String

structure SharedVariable where
  scope : String
  key : String
  value : String

/-- The row of a deployment, as far as the job reads it. -/
structure Deployment where
  id : String
  applicationId : String
  commitSha : Option String
  rollbackImage : Option String
  deriving DecidableEq

def given (x : Option String) : Option String := x.filter fun s => s ≠ ""

@[simp]
theorem given_none : given none = none := rfl

namespace Deployment

variable (d : Deployment)

/-- `Boolean(rollbackTarget || fromImage)` -/
def isRollback : Bool := (given d.commitSha).isSome || (given d.rollbackImage).isSome

end Deployment

/-- The functions that the job only passes values through, and the settings of the worker. -/
structure Settings where
  /-- `expandReferences(parseEnvContent(content), variables)`: the entries and the missing references. -/
  expand : String → List SharedVariable → List EnvEntry × List String
  /-- The hexadecimal SHA-256 of the JSON text of the entries. -/
  sha256 : List EnvEntry → String
  resourceSlug : String → String
  normalizeHost : String → String
  parseDockerOptions : String → List String
  gitCloneUrlWithToken : GitSource → String → String
  githubConfigured : Bool
  /-- `staleDeploymentRefs(parseAppImages(output), deploymentsToRetain(rows, keep))` -/
  staleRefs : List (Deployment × DeploymentStatus) → Nat → String → List String

variable (settings : Settings)

def internalHostName (name : String) : String :=
  if settings.resourceSlug name = "" then "resource" else settings.resourceSlug name

/-- Without a domain the port is published directly on the host. -/
def resolveDomain (application : Application) (server : Server) : Option String :=
  match given application.domain with
  | some domain => some (settings.normalizeHost domain)
  | none =>
      match given server.wildcardDomain with
      | some wildcard => if server.proxyActive then some s!"{settings.resourceSlug application.name}.{wildcard}" else none
      | none => none

namespace Application

variable (a : Application)

def appDir : String := s!"/opt/yeah-apps/{a.id}"
def repoDir : String := s!"{a.appDir}/repo"
def inlineDir : String := s!"{a.appDir}/inline"
def deployKeyPath : String := s!"{a.appDir}/.deploy_key"
def envFile : String := s!"{a.appDir}/.env"
def passwordFile : String := s!"{a.appDir}/.registry_pw"
def containerName : String := s!"yeah-app-{a.id}"
def imageRef : String := if a.buildPack = .image then a.dockerImage.getD "" else a.containerName
def envNetwork : String := s!"yeah-env-{a.environmentId}"
def healthWaitSeconds : Nat := a.healthStartPeriodSeconds + a.healthIntervalSeconds * a.healthRetries + 30

end Application

/-- A worker without a GitHub App, on texts that need no work. -/
def plain : Settings where
  expand _ _ := ([], [])
  sha256 _ := ""
  resourceSlug := id
  normalizeHost := id
  parseDockerOptions _ := []
  gitCloneUrlWithToken source path := s!"{source.baseUrl}/{path}.git"
  githubConfigured := false
  staleRefs _ _ _ := []

def website : Application where
  id := "a"
  name := "site"
  teamId := "t"
  environmentId := "e"
  serverId := "s"
  buildServerId := none
  repoUrl := "https://example.com/site.git"
  branch := "main"
  buildPack := .static
  port := 80
  envContent := ""
  redactEnvInLogs := false
  domain := none
  githubInstallationId := none
  githubRepo := none
  gitSourceId := none
  gitRepo := none
  deployKey := none
  dockerImage := none
  publishDirectory := "."
  staticSpa := false
  composeFile := "docker-compose.yml"
  composeService := none
  sleepAfterMinutes := none
  maintenanceMode := false
  preDeployCommand := none
  postDeployCommand := none
  registryId := none
  registryImage := none
  rollbackImages := 0
  healthPath := none
  healthIntervalSeconds := 30
  healthTimeoutSeconds := 5
  healthRetries := 3
  healthStartPeriodSeconds := 30
  dockerOptions := ""
  stopGraceSeconds := 10
  memoryLimitMb := none
  cpuLimit := none
  previewOfId := none
  prNumber := none

end Yeah.Deploy
