import Yeah.Deploy.Command
import Yeah.Text.Space

namespace Yeah.Deploy

open Text

structure Step where
  label : String
  command : Command
  /-- A non-zero exit code here does not abort the deploy. -/
  allowFailure : Bool
  deriving DecidableEq

def spaNginxConf : String :=
  "server \x7b listen 80; root /usr/share/nginx/html; index index.html; location / \x7b try_files $uri $uri/ /index.html; \x7d \x7d"

def spaStep (spa : Bool) : String :=
  if spa then "RUN printf '%s' '" ++ spaNginxConf ++ "' > /etc/nginx/conf.d/default.conf\n" else ""

def staticDockerfile (publishDirectory : String) (spa : Bool) : String :=
  let source := if publishDirectory = "" then "." else publishDirectory
  "FROM " ++ staticBaseImage ++ "\n" ++
    (spaStep spa ++ ("COPY [\"" ++ source ++ "\", \"/usr/share/nginx/html\"]\nEXPOSE 80\n"))

def buildImageSteps (a : Application) (repoDir inlineDir imageName : String) (buildEnv : List EnvEntry) :
    List Step :=
  let pairs := buildEnv.map fun e => s!"{e.key}={e.value}"
  match a.buildPack with
  | .image => [⟨"pulling the image " ++ a.dockerImage.getD "null", .pull (a.dockerImage.getD ""), false⟩]
  | .dockerfileInline => [⟨"building the image (pasted Dockerfile)", .buildInline pairs imageName inlineDir, false⟩]
  | .static =>
      let shown := if a.publishDirectory = "" then "." else a.publishDirectory
      [⟨s!"building the static site ({shown} → nginx)",
        .buildStatic repoDir (staticDockerfile a.publishDirectory a.staticSpa) imageName, false⟩]
  | .nixpacks =>
      [⟨"ensuring nixpacks is on the server", .ensureTool "nixpacks" "https://nixpacks.com/install.sh" "bash", false⟩,
        ⟨"building with nixpacks (detects the language)", .nixpacksBuild repoDir imageName pairs, false⟩]
  | .railpack =>
      [⟨"ensuring railpack is on the server", .ensureTool "railpack" "https://railpack.com/install.sh" "sh", false⟩,
        ⟨"ensuring railpack's BuildKit", .ensureBuildKit, false⟩,
        ⟨"building with railpack (detects the language)", .railpackBuild repoDir imageName pairs, false⟩]
  | .dockerfile | .dockerCompose => [⟨"building the image", .buildRepo repoDir pairs imageName, false⟩]

def isHexDigit (c : Char) : Bool := c ∈ "0123456789abcdefABCDEF".toList

/-- `/^[0-9a-f]{7,40}$/i` -/
def isCommit (sha : String) : Bool := 7 ≤ sha.length && sha.length ≤ 40 && sha.toList.all isHexDigit

def tagBase (commitSha : Option String) (deploymentId : String) : List Char :=
  match given (commitSha.map trim) with
  | some sha => if isCommit sha then (sha.toList.take 12).map Char.toLower else 'd' :: '-' :: (shortId deploymentId).toList
  | none => 'd' :: '-' :: (shortId deploymentId).toList

def registryTag (commitSha : Option String) (deploymentId : String) (variant : Option String) : String :=
  match given variant with
  | some v => String.ofList (tagBase commitSha deploymentId ++ '-' :: v.toList)
  | none => String.ofList (tagBase commitSha deploymentId)

def registryRef (host repository tag : String) : String := s!"{host}/{repository}:{tag}"

/-- A short digest of the build-time variables. -/
def variant (settings : Settings) (buildEnv : List EnvEntry) : Option String :=
  if buildEnv = [] then none else some (String.ofList ((settings.sha256 buildEnv).toList.take 6))

/-- The build programs of two applications are the same up to what the build environment adds. -/
def SameBuild (a b : Application) : Prop :=
  match a.buildPack, b.buildPack with
  | .image, .image => a.dockerImage = b.dockerImage
  | .static, .static =>
      (if a.publishDirectory = "" then "." else a.publishDirectory) = (if b.publishDirectory = "" then "." else b.publishDirectory) ∧
        a.staticSpa = b.staticSpa
  | .dockerfile, .dockerCompose | .dockerCompose, .dockerfile => True
  | x, y => x = y

def suffix (v : Option String) : List Char :=
  match given v with
  | some v => '-' :: v.toList
  | none => []

theorem registryTag_toList (c : Option String) (d : String) (v : Option String) :
    (registryTag c d v).toList = tagBase c d ++ suffix v := by
  unfold registryTag suffix
  split <;> simp [*]

theorem suffix_split {l r : List Char} (hl : '-' ∉ l) (hr : r = [] ∨ ∃ t, r = '-' :: t) :
    (l ++ r).dropWhile (fun c => c ≠ '-') = r := by
  rw [List.dropWhile_append_of_pos]
  · rcases hr with rfl | ⟨t, rfl⟩
    · rfl
    · simp
  · intro c hc
    simp only [ne_eq, decide_not, Bool.not_eq_eq_eq_not, Bool.not_true, decide_eq_false_iff_not]
    rintro rfl
    exact hl hc

theorem suffix_cases (v : Option String) : suffix v = [] ∨ ∃ t, suffix v = '-' :: t := by
  unfold suffix
  split
  · exact Or.inr ⟨_, rfl⟩
  · exact Or.inl rfl

theorem dash_not_mem_shortId (id : String) : '-' ∉ (shortId id).toList := by
  simp only [shortId, String.toList_ofList]
  intro h
  simpa using List.mem_of_mem_take h

/-- A commit gives hexadecimal digits only, a deployment a mark and then no dash. -/
theorem tagBase_cases (c : Option String) (d : String) :
    ('-' ∉ tagBase c d ∧ 2 ≤ (tagBase c d).length) ∨
      ∃ l, tagBase c d = 'd' :: '-' :: l ∧ '-' ∉ l := by
  unfold tagBase
  split
  · next sha _ =>
      split
      · next hc =>
          left
          simp only [isCommit, Bool.and_eq_true, decide_eq_true_eq, List.all_eq_true] at hc
          constructor
          · intro h
            obtain ⟨x, hx, hdash⟩ := List.mem_map.1 h
            have hex : x ∈ "0123456789abcdefABCDEF".toList := by
              simpa [isHexDigit] using hc.2 x (List.mem_of_mem_take hx)
            have hall : ∀ x ∈ "0123456789abcdefABCDEF".toList, x.toLower ≠ '-' := by simp
            exact hall x hex hdash
          · rw [List.length_map, List.length_take, String.length_toList]
            omega
      · exact Or.inr ⟨_, rfl, dash_not_mem_shortId d⟩
  · exact Or.inr ⟨_, rfl, dash_not_mem_shortId d⟩

theorem tagBase_ne {l l' r r' : List Char} (hn : '-' ∉ l) (hl : 2 ≤ l.length) :
    l ++ r ≠ 'd' :: '-' :: l' ++ r' := by
  intro h
  match l, hl with
  | x :: y :: l, _ =>
      simp only [List.cons_append, List.cons.injEq] at h
      exact hn (by simp [h.2.1])

theorem suffix_eq_of_registryTag_eq {c c' : Option String} {d d' : String} {v v' : Option String}
    (h : registryTag c d v = registryTag c' d' v') : suffix v = suffix v' := by
  have h := congrArg String.toList h
  rw [registryTag_toList, registryTag_toList] at h
  have hv := suffix_cases v
  have hv' := suffix_cases v'
  rcases tagBase_cases c d with ⟨hn, hl⟩ | ⟨l, hl, hn⟩ <;> rcases tagBase_cases c' d' with ⟨hn', hl'⟩ | ⟨l', hl', hn'⟩
  · rw [← suffix_split hn hv, h, suffix_split hn' hv']
  · exact absurd (hl' ▸ h) (tagBase_ne hn hl)
  · exact absurd (hl ▸ h.symm) (tagBase_ne hn' hl')
  · rw [hl, hl'] at h
    have h : l ++ suffix v = l' ++ suffix v' := by simpa using h
    rw [← suffix_split hn hv, h, suffix_split hn' hv']

theorem staticDockerfile_inj {x y : String} {p q : Bool} (h : staticDockerfile x p = staticDockerfile y q) :
    p = q := by
  have h := congrArg String.toList h
  simp only [staticDockerfile, String.toList_append, List.append_cancel_left_eq] at h
  cases p <;> cases q
  · rfl
  · exact absurd (congrArg List.head? h) (by simp [spaStep])
  · exact absurd (congrArg List.head? h) (by simp [spaStep])
  · rfl

theorem suffix_inj {v v' : Option String} (h : suffix v = suffix v') : given v = given v' := by
  unfold suffix at h
  cases hv : given v with
  | none => cases hv' : given v' with
    | none => rfl
    | some y => simp [hv, hv'] at h
  | some x => cases hv' : given v' with
    | none => simp [hv, hv'] at h
    | some y =>
        simp only [hv, hv', List.cons.injEq, true_and] at h
        rw [String.toList_injective h]

/-- Two builds that ask the registry for one tag: they agree on the build-time variables, and on
nothing else that the build reads. -/
theorem buildImageSteps_eq_iff (settings : Settings) (a b : Application) (entries entries' : List EnvEntry)
    (commit commit' : Option String) (id id' : String)
    (hdigest : given (variant settings entries) = given (variant settings entries') → entries = entries')
    (htag : registryTag commit id (variant settings entries) = registryTag commit' id' (variant settings entries'))
    (repoDir inlineDir : String) :
    (∀ imageName, buildImageSteps a repoDir inlineDir imageName entries = buildImageSteps b repoDir inlineDir imageName entries') ↔
      SameBuild a b := by
  obtain rfl := hdigest (suffix_inj (suffix_eq_of_registryTag_eq htag))
  unfold buildImageSteps SameBuild
  cases a.buildPack <;> cases b.buildPack <;> simp
  · constructor
    · rintro ⟨hdir, hfile⟩
      exact ⟨hdir, staticDockerfile_inj hfile⟩
    · rintro ⟨hdir, hspa⟩
      refine ⟨congrArg toString hdir, ?_⟩
      simp only [staticDockerfile, hdir, hspa]
  · constructor
    · rintro ⟨h, h'⟩
      cases hi : a.dockerImage <;> cases hj : b.dockerImage <;> simp_all
    · intro h
      simp [h]

theorem trim_of_isCommit {sha : String} (h : isCommit sha = true) : trim sha = sha := by
  refine trim_of_none fun c hc => ?_
  have hall : ∀ c ∈ "0123456789abcdefABCDEF".toList, isSpace c.toNat = false := by simp [isSpace]
  simp only [isCommit, Bool.and_eq_true, List.all_eq_true] at h
  exact hall c (by simpa [isHexDigit] using h.2 c hc)

theorem registryTag_of_isCommit {sha : String} (h : isCommit sha = true) (v : Option String)
    (d d' : String) :
    registryTag (some sha) d v = registryTag (some sha) d' v := by
  have hgiven : given ((some sha).map trim) = some sha := by
    rw [Option.map_some, trim_of_isCommit h, given, Option.filter_some, if_pos]
    rw [decide_eq_true_eq]
    rintro rfl
    simp [isCommit] at h
  have hbase (d : String) : tagBase (some sha) d = (sha.toList.take 12).map Char.toLower := by
    rw [tagBase, hgiven]
    exact if_pos h
  rw [registryTag, registryTag, hbase d, hbase d']

theorem isCommit_sample : isCommit "0123456789abcdef" = true := by
  have hlength : "0123456789abcdef".length = 16 := rfl
  simp [isCommit, isHexDigit, hlength]

theorem buildImageSteps_eq_iff_redeploy :
    (∀ imageName, buildImageSteps website "/r" "/i" imageName [] = buildImageSteps website "/r" "/i" imageName []) ↔
      SameBuild website website :=
  buildImageSteps_eq_iff plain website website [] [] (some "0123456789abcdef") (some "0123456789abcdef") "d-1" "d-2"
    (fun _ => rfl) (registryTag_of_isCommit isCommit_sample _ _ _) "/r" "/i"

/-- The folder that is served has changed between two deployments of one commit. -/
theorem other_folder_same_tag :
    registryTag (some "0123456789abcdef") "d-1" (variant plain []) = registryTag (some "0123456789abcdef") "d-2" (variant plain []) ∧
      buildImageSteps { website with publishDirectory := "dist" } "/r" "/i" "yeah-app-a" [] ≠
        buildImageSteps { website with publishDirectory := "build" } "/r" "/i" "yeah-app-a" [] :=
  ⟨registryTag_of_isCommit isCommit_sample _ _ _, by decide⟩

end Yeah.Deploy
