/-
# Sentinalysis.Agent.DockerConfig — which containers discovery finds in Docker's own files.

Docker writes the configuration of a container as an object with the members `Name` and `LogPath`.
The derived decoder looks for members that are called as the fields are, `name` and `log_path`, and
takes a member it does not find for one that is absent.  So every file of Docker's is read, and none
of them names a container.
-/
import Sentinalysis.Agent.DockerStart
import Sentinalysis.Lib.Json

namespace Sentinalysis.Agent

open Lib

/-! ## The derived decoder -/

/-- A value for a field of type `Option<String>`. -/
def optionString : Json → Option (Option String)
  | .null => some none
  | .string value => some (some value)
  | _ => none

/-- A field among the members of an object: absent is `None`, and twice is an error. -/
def optionField (key : String) (members : List (String × Json)) : Option (Option String) :=
  match members.filter fun member => member.1 = key with
  | [] => some none
  | [(_, value)] => optionString value
  | _ => none

/-- `PathBuf::from`. -/
def pathFrom (s : String) : Path :=
  ((s.toList.splitOn '/').filter fun part => part ≠ [] ∧ part ≠ ['.']).map fun part =>
    .text (String.ofList part)

/-- The configuration of its two fields. -/
def ContainerConfigV2.ofFields (name logPath : Option String) : ContainerConfigV2 :=
  ⟨name, logPath.map pathFrom⟩

/-- `#[derive(Deserialize)]` for `ContainerConfigV2`: by the names of its fields, or by place. -/
def ContainerConfigV2.deserialize : Json → Option ContainerConfigV2
  | .object members => do
    let name ← optionField "name" members
    let logPath ← optionField "log_path" members
    return .ofFields name logPath
  | .array [first, second] => do
    let name ← optionString first
    let logPath ← optionString second
    return .ofFields name logPath
  | _ => none

/-- The configuration in a directory, if it can be read; `fromSlice` reads JSON. -/
def readConfig (fs : FileSystem) (fromSlice : List UInt8 → Option Json) (dir : Path) :
    Option Json :=
  match fs.file (dir.join "config.v2.json") with
  | none => none
  | some file => if file.readable then fromSlice file.content else none

/-- `std::fs::metadata`, for the size of a file. -/
def fileSize (fs : FileSystem) (path : Path) : Option ℕ :=
  (fs.file path).map fun file => file.content.length

/-- `discover`, from the files. -/
def discoverIn (fs : FileSystem) (fromSlice : List UInt8 → Option Json) (root : Path)
    (names : List String) : Except IoError (List Tailed) :=
  discover names (fileSize fs) ((fs.readDir root).map fun dirs =>
    dirs.map fun dir => (readConfig fs fromSlice dir).bind ContainerConfigV2.deserialize)

/-! ## What Docker writes -/

/-- The text of the only member of a name. -/
def textOf (key : String) (members : List (String × Json)) : Option String :=
  match members.filter fun member => member.1 = key with
  | [(_, .string value)] => some value
  | _ => none

/-- The name and the path of the log file in a configuration of Docker's; the name has a slash before
it. -/
def dockerFields : Json → Option (String × String)
  | .object members =>
    match textOf "Name" members, textOf "LogPath" members with
    | some name, some logPath => match name.toList with
      | '/' :: rest => some (String.ofList rest, logPath)
      | _ => none
    | _, _ => none
  | _ => none

/-- The wanted container of a configuration of Docker's. -/
def dockerContainer (fs : FileSystem) (names : List String) (config : Json) : Option Tailed :=
  match dockerFields config with
  | some (name, logPath) =>
    if name ∈ names then
      some ⟨name, pathFrom logPath, (fileSize fs (pathFrom logPath)).getD 0⟩
    else none
  | none => none

/-- The wanted container of a configuration whose members are called as the fields are. -/
def lowercaseContainer (fs : FileSystem) (names : List String) : Json → Option Tailed
  | .object members =>
    match optionField "name" members, textOf "log_path" members with
    | some name, some logPath =>
      let short := String.ofList ((name.getD "").toList.dropWhile (· == '/'))
      if short ∈ names then
        some ⟨short, pathFrom logPath, (fileSize fs (pathFrom logPath)).getD 0⟩
      else none
    | _, _ => none
  | _ => none

/-! ## What is discovered -/

/-- The text of a member is what its field decodes to. -/
theorem optionField_eq_some_iff {key : String} {members : List (String × Json)} {value : String} :
    optionField key members = some (some value) ↔ textOf key members = some value := by
  unfold optionField textOf
  generalize members.filter (fun member => member.1 = key) = found
  rcases found with _ | ⟨⟨name, json⟩, _ | ⟨second, rest⟩⟩
  · simp
  · cases json <;> simp [optionString]
  · simp

/-- Of an object, the decoder and the check of the name leave the members with the names of the
fields. -/
theorem discoverContainer_object (fs : FileSystem) (names : List String)
    (members : List (String × Json)) :
    discoverContainer names (fileSize fs) (ContainerConfigV2.deserialize (.object members))
      = lowercaseContainer fs names (.object members) := by
  simp only [ContainerConfigV2.deserialize, lowercaseContainer]
  cases hname : optionField "name" members with
  | none => rfl
  | some name =>
    cases htext : textOf "log_path" members with
    | some logPath =>
      rw [optionField_eq_some_iff.mpr htext]
      rfl
    | none =>
      -- without a path the container is skipped
      cases hpath : optionField "log_path" members with
      | none => rfl
      | some logPath =>
        cases logPath with
        | some value =>
          rw [optionField_eq_some_iff.mp hpath] at htext
          cases htext
        | none =>
          show (if (ContainerConfigV2.ofFields name none).short ∈ names then none else none) = none
          exact ite_self none

theorem discoverContainer_nil (size : Path → Option ℕ) (config : Option ContainerConfigV2) :
    discoverContainer [] size config = none := by
  cases config with
  | none => rfl
  | some config => simp [discoverContainer]

variable {fs : FileSystem} {fromSlice : List UInt8 → Option Json} {root : Path}
  {names : List String} {dirs : List Path}

/-- Where every configuration is an object, discovery lists the wanted containers by the members
that are called as the fields are. -/
theorem discoverIn_eq (hroot : fs.dir root = some dirs)
    (hobjects : ∀ dir ∈ dirs, ∀ config, readConfig fs fromSlice dir = some config →
      config.isObject = true) :
    discoverIn fs fromSlice root names = .ok (dirs.filterMap fun dir =>
      (readConfig fs fromSlice dir).bind (lowercaseContainer fs names)) := by
  have hread : fs.readDir root = .ok dirs := by
    unfold FileSystem.readDir
    rw [hroot]
  have hcontainer : ∀ dir ∈ dirs,
      discoverContainer names (fileSize fs)
        ((readConfig fs fromSlice dir).bind ContainerConfigV2.deserialize)
        = (readConfig fs fromSlice dir).bind (lowercaseContainer fs names) := by
    intro dir hdir
    cases hconfig : readConfig fs fromSlice dir with
    | none => rfl
    | some config =>
      have hobject := hobjects dir hdir config hconfig
      cases config with
      | object members => exact discoverContainer_object fs names members
      | _ => cases hobject
  have hlisted : (dirs.map fun dir => (readConfig fs fromSlice dir).bind
      ContainerConfigV2.deserialize).filterMap (discoverContainer names (fileSize fs))
      = dirs.filterMap fun dir =>
        (readConfig fs fromSlice dir).bind (lowercaseContainer fs names) := by
    rw [List.filterMap_map]
    exact List.filterMap_congr hcontainer
  unfold discoverIn discover
  rw [hread]
  split
  · rename_i hnames
    subst hnames
    refine congrArg Except.ok (Eq.trans ?_ hlisted)
    exact (List.filterMap_eq_nil_iff.mpr fun config _ => discoverContainer_nil _ config).symm
  · exact congrArg Except.ok hlisted

/-- The wanted containers of a tree. -/
def dockerContainers (fs : FileSystem) (fromSlice : List UInt8 → Option Json) (names : List String)
    (dirs : List Path) : List Tailed :=
  dirs.filterMap fun dir => (readConfig fs fromSlice dir).bind (dockerContainer fs names)

/-- Every configuration that can be read is one of Docker's. -/
def DockerTree (fs : FileSystem) (fromSlice : List UInt8 → Option Json) (dirs : List Path) : Prop :=
  ∀ dir ∈ dirs, ∀ config, readConfig fs fromSlice dir = some config →
    (dockerFields config).isSome = true

/-- No configuration has a member that is called as a field is. -/
def NoFieldNames (fs : FileSystem) (fromSlice : List UInt8 → Option Json) (dirs : List Path) : Prop :=
  ∀ dir ∈ dirs, ∀ members, readConfig fs fromSlice dir = some (.object members) →
    ∀ member ∈ members, member.1 ≠ "name" ∧ member.1 ≠ "log_path"

theorem isObject_of_dockerFields {config : Json} (h : (dockerFields config).isSome = true) :
    config.isObject = true := by
  cases config with
  | object members => rfl
  | _ => cases h

/-- Without the members it looks for, the decoder finds no container. -/
theorem lowercaseContainer_eq_none {members : List (String × Json)}
    (h : ∀ member ∈ members, member.1 ≠ "log_path") :
    lowercaseContainer fs names (.object members) = none := by
  have htext : textOf "log_path" members = none := by
    unfold textOf
    rw [List.filter_eq_nil_iff.mpr fun member hmember => by
      simpa using h member hmember]
  simp only [lowercaseContainer, htext]
  split
  · rename_i hsome
    cases hsome
  · rfl

theorem dockerContainer_eq_none_iff {config : Json} :
    dockerContainer fs names config = none ↔
      ∀ name logPath, dockerFields config = some (name, logPath) → name ∉ names := by
  unfold dockerContainer
  cases hfields : dockerFields config with
  | none => simp
  | some fields =>
    obtain ⟨name, logPath⟩ := fields
    simp

/-- **Discovery finds the wanted containers** exactly when the members `name` and `log_path` list the
same ones as `Name` and `LogPath` do.  Docker writes the latter only: there, exactly when none is
wanted. -/
theorem discoverIn_eq_dockerContainers_iff (hroot : fs.dir root = some dirs)
    (htree : DockerTree fs fromSlice dirs) :
    (discoverIn fs fromSlice root names = .ok (dockerContainers fs fromSlice names dirs) ↔
      (dirs.filterMap fun dir => (readConfig fs fromSlice dir).bind (lowercaseContainer fs names))
        = dockerContainers fs fromSlice names dirs) ∧
    (NoFieldNames fs fromSlice dirs →
      (discoverIn fs fromSlice root names = .ok (dockerContainers fs fromSlice names dirs) ↔
        ∀ dir ∈ dirs, ∀ config, readConfig fs fromSlice dir = some config →
          ∀ name logPath, dockerFields config = some (name, logPath) → name ∉ names)) := by
  have hdiscovered : discoverIn fs fromSlice root names = .ok _ :=
    discoverIn_eq hroot fun dir hdir config hconfig =>
      isObject_of_dockerFields (htree dir hdir config hconfig)
  rw [hdiscovered, Except.ok.injEq]
  refine ⟨Iff.rfl, fun hplain => ?_⟩
  have hnothing : (dirs.filterMap fun dir =>
      (readConfig fs fromSlice dir).bind (lowercaseContainer fs names)) = [] := by
    refine List.filterMap_eq_nil_iff.mpr fun dir hdir => ?_
    cases hconfig : readConfig fs fromSlice dir with
    | none => rfl
    | some config =>
      have hobject := isObject_of_dockerFields (htree dir hdir config hconfig)
      cases config with
      | object members =>
        exact lowercaseContainer_eq_none fun member hmember =>
          (hplain dir hdir members hconfig member hmember).2
      | _ => cases hobject
  rw [hnothing, eq_comm, dockerContainers, List.filterMap_eq_nil_iff]
  refine forall₂_congr fun dir _ => ?_
  rw [Option.bind_eq_none_iff]
  exact forall₂_congr fun config _ => dockerContainer_eq_none_iff

/-! ## One container -/

/-- `DEFAULT_DOCKER_ROOT`. -/
def defaultDockerRoot : Path := [.text "var", .text "lib", .text "docker", .text "containers"]

def webDir : Path := defaultDockerRoot ++ [.text "4f66ad9a"]

/-- What Docker writes for a container, as far as it matters. -/
def webConfig : Json :=
  .object [("ID", .string "4f66ad9a"), ("LogPath", .string "/var/lib/docker/4f66ad9a-json.log"),
    ("Name", .string "/web")]

def webFile : List UInt8 := Text.bytes (String.ofList webConfig.write)

/-- A reader of JSON that knows the one file. -/
def webFromSlice (content : List UInt8) : Option Json :=
  if content = webFile then some webConfig else none

def webTree : FileSystem where
  file path := if path = webDir.join "config.v2.json" then some ⟨webFile, true⟩ else none
  dir path := if path = defaultDockerRoot then some [webDir] else none

theorem readConfig_webTree : readConfig webTree webFromSlice webDir = some webConfig := by
  simp [readConfig, webTree, webFromSlice]

theorem dockerFields_webConfig :
    dockerFields webConfig = some ("web", "/var/lib/docker/4f66ad9a-json.log") := by
  decide

theorem dockerTree_webTree : DockerTree webTree webFromSlice [webDir] := by
  intro dir hdir config hconfig
  obtain rfl := List.mem_singleton.mp hdir
  obtain rfl := Option.some.inj (readConfig_webTree.symm.trans hconfig)
  rw [dockerFields_webConfig]
  rfl

/-- Nothing is found, and nothing should be, where another container is wanted. -/
theorem discoverIn_webTree_other : discoverIn webTree webFromSlice defaultDockerRoot ["db"]
    = .ok (dockerContainers webTree webFromSlice ["db"] [webDir]) := by
  refine ((discoverIn_eq_dockerContainers_iff (by simp [webTree]) dockerTree_webTree).2 ?_).mpr ?_
  · intro dir hdir members hconfig
    obtain rfl := List.mem_singleton.mp hdir
    obtain rfl := Json.object.inj (Option.some.inj (readConfig_webTree.symm.trans hconfig))
    decide
  · intro dir hdir config hconfig name logPath hfields
    obtain rfl := List.mem_singleton.mp hdir
    obtain rfl := Option.some.inj (readConfig_webTree.symm.trans hconfig)
    obtain ⟨rfl, rfl⟩ := Prod.mk.inj (Option.some.inj (dockerFields_webConfig.symm.trans hfields))
    decide

/-- Nothing is found where the container itself is wanted. -/
theorem discoverIn_webTree_web : discoverIn webTree webFromSlice defaultDockerRoot ["web"]
    ≠ .ok (dockerContainers webTree webFromSlice ["web"] [webDir]) := by
  have hroot : webTree.dir defaultDockerRoot = some [webDir] := by simp [webTree]
  have hnothing : lowercaseContainer webTree ["web"] webConfig = none :=
    lowercaseContainer_eq_none (by decide)
  have hwanted : dockerContainer webTree ["web"] webConfig ≠ none := fun hnone =>
    dockerContainer_eq_none_iff.mp hnone _ _ dockerFields_webConfig (by decide)
  obtain ⟨tailed, htailed⟩ := Option.ne_none_iff_exists'.mp hwanted
  rw [discoverIn_eq hroot fun dir hdir config hconfig =>
    isObject_of_dockerFields (dockerTree_webTree dir hdir config hconfig)]
  simp [dockerContainers, readConfig_webTree, hnothing, htailed]

end Sentinalysis.Agent
