import Mathlib.Data.List.Infix
import Mathlib.Data.Set.Function
import Provisioning.Config.Application
import Provisioning.Lib.PosixPath
import Provisioning.Ops.Admission

/-!
# Application configs in files

`src/config/FileApplicationConfigStore.ts` and `validateApplicationConfig` of `src/config/application.ts`. An id is
read from its own file and from no other, and what is served is a function of the id and the version.
-/

namespace Provisioning

open Lib

/-! ## The shape of a document -/

def Json.typeof : Json → String
  | .null => "null"
  | .bool _ => "boolean"
  | .num _ => "number"
  | .str _ => "string"
  | .arr _ | .obj _ => "object"

/-- A required field. -/
def requiredField (raw : Json) (source key : String) : Except String String :=
  match raw.field key with
  | some (.str v) => if v = "" then .error (source ++ ": " ++ key ++ " must be a non-empty string") else .ok v
  | _ => .error (source ++ ": " ++ key ++ " must be a non-empty string")

/-- A block that may be left out. -/
def optionalBlock (raw : Json) (source key : String) : Except String (Option Fields) :=
  match raw.field key with
  | none => .ok none
  | some (.obj fields) => .ok (some fields)
  | some _ => .error (source ++ ": " ++ key ++ " must be an object when present")

def validateApplicationConfig (raw : Json) (source : String) : Except String ApplicationConfig :=
  match raw with
  | .obj _ => do
    let applicationId ← requiredField raw source "applicationId"
    let connectorType ← requiredField raw source "connectorType"
    let connectorVersion ← requiredField raw source "connectorVersion"
    let connectorConfig ← optionalBlock raw source "connectorConfig"
    let runtime ← optionalBlock raw source "runtime"
    .ok ⟨applicationId, connectorType, connectorVersion, connectorConfig.getD [], runtime⟩
  | _ => .error (source ++ ": expected a JSON object, got " ++ raw.typeof)

/-! ## The store -/

inductive ReadError where
  /-- `ENOENT`. -/
  | missing
  | other (message : String)

def isWordChar (c : Char) : Bool := ('A' ≤ c ∧ c ≤ 'Z') || ('a' ≤ c ∧ c ≤ 'z') || ('0' ≤ c ∧ c ≤ '9')

/-- `SAFE_ID`. -/
def isSafeId : List Char → Bool
  | [] => false
  | c :: rest => isWordChar c && rest.all fun d => isWordChar d || d ∈ ['.', '_', '-']

/-- The file of an application, if its id is not refused. -/
def fileOf (directory applicationId : String) : Except String String :=
  if ¬ isSafeId applicationId.toList ∨ ['.', '.'] <:+: applicationId.toList then
    .error ("applicationId " ++ (Json.str applicationId).stringify ++ " is not a valid identifier")
  else .ok (String.ofList (PosixPath.join directory.toList (applicationId ++ ".json").toList))

namespace FileApplicationConfigStore

variable (parse : String → Except String Json) (sha256 : String → String)

/-- What the text of a file says about an application. -/
def load (file applicationId text : String) : Except String ApplicationConfig := do
  let parsed ← (parse text).mapError fun message => file ++ ": not valid JSON -- " ++ message
  let config ← validateApplicationConfig parsed file
  if config.applicationId ≠ applicationId then
    .error (file ++ ": applicationId is " ++ (Json.str config.applicationId).stringify ++
      " but the file is named for " ++ (Json.str applicationId).stringify)
  else .ok config

/-- What becomes of the read of the file. -/
def served (file applicationId : String) : Except ReadError String → Except String (Option (ApplicationConfig × String))
  | .error .missing => .ok none
  | .error (.other message) => .error message
  | .ok text => do
    let config ← load parse file applicationId text
    .ok (some (config, sha256 text))

/-- `get`, over what a read of each file gives at that moment. -/
def get (directory : String) (readFile : String → Except ReadError String) (applicationId : String) :
    Except String (Option (ApplicationConfig × String)) := do
  let file ← fileOf directory applicationId
  served parse sha256 file applicationId (readFile file)

variable {parse sha256}

/-! ## The file of an id -/

section File

variable {directory applicationId file : String}

theorem isSafeId_spec {id : List Char} (h : isSafeId id) :
    id ≠ [] ∧ ∀ c ∈ id, isWordChar c ∨ c ∈ ['.', '_', '-'] := by
  cases id with
  | nil => cases h
  | cons c rest =>
    simp only [isSafeId, Bool.and_eq_true, List.all_eq_true, Bool.or_eq_true, decide_eq_true_eq] at h
    refine ⟨List.cons_ne_nil _ _, fun d hd => ?_⟩
    rcases List.mem_cons.1 hd with rfl | hd
    · exact .inl h.1
    · exact h.2 d hd

theorem isSafeId_noSlash {id : List Char} (h : isSafeId id) : '/' ∉ id := by
  intro hmem
  rcases (isSafeId_spec h).2 _ hmem with hword | hdot
  · exact absurd hword (by decide)
  · simp at hdot

theorem isName_of_isSafeId {id : List Char} (h : isSafeId id) : PosixPath.IsName (id ++ ".json".toList) := by
  have hlength : 5 ≤ (id ++ ".json".toList).length := by simp
  constructor
  · simp [isSafeId_noSlash h]
  · simp
  · intro heq
    rw [heq] at hlength
    simp at hlength
  · intro heq
    rw [heq] at hlength
    simp at hlength

theorem fileOf_ok (h : fileOf directory applicationId = .ok file) :
    isSafeId applicationId.toList ∧
      file = String.ofList (PosixPath.base directory.toList ++ (applicationId ++ ".json").toList) := by
  unfold fileOf at h
  split at h
  · cases h
  · rename_i hsafe
    obtain ⟨hsafe, -⟩ := not_or.1 hsafe
    have hsafe := not_not.1 hsafe
    refine ⟨hsafe, ?_⟩
    rw [← Except.ok.inj h, String.toList_append, PosixPath.join_name (isName_of_isSafeId hsafe)]

end File

/-! ## What a document says -/

section Load

variable {raw : Json} {source key file applicationId text : String} {config : ApplicationConfig}

theorem requiredField_ok {v : String} :
    requiredField raw source key = .ok v ↔ raw.field key = some (.str v) ∧ v ≠ "" := by
  unfold requiredField
  split
  · rename_i v' hv
    split
    · rename_i hempty
      simp only [reduceCtorEq, false_iff, not_and, not_not]
      rintro heq
      rw [hv] at heq
      cases heq
      exact hempty
    · rename_i hne
      constructor
      · intro h
        obtain rfl := Except.ok.inj h
        exact ⟨hv, hne⟩
      · rintro ⟨heq, -⟩
        rw [hv] at heq
        cases heq
        rfl
  · rename_i hother
    simp only [reduceCtorEq, false_iff, not_and, not_not]
    exact fun heq => absurd heq (hother v)

theorem optionalBlock_source {block : Option Fields} (source' : String) (h : optionalBlock raw source key = .ok block) :
    optionalBlock raw source' key = .ok block := by
  unfold optionalBlock at h ⊢
  split at h
  · rename_i hnone
    exact h
  · exact h
  · cases h

theorem validateApplicationConfig_ok (h : validateApplicationConfig raw source = .ok config) :
    (∀ source', validateApplicationConfig raw source' = .ok config) ∧ config.applicationId ≠ "" ∧
      config.connectorType ≠ "" ∧ config.connectorVersion ≠ "" := by
  cases raw with
  | obj fields =>
    obtain ⟨applicationId, hid, h⟩ := bind_eq_ok.1 h
    obtain ⟨connectorType, htype, h⟩ := bind_eq_ok.1 h
    obtain ⟨connectorVersion, hversion, h⟩ := bind_eq_ok.1 h
    obtain ⟨connectorConfig, hconfig, h⟩ := bind_eq_ok.1 h
    obtain ⟨runtime, hruntime, h⟩ := bind_eq_ok.1 h
    obtain rfl := Except.ok.inj h
    have hid := requiredField_ok.1 hid
    have htype := requiredField_ok.1 htype
    have hversion := requiredField_ok.1 hversion
    refine ⟨fun source' => ?_, hid.2, htype.2, hversion.2⟩
    exact bind_eq_ok.2 ⟨_, requiredField_ok.2 hid, bind_eq_ok.2 ⟨_, requiredField_ok.2 htype,
      bind_eq_ok.2 ⟨_, requiredField_ok.2 hversion, bind_eq_ok.2 ⟨_, optionalBlock_source source' hconfig,
        bind_eq_ok.2 ⟨_, optionalBlock_source source' hruntime, rfl⟩⟩⟩⟩⟩
  | null | bool | num | str | arr => cases h

theorem load_ok (h : load parse file applicationId text = .ok config) :
    config.applicationId = applicationId ∧ (∀ file', load parse file' applicationId text = .ok config) ∧
      config.connectorType ≠ "" ∧ config.connectorVersion ≠ "" := by
  obtain ⟨parsed, hparsed, h⟩ := bind_eq_ok.1 h
  obtain ⟨config', hvalid, h⟩ := bind_eq_ok.1 h
  have hparse : parse text = .ok parsed := by
    cases hresult : parse text with
    | ok parsed' => rwa [hresult] at hparsed
    | error message =>
      rw [hresult] at hparsed
      cases hparsed
  obtain ⟨hsource, -, htype, hversion⟩ := validateApplicationConfig_ok hvalid
  split at h
  · cases h
  · rename_i hid
    obtain rfl := Except.ok.inj h
    refine ⟨not_not.1 hid, fun file' => ?_, htype, hversion⟩
    unfold load
    rw [hparse]
    exact bind_eq_ok.2 ⟨parsed, rfl, bind_eq_ok.2 ⟨config', hsource file', if_neg hid⟩⟩

theorem get_ok {directory version : String} {readFile : String → Except ReadError String}
    (h : get parse sha256 directory readFile applicationId = .ok (some (config, version))) :
    ∃ file text, fileOf directory applicationId = .ok file ∧ readFile file = .ok text ∧
      load parse file applicationId text = .ok config ∧ version = sha256 text := by
  obtain ⟨file, hfile, h⟩ := bind_eq_ok.1 h
  cases hread : readFile file with
  | error e =>
    rw [hread] at h
    cases e <;> cases h
  | ok text =>
    rw [hread] at h
    obtain ⟨config', hload, h⟩ := bind_eq_ok.1 h
    obtain ⟨rfl, rfl⟩ := Prod.mk.inj (Option.some.inj (Except.ok.inj h))
    exact ⟨file, text, hfile, hread, hload, rfl⟩

end Load

/-! ## The file of one application -/

def hrText : String :=
  "\x7b\"applicationId\":\"hr\",\"connectorType\":\"ldap\",\"connectorVersion\":\"1\"\x7d"

def hrParse (text : String) : Except String Json :=
  if text = hrText then
    .ok (.obj [("applicationId", .str "hr"), ("connectorType", .str "ldap"), ("connectorVersion", .str "1")])
  else .error "Unexpected token"

def hrHash (text : String) : String :=
  if text = hrText then "0f7eae6e9a1b3658b0d0cfceacfb99b93f635a2151da1540c90d3ad434b6c78f" else ""

def hrFiles (file : String) : Except ReadError String :=
  if file = "/etc/apps/hr.json" then .ok hrText else .error .missing

/-! ## The results -/

/-- **An id is read from its own file.** The files of a directory all lie behind one base, and what is got for an id
depends on `<base><id>.json` alone. -/
theorem get_own_file (directory : String) :
    ∃ base, ∀ applicationId (readFile readFile' : String → Except ReadError String),
      readFile (base ++ applicationId ++ ".json") = readFile' (base ++ applicationId ++ ".json") →
        get parse sha256 directory readFile applicationId = get parse sha256 directory readFile' applicationId ∧
          ∀ file, fileOf directory applicationId = .ok file →
            file = base ++ applicationId ++ ".json" ∧ '/' ∉ applicationId.toList := by
  refine ⟨String.ofList (PosixPath.base directory.toList), fun applicationId readFile readFile' h => ?_⟩
  have own : ∀ file, fileOf directory applicationId = .ok file →
      file = String.ofList (PosixPath.base directory.toList) ++ applicationId ++ ".json" ∧
        '/' ∉ applicationId.toList := by
    intro file hfile
    obtain ⟨hsafe, rfl⟩ := fileOf_ok hfile
    refine ⟨?_, isSafeId_noSlash hsafe⟩
    rw [String.ofList_append, String.ofList_toList, String.append_assoc]
  refine ⟨?_, own⟩
  unfold get
  cases hfile : fileOf directory applicationId with
  | error message => rfl
  | ok file =>
    change served parse sha256 file applicationId (readFile file) =
      served parse sha256 file applicationId (readFile' file)
    rw [(own file hfile).1, h]

/-- The other files of the directory may hold anything. -/
theorem get_own_file_hr :
    get hrParse hrHash "/etc/./apps" hrFiles "hr" =
      get hrParse hrHash "/etc/./apps"
        (fun file => if file = "/etc/apps/hr.json" then .ok hrText else .ok "\x7b") "hr" := by
  obtain ⟨base, own⟩ := @get_own_file hrParse hrHash "/etc/./apps"
  have hfile : fileOf "/etc/./apps" "hr" = .ok "/etc/apps/hr.json" := by
    have h : (fileOf "/etc/./apps" "hr").toOption = some "/etc/apps/hr.json" := by decide +kernel
    cases hresult : fileOf "/etc/./apps" "hr" with
    | error message => simp [hresult, Except.toOption] at h
    | ok file =>
      rw [hresult] at h
      exact congrArg Except.ok (Option.some.inj h)
  obtain ⟨hbase, -⟩ := (own "hr" hrFiles hrFiles rfl).2 _ hfile
  refine (own "hr" hrFiles _ ?_).1
  rw [← hbase]
  simp [hrFiles]

open Classical in
/-- The document that a version names, among the texts that were ever in the files. -/
noncomputable def documentOf (parse : String → Except String Json) (sha256 : String → String) (texts : Set String)
    (applicationId version : String) : ApplicationConfig :=
  if h : ∃ config, ∃ text ∈ texts, sha256 text = version ∧ load parse "" applicationId text = .ok config then h.choose
  else ⟨applicationId, "", "", [], none⟩

theorem documentOf_own {texts : Set String} (applicationId version : String) :
    (documentOf parse sha256 texts applicationId version).applicationId = applicationId := by
  unfold documentOf
  split
  · rename_i h
    obtain ⟨text, -, -, hload⟩ := h.choose_spec
    exact (load_ok hload).1
  · rfl

theorem documentOf_eq {texts : Set String} {applicationId text : String} {config : ApplicationConfig}
    (free : Set.InjOn sha256 texts) (htext : text ∈ texts) (hload : load parse "" applicationId text = .ok config) :
    config = documentOf parse sha256 texts applicationId (sha256 text) := by
  have h : ∃ config, ∃ text' ∈ texts, sha256 text' = sha256 text ∧ load parse "" applicationId text' = .ok config :=
    ⟨config, text, htext, rfl, hload⟩
  unfold documentOf
  rw [dif_pos h]
  obtain ⟨text', htext', hhash, hload'⟩ := h.choose_spec
  obtain rfl := free htext' htext hhash
  rw [hload] at hload'
  exact Except.ok.inj hload'

/-- **The store serves documents**, as the registrar takes them: a version names one document of its application, as
long as no two texts that were in the files have one hash. -/
theorem get_documents {texts : Set String} (free : Set.InjOn sha256 texts) :
    ∃ docs : Documents, ∀ directory (readFile : String → Except ReadError String) applicationId config version,
      (∀ file text, readFile file = .ok text → text ∈ texts) →
        get parse sha256 directory readFile applicationId = .ok (some (config, version)) →
          config = docs.config applicationId version ∧ config.connectorType ≠ "" ∧ config.connectorVersion ≠ "" := by
  refine ⟨⟨documentOf parse sha256 texts, documentOf_own⟩, ?_⟩
  intro directory readFile applicationId config version known h
  obtain ⟨file, text, -, hread, hload, rfl⟩ := get_ok h
  obtain ⟨-, anywhere, htype, hversion⟩ := load_ok hload
  exact ⟨documentOf_eq free (known file text hread) (anywhere ""), htype, hversion⟩

theorem get_documents_hr :
    ∃ docs : Documents, ∃ config version, get hrParse hrHash "/etc/apps/" hrFiles "hr" = .ok (some (config, version)) ∧
      config.connectorType = "ldap" ∧ config = docs.config "hr" version := by
  obtain ⟨docs, serves⟩ := @get_documents hrParse hrHash {hrText} (Set.injOn_singleton hrHash hrText)
  have h : ((get hrParse hrHash "/etc/apps/" hrFiles "hr").toOption.bind fun served =>
      served.map fun x => x.1.connectorType) = some "ldap" := by
    decide +kernel
  obtain ⟨served, hserved, h⟩ := Option.bind_eq_some_iff.1 h
  obtain ⟨⟨config, version⟩, rfl, htype⟩ := Option.map_eq_some_iff.1 h
  have hget : get hrParse hrHash "/etc/apps/" hrFiles "hr" = .ok (some (config, version)) := by
    cases hresult : get hrParse hrHash "/etc/apps/" hrFiles "hr" with
    | error message => simp [hresult, Except.toOption] at hserved
    | ok served =>
      rw [hresult] at hserved
      exact congrArg Except.ok (Option.some.inj hserved)
  have known : ∀ file text, hrFiles file = .ok text → text ∈ ({hrText} : Set String) := by
    intro file text hfile
    unfold hrFiles at hfile
    split at hfile
    · exact (Except.ok.inj hfile).symm
    · cases hfile
  exact ⟨docs, config, version, hget, htype, (serves _ _ _ _ _ known hget).1⟩

end FileApplicationConfigStore

end Provisioning
