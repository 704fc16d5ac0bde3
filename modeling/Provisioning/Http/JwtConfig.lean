import Provisioning.Config.Wiring
import Provisioning.Lib.Numeral

/-!
# The configuration of the bearer check

`validateJwtConfig` of `src/http/auth.ts`, which runs when the module is loaded. `parseUrl` is `new URL`, and
`numberText` is the text of a number in a message.
-/

namespace Provisioning

open Lib

namespace Http

structure JwtConfig where
  jwksUri : String
  expectedIssuer : String
  expectedAudience : String
  allowedAlgorithms : List String
  clockSkewSeconds : Double
  maxTokenAgeSeconds : Double
  requiredScope : Option String
  deriving DecidableEq

def SUPPORTED_ALGORITHMS : List String :=
  ["RS256", "RS384", "RS512", "PS256", "PS384", "PS512", "ES256", "ES384", "ES512", "EdDSA"]

def MAX_TOKEN_AGE_CEILING : Nat := 7 * 24 * 60 * 60

/-- The parts of a URL that the checks read. -/
structure UrlParts where
  protocol : String
  hostname : String

/-- `s.length`. A character beyond the first 65536 is two units. -/
def utf16Length (s : String) : Nat := (s.toList.map fun c => if c.toNat < 65536 then 1 else 2).sum

/-- `s.split(",").map(trim).filter(Boolean)`. -/
def splitList (s : String) : List String :=
  ((s.toList.splitOn ',').map fun part => trim (String.ofList part)).filter (· ≠ "")

variable (parseUrl : String → Option UrlParts) (numberText : Double → String) (env : ProcessEnv)

/-- `process.env[key]?.trim()`, without an empty one. -/
def envText (key : String) : Option String := ((env key).map trim).filter (· ≠ "")

/-! ## The checks -/

def jwksUriErrors : List String :=
  match envText env "JWT_JWKS_URI" with
  | none => ["JWT_JWKS_URI is required but not set"]
  | some jwksUri =>
    match parseUrl jwksUri with
    | none => ["JWT_JWKS_URI is not a valid URL: " ++ jwksUri]
    | some url =>
      if "http".toList <+: url.protocol.toList then []
      else ["JWT_JWKS_URI must be a valid HTTP(S) URL, got: " ++ jwksUri]

/-- The check of the issuer and that of the audience. -/
def claimErrors (key meaning : String) : List String :=
  match envText env key with
  | none => [key ++ " (" ++ meaning ++ ") is required but not set"]
  | some value =>
    if 512 < utf16Length value then
      [key ++ " is too long (max 512 chars): " ++ toString (utf16Length value) ++ " chars"]
    else []

def allowedAlgorithmsOf : List String :=
  splitList (match env "JWT_ALLOWED_ALGS" with
    | some algs => trim algs
    | none => "RS256,PS256,ES256")

def algorithmErrors : List String :=
  let algorithms := allowedAlgorithmsOf env
  if algorithms = [] then ["JWT_ALLOWED_ALGS must contain at least one algorithm"]
  else
    let unsupported := algorithms.filter (· ∉ SUPPORTED_ALGORITHMS)
    if unsupported = [] then []
    else
      ["JWT_ALLOWED_ALGS contains unsupported algorithms: " ++ String.intercalate ", " unsupported ++ ". " ++
        "Supported: " ++ String.intercalate ", " SUPPORTED_ALGORITHMS]

def skewText : String := (envText env "JWT_ACCEPTED_CLOCK_SKEW_SEC").getD "60"

def clockSkewOf : Double := Numeral.number (skewText env).toList

def skewErrors : List String :=
  let skew := clockSkewOf env
  if skew = .nan then ["JWT_ACCEPTED_CLOCK_SKEW_SEC must be a number, got: " ++ skewText env]
  else if skew.below 0 then ["JWT_ACCEPTED_CLOCK_SKEW_SEC must be non-negative, got: " ++ numberText skew]
  else if skew.above 300 then
    ["JWT_ACCEPTED_CLOCK_SKEW_SEC is too large (max 300 seconds), got: " ++ numberText skew ++ ". " ++
      "Large clock skew values weaken security."]
  else []

def maxAgeText : String := (envText env "JWT_MAX_TOKEN_AGE_SEC").getD "86400"

def maxTokenAgeOf : Double := Numeral.number (maxAgeText env).toList

def maxAgeErrors : List String :=
  let age := maxTokenAgeOf env
  if ¬ age.isInteger then ["JWT_MAX_TOKEN_AGE_SEC must be an integer, got: " ++ maxAgeText env]
  else if ¬ age.above 0 then ["JWT_MAX_TOKEN_AGE_SEC must be positive, got: " ++ numberText age]
  else if age.above MAX_TOKEN_AGE_CEILING then
    ["JWT_MAX_TOKEN_AGE_SEC is too large (max " ++ toString MAX_TOKEN_AGE_CEILING ++ " seconds / 7 days), " ++
      "got: " ++ numberText age ++ ". Long-lived tokens weaken security."]
  else []

def scopeErrors : List String :=
  match envText env "JWT_REQUIRED_SCOPE" with
  | none => []
  | some scope =>
    if 256 < utf16Length scope then
      ["JWT_REQUIRED_SCOPE is too long (max 256 chars): " ++ toString (utf16Length scope) ++ " chars"]
    else []

/-- An issuer that is no URL is not compared. -/
def hostErrors : List String :=
  match envText env "JWT_JWKS_URI", envText env "JWT_EXPECTED_ISS" with
  | some jwksUri, some issuer =>
    match parseUrl issuer, parseUrl jwksUri with
    | some issuerUrl, some jwksUrl =>
      if issuerUrl.hostname = jwksUrl.hostname then []
      else
        ["JWT_EXPECTED_ISS host (" ++ issuerUrl.hostname ++ ") and JWT_JWKS_URI host (" ++ jwksUrl.hostname ++
          ") differ -- they must be the same authority. Correct whichever one is wrong."]
    | _, _ => []
  | _, _ => []

def jwtConfigErrors : List String :=
  jwksUriErrors parseUrl env ++ claimErrors env "JWT_EXPECTED_ISS" "issuer" ++
    claimErrors env "JWT_EXPECTED_AUD" "audience" ++ algorithmErrors env ++ skewErrors numberText env ++
    maxAgeErrors numberText env ++ scopeErrors env ++ hostErrors parseUrl env

def validateJwtConfig : Except String JwtConfig :=
  let errors := jwtConfigErrors parseUrl numberText env
  match envText env "JWT_JWKS_URI", envText env "JWT_EXPECTED_ISS", envText env "JWT_EXPECTED_AUD" with
  | some jwksUri, some expectedIssuer, some expectedAudience =>
    if errors = [] then
      .ok
        { jwksUri := jwksUri
          expectedIssuer := expectedIssuer
          expectedAudience := expectedAudience
          allowedAlgorithms := allowedAlgorithmsOf env
          clockSkewSeconds := clockSkewOf env
          maxTokenAgeSeconds := maxTokenAgeOf env
          requiredScope := envText env "JWT_REQUIRED_SCOPE" }
    else .error ("JWT configuration validation failed:\n" ++ String.intercalate "\n" (errors.map ("  - " ++ ·)))
  | _, _, _ => .error ("JWT configuration validation failed:\n" ++ String.intercalate "\n" (errors.map ("  - " ++ ·)))

/-! ## What is accepted -/

/-- What the service lets its bearer check be. -/
structure JwtConfig.Sound (config : JwtConfig) : Prop where
  algorithms : config.allowedAlgorithms ≠ [] ∧ ∀ alg ∈ config.allowedAlgorithms, alg ∈ SUPPORTED_ALGORITHMS
  skew : config.clockSkewSeconds ≠ .nan ∧ ¬ config.clockSkewSeconds.below 0 ∧
    ¬ config.clockSkewSeconds.above 300
  age : ∃ seconds : Nat, config.maxTokenAgeSeconds = .finite seconds ∧ 0 < seconds ∧
    seconds ≤ MAX_TOKEN_AGE_CEILING
  scope : ∀ scope, config.requiredScope = some scope → scope ≠ ""
  authority : ∀ issuer jwks, parseUrl config.expectedIssuer = some issuer → parseUrl config.jwksUri = some jwks →
    issuer.hostname = jwks.hostname

variable {parseUrl} {numberText} {env}

theorem algorithmErrors_nil (h : algorithmErrors env = []) :
    allowedAlgorithmsOf env ≠ [] ∧ ∀ alg ∈ allowedAlgorithmsOf env, alg ∈ SUPPORTED_ALGORITHMS := by
  unfold algorithmErrors at h
  simp only at h
  split at h
  · simp at h
  · rename_i hne
    split at h
    · rename_i hnone
      refine ⟨hne, fun alg halg => ?_⟩
      have hall := List.filter_eq_nil_iff.1 hnone alg halg
      simpa using hall
    · simp at h

theorem skewErrors_nil (h : skewErrors numberText env = []) :
    clockSkewOf env ≠ .nan ∧ ¬ (clockSkewOf env).below 0 ∧ ¬ (clockSkewOf env).above 300 := by
  unfold skewErrors at h
  simp only at h
  split at h
  · simp at h
  · rename_i hnan
    split at h
    · simp at h
    · rename_i hbelow
      split at h
      · simp at h
      · rename_i habove
        exact ⟨hnan, hbelow, habove⟩

theorem maxAgeErrors_nil (h : maxAgeErrors numberText env = []) :
    ∃ seconds : Nat, maxTokenAgeOf env = .finite seconds ∧ 0 < seconds ∧ seconds ≤ MAX_TOKEN_AGE_CEILING := by
  unfold maxAgeErrors at h
  simp only at h
  split at h
  · simp at h
  · rename_i hinteger
    split at h
    · simp at h
    · rename_i hpositive
      split at h
      · simp at h
      · rename_i hbounded
        exact Double.exists_nat (not_not.1 hinteger) (not_not.1 hpositive) hbounded

theorem hostErrors_nil {jwksUri issuer : String} {issuerUrl jwksUrl : UrlParts} (h : hostErrors parseUrl env = [])
    (hjwks : envText env "JWT_JWKS_URI" = some jwksUri) (hissuer : envText env "JWT_EXPECTED_ISS" = some issuer)
    (hissuerUrl : parseUrl issuer = some issuerUrl) (hjwksUrl : parseUrl jwksUri = some jwksUrl) :
    issuerUrl.hostname = jwksUrl.hostname := by
  unfold hostErrors at h
  rw [hjwks, hissuer] at h
  simp only [hissuerUrl, hjwksUrl] at h
  split at h
  · assumption
  · simp at h

theorem envText_ne_empty {key value : String} (h : envText env key = some value) : value ≠ "" := by
  obtain ⟨-, hne⟩ := Option.filter_eq_some_iff.1 h
  simpa using hne

/-- **A configuration that the service starts with is sound.** -/
theorem validateJwtConfig_sound {config : JwtConfig} (h : validateJwtConfig parseUrl numberText env = .ok config) :
    config.Sound parseUrl := by
  unfold validateJwtConfig at h
  simp only at h
  split at h
  · rename_i jwksUri issuer audience hjwks hissuer haudience
    split at h
    · rename_i hnone
      obtain rfl := Except.ok.inj h
      simp only [jwtConfigErrors, List.append_eq_nil_iff] at hnone
      obtain ⟨⟨⟨⟨⟨⟨⟨-, -⟩, -⟩, halgorithms⟩, hskew⟩, hage⟩, -⟩, hhosts⟩ := hnone
      refine ⟨algorithmErrors_nil halgorithms, skewErrors_nil hskew, maxAgeErrors_nil hage, ?_, ?_⟩
      · exact fun scope hscope => envText_ne_empty hscope
      · exact fun issuerUrl jwksUrl hi hj => hostErrors_nil hhosts hjwks hissuer hi hj
    · simp at h
  · simp at h

end Http

end Provisioning
