import Trstctl.Agentid.Delegation.Record

/-!
# The issuance gate

`Gate.verify` of `internal/agentid/delegation/verifier.go`: the checks of an
issuance request in their order, each of which may refuse.  A refusal names
the check, the hop and a detail.  The signer's stores are read through the
configuration; JSON decoding is a parameter.
-/

namespace Trstctl.Agentid.Delegation

open Go (Bytes bytes)

/-- The checks a refusal can name. -/
inductive Check where
  | decode
  | chainLinkage
  | hopSignature
  | rootAnchor
  | expiry
  | depth
  | revocation
  | narrowing
  | attestation
  | agentStack
  | bindingTarget
  | reachability
  | taskEnvelope
deriving DecidableEq

/-- A refused `verifyResult`.  The hop is -1 where no hop is at fault. -/
structure Refusal where
  check : Check
  hopIndex : Int
  detail : Bytes
deriving DecidableEq

structure RootAnchor where
  publicDER : Bytes
  authRef : Bytes

structure TrustStore where
  anchors : Go.Map RootAnchor
  tenantAnchors : Go.Map (Go.Map RootAnchor)
  source : Option (Bytes → Bytes → Option RootAnchor)

/-- `TrustStore.AnchorForTenant`: the tenant's anchors, then the dynamic
source, then the global anchors. -/
def TrustStore.anchorForTenant (store : TrustStore) (tenantID keyID : Bytes) :
    Option RootAnchor :=
  match (store.tenantAnchors.lookup tenantID).bind (fun anchors => anchors.lookup keyID) with
  | some anchor => some anchor
  | none =>
      match store.source.bind (fun source => source tenantID keyID) with
      | some anchor => some anchor
      | none => store.anchors.lookup keyID

/-- `AttestationClass`, from the weakest to the strongest. -/
inductive AttestationClass where
  | none
  | software
  | virtualTPM
  | hardwareTPM
  | hsm
deriving DecidableEq

/-- The position of a class in the order. -/
def AttestationClass.rank : AttestationClass → Nat
  | .none => 0
  | .software => 1
  | .virtualTPM => 2
  | .hardwareTPM => 3
  | .hsm => 4

/-- `AttestationClass.String`. -/
def AttestationClass.text : AttestationClass → Bytes
  | .none => bytes "none"
  | .software => bytes "software"
  | .virtualTPM => bytes "virtual-tpm"
  | .hardwareTPM => bytes "hardware-tpm"
  | .hsm => bytes "hsm"

def methodClass : Go.Map AttestationClass :=
  [(bytes "software", .software), (bytes "virtual-tpm", .virtualTPM),
    (bytes "aws_iid", .virtualTPM), (bytes "aws-iid", .virtualTPM),
    (bytes "k8s_sat", .virtualTPM), (bytes "github_oidc", .virtualTPM),
    (bytes "gcp", .virtualTPM), (bytes "azure", .virtualTPM), (bytes "tpm", .hardwareTPM),
    (bytes "hardware-tpm", .hardwareTPM), (bytes "hsm", .hsm)]

structure VerifiedAttestation where
  method : Bytes
  subject : Bytes
  claims : Go.Map Bytes

def classOfAttestation (attestation : VerifiedAttestation) : AttestationClass :=
  match (attestation.claims.lookup (bytes "attestation_class")).bind
      (fun claim => methodClass.lookup claim) with
  | some claimed => claimed
  | none => (methodClass.lookup attestation.method).getD .none

/-- An attestation verifier, scoped by tenant or not.  `none` is an error. -/
inductive Attestor where
  | scoped (verify : Bytes → Bytes → Bytes → Option VerifiedAttestation)
  | plain (verify : Bytes → Bytes → Option VerifiedAttestation)

/-- The verification of evidence, by the tenant's own attestors if scoped. -/
def Attestor.verifyEvidence (attestor : Attestor) (tenantID method payload : Bytes) :
    Option VerifiedAttestation :=
  match attestor with
  | .scoped verify => verify tenantID method payload
  | .plain verify => verify method payload

/-- `Config`, as far as the verification reads it.  The revocation reader
answers `none` on an error. -/
structure Config where
  roots : TrustStore
  isRevoked : Bytes → Bytes → Option Bool
  attestor : Option Attestor
  minClass : Go.Map AttestationClass
  tools : ToolRegistry
  taskEnvelopeTrust : Option (Bytes → Option Bytes)
  reachabilityTrust : Option (Bytes → Option Bytes)
  reachabilityWatermark : Option (Bytes → Bytes → Bool)
  requireReachability : Bool

/-- A request to issue under a delegation. -/
structure IssuancePreconditions where
  tenantID : Bytes
  trustAnchorRef : Bytes
  notBefore : Int64
  notAfter : Int64
  preconditions : Bytes
  subjectRepr : Bytes
  attestation : Bytes
  attestationMethod : Bytes

/-- What a request presents. -/
structure PreconditionsBody where
  chain : List RecordEnvelope
  designatedClass : Bytes
  envelope : Bytes
  reachabilityVerdict : Bytes

structure AttestationBody where
  method : Bytes
  payload : Bytes

structure ReprShape where
  systemPromptDigest : Bytes
  toolManifestDigest : Bytes

/-- `json.Unmarshal` into the types of a request; a failure carries its text. -/
structure Json where
  preconditions : Bytes → Except Bytes PreconditionsBody
  attestation : Bytes → Except Bytes AttestationBody
  repr : Bytes → Except Bytes ReprShape
  envelope : Bytes → Except Bytes Taskenv.Envelope
  verdict : Bytes → Except Bytes Reach.Verdict

structure BindingMaterial where
  chainHeadDigest : Bytes
  agentStackDigest : Bytes
  agentStackRepr : Bytes
  designatedClass : Bytes
  attestationDigest : Bytes
  comparatorVersion : Bytes
  rootAnchorAuthRef : Bytes
  taskEnvelopeDigest : Bytes

section Verification

variable (crypto : Crypto)
variable (json : Json)
variable (config : Config)

/-- The linkage checks of the first hop. -/
def checkRootLinkage (record : Record) : Except Refusal Unit :=
  if !record.validateLinkage then
    .error ⟨.chainLinkage, 0, bytes
      "delegation: record must be either root-anchored or parent-linked, not both or neither"⟩
  else if !record.rootAnchor then
    .error ⟨.chainLinkage, 0, bytes "first hop is not root-anchored"⟩
  else .ok ()

/-- The linkage checks of a later hop against the hop before it: the parent
digest, the principal and the key it was delegated to. -/
def checkLinkage (index : Nat) (previous : Record) (parentDigest : Bytes)
    (hop : RecordEnvelope) : Except Refusal Unit :=
  if !hop.record.validateLinkage then
    .error ⟨.chainLinkage, index, bytes
      "delegation: record must be either root-anchored or parent-linked, not both or neither"⟩
  else if hop.record.rootAnchor then
    .error ⟨.chainLinkage, index, bytes "non-root hop is root-anchored"⟩
  else if hop.record.parentDigest ≠ parentDigest then
    .error ⟨.chainLinkage, index, bytes "parent digest does not match the previous hop"⟩
  else if hop.record.delegatorID ≠ previous.delegateID then
    .error ⟨.chainLinkage, index, bytes "hop delegator is not the previous hop's delegate"⟩
  else if previous.delegateKeyThumbprint.isEmpty then
    .error ⟨.chainLinkage, index, bytes
      "previous hop commits to no delegate key, so this hop's signing key cannot be bound"⟩
  else if delegateKeyThumbprintOf crypto hop.delegatorPublicDER ≠
      previous.delegateKeyThumbprint then
    .error ⟨.chainLinkage, index, bytes
      "hop signing key is not the key the previous hop delegated to"⟩
  else .ok ()

/-- The check of a hop's signature against the key it carries. -/
def checkSignature (index : Nat) (hop : RecordEnvelope) : Except Refusal Unit :=
  if hop.delegatorPublicDER.isEmpty then
    .error ⟨.hopSignature, index, bytes "hop carries no delegator public key"⟩
  else if !hop.record.verify crypto hop.delegatorPublicDER config.tools then
    .error ⟨.hopSignature, index, bytes "delegator signature invalid"⟩
  else .ok ()

/-- The check of the first hop's key against the held anchors.  The result is
the anchor's auth reference. -/
def checkRootAnchor (tenantID : Bytes) (hop : RecordEnvelope) : Except Refusal Bytes :=
  match config.roots.anchorForTenant tenantID hop.record.delegatorKey.id with
  | none => .error ⟨.rootAnchor, 0, bytes "root delegator key id is not a held anchor"⟩
  | some anchor =>
      if anchor.publicDER ≠ hop.delegatorPublicDER then
        .error ⟨.rootAnchor, 0, bytes "root delegator key does not match the held anchor"⟩
      else .ok anchor.authRef

/-- The checks of a hop's validity window and of its depth ceiling. -/
def checkValidity (index : Nat) (record : Record) (now : Int64) : Except Refusal Unit :=
  if !withinNow record.validity now then
    .error ⟨.expiry, index, bytes "hop validity window does not contain the issuance time"⟩
  else if record.depthRemaining.toNat > record.authority.depth.toNat then
    .error ⟨.depth, index, bytes "hop depth-remaining exceeds its authority depth ceiling"⟩
  else .ok ()

/-- The depth accounting between neighbouring hops. -/
def checkDepth (index : Nat) (previous record : Record) : Except Refusal Unit :=
  if previous.depthRemaining = 0 then
    .error ⟨.depth, index, bytes "parent hop has no remaining delegation depth"⟩
  else if previous.depthRemaining ≤ record.depthRemaining then
    .error ⟨.depth, index, bytes "hop did not decrement remaining delegation depth"⟩
  else .ok ()

/-- The check that a hop is not revoked for the tenant. -/
def checkRevocation (index : Nat) (tenantID digest : Bytes) : Except Refusal Unit :=
  match config.isRevoked tenantID digest with
  | none => .error ⟨.revocation, index, bytes "revocation reader error"⟩
  | some true => .error ⟨.revocation, index, bytes "hop is revoked"⟩
  | some false => .ok ()

/-- The iteration of `verifyChain` for the first hop.  The result is the auth
reference of its anchor. -/
def verifyRoot (tenantID : Bytes) (now : Int64) (hop : RecordEnvelope) :
    Except Refusal Bytes := do
  checkRootLinkage hop.record
  checkSignature crypto config 0 hop
  let authRef ← checkRootAnchor config tenantID hop
  checkValidity 0 hop.record now
  checkRevocation config 0 tenantID (hop.record.digest crypto config.tools)
  return authRef

/-- The iteration of `verifyChain` for a later hop. -/
def verifyHop (tenantID : Bytes) (now : Int64) (index : Nat) (previous hop : RecordEnvelope) :
    Except Refusal Unit := do
  checkLinkage crypto index previous.record (previous.record.digest crypto config.tools) hop
  checkSignature crypto config index hop
  checkValidity index hop.record now
  checkDepth index previous.record hop.record
  checkRevocation config index tenantID (hop.record.digest crypto config.tools)

/-- The iterations after the first.  The result is the digest of the last hop. -/
def verifyHops (tenantID : Bytes) (now : Int64) :
    Nat → RecordEnvelope → List RecordEnvelope → Except Refusal Bytes
  | _, previous, [] => .ok (previous.record.digest crypto config.tools)
  | index, previous, hop :: rest =>
      match verifyHop crypto config tenantID now index previous hop with
      | .error refusal => .error refusal
      | .ok () => verifyHops tenantID now (index + 1) hop rest

/-- `Gate.verifyChain`: the digest of the last hop and the auth reference of
the root anchor, both empty for an empty chain. -/
def verifyChain (tenantID : Bytes) (chain : List RecordEnvelope) (now : Int64) :
    Except Refusal (Bytes × Bytes) :=
  match chain with
  | [] => .ok ([], [])
  | root :: rest =>
      match verifyRoot crypto config tenantID now root with
      | .error refusal => .error refusal
      | .ok authRef =>
          match verifyHops crypto config tenantID now 1 root rest with
          | .error refusal => .error refusal
          | .ok head => .ok (head, authRef)

/-- The loop of `verifyNarrowing` from a hop on. -/
def narrowingFrom : Nat → RecordEnvelope → List RecordEnvelope → Except Refusal Unit
  | _, _, [] => .ok ()
  | index, parent, child :: rest =>
      if withinParent child.record.authority parent.record.authority config.tools then
        narrowingFrom (index + 1) child rest
      else .error ⟨.narrowing, index, bytes "hop widens authority beyond its parent"⟩

def verifyNarrowing (chain : List RecordEnvelope) : Except Refusal Unit :=
  match chain with
  | [] => .ok ()
  | root :: rest => narrowingFrom config 1 root rest

def decodeAttestation (text method : Bytes) : Except Bytes AttestationBody :=
  if text.isEmpty then .ok { method := method, payload := [] }
  else
    match json.attestation text with
    | .error error =>
        .error (bytes "delegation: cannot decode attestation evidence body: " ++ error)
    | .ok body => .ok (if body.method.isEmpty then { body with method := method } else body)

/-- `MinClassPolicy.Min`. -/
def minClassFor (designatedClass : Bytes) : AttestationClass :=
  if designatedClass.isEmpty then .none else (config.minClass.lookup designatedClass).getD .none

def attestationEvidenceDigest (attestation : VerifiedAttestation) : Bytes :=
  crypto.sha256Sum (bytes "agid/agentid/attestation-evidence/v1" ++
    writeStr attestation.method ++ writeStr attestation.subject)

/-- The error `ErrAttestationRequired` for a class. -/
def attestationRequired (minClass : AttestationClass) : Bytes :=
  bytes "delegation: attestation evidence required for the designated authority class" ++
    bytes ": required minimum class " ++ minClass.text ++ bytes " not met (no evidence)"

/-- The error `ErrBelowMinClass` for two classes. -/
def belowMinClass (got minClass : AttestationClass) : Bytes :=
  bytes "delegation: attestation class below the minimum required for the designated " ++
    bytes "authority class: have " ++ got.text ++ bytes ", need " ++ minClass.text

/-- `Gate.verifyAttestation`: the digest of the verified evidence, empty where
nothing is required and nothing supplied. -/
def verifyAttestation (request : IssuancePreconditions) (body : PreconditionsBody) :
    Except Refusal Bytes :=
  match decodeAttestation json request.attestation request.attestationMethod with
  | .error error => .error ⟨.attestation, -1, error⟩
  | .ok attestation =>
      let minClass := minClassFor config body.designatedClass
      if minClass = .none ∧ attestation.payload.isEmpty then .ok []
      else if attestation.payload.isEmpty then
        .error ⟨.attestation, -1, attestationRequired minClass⟩
      else
        match config.attestor with
        | none => .error ⟨.attestation, -1, bytes "no attestation verifier configured"⟩
        | some attestor =>
            match attestor.verifyEvidence request.tenantID attestation.method
                attestation.payload with
            | none =>
                .error ⟨.attestation, -1, bytes "attestation evidence failed verification"⟩
            | some verified =>
                let got := classOfAttestation verified
                if got.rank < minClass.rank then
                  .error ⟨.attestation, -1, belowMinClass got minClass⟩
                else .ok (attestationEvidenceDigest crypto verified)

def validateReprBytes (text : Bytes) : Except Bytes Unit :=
  match json.repr text with
  | .error error =>
      .error (bytes "delegation: cannot decode agent-stack representation body: " ++ error)
  | .ok shape =>
      if shape.systemPromptDigest.isEmpty || shape.toolManifestDigest.isEmpty then
        .error (bytes "delegation: agent-stack representation missing prompt/tool digest")
      else .ok ()

/-- The agent-stack representation of a request, if it has one. -/
def verifyRepr (request : IssuancePreconditions) : Except Refusal Bytes :=
  if request.subjectRepr.isEmpty then .ok []
  else
    match validateReprBytes json request.subjectRepr with
    | .error error => .error ⟨.agentStack, -1, error⟩
    | .ok () => .ok request.subjectRepr

def headTaskDigest (chain : List RecordEnvelope) : Bytes :=
  chain.getLast?.elim [] fun hop => hop.record.taskDigest

/-- `Gate.verifyTaskEnvelope`: the digest of the envelope the chain head refers
to, empty where it refers to none. -/
def verifyTaskEnvelope (taskDigest envelopeBody : Bytes) (now : Int64) :
    Except Refusal Bytes :=
  if taskDigest.isEmpty then .ok []
  else if envelopeBody.isEmpty then
    .error ⟨.taskEnvelope, -1, bytes
      "delegation: record references a task envelope but none was supplied"⟩
  else
    match json.envelope envelopeBody with
    | .error error =>
        .error ⟨.taskEnvelope, -1,
          bytes "delegation: cannot decode task envelope body: " ++ error⟩
    | .ok envelope =>
        if envelope.digest crypto ≠ taskDigest then
          .error ⟨.taskEnvelope, -1, bytes
            "delegation: supplied task envelope digest does not match the record's reference"⟩
        else
          match config.taskEnvelopeTrust with
          | none =>
              .error ⟨.taskEnvelope, -1,
                bytes "delegation: no task-envelope trust lookup configured to verify a " ++
                  bytes "referenced envelope"⟩
          | some trust =>
              match Taskenv.verifySignatureAndExpiry crypto envelope now trust with
              | .error error => .error ⟨.taskEnvelope, -1, error.text⟩
              | .ok () => .ok (envelope.digest crypto)

def reachabilityEngaged (body : PreconditionsBody) : Bool :=
  !body.reachabilityVerdict.isEmpty ||
    ((config.reachabilityTrust.isSome || config.requireReachability) && !body.chain.isEmpty)

def reachabilityDetail (error : Reach.VerdictError) : Bytes :=
  match error with
  | .ceilingExceeded (violation :: _) =>
      if violation.ceiling.isEmpty then error.text
      else bytes "reachable set exceeds ceiling " ++ violation.ceiling ++ bytes ": " ++ error.text
  | _ => error.text

def verifyReachability (tenantID : Bytes) (body : PreconditionsBody) : Except Refusal Unit :=
  if !reachabilityEngaged config body then .ok ()
  else if body.reachabilityVerdict.isEmpty then
    .error ⟨.reachability, -1, bytes
      "delegation: reachability required but no verdict was supplied"⟩
  else
    match config.reachabilityTrust with
    | none =>
        .error ⟨.reachability, -1, bytes
          "delegation: no reachability trust lookup configured to verify a verdict"⟩
    | some trust =>
        match body.chain.getLast? with
        | none =>
            .error ⟨.reachability, -1, bytes
              "delegation: cannot compute head authority digest for reachability"⟩
        | some head =>
            match json.verdict body.reachabilityVerdict with
            | .error _ =>
                .error ⟨.reachability, -1, bytes
                  "delegation: cannot decode reachability verdict body"⟩
            | .ok verdict =>
                match Reach.verifyVerdict crypto verdict tenantID
                    (crypto.sha256Sum (head.record.authority.canonicalBytes config.tools))
                    trust config.reachabilityWatermark with
                | .error error => .error ⟨.reachability, -1, reachabilityDetail error⟩
                | .ok () => .ok ()

/-- The chain and what comes with it, read from JSON. -/
def decodePreconditions (text : Bytes) : Except Bytes PreconditionsBody :=
  if text.isEmpty then
    .ok { chain := [], designatedClass := [], envelope := [], reachabilityVerdict := [] }
  else
    match json.preconditions text with
    | .error error =>
        .error (bytes "delegation: cannot decode issuance preconditions body: " ++ error)
    | .ok body => .ok body

def newBindingMaterial
    (chainHeadDigest reprBytes designatedClass attestationDigest rootAnchorAuthRef
      taskEnvelopeDigest : Bytes) : Except Bytes BindingMaterial :=
  if chainHeadDigest.isEmpty && reprBytes.isEmpty then
    .error (bytes "delegation: nothing to bind (no chain head and no agent-stack representation)")
  else
    .ok {
      chainHeadDigest := chainHeadDigest
      agentStackDigest :=
        if reprBytes.isEmpty then []
        else crypto.sha256Sum (bytes "agid/agentid/agent-stack-repr/v1" ++ writeStr reprBytes)
      agentStackRepr := reprBytes
      designatedClass := designatedClass
      attestationDigest := attestationDigest
      comparatorVersion := bytes "agid.authority.compare/v1"
      rootAnchorAuthRef := rootAnchorAuthRef
      taskEnvelopeDigest := taskEnvelopeDigest }

/-- The chain part of `verify`: the chain, then its narrowing. -/
def verifyDelegation (tenantID : Bytes) (chain : List RecordEnvelope) (now : Int64) :
    Except Refusal (Bytes × Bytes) := do
  let result ← verifyChain crypto config tenantID chain now
  verifyNarrowing config chain
  return result

/-- `Gate.verify` at the time `now`: the material to bind, or a refusal. -/
def verify (now : Int64) (request : IssuancePreconditions) : Except Refusal BindingMaterial :=
  match decodePreconditions json request.preconditions with
  | .error error => .error ⟨.decode, -1, error⟩
  | .ok body => do
      let (chainHeadDigest, rootAuthRef) ←
        verifyDelegation crypto config request.tenantID body.chain now
      let attestationDigest ← verifyAttestation crypto json config request body
      let reprBytes ← verifyRepr json request
      let taskEnvelopeDigest ← verifyTaskEnvelope crypto json config
        (headTaskDigest body.chain) body.envelope now
      verifyReachability crypto json config request.tenantID body
      if chainHeadDigest.isEmpty && reprBytes.isEmpty then
        throw ⟨.bindingTarget, -1, bytes "no chain and no agent-stack representation"⟩
      match newBindingMaterial crypto chainHeadDigest reprBytes body.designatedClass
          attestationDigest rootAuthRef taskEnvelopeDigest with
      | .error error => throw ⟨.bindingTarget, -1, error⟩
      | .ok material => return material

end Verification

end Trstctl.Agentid.Delegation
