import Truyn.Trust.Independence

/-! trust:graph | the provenance graph of a claim and its attestations

    The graph has a node for the claim, for every attestation and for every source that the evidence
    mentions. A source is described by the first evidence that mentions it. The builder is a loop
    with three lists; `buildProvenanceGraph_eq` says what it returns without the loop. -/

namespace Truyn.Trust

inductive EdgeType
  | supports
  | contradicts
  | evaluates
  | evidencedBy
  | derivedFrom
  | derivedFromAttestation
  deriving DecidableEq

def EdgeType.text : EdgeType → JsString
  | .supports => js "SUPPORTS"
  | .contradicts => js "CONTRADICTS"
  | .evaluates => js "EVALUATES"
  | .evidencedBy => js "EVIDENCED_BY"
  | .derivedFrom => js "DERIVED_FROM"
  | .derivedFromAttestation => js "DERIVED_FROM_ATTESTATION"

structure Edge where
  fromId : JsString
  toId : JsString
  type : EdgeType
  deriving DecidableEq

inductive Node
  | claim (id digest : JsString)
  | attest (id : JsString) (verdict : Verdict) (attesterNodeId digest : JsString)
  | source (id kind sourceCommitment : JsString) (contentDigest : Option JsString)
  deriving DecidableEq

def Node.id : Node → JsString
  | .claim id _ => id
  | .attest id _ _ _ => id
  | .source id _ _ _ => id

structure Graph where
  claimId : JsString
  nodes : List Node
  edges : List Edge
  independence : Independence
  graphDigest : JsString
  deriving DecidableEq

/-! ### What is digested -/

def Node.value : Node → Value
  | .claim id digest => .object [(js "digest", .string digest), (js "id", .string id),
      (js "type", .string (js "CLAIM"))]
  | .attest id verdict attesterNodeId digest => .object [
      (js "attesterNodeId", .string attesterNodeId), (js "digest", .string digest),
      (js "id", .string id), (js "type", .string (js "ATTEST")),
      (js "verdict", .string verdict.text)]
  | .source id kind sourceCommitment contentDigest => .object [
      (js "contentDigest", nullable contentDigest), (js "id", .string id),
      (js "kind", .string kind), (js "sourceCommitment", .string sourceCommitment),
      (js "type", .string (js "SOURCE"))]

def Edge.value (e : Edge) : Value := .object [(js "from", .string e.fromId),
  (js "to", .string e.toId), (js "type", .string e.type.text)]

def GroupVerdict.text : GroupVerdict → JsString
  | .mixed => js "mixed"
  | .support => js "support"
  | .contradict => js "contradict"
  | .uncertain => js "uncertain"

def Group.value (g : Group) : Value := .object [(js "attestationIds", strings g.attestationIds),
  (js "attesterCount", .number g.attesterCount), (js "generatorCount", .number g.generatorCount),
  (js "groupId", .string g.groupId), (js "knownLineage", .bool g.knownLineage),
  (js "memberCount", .number g.memberCount), (js "originCount", .number g.originCount),
  (js "publisherCount", .number g.publisherCount), (js "verdict", .string g.verdict.text)]

def Independence.value (i : Independence) : Value := .object [
  (js "contradictGroups", .number i.contradictGroups),
  (js "groups", .array (i.groups.map Group.value)),
  (js "independentKnownGroups", .number i.independentKnownGroups),
  (js "mixedGroups", .number i.mixedGroups), (js "rawAttestations", .number i.rawAttestations),
  (js "supportGroups", .number i.supportGroups),
  (js "uncertainGroups", .number i.uncertainGroups),
  (js "unknownLineageGroups", .number i.unknownLineageGroups)]

/-- The graph without its digest. -/
def graphValue (claimId : JsString) (nodes : List Node) (edges : List Edge)
    (independence : Independence) : Value := .object [(js "claimId", .string claimId),
  (js "edges", .array (edges.map Edge.value)), (js "independence", independence.value),
  (js "nodes", .array (nodes.map Node.value)), (js "version", .number 1)]

/-! ### Building -/

/-- The local variables of the loop. -/
structure Building where
  nodes : List Node
  edges : List Edge
  sourceNodes : List Node

def sourceNodeId (P : Platform) (sourceId : JsString) (contentDigest : Option JsString) : JsString :=
  js "source:" ++ P.digest (.object [(js "contentDigest", nullable contentDigest),
    (js "sourceId", .string sourceId)])

/-- The node that evidence describes. -/
def sourceNode (P : Platform) (e : Evidence) : Node :=
  .source (sourceNodeId P e.sourceId e.contentDigest) e.kind (P.digest (.string e.sourceId))
    e.contentDigest

def parentNode (P : Platform) (parentSourceId : JsString) : Node :=
  .source (sourceNodeId P parentSourceId none) (js "lineage-parent")
    (P.digest (.string parentSourceId)) none

/-- `if (!sourceNodes.has(id)) sourceNodes.set(id, node)`. -/
def keep (sourceNodes : List Node) (node : Node) : List Node :=
  if sourceNodes.any fun n => n.id = node.id then sourceNodes else sourceNodes ++ [node]

def addParent (P : Platform) (fromId : JsString) (s : Building) (parentSourceId : JsString) :
    Building :=
  let parent := parentNode P parentSourceId
  { s with
    sourceNodes := keep s.sourceNodes parent
    edges := s.edges ++ [⟨fromId, parent.id, .derivedFrom⟩] }

def addEvidence (P : Platform) (attestationId : JsString) (s : Building) (e : Evidence) : Building :=
  let source := sourceNode P e
  e.parentSourceIds.foldl (addParent P source.id)
    { s with
      sourceNodes := keep s.sourceNodes source
      edges := s.edges ++ [⟨attestationId, source.id, .evidencedBy⟩] }

def edgeTypeOf (v : Verdict) : EdgeType :=
  if v = .support then .supports else if v = .contradict then .contradicts else .evaluates

def attestNode (P : Platform) (a : Attestation) : Node :=
  .attest a.attestationId a.body.verdict a.attesterNodeId (P.digest a.body.value)

def addAttestation (P : Platform) (claim : Claim) (s : Building) (a : Attestation) :
    Except String Building := do
  (verifyAttestation P a claim.claimId).mapError ("invalid attestation: " ++ ·)
  let s := { s with
    nodes := s.nodes ++ [attestNode P a]
    edges := s.edges ++ [⟨a.attestationId, claim.claimId, edgeTypeOf a.body.verdict⟩] }
  let s := a.body.evidence.foldl (addEvidence P a.attestationId) s
  pure { s with
    edges := s.edges ++ a.body.lineage.parentAttestationIds.map fun p =>
      ⟨a.attestationId, p, .derivedFromAttestation⟩ }

/-- What the edges are sorted by. -/
def Edge.key (e : Edge) : JsString :=
  e.fromId ++ js ":" ++ e.type.text ++ js ":" ++ e.toId

def buildProvenanceGraph (P : Platform) (claim : Claim) (attestations : List Attestation) :
    Except String Graph := do
  (verifyClaim P claim).mapError ("invalid claim: " ++ ·)
  let s ← attestations.foldlM (addAttestation P claim)
    ⟨[.claim claim.claimId (P.digest claim.body.value)], [], []⟩
  let independence := analyzeAttestationIndependence P attestations
  let nodes := P.collation.sortBy Node.id (s.nodes ++ s.sourceNodes)
  let edges := P.collation.sortBy Edge.key s.edges
  pure ⟨claim.claimId, nodes, edges, independence,
    P.digest (graphValue claim.claimId nodes edges independence)⟩

/-! ### Without the loop -/

variable {P : Platform} {claim : Claim} {l : List Attestation} {a b : Attestation} {s : Building}

/-- The sources that an attestation mentions, in order. -/
def mentions (P : Platform) (a : Attestation) : List Node :=
  a.body.evidence.flatMap fun e => sourceNode P e :: e.parentSourceIds.map (parentNode P)

def evidenceEdges (P : Platform) (attestationId : JsString) (e : Evidence) : List Edge :=
  ⟨attestationId, (sourceNode P e).id, .evidencedBy⟩ ::
    e.parentSourceIds.map fun p => ⟨(sourceNode P e).id, (parentNode P p).id, .derivedFrom⟩

def edgesOf (P : Platform) (claim : Claim) (a : Attestation) : List Edge :=
  ⟨a.attestationId, claim.claimId, edgeTypeOf a.body.verdict⟩ ::
    (a.body.evidence.flatMap (evidenceEdges P a.attestationId) ++
      a.body.lineage.parentAttestationIds.map fun p =>
        ⟨a.attestationId, p, .derivedFromAttestation⟩)

/-- The first description of every source. -/
def firsts (mentioned : List Node) : List Node := mentioned.foldl keep []

theorem foldl_addParent (from' : JsString) (ps : List JsString) (s : Building) :
    ps.foldl (addParent P from') s = { s with
      sourceNodes := (ps.map (parentNode P)).foldl keep s.sourceNodes
      edges := s.edges ++ ps.map fun p => ⟨from', (parentNode P p).id, .derivedFrom⟩ } := by
  induction ps generalizing s with
  | nil => simp
  | cons p ps ih => simp [ih, addParent]

theorem foldl_addEvidence (id : JsString) (es : List Evidence) (s : Building) :
    es.foldl (addEvidence P id) s = { s with
      sourceNodes := (es.flatMap fun e => sourceNode P e :: e.parentSourceIds.map (parentNode P)).foldl
        keep s.sourceNodes
      edges := s.edges ++ es.flatMap (evidenceEdges P id) } := by
  induction es generalizing s with
  | nil => simp
  | cons e es ih => simp [ih, addEvidence, foldl_addParent, evidenceEdges]

/-- The claim and the attestations verify. -/
def Valid (P : Platform) (claim : Claim) (l : List Attestation) : Prop :=
  verifyClaim P claim = .ok () ∧ ∀ a ∈ l, verifyAttestation P a claim.claimId = .ok ()

theorem addAttestation_ok {s' : Building} : addAttestation P claim s a = .ok s' ↔
    verifyAttestation P a claim.claimId = .ok () ∧ s' =
      ⟨s.nodes ++ [attestNode P a], s.edges ++ edgesOf P claim a,
        (mentions P a).foldl keep s.sourceNodes⟩ := by
  unfold addAttestation
  cases hv : verifyAttestation P a claim.claimId with
  | error r => exact ⟨fun h => (nomatch h), fun h => (nomatch h.1)⟩
  | ok u =>
    simp only [Except.mapError, foldl_addEvidence, edgesOf, mentions, bind, Except.bind, pure,
      Except.pure, Except.ok.injEq, true_and, List.append_assoc, List.cons_append, List.nil_append]
    exact eq_comm

theorem foldlM_addAttestation {s' : Building} :
    l.foldlM (addAttestation P claim) s = .ok s' ↔
      (∀ a ∈ l, verifyAttestation P a claim.claimId = .ok ()) ∧ s' =
        ⟨s.nodes ++ l.map (attestNode P), s.edges ++ l.flatMap (edgesOf P claim),
          (l.flatMap (mentions P)).foldl keep s.sourceNodes⟩ := by
  induction l generalizing s with
  | nil => simp [pure, Except.pure, eq_comm]
  | cons a l ih =>
    rw [List.foldlM_cons]
    cases hadd : addAttestation P claim s a with
    | error r =>
      refine ⟨fun h => (nomatch h), fun h => ?_⟩
      have hok := (addAttestation_ok (s := s)).mpr ⟨h.1 a List.mem_cons_self, rfl⟩
      rw [hadd] at hok
      cases hok
    | ok t =>
      obtain ⟨hv, rfl⟩ := addAttestation_ok.mp hadd
      show l.foldlM (addAttestation P claim) _ = .ok s' ↔ _
      rw [ih]
      simp [hv]

/-- The graph of a valid claim and its valid attestations. -/
def graphOf (P : Platform) (claim : Claim) (l : List Attestation) : Graph :=
  let nodes := P.collation.sortBy Node.id (.claim claim.claimId (P.digest claim.body.value) ::
    (l.map (attestNode P) ++ firsts (l.flatMap (mentions P))))
  let edges := P.collation.sortBy Edge.key (l.flatMap (edgesOf P claim))
  ⟨claim.claimId, nodes, edges, analyzeAttestationIndependence P l,
    P.digest (graphValue claim.claimId nodes edges (analyzeAttestationIndependence P l))⟩

/-- BUILT: a graph is returned just for what verifies, and it is `graphOf`. -/
theorem buildProvenanceGraph_ok {g : Graph} :
    buildProvenanceGraph P claim l = .ok g ↔ Valid P claim l ∧ g = graphOf P claim l := by
  unfold buildProvenanceGraph Valid
  cases hc : verifyClaim P claim with
  | error r => exact ⟨fun h => (nomatch h), fun h => (nomatch h.1.1)⟩
  | ok u =>
    cases hfold : l.foldlM (addAttestation P claim)
        ⟨[.claim claim.claimId (P.digest claim.body.value)], [], []⟩ with
    | error r =>
      refine ⟨fun h => ?_, fun h => ?_⟩
      · simp [Except.mapError, bind, Except.bind] at h
      · rw [foldlM_addAttestation.mpr ⟨h.1.2, rfl⟩] at hfold
        cases hfold
    | ok s =>
      obtain ⟨hv, rfl⟩ := foldlM_addAttestation.mp hfold
      simp only [Except.mapError, bind, Except.bind, pure, Except.pure, Except.ok.injEq, true_and]
      exact ⟨fun h => ⟨hv, h.symm⟩, fun h => h.2.symm⟩

end Truyn.Trust
