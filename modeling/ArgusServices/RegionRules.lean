import ArgusServices.LensVersions
import ArgusServices.ScoringSpec
import ArgusServices.StrandedEvidence
import Mathlib.Algebra.BigOperators.Group.List.Basic

namespace ArgusServices

open Effect Transition

/-- The rule is for some regions, and this one is not among them. -/
def ConfigDb.restricts (db : ConfigDb) (region : Option Uuid) (rule : StoredRule) : Bool :=
  (db.regionMappings.any fun m => m.ruleId = rule.id) &&
    !(db.regionMappings.any fun m => m.ruleId = rule.id && region = some m.regionId)

/-- The two configurations have the same rules for the region. -/
def ConfigDb.SameRules (db db' : ConfigDb) (region : Option Uuid) : Prop :=
  (db.rules.filter fun r => !db.restricts region r).Perm
    (db'.rules.filter fun r => !db'.restricts region r)

/-- What the rules of the message's mode among these weigh on the result. -/
def weightOf (rules : List StoredRule) (message : IngestMessage) (members : Members) : Int :=
  matchingWeights
    (selectRules (rules.map StoredRule.toRule) message.contextModeId message.tenantId) members

def ConfigDb.restrictedWeight (db : ConfigDb) (message : IngestMessage) (members : Members) : Int :=
  weightOf (db.rules.filter (db.restricts message.regionId)) message members

variable {lib : AnalyzerLibrary} {intOfStr : String → Except Exn Int} {attempt : AnalyzeAttempt}
  {message : IngestMessage} {db db' : ConfigDb} {evidence evidence' : Evidence}
  {members : Members} {rules rules' : List StoredRule} {rule : StoredRule}

theorem weightOf_append : weightOf (rules ++ rules') message members =
    weightOf rules message members + weightOf rules' message members := by
  simp [weightOf, matchingWeights, selectRules]

theorem weightOf_perm (message : IngestMessage) (members : Members)
    (h : rules.Perm rules') :
    weightOf rules message members = weightOf rules' message members := by
  unfold weightOf matchingWeights selectRules
  exact ((((h.map _).filter _).filter _).map _).sum_eq

theorem weightOf_split (rules : List StoredRule) (message : IngestMessage) (members : Members)
    (p : StoredRule → Bool) : weightOf rules message members =
    weightOf (rules.filter p) message members +
      weightOf (rules.filter fun r => !p r) message members := by
  rw [← weightOf_append]
  exact (weightOf_perm _ _ (List.filter_append_perm p rules)).symm

/-- Two configurations with the same rules for the region differ by what the others weigh. -/
theorem ConfigDb.SameRules.weight (h : db.SameRules db' message.regionId) (members : Members) :
    weightOf db.rules message members - db.restrictedWeight message members =
      weightOf db'.rules message members - db'.restrictedWeight message members := by
  have hsame := weightOf_perm message members h
  have hsplit := weightOf_split db.rules message members (db.restricts message.regionId)
  have hsplit' := weightOf_split db'.rules message members (db'.restricts message.regionId)
  unfold ConfigDb.restrictedWeight
  omega

/-- A market, a camera with two regions, a mode, and rules for the second region only. -/
def regionCalls (rules : List (BitVec 128)) : List AdminCall :=
  [adminCall 1 5 (.createMarket ⟨"Centre", "UTC"⟩),
    adminCall 1 2 (.createCamera ⟨5⟩ ⟨"Gate", "edge-1"⟩),
    adminCall 1 30 (.createRegion ⟨2⟩ ⟨"Door", []⟩),
    adminCall 1 31 (.createRegion ⟨2⟩ ⟨"Yard", []⟩),
    adminCall 1 3 (.createContextMode ⟨"Opening hours", none⟩)] ++
  rules.map fun id => adminCall 1 id (.createRule ⟨⟨3⟩, "Loitering",
    [("field", .str "loitering"), ("op", .str "eq"), ("value", .bool true)], 5, [⟨31⟩]⟩)

def afterRegions (rules : List (BitVec 128)) : ConfigDb :=
  (regionCalls rules).foldl (fun db call => (call.serve db).2) sampleSystem.config

end ArgusServices
