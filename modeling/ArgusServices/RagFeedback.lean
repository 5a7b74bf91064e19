import ArgusServices.Configuration
import ArgusServices.Place
import ArgusServices.Recency
import ArgusServices.StaleResolution

namespace ArgusServices

open Effect Recency Transition

/-- A feedback row with the time of the transaction that inserted it. -/
structure StoredFeedback extends Feedback where
  createdAt : Int
  deriving DecidableEq, Repr

/-- `text.strip()`. -/
def strip (text : String) : String :=
  String.ofList (HexText.strip isSpace text.toList)

/-- The rows of the join that the policies show and the WHERE clause selects. -/
def Session.falsePositive (s : Session) (tenantId cameraId : Uuid) (fb : Feedback) : Bool :=
  s.sees fb.tenantId && fb.tenantId = tenantId && fb.disposition = .falsePositive &&
    ((s.tx.decisions.find fb.decisionId).filter fun d => s.sees d.tenantId).any
      fun d => d.cameraId = cameraId

/-- The feedback rows a request inserts. -/
def Request.inserts (w : World) (r : Request) : List StoredFeedback :=
  ((serve w r).db.feedback.drop w.db.feedback.length).map fun fb => ⟨fb, r.time.getD 0⟩

/-- The text a request gives as an accepted false-positive answer for a camera of the tenant. -/
def Request.falsePositive (tenantId cameraId : Uuid) (w : World) : Request → Option String
  | .resolve call =>
    if (resolveDecision call w).1.isOk && call.tenantId = tenantId &&
        call.body.disposition = .falsePositive &&
        (w.db.decisions.find call.decisionId).any (fun d => d.cameraId = cameraId) then
      some call.body.reasoning
    else none
  | .aggregate _ | .expireKey _ | .insertEvidence _ => none

variable {w w' : World} {r : Request} {rs : List Request} {tenantId cameraId : Uuid}

/-- A decision keeps its tenant and its camera. -/
def KeepsCameras (db db' : Db) : Prop :=
  ∀ id d, db.decisions.find id = some d → ∃ d', db'.decisions.find id = some d' ∧
    d'.tenantId = d.tenantId ∧ d'.cameraId = d.cameraId

theorem Decision.place_eq {d d' : Decision} (h : d'.place = d.place) :
    d'.tenantId = d.tenantId ∧ d'.cameraId = d.cameraId := by
  simp only [Decision.place, Place.mk.injEq] at h
  exact ⟨h.1, h.2.1⟩

theorem Committed.keepsCameras {call : AggregateCall} {evidence : Evidence} {tenant : Tenant}
    {d : Decision} (h : Committed call w w' evidence tenant d) : KeepsCameras w.db w'.db := by
  intro id row hrow
  rw [h.find]
  split
  next heq =>
    subst heq
    rcases h.target.found with ⟨-, -, hfound⟩ | ⟨-, -, hnone⟩
    · obtain rfl := Option.some.inj (hrow.symm.trans hfound)
      exact ⟨_, rfl, Decision.place_eq (by simp)⟩
    · rw [hnone] at hrow
      cases hrow
  next => exact ⟨row, hrow, rfl, rfl⟩

theorem Resolved.keepsCameras {call : ResolveCall} {d : Decision} (h : Resolved call w w' d) :
    KeepsCameras w.db w'.db := by
  intro id row hrow
  rw [h.find]
  split
  next heq =>
    rw [heq, w.db.decisions.keyed _ _ h.found, h.found] at hrow
    obtain rfl := Option.some.inj hrow
    exact ⟨_, rfl, rfl, rfl⟩
  next => exact ⟨row, hrow, rfl, rfl⟩

theorem KeepsCameras.refl (db : Db) : KeepsCameras db db :=
  fun _ d hd => ⟨d, hd, rfl, rfl⟩

theorem KeepsCameras.trans {db db' db'' : Db} (h : KeepsCameras db db')
    (h' : KeepsCameras db' db'') : KeepsCameras db db'' := by
  intro id d hd
  obtain ⟨d', hd', htenant, hcamera⟩ := h id d hd
  obtain ⟨d'', hd'', htenant', hcamera'⟩ := h' id d' hd'
  exact ⟨d'', hd'', htenant'.trans htenant, hcamera'.trans hcamera⟩

theorem keepsCameras_serve (w : World) (r : Request) : KeepsCameras w.db (serve w r).db :=
  serve_keeps (I := fun db => KeepsCameras w.db db) (.refl w.db) (fun _ hc => hc.keepsCameras)
    (fun _ hr => hr.keepsCameras) fun _ => .refl w.db

end ArgusServices
