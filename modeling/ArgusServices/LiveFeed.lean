import ArgusServices.DecisionList
import ArgusServices.FrontDoor
import ArgusServices.Refetch

namespace ArgusServices

open Recency Refetch Transition

/-- The status of a response, and its body where that is JSON. -/
structure HttpResponse where
  status : Nat
  json : Option Json

def errorBody (status : Nat) (code message : String) : Json :=
  .obj [("error", .obj [("code", .str code), ("message", .str message), ("status", .int status)])]

def errorCode : Nat → String
  | 401 => "unauthorized"
  | 403 => "forbidden"
  | 409 => "conflict"
  | 422 => "unprocessable_entity"
  | _ => "http_error"

def httpExceptionHandler (status : Nat) (detail : String) : HttpResponse :=
  ⟨status, some (errorBody status (errorCode status) detail)⟩

/-- The response model of a decision in the list. -/
def TriageLibrary.decisionSummary (lib : TriageLibrary) (decision : Decision) : Json :=
  .obj [("id", .str decision.id.str),
    ("camera_id", .str decision.cameraId.str),
    ("region_id", match decision.regionId with
      | some id => .str id.str
      | none => .null),
    ("state", .str decision.state.value),
    ("cumulative_severity", .int decision.cumulativeSeverity),
    ("evidence_count", .int decision.evidenceCount),
    ("window_start", .str (lib.dumpDatetime decision.windowStart)),
    ("window_end", .str (lib.dumpDatetime decision.windowEnd)),
    ("updated_at", .str (lib.dumpDatetime decision.updatedAt)),
    ("last_evidence_at", match decision.lastEvidenceAt with
      | some at_ => .str (lib.dumpDatetime at_)
      | none => .null)]

/-- An exception no handler is registered for is answered in plain text. -/
def TriageLibrary.listResponse (lib : TriageLibrary) : Except Exn (List Decision) → HttpResponse
  | .ok rows => ⟨200, some (.arr (rows.map lib.decisionSummary))⟩
  | .error (.httpException status detail) => httpExceptionHandler status detail
  | .error _ => ⟨500, none⟩

/-- The state behind the API, and the token library as it is at the time. -/
structure Backend where
  world : World
  door : Door

inductive BackendTurn
  | request (r : Request)
  | tokens (door : Door)

def Backend.next (a : Backend) : BackendTurn → Backend
  | .request r => { a with world := serve a.world r }
  | .tokens door => { a with door := door }

/-- The list for a browser that sends its cookie; the route does not look at the subject. -/
def Backend.listDecisions (repr : String → String) (scan : List Uuid) (tenantId : Uuid)
    (cookie : Option String) (a : Backend) : Except Exn (List Decision) :=
  match getAuthContext a.door ⟨none, cookie⟩ with
  | .error e => .error e
  | .ok auth =>
    (ArgusServices.listDecisions repr scan tenantId ⟨"", auth.tenantId, auth.role⟩ none a.world).1

/-- What is left of `TriageWorkspace`: the feed with its message, nothing after an exception while
it is drawn, or another site. -/
inductive Page
  | feed (decisions : List Json) (message : String)
  | crashed
  | redirected

/-- `loadDecisions`, or the request that a message on the socket makes. -/
inductive FeedRequest
  | load
  | refresh
  deriving DecidableEq

/-- A body that is no JSON rejects the promise. What is no list has no `map`. -/
def Page.setDecisions (decisions : List Json) (message shown : String) : Option Json → Page
  | none => .feed decisions shown
  | some (.arr rows) => .feed rows message
  | some _ => .crashed

def FeedRequest.take : FeedRequest → HttpResponse → Page → Page
  | .load, response, .feed decisions message =>
    if response.status = 401 then .redirected
    else Page.setDecisions decisions "Live triage connected." message response.json
  | .refresh, response, .feed decisions message =>
    Page.setDecisions decisions message message response.json
  | _, _, page => page

/-- What else sets the message. -/
inductive PageEvent
  | socketFailed
  | socketClosed
  | resolved

def PageEvent.message : PageEvent → String
  | .socketFailed => "WebSocket connection failed."
  | .socketClosed => "WebSocket disconnected; refresh to reconnect."
  | .resolved => "Decision resolved."

def Page.tell (event : PageEvent) : Page → Page
  | .feed decisions _ => .feed decisions event.message
  | page => page

/-- The page of a tenant: any message that arrives, be it an event or a heartbeat, asks for the
list. -/
def triageWorkspace (lib : TriageLibrary) (repr : String → String) (tenantId : Uuid)
    (cookie : Option String) :
    Parts Backend BackendTurn FeedRequest HttpResponse Page PageEvent where
  serve := fun a turn b => b = a.next turn
  reads := fun a response => ∃ scan, Scans a.world.db scan ∧
    response = lib.listResponse (a.listDecisions repr scan tenantId cookie)
  begins := fun page kind => kind = .refresh ∧ ∃ decisions message, page = .feed decisions message
  take := FeedRequest.take
  own := fun page event page' => page' = page.tell event

abbrev Browsing := Viewer Backend FeedRequest HttpResponse Page

abbrev BrowsingTurn := Refetch.Turn BackendTurn FeedRequest HttpResponse PageEvent

/-- The page as it opens. -/
structure Opened (s : Browsing) : Prop where
  pending : s.pending = [.sent .load]
  page : s.shown = .feed [] ""

/-- The cookie is good for the tenant. -/
def LetIn (tenantId : Uuid) (cookie : Option String) (door : Door) : Prop :=
  ∃ auth, getAuthContext door ⟨none, cookie⟩ = .ok auth ∧
    (auth.role = .rootAdmin ∨ auth.tenantId = some tenantId)

def BackendTurn.request? : BackendTurn → Option Request
  | .request r => some r
  | .tokens _ => none

def requests (turns : List BackendTurn) : List Request :=
  turns.filterMap BackendTurn.request?

/-- The cookie is missing, has expired or is no token. -/
def TurnedAway (cookie : Option String) (door : Door) : Prop :=
  ∃ detail, getAuthContext door ⟨none, cookie⟩ = .error (.httpException 401 detail)

variable {lib : TriageLibrary} {repr : String → String} {tenantId : Uuid} {cookie : Option String}
  {a b : Backend} {turns : List BackendTurn}

theorem requests_append (turns turns' : List BackendTurn) :
    requests (turns ++ turns') = requests turns ++ requests turns' :=
  List.filterMap_append

theorem run_backend (h : Run (triageWorkspace lib repr tenantId cookie).serve a turns b) :
    Run Served a.world (requests turns) b.world := by
  induction h with
  | nil a => exact .nil _
  | @cons a b c turn turns hstep _ ih =>
    obtain rfl := hstep
    cases turn with
    | request r => exact .cons rfl ih
    | tokens door => exact ih

theorem run_door {P : Door → Prop}
    (h : Run (triageWorkspace lib repr tenantId cookie).serve a turns b) (ha : P a.door)
    (hstay : ∀ door, .tokens door ∈ turns → P door) : P b.door := by
  induction h with
  | nil a => exact ha
  | @cons a b c turn turns hstep _ ih =>
    obtain rfl := hstep
    have hrest : ∀ door, .tokens door ∈ turns → P door :=
      fun door hdoor => hstay door (List.mem_cons_of_mem _ hdoor)
    cases turn with
    | request r => exact ih ha hrest
    | tokens door => exact ih (hstay door List.mem_cons_self) hrest

theorem Backend.listDecisions_eq (ha : LetIn tenantId cookie a.door) (scan : List Uuid) :
    a.listDecisions repr scan tenantId cookie = .ok (newestFirst Decision.updatedAt
      ((scan.filterMap a.world.db.decisions.find).filter fun d => d.tenantId = tenantId)) := by
  obtain ⟨auth, hauth, haccess⟩ := ha
  unfold Backend.listDecisions
  rw [hauth]
  dsimp only
  rw [ArgusServices.listDecisions_eq haccess rfl, List.filter_true]

theorem reads_rows {response : HttpResponse} (ha : LetIn tenantId cookie a.door)
    (h : (triageWorkspace lib repr tenantId cookie).reads a response) :
    ∃ scan, Scans a.world.db scan ∧ response = ⟨200, some (.arr ((newestFirst Decision.updatedAt
      ((scan.filterMap a.world.db.decisions.find).filter fun d => d.tenantId = tenantId)).map
        lib.decisionSummary))⟩ := by
  obtain ⟨scan, hscan, hresponse⟩ := h
  refine ⟨scan, hscan, ?_⟩
  rw [hresponse, Backend.listDecisions_eq ha]
  rfl

theorem take_rows (kind : FeedRequest) (rows : List Json) {page : Page}
    (h : ∃ decisions message, page = .feed decisions message) :
    ∃ message, kind.take ⟨200, some (.arr rows)⟩ page = .feed rows message := by
  obtain ⟨decisions, message, rfl⟩ := h
  cases kind with
  | load => exact ⟨_, rfl⟩
  | refresh => exact ⟨_, rfl⟩

theorem take_lost (kind : FeedRequest) (response : HttpResponse) {page : Page}
    (h : ∀ decisions message, page ≠ .feed decisions message) :
    kind.take response page = page := by
  cases page with
  | feed decisions message => exact absurd rfl (h decisions message)
  | _ => cases kind <;> rfl

theorem own_feed {decisions : List Json} {message : String} {page : Page}
    (h : Own (triageWorkspace lib repr tenantId cookie).own (.feed decisions message) page) :
    ∃ message', page = .feed decisions message' := by
  obtain ⟨events, hrun⟩ := h
  refine hrun.invariant (I := fun page => ∃ message', page = .feed decisions message') ?_
    ⟨message, rfl⟩
  intro page event page' hpage hstep
  obtain ⟨message', rfl⟩ := hpage
  exact ⟨event.message, hstep⟩

theorem own_lost {page page' : Page}
    (h : Own (triageWorkspace lib repr tenantId cookie).own page page')
    (hlost : ∀ decisions message, page ≠ .feed decisions message) : page' = page := by
  obtain ⟨events, hrun⟩ := h
  refine hrun.invariant (I := fun page' => page' = page) ?_ rfl
  intro q event q' hq hstep
  obtain rfl : q' = q.tell event := hstep
  subst hq
  cases q with
  | feed decisions message => exact absurd rfl (hlost decisions message)
  | _ => rfl

/-- A page that is there shows the list it has taken last. -/
theorem taken_shown {kind : FeedRequest} {rows : List Json} {page page' : Page}
    (h : Own (triageWorkspace lib repr tenantId cookie).own
      (kind.take ⟨200, some (.arr rows)⟩ page) page')
    (hthere : ∃ decisions message, page' = .feed decisions message) :
    ∃ message, page' = .feed rows message := by
  by_cases hfeed : ∃ decisions message, page = .feed decisions message
  · obtain ⟨message, htake⟩ := take_rows kind rows hfeed
    rw [htake] at h
    exact own_feed h
  · have hlost : ∀ decisions message, page ≠ .feed decisions message :=
      fun decisions message heq => hfeed ⟨decisions, message, heq⟩
    rw [take_lost kind _ hlost] at h
    rw [own_lost h hlost] at hthere
    exact absurd hthere hfeed

/-- While the cookie is good the page stays. -/
theorem page_stays {s t : Browsing} {ls : List BrowsingTurn} (hopened : Opened s)
    (hlet : LetIn tenantId cookie s.server.door)
    (hstay : ∀ door, .tokens door ∈ served ls → LetIn tenantId cookie door)
    (h : Run (Step (triageWorkspace lib repr tenantId cookie)) s ls t) :
    ∃ decisions message, t.shown = .feed decisions message := by
  refine (run_sound (Q := fun a => LetIn tenantId cookie a.door)
    (R := fun page => ∃ decisions message, page = .feed decisions message) h ?_ ?_ ?_ ?_).shown
  · intro turn hturn a b ha hstep
    obtain rfl := hstep
    cases turn with
    | request r => exact ha
    | tokens door => exact hstay door hturn
  · intro a kind response page ha hread hpage
    obtain ⟨scan, -, rfl⟩ := reads_rows ha hread
    exact ⟨_, take_rows kind _ hpage⟩
  · intro page event page' hpage hstep
    obtain ⟨decisions, message, rfl⟩ := hpage
    exact ⟨decisions, event.message, hstep⟩
  · refine ⟨hlet, ?_, [], "", hopened.page⟩
    intro kind response hmem
    rw [hopened.pending] at hmem
    cases List.mem_singleton.mp hmem

/-- Once the newest request that was begun is over, the feed shows the decisions as they were at a
moment since it was begun, most recently changed first. -/
theorem feed_catches_up {w₀ : World} {rs : List Request} {s u t : Browsing}
    {ls ms : List BrowsingTurn} {p : List (Fetch FeedRequest HttpResponse)} {kind : FeedRequest}
    (hw : w₀.Initial) (hserved : Run Served w₀ rs s.server.world)
    (htimes : (times (rs ++ requests (served (ls ++ ms)))).Pairwise (· < ·))
    (hopened : Opened s) (hlet : LetIn tenantId cookie s.server.door)
    (hstay : ∀ door, .tokens door ∈ served (ls ++ ms) → LetIn tenantId cookie door)
    (hrun : Run (Step (triageWorkspace lib repr tenantId cookie)) s ls u)
    (hnewest : u.pending = p ++ [.sent kind])
    (hrest : Run (Where NewestLast (Step (triageWorkspace lib repr tenantId cookie))) u ms t)
    (hlast : ∀ l ∈ ms, l.begun = false) (hquiet : t.pending = []) :
    ∃ before after v message, requests (served ms) = before ++ after ∧
      Run Served u.server.world before v ∧ Run Served v after t.server.world ∧
      t.shown = .feed (((recent tenantId w₀ (rs ++ requests (served ls) ++ before) []).filterMap
        v.db.decisions.find).map lib.decisionSummary) message := by
  obtain ⟨turns, turns', b, response, page, hsplit, hbefore, hafter, hread, hown⟩ :=
    caught_up hrest hnewest hlast hquiet
  have hserver : Run (triageWorkspace lib repr tenantId cookie).serve s.server
      (served ls ++ turns) b := (run_server hrun).append hbefore
  have hsplits : served (ls ++ ms) = (served ls ++ turns) ++ turns' := by
    rw [served_append, hsplit, List.append_assoc]
  have hb : LetIn tenantId cookie b.door := by
    refine run_door hserver hlet ?_
    intro door hdoor
    exact hstay door (hsplits ▸ List.mem_append_left _ hdoor)
  have hworld : Run Served w₀ (rs ++ requests (served ls) ++ requests turns) b.world := by
    rw [List.append_assoc, ← requests_append]
    exact hserved.append (run_backend hserver)
  have hall : rs ++ requests (served (ls ++ ms)) =
      (rs ++ requests (served ls) ++ requests turns) ++ requests turns' := by
    rw [hsplits, requests_append, requests_append]
    simp only [List.append_assoc]
  rw [hall, times_append] at htimes
  have hrecent : Recent tenantId b.world.db
      (recent tenantId w₀ (rs ++ requests (served ls) ++ requests turns) [])
      (times (rs ++ requests (served ls) ++ requests turns)) :=
    .of_run hw hworld (List.pairwise_append.mp htimes).1
  obtain ⟨scan, hscan, rfl⟩ := reads_rows hb hread
  have hlist := hrecent.listed hscan fun _ => true
  rw [List.filter_true, List.filter_true] at hlist
  rw [hlist] at hown
  obtain ⟨message, hfeed⟩ :=
    taken_shown hown (page_stays hopened hlet hstay (hrun.append hrest.of_where))
  refine ⟨requests turns, requests turns', b.world, message, ?_, run_backend hbefore,
    run_backend hafter, hfeed⟩
  rw [hsplit, requests_append]

def feedLibrary : TriageLibrary where
  dumpDatetime := toString
  parseDatetime := fun _ => none
  presignedGetUrl := .ok
  vlmResult := fun _ => .null

/-- The development login of a watcher of tenant 1. -/
def feedDoor : Door where
  library := Auth.libraryOf [("sub", .str "auth0|watcher"), ("role", .str "watcher"),
    ("tenant_id", .str (Uuid.str ⟨1⟩))]
  auth0UseMock := true

def feedCall : Request :=
  .aggregate { sampleAggregate 11 20 with now := 1 }

def feedStart : Browsing :=
  ⟨⟨listWorld, feedDoor⟩, [.sent .load], .feed [] ""⟩

def feedAnswer (scan : List Uuid) (w : World) : HttpResponse :=
  feedLibrary.listResponse ((Backend.mk w feedDoor).listDecisions id scan ⟨1⟩ (some "watcher"))

theorem feedDoor_letIn : LetIn ⟨1⟩ (some "watcher") feedDoor := by
  have hsome : ((getAuthContext feedDoor ⟨none, some "watcher"⟩).toOption.map
      Auth.AuthContext.tenantId) = some (some ⟨1⟩) := by decide +kernel
  obtain ⟨auth, hauth, htenant⟩ := Option.map_eq_some_iff.mp hsome
  refine ⟨auth, ?_, Or.inr htenant⟩
  cases hx : getAuthContext feedDoor ⟨none, some "watcher"⟩ with
  | error e =>
    rw [hx] at hauth
    cases hauth
  | ok auth' =>
    rw [hx] at hauth
    cases hauth
    rfl

/-- The event of a new decision arrives, and the list is read, before the decision is committed. -/
def feedTurns : List BrowsingTurn :=
  [.read 0 (feedAnswer [] listWorld), .begin .refresh, .read 1 (feedAnswer [] listWorld),
    .serve (.request feedCall), .arrive 0, .arrive 0, .begin .refresh]

def feedScan : List Uuid :=
  (scanned listWorld [feedCall]).dedup.filter fun id =>
    ((serve listWorld feedCall).db.decisions.find id).isSome

def feedRest : List BrowsingTurn :=
  [.read 0 (feedAnswer feedScan (serve listWorld feedCall)), .arrive 0]

/-- It is not in the feed until the heartbeat after it. -/
theorem feed_catches_up_sample :
    ∃ u t : Browsing, ∃ message message',
      Run (Step (triageWorkspace feedLibrary id ⟨1⟩ (some "watcher"))) feedStart feedTurns u ∧
      u.shown = .feed [] message ∧
      Run (Step (triageWorkspace feedLibrary id ⟨1⟩ (some "watcher"))) u feedRest t ∧
      t.shown = .feed (([⟨20⟩].filterMap (serve listWorld feedCall).db.decisions.find).map
        feedLibrary.decisionSummary) message' := by
  have hstart : listWorld.Initial := sampleWorld_initial _
  have hempty : Scans listWorld.db [] :=
    ⟨.nil, fun id => iff_of_false List.not_mem_nil (by simp [hstart.decisions])⟩
  have hnothing : feedAnswer [] listWorld = ⟨200, some (.arr [])⟩ := by
    unfold feedAnswer
    rw [Backend.listDecisions_eq feedDoor_letIn]
    simp [newestFirst, TriageLibrary.listResponse]
  have hserve : Run Served listWorld [feedCall] (serve listWorld feedCall) := Run.single rfl
  have hscan : Scans (serve listWorld feedCall).db feedScan := scans_scanned hstart hserve
  let u : Browsing := ⟨⟨serve listWorld feedCall, feedDoor⟩, [.sent .refresh],
    .feed [] "Live triage connected."⟩
  have hfirst : Run (Step (triageWorkspace feedLibrary id ⟨1⟩ (some "watcher"))) feedStart
      feedTurns u := by
    unfold feedTurns
    rw [hnothing]
    have hread : (triageWorkspace feedLibrary id ⟨1⟩ (some "watcher")).reads
        ⟨listWorld, feedDoor⟩ ⟨200, some (.arr [])⟩ := ⟨[], hempty, hnothing.symm⟩
    exact .cons (.read rfl hread) (.cons (.begin ⟨rfl, _, _, rfl⟩) (.cons (.read rfl hread)
      (.cons (.serve rfl) (.cons (.arrive rfl) (.cons (.arrive rfl)
        (.cons (.begin ⟨rfl, _, _, rfl⟩) (.nil _)))))))
  obtain ⟨t, hrest, hquiet⟩ : ∃ t : Browsing,
      Run (Where NewestLast (Step (triageWorkspace feedLibrary id ⟨1⟩ (some "watcher")))) u
        feedRest t ∧ t.pending = [] :=
    ⟨_, .cons ⟨trivial, .read rfl ⟨feedScan, hscan, rfl⟩⟩
      (.cons ⟨fun _ => rfl, .arrive rfl⟩ (.nil _)), rfl⟩
  have hnewest : u.pending = [] ++ [.sent .refresh] := rfl
  have hstay : ∀ door, .tokens door ∈ served (feedTurns ++ feedRest) →
      LetIn ⟨1⟩ (some "watcher") door := by
    intro door hdoor
    cases List.mem_singleton.mp hdoor
  obtain ⟨before, after, v, message, hsplit, hbefore, -, hshown⟩ :=
    feed_catches_up hstart (.nil _) (by decide) ⟨rfl, rfl⟩ feedDoor_letIn hstay hfirst hnewest
      hrest (by simp [feedRest, Turn.begun]) hquiet
  obtain ⟨rfl, rfl⟩ := List.append_eq_nil_iff.mp hsplit.symm
  obtain rfl := run_served_eq hbefore
  exact ⟨u, t, _, message, hfirst, rfl, hrest.of_where, hshown⟩

theorem reads_turnedAway {response : HttpResponse} (ha : TurnedAway cookie a.door)
    (h : (triageWorkspace lib repr tenantId cookie).reads a response) :
    ∃ detail, response = httpExceptionHandler 401 detail := by
  obtain ⟨scan, -, hresponse⟩ := h
  obtain ⟨detail, hdetail⟩ := ha
  refine ⟨detail, ?_⟩
  rw [hresponse]
  unfold Backend.listDecisions
  rw [hdetail]
  rfl

/-- Nothing of the page is left. -/
def Page.Gone (page : Page) : Prop :=
  page = .crashed ∨ page = .redirected

theorem Page.Gone.take {page : Page} (h : page.Gone) (kind : FeedRequest)
    (response : HttpResponse) : (kind.take response page).Gone := by
  rcases h with rfl | rfl
  · cases kind <;> exact Or.inl rfl
  · cases kind <;> exact Or.inr rfl

theorem Page.Gone.tell {page : Page} (h : page.Gone) (event : PageEvent) :
    (page.tell event).Gone := by
  rcases h with rfl | rfl
  · exact Or.inl rfl
  · exact Or.inr rfl

theorem gone_of_turnedAway (kind : FeedRequest) (detail : String) (page : Page) :
    (kind.take (httpExceptionHandler 401 detail) page).Gone := by
  cases page with
  | feed decisions message =>
    cases kind with
    | load => exact Or.inr rfl
    | refresh => exact Or.inl rfl
  | crashed => exact Page.Gone.take (Or.inl rfl) kind _
  | redirected => exact Page.Gone.take (Or.inr rfl) kind _

/-- While the cookie is not good, the first answer to a request that had not been read yet leaves
nothing of the page, for good, even if the cookie is good again later. -/
theorem feed_ends {u t t' : Browsing} {ms ms' : List BrowsingTurn} {n : Nat} {kind : FeedRequest}
    (hsent : u.pending[n]? = some (.sent kind)) (haway : TurnedAway cookie u.server.door)
    (hstay : ∀ door, .tokens door ∈ served ms → TurnedAway cookie door)
    (hrun : Run (Step (triageWorkspace lib repr tenantId cookie)) u ms t)
    (harrives : arrives n ms = true)
    (hlater : Run (Step (triageWorkspace lib repr tenantId cookie)) t ms' t') :
    t'.shown = .crashed ∨ t'.shown = .redirected := by
  have htake : ∀ (kind : FeedRequest) response page, Page.Gone page →
      (kind.take response page).Gone := fun kind response page hpage => hpage.take kind response
  have hown : ∀ page event page', Page.Gone page → page' = page.tell event → page'.Gone := by
    intro page event page' hpage hstep
    rw [hstep]
    exact hpage.tell event
  have hgone : t.shown.Gone := by
    refine answered_absorbed (Q := fun a => TurnedAway cookie a.door) (R := Page.Gone) hrun ?_ ?_
      htake hown haway hsent trivial harrives
    · intro turn hturn a b ha hstep
      obtain rfl := hstep
      cases turn with
      | request r => exact ha
      | tokens door => exact hstay door hturn
    · intro a kind response page ha hread
      obtain ⟨detail, rfl⟩ := reads_turnedAway ha hread
      exact gone_of_turnedAway kind detail page
  exact run_absorbed (R := Page.Gone) hlater htake hown hgone

def expiredDoor : Door :=
  { feedDoor with library := { feedDoor.library with decode := fun _ => .error .expiredSignature } }

/-- A heartbeat after the cookie has expired. -/
def expiredView : Browsing :=
  ⟨⟨listWorld, expiredDoor⟩, [.sent .refresh], .feed [] "Live triage connected."⟩

/-- The heartbeat asks, another one asks while the answer is on its way, a message is lost, and the
answer comes. -/
def expiredTurns (response : HttpResponse) : List BrowsingTurn :=
  [.begin .refresh, .read 0 response, .begin .refresh, .lose 1, .arrive 0, .own .socketClosed]

/-- The page stays gone when the login is good again. -/
theorem feed_ends_sample : ∃ response, ∃ t t' : Browsing,
    Run (Step (triageWorkspace feedLibrary id ⟨1⟩ (some "watcher"))) expiredView
      (expiredTurns response) t ∧
    Run (Step (triageWorkspace feedLibrary id ⟨1⟩ (some "watcher"))) t
      [.serve (.tokens feedDoor)] t' ∧ (t'.shown = .crashed ∨ t'.shown = .redirected) := by
  have hempty : Scans listWorld.db [] := by
    refine ⟨.nil, fun id => iff_of_false List.not_mem_nil ?_⟩
    simp [(sampleWorld_initial _).decisions id, listWorld]
  obtain ⟨response, t, hrun⟩ : ∃ response, ∃ t : Browsing,
      Run (Step (triageWorkspace feedLibrary id ⟨1⟩ (some "watcher"))) expiredView
        (expiredTurns response) t :=
    ⟨_, _, .cons (.begin ⟨rfl, _, _, rfl⟩) (.cons (.read rfl ⟨[], hempty, rfl⟩)
      (.cons (.begin ⟨rfl, _, _, rfl⟩) (.cons (.lose (by decide)) (.cons (.arrive rfl)
        (.cons (.own rfl) (.nil _))))))⟩
  have hlater : Run (Step (triageWorkspace feedLibrary id ⟨1⟩ (some "watcher"))) t
      [.serve (.tokens feedDoor)] { t with server := t.server.next (.tokens feedDoor) } :=
    Run.single (.serve rfl)
  have haway : TurnedAway (some "watcher") expiredView.server.door := ⟨"Token expired", rfl⟩
  refine ⟨response, t, _, hrun, hlater, feed_ends (n := 0) rfl haway ?_ hrun rfl hlater⟩
  intro door hdoor
  cases hdoor

end ArgusServices
