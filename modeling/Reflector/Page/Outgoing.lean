/-
# What the page sends

The page collects the candidates of its peer connection in `iceCandidateMsg` and posts them when
gathering is complete; its offer it posts at once.  Both go to the peer that `peerId` names.  The
handlers of a peer connection know neither which connection called them nor which sign-in it
belongs to: they append to the one variable, ask `peerConnection` for its state, and post to
`peerId`, whatever these are by then.

* In every run a message of candidates lists what ALL connections have reported since
  `stopRecording` last returned (`gathered_of_run`).
* In the runs in which no sign-in is acted on while there is a peer connection, that is what this
  one connection has reported, from its making on, and it goes to the peer whose id the server
  gave in the answer that made it; so does the offer (`posted_of_run`).
-/
import Reflector.Page.Session
import Reflector.Signaling.Framing

namespace Reflector

open Base Signaling

/-! ## 1. The handlers of a peer connection -/

/-- The page, with the variable that collects, and what the browser keeps for its peer
connections. -/
structure Caller where
  page : Page
  iceCandidateMsg : Option Bytes
  /-- The peer connections whose `iceGatheringState` is "complete". -/
  complete : List ℕ
  /-- The peer connections with a call of `createOffer` that is not settled. -/
  offers : List ℕ
  deriving DecidableEq, Repr

inductive CallerEvent
  | page (e : PageEvent)
  | raised
  /-- A peer connection is made, with what `peerId` is then. -/
  | created (i : ℕ) (peerId : Option ℕ)
  /-- `sendMessage`; without data, the request has no body. -/
  | posted (pragma : Option ℕ) (data : Option Bytes)
  deriving DecidableEq, Repr

inductive CallerLabel
  | page (l : PageLabel)
  /-- `onicecandidate`, with a candidate. -/
  | candidate (i : ℕ) (c : Candidate JsString)
  /-- `onicegatheringstatechange`. -/
  | gathering (i : ℕ) (complete : Bool)
  /-- `createOffer` succeeds. -/
  | offer (i : ℕ) (type sdp : JsString)
  deriving DecidableEq, Repr

namespace Caller

def start : Caller := { page := .start, iceCandidateMsg := none, complete := [], offers := [] }

/-- `stopRecording` clears the variable; `getUserMedia` goes on to `createOffer`. -/
def onPage (caller : Caller) (l : PageLabel) (page : Page) (es : List PageEvent) :
    Caller × List CallerEvent :=
  ({ caller with
      page := page
      iceCandidateMsg := if .stopped ∈ es then none else caller.iceCandidateMsg
      offers :=
        if l = .userMedia true then caller.offers ++ page.peerConnection.toList
        else caller.offers },
    es.map .page ++
      if page.createdPeers = caller.page.createdPeers then []
      else [.created caller.page.createdPeers page.peerId])

def sendMessage (caller : Caller) (data : Option Bytes) : CallerEvent :=
  .posted caller.page.peerId data

/-- It is the state of the connection in the variable that is asked for. -/
def onGathering (caller : Caller) : List CallerEvent :=
  match caller.page.peerConnection with
  | none => [.raised]
  | some j =>
    if j ∈ caller.complete then [caller.sendMessage caller.iceCandidateMsg] else []

/-- `setLocalDescription` comes first, on the connection in the variable. -/
def onOffer (caller : Caller) (type sdp : JsString) : List CallerEvent :=
  match caller.page.peerConnection with
  | none => [.raised]
  | some _ => [caller.sendMessage (some (ascii "SDP->" ++ browserDescription type sdp))]

/-- **The page and its peer connections**, event by event.  A connection that is closed calls no
handler. -/
def step (browser : Browser) (caller : Caller) : CallerLabel → Option (Caller × List CallerEvent)
  | .page l => (caller.page.step browser l).map fun (page, es) => caller.onPage l page es
  | .candidate i c =>
    if i ∈ caller.page.openPeers then
      some ({ caller with iceCandidateMsg := onicecandidate caller.iceCandidateMsg c }, [])
    else none
  | .gathering i complete =>
    if i ∈ caller.page.openPeers then
      let rest := caller.complete.filter (· ≠ i)
      let caller := { caller with complete := if complete then i :: rest else rest }
      some (caller, caller.onGathering)
    else none
  | .offer i type sdp =>
    if i ∈ caller.offers ∧ i ∈ caller.page.openPeers then
      some ({ caller with offers := caller.offers.erase i }, caller.onOffer type sdp)
    else none

end Caller

/-! ## 2. What a message is made of -/

/-- Nothing, or the candidates one after the other. -/
def framed (cs : List (Candidate JsString)) : Option Bytes :=
  if cs = [] then none else some (browserMessage cs)

theorem framed_eq (cs : List (Candidate JsString)) : cs.foldl onicecandidate none = framed cs := by
  cases cs with
  | nil => rfl
  | cons c cs =>
    have hsome : ∀ (cs : List (Candidate JsString)) (msg : Bytes),
        (cs.foldl onicecandidate (some msg)).isSome := by
      intro cs
      induction cs with
      | nil => exact fun _ => rfl
      | cons c cs ih => exact fun msg => ih _
    obtain ⟨msg, hmsg⟩ := Option.isSome_iff_exists.mp (hsome cs (ascii "ICE->" ++ c.browserText))
    have hfold : (c :: cs).foldl onicecandidate none = some msg := hmsg
    rw [framed, if_neg (List.cons_ne_nil c cs), browserMessage, hfold]
    rfl

/-- One more candidate. -/
theorem framed_concat (cs : List (Candidate JsString)) (c : Candidate JsString) :
    framed (cs ++ [c]) = onicecandidate (framed cs) c := by
  rw [← framed_eq, ← framed_eq, List.foldl_append]
  rfl

/-- A candidate, from whatever connection. -/
def CallerLabel.reported : CallerLabel → Option (Candidate JsString)
  | .candidate _ c => some c
  | _ => none

/-- A candidate from connection `i`. -/
def CallerLabel.reportedBy (i : ℕ) : CallerLabel → Option (Candidate JsString)
  | .candidate j c => if j = i then some c else none
  | _ => none

/-- With what `peerId` a connection is made. -/
def CallerEvent.made : CallerEvent → Option (Option ℕ)
  | .created _ peerId => some peerId
  | _ => none

/-- With what `peerId` connection `i` is made. -/
def CallerEvent.madeWith (i : ℕ) : CallerEvent → Option (Option ℕ)
  | .created j peerId => if j = i then some peerId else none
  | _ => none

namespace Caller

/-- `stopRecording` returned in this event. -/
def stops (x : CallerLabel × List CallerEvent) : Bool := decide (.page .stopped ∈ x.2)

/-- The candidates that came since it did. -/
def waiting (tr : List (CallerLabel × List CallerEvent)) : List (Candidate JsString) :=
  (since stops tr).filterMap fun x => x.1.reported

/-- The peer that was named last since it did. -/
def addressee (tr : List (CallerLabel × List CallerEvent)) : Option ℕ :=
  ((events (since stops tr)).filterMap CallerEvent.made).getLast?.getD (some 0)

/-- All that connection `i` has reported. -/
def reports (i : ℕ) (tr : List (CallerLabel × List CallerEvent)) : List (Candidate JsString) :=
  tr.filterMap fun x => x.1.reportedBy i

/-- The peers that connection `i` was made for. -/
def owners (i : ℕ) (tr : List (CallerLabel × List CallerEvent)) : List (Option ℕ) :=
  (events tr).filterMap (CallerEvent.madeWith i)

section

variable {tr : List (CallerLabel × List CallerEvent)} {x : CallerLabel × List CallerEvent}

theorem since_stop (h : stops x = true) : since stops (tr ++ [x]) = [] :=
  List.rtakeWhile_concat_neg (fun x => !stops x) tr x (by simp [h])

theorem since_go (h : stops x = false) : since stops (tr ++ [x]) = since stops tr ++ [x] :=
  List.rtakeWhile_concat_pos (fun x => !stops x) tr x (by simp [h])

theorem waiting_stop (h : stops x = true) : waiting (tr ++ [x]) = [] := by
  rw [waiting, since_stop h, List.filterMap_nil]

theorem waiting_go (h : stops x = false) :
    waiting (tr ++ [x]) = waiting tr ++ x.1.reported.toList := by
  rw [waiting, since_go h, List.filterMap_append, waiting]
  cases hx : x.1.reported <;> simp [hx]

theorem waiting_same (h : stops x = false) (hx : x.1.reported = none) :
    waiting (tr ++ [x]) = waiting tr := by
  rw [waiting_go h, hx, Option.toList_none, List.append_nil]

theorem addressee_stop (h : stops x = true) : addressee (tr ++ [x]) = some 0 := by
  rw [addressee, since_stop h]
  rfl

/-- Nothing is made. -/
theorem addressee_go (h : stops x = false) (hmade : x.2.filterMap CallerEvent.made = []) :
    addressee (tr ++ [x]) = addressee tr := by
  rw [addressee, since_go h, events_append, List.filterMap_append, events_singleton, hmade,
    List.append_nil, addressee]

theorem addressee_made {peerId : Option ℕ} (h : stops x = false)
    (hmade : x.2.filterMap CallerEvent.made = [peerId]) : addressee (tr ++ [x]) = peerId := by
  rw [addressee, since_go h, events_append, List.filterMap_append, events_singleton, hmade,
    List.getLast?_concat]
  rfl

theorem reports_concat (i : ℕ) :
    reports i (tr ++ [x]) = reports i tr ++ (x.1.reportedBy i).toList := by
  rw [reports, List.filterMap_append, reports]
  cases hx : x.1.reportedBy i <;> simp [hx]

theorem reports_same {i : ℕ} (hx : x.1.reportedBy i = none) :
    reports i (tr ++ [x]) = reports i tr := by
  rw [reports_concat, hx, Option.toList_none, List.append_nil]

theorem owners_concat (i : ℕ) :
    owners i (tr ++ [x]) = owners i tr ++ x.2.filterMap (CallerEvent.madeWith i) := by
  rw [owners, events_append, List.filterMap_append, events_singleton, owners]

end

end Caller

/-! ## 3. What an event can do -/

/-- To the peer connections of the page. -/
inductive Page.Turns (page : Page) (l : PageLabel) (page' : Page) (es : List PageEvent) : Prop
  | keep (hpeers : page'.openPeers = page.openPeers)
      (hpc : page'.peerConnection = page.peerConnection) (hid : page'.peerId = page.peerId)
      (hcreated : page'.createdPeers = page.createdPeers) (hes : .stopped ∉ es)
  | stop (hpeers : page'.openPeers = page.openPeers.filter fun i => some i != page.peerConnection)
      (hpc : page'.peerConnection = none) (hid : page'.peerId = some 0)
      (hcreated : page'.createdPeers = page.createdPeers) (hes : .stopped ∈ es)
  | make (i : ℕ) (progress : Xhr.Progress) (hl : l = .signIn i progress)
      (hclash : page.clashes l = page.peerConnection.isSome)
      (hpeers : page'.openPeers = page.openPeers ++ [page.createdPeers])
      (hpc : page'.peerConnection = some page.createdPeers)
      (hcreated : page'.createdPeers = page.createdPeers + 1) (hes : .stopped ∉ es)

theorem Page.turns_of_acts {page page' : Page} {l : PageLabel} {es : List PageEvent}
    (h : Acts page l page' es) : Turns page l page' es := by
  cases h with
  | connect | stuck | aside => exact .keep rfl rfl rfl rfl (by simp)
  | disconnect hconnected hstream =>
    rw [Page.stopRecording, if_pos hstream]
    exact .stop rfl rfl rfl rfl (by simp)
  | signIn i progress page₁ es hchange hnot hes =>
    obtain ⟨xhr, -, rfl⟩ := Option.map_eq_some_iff.mp hchange
    exact .keep rfl rfl rfl rfl hes
  | session i progress page₁ pragma connected es hchange hanswered hes =>
    have hclash : page.clashes (.signIn i progress) = page.peerConnection.isSome := by
      simp [clashes, hchange, hanswered]
    obtain ⟨xhr, -, rfl⟩ := Option.map_eq_some_iff.mp hchange
    unfold getMediaStream waitOn
    dsimp only
    split
    · exact .make i progress rfl hclash rfl rfl rfl hes
    · exact .make i progress rfl hclash rfl rfl rfl hes
  | wait i progress page₁ es hchange hes =>
    obtain ⟨xhr, -, rfl⟩ := Option.map_eq_some_iff.mp hchange
    exact .keep rfl rfl rfl rfl hes
  | next i progress page₁ j hchange hget =>
    obtain ⟨xhr, -, rfl⟩ := Option.map_eq_some_iff.mp hchange
    exact .keep rfl rfl rfl rfl (by simp)
  | timeout hne => exact .keep rfl rfl rfl rfl (by simp)
  | canPlay =>
    unfold startPlaying
    split
    · exact .keep rfl rfl rfl rfl (by simp)
    · exact .keep rfl rfl rfl rfl (by simp)

namespace Caller

/-- To the page and its peer connections. -/
inductive Does (caller : Caller) : CallerLabel → Caller → List CallerEvent → Prop
  | page (l : PageLabel) (page : Page) (es : List PageEvent)
      (hturns : caller.page.Turns l page es) :
      Does caller (.page l) (caller.onPage l page es).1 (caller.onPage l page es).2
  | candidate (i : ℕ) (c : Candidate JsString) (hopen : i ∈ caller.page.openPeers) :
      Does caller (.candidate i c)
        { caller with iceCandidateMsg := onicecandidate caller.iceCandidateMsg c } []
  | gathering (i : ℕ) (complete : Bool) (peers : List ℕ) (hopen : i ∈ caller.page.openPeers) :
      Does caller (.gathering i complete) { caller with complete := peers }
        { caller with complete := peers }.onGathering
  | offer (i : ℕ) (type sdp : JsString) (offers : List ℕ) (hopen : i ∈ caller.page.openPeers) :
      Does caller (.offer i type sdp) { caller with offers := offers } (caller.onOffer type sdp)

variable {browser : Browser} {caller caller' : Caller} {l : CallerLabel} {es : List CallerEvent}
  {tr : List (CallerLabel × List CallerEvent)} {pragma : Option ℕ} {data : Option Bytes}

theorem does_of_step (h : caller.step browser l = some (caller', es)) :
    Does caller l caller' es := by
  cases l with
  | page l =>
    obtain ⟨⟨page, es'⟩, hstep, heq⟩ := Option.map_eq_some_iff.mp h
    obtain ⟨rfl, rfl⟩ := Prod.mk.inj heq
    exact .page l page es' (Page.turns_of_acts (Page.acts_of_step hstep))
  | candidate i c =>
    simp only [step] at h
    split at h
    · rename_i hopen
      obtain ⟨rfl, rfl⟩ := Prod.mk.inj (Option.some.inj h)
      exact .candidate i c hopen
    · cases h
  | gathering i complete =>
    simp only [step] at h
    split at h
    · rename_i hopen
      obtain ⟨rfl, rfl⟩ := Prod.mk.inj (Option.some.inj h)
      exact .gathering i complete _ hopen
    · cases h
  | offer i type sdp =>
    simp only [step] at h
    split at h
    · rename_i hopen
      obtain ⟨rfl, rfl⟩ := Prod.mk.inj (Option.some.inj h)
      exact .offer i type sdp _ hopen.2
    · cases h

/-- The handlers of a peer connection throw, post, or do nothing. -/
theorem onGathering_cases (caller : Caller) :
    caller.onGathering = [.raised] ∨ caller.onGathering = [] ∨
      caller.onGathering = [.posted caller.page.peerId caller.iceCandidateMsg] := by
  unfold onGathering
  split
  · exact .inl rfl
  · split
    · exact .inr (.inr rfl)
    · exact .inr (.inl rfl)

theorem onOffer_cases (caller : Caller) (type sdp : JsString) :
    caller.onOffer type sdp = [.raised] ∨ caller.onOffer type sdp =
      [.posted caller.page.peerId (some (ascii "SDP->" ++ browserDescription type sdp))] := by
  unfold onOffer
  split
  · exact .inl rfl
  · exact .inr rfl

/-- What shows of such a handler. -/
def Brief (es : List CallerEvent) : Prop :=
  es = [.raised] ∨ es = [] ∨ ∃ pragma data, es = [.posted pragma data]

theorem brief_onGathering (caller : Caller) : Brief caller.onGathering :=
  caller.onGathering_cases.imp_right (Or.imp_right fun heq => ⟨_, _, heq⟩)

theorem brief_onOffer (caller : Caller) (type sdp : JsString) :
    Brief (caller.onOffer type sdp) :=
  (caller.onOffer_cases type sdp).imp_right fun heq => .inr ⟨_, _, heq⟩

/-- It makes no connection and is no end of a session. -/
theorem Brief.silent {l : CallerLabel} (h : Brief es) :
    stops (l, es) = false ∧ es.filterMap CallerEvent.made = [] ∧
      ∀ i, es.filterMap (CallerEvent.madeWith i) = [] := by
  rcases h with rfl | rfl | ⟨pragma, data, rfl⟩ <;> exact ⟨rfl, rfl, fun _ => rfl⟩

theorem stops_onPage (caller : Caller) (l : PageLabel) (page : Page) (es : List PageEvent) :
    stops (.page l, (caller.onPage l page es).2) = decide (.stopped ∈ es) := by
  unfold stops onPage
  split <;> simp

theorem made_onPage (caller : Caller) (l : PageLabel) (page : Page) (es : List PageEvent) :
    (caller.onPage l page es).2.filterMap CallerEvent.made =
      if page.createdPeers = caller.page.createdPeers then [] else [page.peerId] := by
  have hes : (es.map CallerEvent.page).filterMap CallerEvent.made = [] := by
    rw [List.filterMap_map]
    exact List.filterMap_eq_nil_iff.mpr fun _ _ => rfl
  unfold onPage
  rw [List.filterMap_append, hes]
  split <;> rfl

theorem madeWith_onPage (i : ℕ) (l : PageLabel) (page : Page) (es : List PageEvent) :
    (caller.onPage l page es).2.filterMap (CallerEvent.madeWith i) =
      if page.createdPeers ≠ caller.page.createdPeers ∧ caller.page.createdPeers = i then
        [page.peerId]
      else [] := by
  have hes : (es.map CallerEvent.page).filterMap (CallerEvent.madeWith i) = [] := by
    rw [List.filterMap_map]
    exact List.filterMap_eq_nil_iff.mpr fun _ _ => rfl
  unfold onPage
  rw [List.filterMap_append, hes]
  by_cases hnew : page.createdPeers = caller.page.createdPeers
  · rw [if_pos hnew, if_neg fun h => h.1 hnew]
    rfl
  · rw [if_neg hnew, List.nil_append]
    by_cases hi : caller.page.createdPeers = i
    · rw [if_pos ⟨hnew, hi⟩]
      exact List.filterMap_cons_some (if_pos hi)
    · rw [if_neg fun h => hi h.2]
      exact List.filterMap_cons_none (if_neg hi)

/-! ## 4. Every run -/

/-- The two variables, by what has happened since `stopRecording` last returned. -/
structure Kept (tr : List (CallerLabel × List CallerEvent)) (caller : Caller) : Prop where
  msg : caller.iceCandidateMsg = framed (waiting tr)
  peerId : caller.page.peerId = addressee tr

theorem Kept.page (h : Kept tr caller) {l : PageLabel} {page : Page} {es : List PageEvent}
    (hturns : caller.page.Turns l page es) :
    Kept (tr ++ [(.page l, (caller.onPage l page es).2)]) (caller.onPage l page es).1 := by
  have hstops := stops_onPage caller l page es
  have hmade := made_onPage caller l page es
  cases hturns with
  | keep hpeers hpc hid hcreated hes =>
    rw [decide_eq_false hes] at hstops
    rw [if_pos hcreated] at hmade
    constructor
    · rw [waiting_same hstops rfl, ← h.msg]
      exact if_neg hes
    · rw [addressee_go hstops hmade, ← h.peerId]
      exact hid
  | stop hpeers hpc hid hcreated hes =>
    rw [decide_eq_true hes] at hstops
    constructor
    · rw [waiting_stop hstops]
      exact if_pos hes
    · rw [addressee_stop hstops]
      exact hid
  | make i progress hl hclash hpeers hpc hcreated hes =>
    rw [decide_eq_false hes] at hstops
    rw [if_neg (by omega)] at hmade
    constructor
    · rw [waiting_same hstops rfl, ← h.msg]
      exact if_neg hes
    · rw [addressee_made hstops hmade]
      rfl

/-- A handler of a peer connection leaves them alone. -/
theorem Kept.handler (h : Kept tr caller) (hmsg : caller'.iceCandidateMsg = caller.iceCandidateMsg)
    (hpage : caller'.page = caller.page) (hl : l.reported = none)
    (hes : Brief es) : Kept (tr ++ [(l, es)]) caller' := by
  obtain ⟨hstops, hmade, -⟩ := hes.silent (l := l)
  constructor
  · rw [waiting_same hstops hl, ← h.msg, hmsg]
  · rw [addressee_go hstops hmade, ← h.peerId, hpage]

theorem Kept.step (h : Kept tr caller) (hdoes : Does caller l caller' es) :
    Kept (tr ++ [(l, es)]) caller' := by
  cases hdoes with
  | page l page es hturns => exact h.page hturns
  | candidate i c hopen =>
    constructor
    · rw [waiting_go rfl]
      exact (congrArg (onicecandidate · c) h.msg).trans (framed_concat _ _).symm
    · rw [addressee_go rfl rfl, ← h.peerId]
  | gathering i complete peers hopen => exact h.handler rfl rfl rfl (brief_onGathering _)
  | offer i type sdp offers hopen => exact h.handler rfl rfl rfl (brief_onOffer caller type sdp)

theorem Kept.of_run (hrun : Run (Caller.step browser) start tr caller) : Kept tr caller := by
  refine hrun.invariant Kept ⟨rfl, rfl⟩ ?_
  intro tr caller l caller' es _ hkept hstep
  exact hkept.step (does_of_step hstep)

/-- What is posted, by which handler. -/
theorem posts_of_does (hdoes : Does caller l caller' es) (hpost : .posted pragma data ∈ es) :
    pragma = caller.page.peerId ∧ ∃ i ∈ caller.page.openPeers,
      ((∃ complete, l = .gathering i complete ∧ data = caller.iceCandidateMsg) ∨
        ∃ type sdp, l = .offer i type sdp ∧
          data = some (ascii "SDP->" ++ browserDescription type sdp)) := by
  cases hdoes with
  | page l page es hturns =>
    unfold onPage at hpost
    split at hpost <;> simp at hpost
  | candidate i c hopen => exact absurd hpost (by simp)
  | gathering i complete peers hopen =>
    obtain heq | heq | heq := onGathering_cases { caller with complete := peers }
    · rw [heq] at hpost
      exact absurd hpost (by simp)
    · rw [heq] at hpost
      exact absurd hpost (by simp)
    · rw [heq, List.mem_singleton] at hpost
      obtain ⟨rfl, rfl⟩ := CallerEvent.posted.inj hpost
      exact ⟨rfl, i, hopen, .inl ⟨complete, rfl, rfl⟩⟩
  | offer i type sdp offers hopen =>
    obtain heq | heq := onOffer_cases caller type sdp
    · rw [heq] at hpost
      exact absurd hpost (by simp)
    · rw [heq, List.mem_singleton] at hpost
      obtain ⟨rfl, rfl⟩ := CallerEvent.posted.inj hpost
      exact ⟨rfl, i, hopen, .inr ⟨type, sdp, rfl, rfl⟩⟩

/-- **What is posted in any run**: what all connections have reported since `stopRecording` last
returned, or an offer; to the peer that was named last. -/
theorem gathered_of_run {tr₁ tr₂ : List (CallerLabel × List CallerEvent)}
    (hrun : Run (step browser) start (tr₁ ++ (l, es) :: tr₂) caller)
    (hpost : .posted pragma data ∈ es) :
    pragma = addressee tr₁ ∧
      ((∃ i complete, l = .gathering i complete ∧ data = framed (waiting tr₁)) ∨
        ∃ i type sdp, l = .offer i type sdp ∧
          data = some (ascii "SDP->" ++ browserDescription type sdp)) := by
  obtain ⟨caller₁, caller₂, hrun₁, hstep, -⟩ := hrun.step_at
  have hkept := Kept.of_run hrun₁
  obtain ⟨rfl, i, -, hdata⟩ := posts_of_does (does_of_step hstep) hpost
  refine ⟨hkept.peerId, ?_⟩
  rcases hdata with ⟨complete, hl, rfl⟩ | ⟨type, sdp, hl, rfl⟩
  · exact .inl ⟨i, complete, hl, hkept.msg⟩
  · exact .inr ⟨i, type, sdp, hl, rfl⟩

/-- A candidate without its SDP. -/
def sampleReport (sdpMLineIndex : ℤ) : Candidate JsString := ⟨[], sdpMLineIndex, []⟩

/-- A click, the answer that gives a peer, and the stream. -/
def sampleSignIn (i peer : ℕ) : List CallerLabel :=
  [.page .click, .page (.signIn i (.headers 200 (some peer))), .page (.signIn i (.done [])),
    .page (.userMedia true)]

/-- Another event of the sign-in that has been answered is acted on like an answer, and makes a
second connection. -/
def sampleMixed : List CallerLabel :=
  [.page (.devices 1 1), .page .click, .page .click, .page (.signIn 1 (.headers 200 (some 7))),
    .page (.signIn 1 (.done [])), .candidate 0 (sampleReport 0),
    .page (.signIn 0 (.headers 200 (some 8))), .candidate 1 (sampleReport 1), .gathering 1 true]

/-- The candidates of both go out in one message. -/
theorem gathered_of_run_sample : ∃ tr₁ es caller,
    Run (step Page.sampleBrowser) start (tr₁ ++ [(.gathering 1 true, es)]) caller ∧
    waiting tr₁ = [sampleReport 0, sampleReport 1] ∧
    ∃ data, .posted (some 7) data ∈ es ∧ data = framed (waiting tr₁) := by
  obtain ⟨tr, caller, hrun, hp⟩ := exists_run (step Page.sampleBrowser) start sampleMixed
    (fun tr _ => decide (tr.getLast? = some (.gathering 1 true,
        [.posted (some 7) (some (browserMessage [sampleReport 0, sampleReport 1]))]) ∧
      waiting tr.dropLast = [sampleReport 0, sampleReport 1])) (by decide +kernel)
  obtain ⟨hlast, hwaiting⟩ := of_decide_eq_true hp
  obtain ⟨tr₁, rfl⟩ := List.getLast?_eq_some_iff.mp hlast
  rw [List.dropLast_concat] at hwaiting
  refine ⟨tr₁, _, caller, hrun, hwaiting, _, List.mem_singleton_self _, ?_⟩
  obtain ⟨-, ⟨i, complete, -, hdata⟩ | ⟨i, type, sdp, hl, -⟩⟩ :=
    gathered_of_run hrun (List.mem_singleton_self _)
  · exact hdata
  · exact absurd hl (by simp)

/-! ## 5. Runs without a second session -/

/-- The event is no sign-in that is acted on while there is a peer connection. -/
def alone (caller : Caller) : CallerLabel → Bool
  | .page (.signIn i progress) => !caller.page.clashes (.signIn i progress)
  | _ => true

/-- The one peer connection, if there is one, has all that waits and was made for the peer that is
named. -/
structure Own (tr : List (CallerLabel × List CallerEvent)) (caller : Caller) : Prop where
  peers : caller.page.openPeers = caller.page.peerConnection.toList
  later : ∀ i, caller.page.createdPeers ≤ i → reports i tr = [] ∧ owners i tr = []
  nothing : caller.page.peerConnection = none → waiting tr = []
  own : ∀ i, caller.page.peerConnection = some i → i < caller.page.createdPeers ∧
    waiting tr = reports i tr ∧ owners i tr = [caller.page.peerId]

theorem Own.page (h : Own tr caller) {l : PageLabel} {page : Page} {es : List PageEvent}
    (hturns : caller.page.Turns l page es) (halone : caller.alone (.page l) = true) :
    Own (tr ++ [(.page l, (caller.onPage l page es).2)]) (caller.onPage l page es).1 := by
  have hstops := stops_onPage caller l page es
  have hreports : ∀ i, reports i (tr ++ [(.page l, (caller.onPage l page es).2)]) =
      reports i tr := fun i => reports_same rfl
  have howners : ∀ i, owners i (tr ++ [(.page l, (caller.onPage l page es).2)]) = owners i tr ++
      if page.createdPeers ≠ caller.page.createdPeers ∧ caller.page.createdPeers = i then
        [page.peerId]
      else [] := by
    intro i
    rw [owners_concat, madeWith_onPage]
  cases hturns with
  | keep hpeers hpc hid hcreated hes =>
    rw [decide_eq_false hes] at hstops
    have hwaiting : waiting (tr ++ [(.page l, (caller.onPage l page es).2)]) = waiting tr :=
      waiting_same hstops rfl
    have hsame : ∀ i, owners i (tr ++ [(.page l, (caller.onPage l page es).2)]) = owners i tr := by
      intro i
      rw [howners, if_neg (fun hnew => hnew.1 hcreated), List.append_nil]
    constructor
    · exact hpeers.trans (h.peers.trans (congrArg _ hpc.symm))
    · intro i hi
      rw [hreports, hsame]
      exact h.later i (hcreated ▸ hi)
    · intro hnone
      rw [hwaiting]
      exact h.nothing (hpc.symm.trans hnone)
    · intro i hi
      obtain ⟨hlt, hwait, howner⟩ := h.own i (hpc.symm.trans hi)
      rw [hwaiting, hreports, hsame]
      have hid' : (caller.onPage l page es).1.page.peerId = caller.page.peerId := hid
      exact ⟨Nat.lt_of_lt_of_eq hlt hcreated.symm, hwait, hid' ▸ howner⟩
  | stop hpeers hpc hid hcreated hes =>
    rw [decide_eq_true hes] at hstops
    have hpcnone : (caller.onPage l page es).1.page.peerConnection = none := hpc
    constructor
    · rw [hpcnone]
      refine hpeers.trans ?_
      rw [h.peers]
      cases caller.page.peerConnection <;> simp
    · intro i hi
      rw [hreports, howners, if_neg (fun hnew => hnew.1 hcreated), List.append_nil]
      exact h.later i (hcreated ▸ hi)
    · exact fun _ => waiting_stop hstops
    · intro i hi
      exact absurd (hpcnone.symm.trans hi) (by simp)
  | make j progress hl hclash hpeers hpc hcreated hes =>
    rw [decide_eq_false hes] at hstops
    subst hl
    have hnone : caller.page.peerConnection = none := by
      simpa [alone, hclash] using halone
    obtain ⟨hnoReports, hnoOwners⟩ := h.later caller.page.createdPeers le_rfl
    constructor
    · refine hpeers.trans ?_
      rw [h.peers, hnone]
      exact (congrArg Option.toList hpc).symm
    · intro i hi
      have hi : caller.page.createdPeers + 1 ≤ i := hcreated ▸ hi
      obtain ⟨hri, hoi⟩ := h.later i (by omega)
      rw [hreports, howners, if_neg (by omega), List.append_nil]
      exact ⟨hri, hoi⟩
    · intro hnone'
      exact absurd (hpc.symm.trans hnone') (by simp)
    · intro i hi
      obtain rfl := Option.some.inj (hpc.symm.trans hi)
      refine ⟨Nat.lt_of_lt_of_eq (Nat.lt_succ_self _) hcreated.symm, ?_, ?_⟩
      · rw [waiting_same hstops rfl, hreports, hnoReports]
        exact h.nothing hnone
      · rw [howners, hnoOwners, if_pos ⟨by omega, rfl⟩]
        rfl

theorem Own.handler (h : Own tr caller) (hpage : caller'.page = caller.page)
    (hl : ∀ i, l.reportedBy i = none) (hl' : l.reported = none)
    (hes : Brief es) : Own (tr ++ [(l, es)]) caller' := by
  obtain ⟨hstops, -, hmade⟩ := hes.silent (l := l)
  have hwaiting : waiting (tr ++ [(l, es)]) = waiting tr := waiting_same hstops hl'
  have hreports : ∀ i, reports i (tr ++ [(l, es)]) = reports i tr := fun i => reports_same (hl i)
  have howners : ∀ i, owners i (tr ++ [(l, es)]) = owners i tr := by
    intro i
    rw [owners_concat, hmade, List.append_nil]
  constructor
  · rw [hpage]
    exact h.peers
  · rw [hpage]
    intro i hi
    rw [hreports, howners]
    exact h.later i hi
  · rw [hpage, hwaiting]
    exact h.nothing
  · rw [hpage]
    intro i hi
    rw [hwaiting, hreports, howners]
    exact h.own i hi

/-- A handler is called by the connection in the variable. -/
theorem Own.of_open (h : Own tr caller) {i : ℕ} (hopen : i ∈ caller.page.openPeers) :
    caller.page.peerConnection = some i := by
  rw [h.peers] at hopen
  simpa using hopen

theorem Own.step (h : Own tr caller) (hdoes : Does caller l caller' es)
    (halone : caller.alone l = true) : Own (tr ++ [(l, es)]) caller' := by
  cases hdoes with
  | page l page es hturns => exact h.page hturns halone
  | candidate i c hopen =>
    have hpc := h.of_open hopen
    have hreports : ∀ j, reports j (tr ++ [(CallerLabel.candidate i c, [])]) =
        reports j tr ++ if i = j then [c] else [] := by
      intro j
      rw [reports_concat, CallerLabel.reportedBy]
      split <;> rfl
    have howners : ∀ j, owners j (tr ++ [(CallerLabel.candidate i c, [])]) = owners j tr := by
      intro j
      rw [owners_concat, List.filterMap_nil, List.append_nil]
    obtain ⟨hlt, hwait, howner⟩ := h.own i hpc
    constructor
    · exact h.peers
    · intro j hj
      have hj : caller.page.createdPeers ≤ j := hj
      rw [hreports, howners, if_neg (by omega), List.append_nil]
      exact h.later j hj
    · exact fun hnone => absurd (hpc.symm.trans hnone) (by simp)
    · intro j hj
      obtain rfl := Option.some.inj (hpc.symm.trans hj)
      refine ⟨hlt, ?_, (howners i).trans howner⟩
      rw [waiting_go rfl, hreports, if_pos rfl, hwait]
      rfl
  | gathering i complete peers hopen =>
    exact h.handler rfl (fun _ => rfl) rfl (brief_onGathering _)
  | offer i type sdp offers hopen =>
    exact h.handler rfl (fun _ => rfl) rfl (brief_onOffer caller type sdp)

theorem Own.of_run (hrun : Run (Caller.step browser) start tr caller)
    (hgood : AllGood (Caller.step browser) start (fun caller l => caller.alone l = true) tr) :
    Own tr caller := by
  refine hrun.invariant_of_good ⟨rfl, fun _ _ => ⟨rfl, rfl⟩, fun _ => rfl, ?_⟩ ?_ hgood
  · exact fun i hi => absurd hi (by simp [start, Page.start])
  · exact fun tr caller l caller' es _ hown hstep hgood => hown.step (does_of_step hstep) hgood

/-- **A session posts what is its own**: as long as no sign-in is acted on while there is a peer
connection, a message has the candidates that one connection has reported, all of them, or its
offer, and goes to the peer for which that connection was made. -/
theorem posted_of_run {tr₁ tr₂ : List (CallerLabel × List CallerEvent)}
    (hrun : Run (step browser) start (tr₁ ++ (l, es) :: tr₂) caller)
    (hgood : AllGood (step browser) start (fun caller l => caller.alone l = true)
      (tr₁ ++ (l, es) :: tr₂))
    (hpost : .posted pragma data ∈ es) :
    ∃ i, owners i tr₁ = [pragma] ∧
      ((∃ complete, l = .gathering i complete ∧ data = framed (reports i tr₁)) ∨
        ∃ type sdp, l = .offer i type sdp ∧
          data = some (ascii "SDP->" ++ browserDescription type sdp)) := by
  obtain ⟨caller₁, caller₂, hrun₁, hstep, -⟩ := hrun.step_at
  have hown := Own.of_run hrun₁ hgood.left
  obtain ⟨rfl, i, hopen, hdata⟩ := posts_of_does (does_of_step hstep) hpost
  obtain ⟨-, hwait, howner⟩ := hown.own i (hown.of_open hopen)
  refine ⟨i, howner, ?_⟩
  rcases hdata with ⟨complete, hl, rfl⟩ | ⟨type, sdp, hl, rfl⟩
  · exact .inl ⟨complete, hl, by rw [← hwait, (Kept.of_run hrun₁).msg]⟩
  · exact .inr ⟨type, sdp, hl, rfl⟩

/-- Two sessions, one after the other. -/
def sampleSessions : List CallerLabel :=
  [.page (.devices 1 1)] ++ sampleSignIn 0 7 ++
    [.offer 0 [] [], .candidate 0 (sampleReport 0), .page .click] ++ sampleSignIn 1 8 ++
    [.candidate 1 (sampleReport 1), .gathering 1 true]

theorem posted_of_run_sample : ∃ tr₁ es caller,
    Run (step Page.sampleBrowser) start (tr₁ ++ [(.gathering 1 true, es)]) caller ∧
    .posted (some 8) (some (browserMessage [sampleReport 1])) ∈ es ∧
    ∃ i, owners i tr₁ = [some 8] ∧
      some (browserMessage [sampleReport 1]) = framed (reports i tr₁) := by
  obtain ⟨tr, caller, hrun, hp⟩ := exists_run (step Page.sampleBrowser) start sampleSessions
    (fun tr _ => decide (tr.getLast? = some (.gathering 1 true,
        [.posted (some 8) (some (browserMessage [sampleReport 1]))]) ∧
      goodLabels (step Page.sampleBrowser) Caller.alone start (tr.map Prod.fst) = true))
    (by decide +kernel)
  obtain ⟨hlast, hgood⟩ := of_decide_eq_true hp
  obtain ⟨tr₁, rfl⟩ := List.getLast?_eq_some_iff.mp hlast
  refine ⟨tr₁, _, caller, hrun, List.mem_singleton_self _, ?_⟩
  obtain ⟨i, howner, ⟨complete, -, hdata⟩ | ⟨type, sdp, hl, -⟩⟩ :=
    posted_of_run hrun ((allGood_iff hrun).mpr hgood) (List.mem_singleton_self _)
  · exact ⟨i, howner, hdata⟩
  · exact absurd hl (by simp)

end Caller

end Reflector
