/-
# One session at a time

The page is meant to have one session or none: `connected` decides whether a click starts a
session or ends it, and `stopRecording` closes, clears and aborts whatever the variables name.
Three things go wrong with that.

* `connected` is set only when the sign-in has been answered.  A second click before that signs in
  again, and an event of the first request that comes after the answer of the second finds THAT
  one answered, and starts a second session.  It is the same when `getMediaStream` throws because
  a device is missing: then `connected` is never set.
* Every `canplay` starts an interval timer, whether or not one is running.
* A `waitOn` that `setTimeout` has scheduled is not cancelled by `stopRecording`.

`clashes` says when an event does one of these.  As long as none does, the variables name
everything there is (`Single`), and there is one session at most; an event that does breaks that at
once.  So the page has at most one session throughout a run exactly if no event of it clashes
(`one_session_iff`).
-/
import Reflector.Page.Script

namespace Reflector

open Base

namespace Page

/-! ## 1. What goes wrong -/

/-- An event that makes a second one of something, or leaves one behind: a sign-in that is acted
on while there is a peer connection, a `canplay` while there is a timer, and a click that ends
the session while a `waitOn` is scheduled. -/
def clashes (page : Page) : PageLabel → Bool
  | .signIn i progress => page.peerConnection.isSome &&
      (page.changeSignIn i progress).any fun page => page.reqXhr.any Xhr.answered
  | .canPlay => page.peerConnection.isSome && page.statusTimer.isSome
  | .click => page.connected && page.mediaStream && page.scheduled != 0
  | _ => false

/-! ## 2. What an event can do -/

/-- Only a request in flight changes its state. -/
theorem inFlight_of_progress {xhr xhr' : Xhr} {progress : Xhr.Progress}
    (h : xhr.progress progress = some xhr') : xhr.inFlight = true := by
  cases progress with
  | headers status pragma =>
    simp only [Xhr.progress] at h
    split at h
    · rename_i hstate
      rw [Xhr.inFlight, hstate]
    · exact absurd h (by simp)
  | loading | done responseText =>
    simp only [Xhr.progress] at h
    split at h
    · rename_i hstate
      rcases hstate with hstate | hstate <;> rw [Xhr.inFlight, hstate]
    · exact absurd h (by simp)
  | error =>
    simp only [Xhr.progress] at h
    split at h
    · assumption
    · exact absurd h (by simp)

theorem startPlaying_none {page : Page} (h : page.peerConnection = none) :
    page.startPlaying = page := by
  rw [startPlaying, h]

theorem startPlaying_some {page : Page} {i : ℕ} (h : page.peerConnection = some i) :
    page.startPlaying = { page with
      statusTimer := some page.startedTimers
      timers := page.timers ++ [page.startedTimers]
      startedTimers := page.startedTimers + 1 } := by
  rw [startPlaying, h]

theorem stopRecording_eq {page : Page} (h : page.mediaStream = true) :
    page.stopRecording = (page.stopRecording.1, [.stopped]) := by
  unfold stopRecording
  rw [if_pos h]

/-- Everything an event can do. -/
inductive Acts (page : Page) : PageLabel → Page → List PageEvent → Prop
  | connect (hconnected : page.connected = false) : Acts page .click page.signIn []
  | stuck (hconnected : page.connected = true) (hstream : page.mediaStream = false) :
      Acts page .click page [.raised]
  | disconnect (hconnected : page.connected = true) (hstream : page.mediaStream = true) :
      Acts page .click page.stopRecording.1 [.stopped]
  | signIn (i : ℕ) (progress : Xhr.Progress) (page₁ : Page) (es : List PageEvent)
      (hchange : page.changeSignIn i progress = some page₁)
      (hnot : page₁.reqXhr.any Xhr.answered = false) (hes : .stopped ∉ es) :
      Acts page (.signIn i progress) page₁ es
  | session (i : ℕ) (progress : Xhr.Progress) (page₁ : Page) (pragma : Option ℕ)
      (connected : Bool) (es : List PageEvent)
      (hchange : page.changeSignIn i progress = some page₁)
      (hanswered : page₁.reqXhr.any Xhr.answered = true) (hes : .stopped ∉ es) :
      Acts page (.signIn i progress)
        { { page₁ with peerId := pragma }.waitOn.getMediaStream.1 with connected := connected } es
  | wait (i : ℕ) (progress : Xhr.Progress) (page₁ : Page) (es : List PageEvent)
      (hchange : page.changeWait i progress = some page₁) (hes : .stopped ∉ es) :
      Acts page (.wait i progress) page₁ es
  | next (i : ℕ) (progress : Xhr.Progress) (page₁ : Page) (j : ℕ)
      (hchange : page.changeWait i progress = some page₁) (hget : page₁.reqGet = some j) :
      Acts page (.wait i progress)
        { page₁ with
          waits := page₁.waits.modify j Xhr.abort
          reqGet := none
          scheduled := page₁.scheduled + 1 } []
  | timeout (hne : page.scheduled ≠ 0) :
      Acts page .timeout { page with scheduled := page.scheduled - 1 }.waitOn []
  | canPlay : Acts page .canPlay page.startPlaying []
  /-- Promises that are settled, and choices of the user. -/
  | aside (l : PageLabel) (mediaStream : Bool) (micDevice micIndex cameraDevice cameraIndex : ℕ)
      (userMedia : ℕ) (enumerated : Bool) (hl : page.clashes l = false) :
      Acts page l
        { page with
          mediaStream := mediaStream, micDevice := micDevice, micIndex := micIndex
          cameraDevice := cameraDevice, cameraIndex := cameraIndex, userMedia := userMedia
          enumerated := enumerated } []

section

variable {browser : Browser} {page page' : Page} {l : PageLabel} {es : List PageEvent}

theorem acts_of_click (h : page.handleConnect = (page', es)) : Acts page .click page' es := by
  unfold handleConnect at h
  split at h
  · rename_i hconnected
    cases hstream : page.mediaStream with
    | false =>
      rw [stopRecording, if_neg (by simp [hstream])] at h
      obtain ⟨rfl, rfl⟩ := Prod.mk.inj h
      exact .stuck hconnected hstream
    | true =>
      rw [stopRecording_eq hstream] at h
      obtain ⟨rfl, rfl⟩ := Prod.mk.inj h
      exact .disconnect hconnected hstream
  · rename_i hconnected
    obtain ⟨rfl, rfl⟩ := Prod.mk.inj h
    exact .connect (by simpa using hconnected)

theorem stopped_notMem_getMediaStream (page : Page) : .stopped ∉ page.getMediaStream.2 := by
  unfold getMediaStream
  dsimp only
  split <;> simp

theorem acts_of_signIn {i : ℕ} {progress : Xhr.Progress} {page₁ : Page}
    (hchange : page.changeSignIn i progress = some page₁) (h : page₁.onSignIn = (page', es)) :
    Acts page (.signIn i progress) page' es := by
  unfold onSignIn at h
  split at h
  · rename_i hreq
    obtain ⟨rfl, rfl⟩ := Prod.mk.inj h
    exact .signIn i progress page₁ _ hchange (by rw [hreq]; rfl) (by simp)
  · rename_i xhr hreq
    split at h
    · rename_i hanswered
      have hany : page₁.reqXhr.any Xhr.answered = true := by rw [hreq]; exact hanswered
      have hstopped := stopped_notMem_getMediaStream { page₁ with peerId := xhr.pragma }.waitOn
      dsimp only at h
      split at h
      · rename_i page₂ heq
        obtain ⟨rfl, rfl⟩ := Prod.mk.inj h
        have := Acts.session i progress page₁ xhr.pragma true [] hchange hany (by simp)
        rwa [heq] at this
      · rename_i page₂ es₂ _ heq
        obtain ⟨rfl, rfl⟩ := Prod.mk.inj h
        rw [heq] at hstopped
        have := Acts.session i progress page₁ xhr.pragma page₂.connected es₂ hchange hany hstopped
        rwa [heq] at this
    · rename_i hnot
      obtain ⟨rfl, rfl⟩ := Prod.mk.inj h
      exact .signIn i progress page₁ _ hchange (by rw [hreq]; simpa using hnot) (by simp)

theorem acts_of_wait {i : ℕ} {progress : Xhr.Progress} {page₁ : Page}
    (hchange : page.changeWait i progress = some page₁)
    (h : page₁.onWait browser = (page', es)) : Acts page (.wait i progress) page' es := by
  unfold onWait at h
  split at h
  · rename_i j xhr hget hxhr
    split at h
    · split at h
      · obtain ⟨rfl, rfl⟩ := Prod.mk.inj h
        exact .next i progress page₁ j hchange hget
      · obtain ⟨rfl, rfl⟩ := Prod.mk.inj h
        exact .wait i progress page₁ _ hchange (by simp)
    · obtain ⟨rfl, rfl⟩ := Prod.mk.inj h
      exact .wait i progress page₁ _ hchange (by simp)
  · obtain ⟨rfl, rfl⟩ := Prod.mk.inj h
    exact .wait i progress page₁ _ hchange (by simp)

/-- **An event does one of these.** -/
theorem acts_of_step (h : page.step browser l = some (page', es)) : Acts page l page' es := by
  cases l with
  | click => exact acts_of_click (Option.some.inj h)
  | signIn i progress =>
    obtain ⟨page₁, hchange, heq⟩ := Option.map_eq_some_iff.mp h
    exact acts_of_signIn hchange heq
  | wait i progress =>
    obtain ⟨page₁, hchange, heq⟩ := Option.map_eq_some_iff.mp h
    exact acts_of_wait hchange heq
  | timeout =>
    simp only [step] at h
    split at h
    · exact absurd h (by simp)
    · rename_i hne
      obtain ⟨rfl, rfl⟩ := Prod.mk.inj (Option.some.inj h)
      exact .timeout hne
  | canPlay =>
    obtain ⟨rfl, rfl⟩ := Prod.mk.inj (Option.some.inj h)
    exact .canPlay
  | userMedia granted | devices mics cameras =>
    simp only [step] at h
    split at h
    · exact absurd h (by simp)
    · obtain ⟨rfl, rfl⟩ := Prod.mk.inj (Option.some.inj h)
      exact .aside _ _ _ _ _ _ _ _ rfl
  | selectMic i | selectCamera i =>
    simp only [step] at h
    split at h
    · obtain ⟨rfl, rfl⟩ := Prod.mk.inj (Option.some.inj h)
      exact .aside _ _ _ _ _ _ _ _ rfl
    · exact absurd h (by simp)

end

/-! ## 3. The invariant -/

/-- The variables name everything there is. -/
structure Single (page : Page) : Prop where
  peers : page.openPeers = page.peerConnection.toList
  timers : page.timers = page.statusTimer.toList
  inFlight : ∀ i xhr, page.waits[i]? = some xhr → xhr.inFlight = true → page.reqGet = some i
  scheduled : page.scheduled ≤ 1
  /-- A poll is scheduled only when there is no request for one. -/
  between : page.scheduled ≠ 0 → page.reqGet = none
  idle : page.peerConnection = none →
    page.scheduled = 0 ∧ page.reqGet = none ∧ page.statusTimer = none

theorem single_start : start.Single where
  peers := rfl
  timers := rfl
  inFlight := by simp [start]
  scheduled := by simp [start]
  between := by simp [start]
  idle := by simp [start]

/-- At most as many elements have `p` as `o` names; the induction is on the list, and `k` is what
was dropped from its front. -/
theorem countP_le_of_named {α : Type} {p : α → Bool} {o : Option ℕ} (l : List α) (k : ℕ)
    (h : ∀ i x, l[i]? = some x → p x = true → o = some (i + k)) :
    l.countP p ≤ o.toList.length := by
  induction l generalizing k with
  | nil => simp
  | cons x l ih =>
    rw [List.countP_cons]
    split
    · rename_i hx
      obtain rfl : o = some k := by simpa using h 0 x rfl hx
      -- no other element can have that name
      have hrest : l.countP p = 0 := by
        rw [List.countP_eq_zero]
        intro y hy hpy
        obtain ⟨i, hi, rfl⟩ := List.mem_iff_getElem.mp hy
        have hnamed := Option.some.inj (h (i + 1) l[i] (by simp) hpy)
        omega
      simp [hrest]
    · refine ih (k + 1) ?_
      intro i y hy hpy
      have hnamed := h (i + 1) y (by simpa using hy) hpy
      rwa [Nat.add_assoc, Nat.add_comm 1 k] at hnamed

namespace Single

variable {page : Page}

/-- **Nothing is there twice.** -/
theorem at_most_one (h : page.Single) :
    page.openPeers.length ≤ 1 ∧ page.polls ≤ 1 ∧ page.timers.length ≤ 1 := by
  have hone : ∀ o : Option ℕ, o.toList.length ≤ 1 := fun o => by cases o <;> simp
  refine ⟨h.peers ▸ hone _, ?_, h.timers ▸ hone _⟩
  have hcount : page.waits.countP Xhr.inFlight ≤ page.reqGet.toList.length :=
    countP_le_of_named page.waits 0 h.inFlight
  unfold polls
  by_cases hzero : page.scheduled = 0
  · have := hone page.reqGet
    omega
  · have hnone := h.between hzero
    have hle := h.scheduled
    rw [hnone] at hcount
    simp only [Option.toList_none, List.length_nil] at hcount
    omega

/-- Without a request for a poll, none is in flight. -/
theorem none_inFlight (h : page.Single) (hnone : page.reqGet = none) :
    ∀ xhr ∈ page.waits, xhr.inFlight = false := by
  intro xhr hxhr
  obtain ⟨i, hi, rfl⟩ := List.mem_iff_getElem.mp hxhr
  by_contra hflight
  have hnamed := h.inFlight i page.waits[i] (by simp) (by simpa using hflight)
  exact absurd (hnone.symm.trans hnamed) (by simp)

/-! ### One more poll, and one less -/

theorem named_of_none {waits : List Xhr} {o : Option ℕ} (h : ∀ x ∈ waits, x.inFlight = false) :
    ∀ i x, waits[i]? = some x → x.inFlight = true → o = some i := by
  intro i x hx hflight
  exact absurd (h x (List.mem_of_getElem? hx)) (by simp [hflight])

/-- The only request in flight is the new one. -/
theorem inFlight_append {waits : List Xhr} {xhr : Xhr}
    (h : ∀ x ∈ waits, x.inFlight = false) :
    ∀ i x, (waits ++ [xhr])[i]? = some x → x.inFlight = true → some waits.length = some i := by
  intro i x hx hflight
  rw [List.getElem?_append] at hx
  split at hx
  · exact absurd (h x (List.mem_of_getElem? hx)) (by simp [hflight])
  · rw [List.getElem?_singleton] at hx
    split at hx
    · exact congrArg some (by omega)
    · exact absurd hx (by simp)

/-- An aborted request is not in flight. -/
theorem not_inFlight_abort {waits : List Xhr} {i : ℕ}
    (h : ∀ j x, waits[j]? = some x → x.inFlight = true → i = j) :
    ∀ x ∈ waits.modify i Xhr.abort, x.inFlight = false := by
  intro x hx
  obtain ⟨j, hj⟩ := List.mem_iff_getElem?.mp hx
  rw [List.getElem?_modify] at hj
  obtain ⟨y, hy, rfl⟩ := Option.map_eq_some_iff.mp hj
  split
  · rfl
  · rename_i hne
    by_contra hflight
    exact hne (h j y hy (by simpa using hflight))

/-! ### What the handlers do -/

/-- A session starts where there was none. -/
theorem session (h : page.Single) (hpeer : page.peerConnection = none) :
    page.waitOn.getMediaStream.1.Single := by
  obtain ⟨hscheduled, hnone, -⟩ := h.idle hpeer
  have hpeers : page.openPeers = [] := by rw [h.peers, hpeer]; rfl
  have hnew : Single { page.waitOn with
      peerConnection := some page.createdPeers
      openPeers := page.openPeers ++ [page.createdPeers]
      createdPeers := page.createdPeers + 1 } := {
    peers := by rw [hpeers]; rfl
    timers := h.timers
    inFlight := inFlight_append (h.none_inFlight hnone)
    scheduled := h.scheduled
    between := fun hne => absurd hscheduled hne
    idle := by simp }
  unfold Page.getMediaStream
  dsimp only
  split
  · exact { hnew with }
  · exact hnew

/-- A poll is over, and the next one scheduled. -/
theorem next (h : page.Single) {i : ℕ} (hget : page.reqGet = some i) :
    Single { page with
      waits := page.waits.modify i Xhr.abort
      reqGet := none
      scheduled := page.scheduled + 1 } := by
  have hzero : page.scheduled = 0 := by
    by_contra hne
    exact absurd ((h.between hne).symm.trans hget) (by simp)
  have hnone : ∀ x ∈ page.waits.modify i Xhr.abort, x.inFlight = false :=
    not_inFlight_abort fun j x hx hflight =>
      Option.some.inj (hget.symm.trans (h.inFlight j x hx hflight))
  exact {
    peers := h.peers
    timers := h.timers
    inFlight := named_of_none hnone
    scheduled := by simp [hzero]
    between := fun _ => rfl
    idle := fun hidle => absurd ((h.idle hidle).2.1.symm.trans hget) (by simp) }

/-- A scheduled poll is sent. -/
theorem timeout (h : page.Single) (hne : page.scheduled ≠ 0) :
    Single { page with scheduled := page.scheduled - 1 }.waitOn := by
  have hzero : page.scheduled - 1 = 0 := by
    have := h.scheduled
    omega
  have hpeer : page.peerConnection ≠ none := fun hidle => hne (h.idle hidle).1
  exact {
    peers := h.peers
    timers := h.timers
    inFlight := inFlight_append (h.none_inFlight (h.between hne))
    scheduled := (Nat.le_of_eq hzero).trans (Nat.zero_le 1)
    between := fun hne' => absurd hzero hne'
    idle := fun hidle => absurd hidle hpeer }

/-- A timer is started where there was none. -/
theorem startPlaying (h : page.Single)
    (hok : page.peerConnection.isSome = true → page.statusTimer = none) :
    page.startPlaying.Single := by
  cases hpeer : page.peerConnection with
  | none => rwa [startPlaying_none hpeer]
  | some i =>
    have htimers : page.timers = [] := by
      rw [h.timers, hok (by rw [hpeer]; rfl)]
      rfl
    rw [startPlaying_some hpeer]
    exact { h with
      timers := by rw [htimers]; rfl
      idle := fun hidle => absurd (hpeer.symm.trans hidle) (by simp) }

theorem changeWait (h : page.Single) {i : ℕ} {progress : Xhr.Progress} {page' : Page}
    (hchange : page.changeWait i progress = some page') : page'.Single := by
  obtain ⟨xhr', hxhr', rfl⟩ := Option.map_eq_some_iff.mp hchange
  obtain ⟨xhr, hxhr, hprogress⟩ := Option.bind_eq_some_iff.mp hxhr'
  have hnamed : page.reqGet = some i := h.inFlight i xhr hxhr (inFlight_of_progress hprogress)
  refine { h with inFlight := fun j x hx hflight => ?_ }
  by_cases heq : i = j
  · exact heq ▸ hnamed
  · rw [List.getElem?_set_ne heq] at hx
    exact h.inFlight j x hx hflight

/-- The end of a session leaves nothing, unless a poll is scheduled. -/
theorem stopRecording (h : page.Single) (hmedia : page.mediaStream = true)
    (hscheduled : page.scheduled = 0) :
    page.stopRecording.1.Single ∧ page.stopRecording.1.openPeers = [] ∧
      page.stopRecording.1.polls = 0 ∧ page.stopRecording.1.timers = [] := by
  have hpeers : page.openPeers.filter (fun i => some i != page.peerConnection) = [] := by
    rw [h.peers]
    cases page.peerConnection <;> simp
  have htimers : page.timers.filter (fun t => some t != page.statusTimer) = [] := by
    rw [h.timers]
    cases page.statusTimer <;> simp
  have hwaits : ∀ x ∈ page.reqGet.elim page.waits (fun i => page.waits.modify i Xhr.abort),
      x.inFlight = false := by
    cases hget : page.reqGet with
    | none => exact h.none_inFlight hget
    | some i => exact not_inFlight_abort fun j x hx hflight =>
        Option.some.inj (hget.symm.trans (h.inFlight j x hx hflight))
  unfold Page.stopRecording
  rw [if_pos hmedia]
  refine ⟨?_, hpeers, ?_, htimers⟩
  · exact {
      peers := hpeers
      timers := htimers
      inFlight := named_of_none hwaits
      scheduled := h.scheduled
      between := fun _ => rfl
      idle := fun _ => ⟨hscheduled, rfl, rfl⟩ }
  · have hzero : (page.reqGet.elim page.waits fun i => page.waits.modify i Xhr.abort).countP
        Xhr.inFlight = 0 := List.countP_eq_zero.mpr fun x hx => by simp [hwaits x hx]
    simp only [polls, hscheduled, hzero]

end Single

/-! ## 4. Runs -/

section

variable {browser : Browser} {page page' : Page} {l : PageLabel} {es : List PageEvent}

/-- **An event that does not clash keeps it.** -/
theorem Single.step (h : page.Single) (hacts : Acts page l page' es)
    (hok : page.clashes l = false) : page'.Single := by
  cases hacts with
  | connect hconnected => exact { h with }
  | stuck hconnected hstream => exact h
  | disconnect hconnected hstream =>
    exact (h.stopRecording hstream (by simpa [clashes, hconnected, hstream] using hok)).1
  | signIn i progress page₁ es hchange hnot hes =>
    obtain ⟨xhr, -, rfl⟩ := Option.map_eq_some_iff.mp hchange
    exact { h with }
  | session i progress page₁ pragma connected es hchange hanswered hes =>
    have hpeer : page.peerConnection = none := by
      simpa [clashes, hchange, hanswered] using hok
    obtain ⟨xhr, -, rfl⟩ := Option.map_eq_some_iff.mp hchange
    have hid : Single { page with signIns := page.signIns.set i xhr, peerId := pragma } :=
      { h with }
    exact { hid.session hpeer with }
  | wait i progress page₁ es hchange hes => exact h.changeWait hchange
  | next i progress page₁ j hchange hget => exact (h.changeWait hchange).next hget
  | timeout hne => exact h.timeout hne
  | canPlay =>
    refine h.startPlaying fun hsome => ?_
    simpa [clashes, hsome] using hok
  | aside l mediaStream micDevice micIndex cameraDevice cameraIndex userMedia enumerated hl =>
    exact { h with }

/-- At most one of each; and none of them, if the run has just come back from
`stopRecording`. -/
def OneSession (tr : List (PageLabel × List PageEvent)) (page : Page) : Prop :=
  (page.openPeers.length ≤ 1 ∧ page.polls ≤ 1 ∧ page.timers.length ≤ 1) ∧
    ∀ x ∈ tr.getLast?, .stopped ∈ x.2 →
      page.openPeers = [] ∧ page.polls = 0 ∧ page.timers = []

/-- `stopRecording` returns to a click that does not clash with nothing left behind. -/
theorem Single.stopped (h : page.Single) (hacts : Acts page l page' es)
    (hok : page.clashes l = false) (hstopped : .stopped ∈ es) :
    page'.openPeers = [] ∧ page'.polls = 0 ∧ page'.timers = [] := by
  cases hacts with
  | disconnect hconnected hstream =>
    exact (h.stopRecording hstream (by simpa [clashes, hconnected, hstream] using hok)).2
  | stuck hconnected hstream => exact absurd hstopped (by simp)
  | signIn i progress page₁ es hchange hnot hes => exact absurd hstopped hes
  | session i progress page₁ pragma connected es hchange hanswered hes =>
    exact absurd hstopped hes
  | wait i progress page₁ es hchange hes => exact absurd hstopped hes
  | _ => exact absurd hstopped (by simp)

/-- **An event that clashes breaks it at once.** -/
theorem Single.broken (h : page.Single) (hacts : Acts page l page' es)
    (hclash : page.clashes l = true) (tr : List (PageLabel × List PageEvent)) :
    ¬ OneSession (tr ++ [(l, es)]) page' := by
  rintro ⟨⟨hpeers, hpolls, htimers⟩, hstopped⟩
  cases hacts with
  | connect hconnected => exact absurd hclash (by simp [clashes, hconnected])
  | stuck hconnected hstream => exact absurd hclash (by simp [clashes, hstream])
  | disconnect hconnected hstream =>
    have hne : page.scheduled ≠ 0 := by simpa [clashes, hconnected, hstream] using hclash
    obtain ⟨-, hzero, -⟩ := hstopped _ (by rw [List.getLast?_concat]; rfl) (by simp)
    rw [Page.stopRecording, if_pos hstream, polls] at hzero
    exact hne (Nat.eq_zero_of_add_eq_zero_left hzero)
  | signIn i progress page₁ es hchange hnot hes =>
    exact absurd hclash (by simp [clashes, hchange, hnot])
  | session i progress page₁ pragma connected es hchange hanswered hes =>
    have hsome : page.peerConnection.isSome = true := by
      simpa [clashes, hchange, hanswered] using hclash
    obtain ⟨k, hk⟩ := Option.isSome_iff_exists.mp hsome
    have hopen : page.openPeers = [k] := by rw [h.peers, hk]; rfl
    obtain ⟨xhr, -, rfl⟩ := Option.map_eq_some_iff.mp hchange
    -- the new peer connection is beside the old one
    unfold getMediaStream waitOn at hpeers
    dsimp only at hpeers
    split at hpeers <;> simp [hopen] at hpeers
  | canPlay =>
    have hboth : page.peerConnection.isSome = true ∧ page.statusTimer.isSome = true := by
      simpa [clashes] using hclash
    obtain ⟨k, hk⟩ := Option.isSome_iff_exists.mp hboth.1
    obtain ⟨t, ht⟩ := Option.isSome_iff_exists.mp hboth.2
    rw [startPlaying_some hk] at htimers
    simp [h.timers, ht] at htimers
  | aside l mediaStream micDevice micIndex cameraDevice cameraIndex userMedia enumerated hl =>
    exact absurd hclash (by simp [hl])
  | _ => exact absurd hclash (by simp [clashes])

/-- **The page has one session at a time exactly in the runs without a clash.**  At every moment
of a run at most one peer connection of the page is open, at most one poll is outstanding or
scheduled and at most one timer runs, and none of them is left when `stopRecording` returns, if
and only if no sign-in of the run is acted on while `peerConnection` is set, no `canplay` comes
while both `peerConnection` and `statusTimer` are set, and no click ends the session while a
`waitOn` is scheduled. -/
theorem one_session_iff {tr : List (PageLabel × List PageEvent)}
    (hrun : Run (step browser) start tr page) :
    (∀ tr₁ tr₂ page₁, tr = tr₁ ++ tr₂ → Run (step browser) start tr₁ page₁ →
      (page₁.openPeers.length ≤ 1 ∧ page₁.polls ≤ 1 ∧ page₁.timers.length ≤ 1) ∧
        ∀ x ∈ tr₁.getLast?, .stopped ∈ x.2 →
          page₁.openPeers = [] ∧ page₁.polls = 0 ∧ page₁.timers = []) ↔
    ∀ tr₁ l es tr₂ page₁, tr = tr₁ ++ (l, es) :: tr₂ → Run (step browser) start tr₁ page₁ →
      page₁.clashes l = false := by
  refine hrun.always_iff (I := fun tr page => page.Single ∧ OneSession tr page) (P := OneSession)
    ⟨single_start, single_start.at_most_one, by simp⟩ (fun tr page h => h.2) ?_ ?_
  · intro tr page l page' es hr hinv hstep hok
    have hacts := acts_of_step hstep
    refine ⟨hinv.1.step hacts hok, (hinv.1.step hacts hok).at_most_one, ?_⟩
    intro x hx hstopped
    rw [List.getLast?_concat] at hx
    obtain rfl : (l, es) = x := by simpa using hx
    exact hinv.1.stopped hacts hok hstopped
  · intro tr page l page' es hr hinv hstep hclash
    exact hinv.1.broken (acts_of_step hstep) (by simpa using hclash) tr

/-- A browser that takes every text. -/
def sampleBrowser : Browser := ⟨fun _ => true, fun _ => true⟩

/-- A request is answered in two events. -/
def sampleReply (responseText : Bytes) (label : Xhr.Progress → PageLabel) : List PageLabel :=
  [label (.headers 200 (some 1)), label (.done responseText)]

/-- A session from one click to another, in which a poll is answered; and another one. -/
def sampleVisit : List PageLabel :=
  [.devices 1 1, .click] ++ sampleReply [] (.signIn 0) ++ [.userMedia true] ++
    sampleReply (ascii "SDP->\x7b\x7d") (.wait 0) ++
    [.timeout, .canPlay, .click, .canPlay, .click] ++
    sampleReply [] (.signIn 1) ++ [.canPlay]

theorem one_session_sample : ∃ tr page, Run (step sampleBrowser) start tr page ∧
    page.openPeers = [1] ∧ page.polls = 1 ∧ page.timers = [1] ∧
    ∀ tr₁ tr₂ page₁, tr = tr₁ ++ tr₂ → Run (step sampleBrowser) start tr₁ page₁ →
      (page₁.openPeers.length ≤ 1 ∧ page₁.polls ≤ 1 ∧ page₁.timers.length ≤ 1) ∧
        ∀ x ∈ tr₁.getLast?, .stopped ∈ x.2 →
          page₁.openPeers = [] ∧ page₁.polls = 0 ∧ page₁.timers = [] := by
  obtain ⟨tr, page, hrun, hp⟩ := exists_run (step sampleBrowser) start sampleVisit
    (fun tr page => decide (page.openPeers = [1] ∧ page.polls = 1 ∧ page.timers = [1] ∧
      goodLabels (step sampleBrowser) (fun page l => !page.clashes l) start (tr.map Prod.fst)
        = true)) (by decide +kernel)
  obtain ⟨hpeers, hpolls, htimers, hgood⟩ := of_decide_eq_true hp
  refine ⟨tr, page, hrun, hpeers, hpolls, htimers, (one_session_iff hrun).mpr ?_⟩
  intro tr₁ l es tr₂ page₁ hsplit hr
  simpa using (allGood_iff hrun).mpr hgood tr₁ l es tr₂ page₁ hsplit hr

/-- A second click before the sign-in is answered, an event of the first request behind the
answer to the second, two `canplay`, and a click that ends the session. -/
def sampleClash : List PageLabel :=
  [.devices 1 1, .click, .click] ++ sampleReply [] (.signIn 1) ++
    [.signIn 0 (.headers 200 (some 2)), .userMedia true, .canPlay, .canPlay, .click]

/-- There are two of each, and one of each is left when `stopRecording` has returned. -/
theorem second_session_left : ∃ tr page, Run (step sampleBrowser) start tr page ∧
    tr.getLast? = some (.click, [.stopped]) ∧
    page.openPeers.length = 1 ∧ page.polls = 1 ∧ page.timers.length = 1 ∧
    ¬ ∀ tr₁ tr₂ page₁, tr = tr₁ ++ tr₂ → Run (step sampleBrowser) start tr₁ page₁ →
      (page₁.openPeers.length ≤ 1 ∧ page₁.polls ≤ 1 ∧ page₁.timers.length ≤ 1) ∧
        ∀ x ∈ tr₁.getLast?, .stopped ∈ x.2 →
          page₁.openPeers = [] ∧ page₁.polls = 0 ∧ page₁.timers = [] := by
  obtain ⟨tr, page, hrun, hp⟩ := exists_run (step sampleBrowser) start sampleClash
    (fun tr page => decide (tr.getLast? = some (.click, [.stopped]) ∧
      page.openPeers.length = 1 ∧ page.polls = 1 ∧ page.timers.length = 1)) (by decide +kernel)
  obtain ⟨hlast, hpeers, hpolls, htimers⟩ := of_decide_eq_true hp
  refine ⟨tr, page, hrun, hlast, hpeers, hpolls, htimers, fun h => ?_⟩
  obtain ⟨-, hnone, -⟩ := (h tr [] page (by simp) hrun).2 _ hlast (by simp)
  omega

end

end Page

end Reflector
