/-
# What a message is taken for

`onSignalingMessage` cuts its message at the first arrow and looks at what stands in front of it.
There is no test for a message WITHOUT an arrow: `find` returns `npos`, the command is then the
whole message, and the payload starts at `npos + 2`, which is 1.

* `dispatched_iff`: the split is exact and an unframed message is an unknown one, for every
  message but three.  The empty message raises; the messages `SDP` and `ICE` are taken for
  commands, with `DP` and `CE` for payloads.
* `candidate_loops`: the two loops that cut a payload into candidates pass the same strings to
  `addIceCandidate`, and these strings are what was joined.
-/
import Reflector.Signaling.Candidates

namespace Reflector.Signaling

open Base

/-! ## 1. The split of a message -/

/-- What `onSignalingMessage` does before it looks at the command. -/
def splitMessage (message : Bytes) : Except Raise (Bytes × Bytes) := do
  let pos := find message (ascii "->") 0
  let cmd ← substr message 0 pos
  let payload ← substr message (addSize (pos.getD npos) 2) none
  .ok (cmd, payload)

theorem onSignalingMessage_split (env : Env) (o : Observer) (message : Bytes) (created : Created) :
    o.onSignalingMessage env message created
      = splitMessage message >>= fun x => o.onCommand env x.1 x.2 created := by
  simp only [Observer.onSignalingMessage, splitMessage, bind_assoc, ok_bind]

/-- The cut falls at the first arrow; a `std::string` is shorter than `npos`, so the offset behind
the arrow does not wrap. -/
theorem splitMessage_framed {cmd payload : Bytes} (hcmd : ¬ ascii "->" <:+: cmd)
    (hsize : (cmd ++ ascii "->" ++ payload).length < npos) :
    splitMessage (cmd ++ ascii "->" ++ payload) = .ok (cmd, payload) := by
  have hfirst : (cmd ++ ascii "->" ++ payload).dropInfix? (ascii "->") = some (cmd, payload) :=
    dropInfix?_append_of_first (by decide) (not_infix_dropLast_pair (by decide) hcmd)
  have hfind : find (cmd ++ ascii "->" ++ payload) (ascii "->") 0 = some cmd.length := by
    rw [find, List.drop_zero, hfirst]
    simp
  have hadd : addSize cmd.length 2 = (cmd ++ ascii "->").length := by
    simp only [List.length_append, show (ascii "->").length = 2 from rfl, npos] at hsize ⊢
    rw [addSize]
    omega
  simp only [splitMessage, hfind, Option.getD_some, hadd, substr_zero, ok_bind]
  rw [substr_of_le (by simp), List.drop_left, ok_bind, List.append_assoc, List.take_left]

/-- Without an arrow, the command is the message and the payload is all of it but the first
byte, which the empty message does not have. -/
theorem splitMessage_unframed {message : Bytes} (h : ¬ ascii "->" <:+: message) :
    splitMessage message
      = if message = [] then .error .outOfRange else .ok (message, message.drop 1) := by
  have hfind : find message (ascii "->") 0 = none := by
    rw [find, List.drop_zero, dropInfix?_none_iff.mpr h]
    rfl
  have hwrap : addSize npos 2 = 1 := by decide
  have hcmd : substr message 0 none = .ok message := substr_of_le (Nat.zero_le _)
  simp only [splitMessage, hfind, Option.getD_none, hwrap, hcmd, ok_bind]
  by_cases hnil : message = []
  · rw [if_pos hnil, hnil]
    rfl
  · have hpos : 1 ≤ message.length := List.length_pos_iff.mpr hnil
    rw [if_neg hnil, substr_of_le hpos, ok_bind]

/-! ## 2. Total and exact -/

/-- The message reaches the last branch of `onSignalingMessage`. -/
def Unknown (message : Bytes) : Prop :=
  ∃ cmd payload, splitMessage message = .ok (cmd, payload) ∧
    cmd ≠ ascii "SDP" ∧ cmd ≠ ascii "ICE"

/-- **What dispatching a message is meant to be.** -/
structure Dispatched (message : Bytes) : Prop where
  splits : ∃ cmd payload, splitMessage message = .ok (cmd, payload)
  framed : ∀ cmd payload, message = cmd ++ ascii "->" ++ payload → ¬ ascii "->" <:+: cmd →
    splitMessage message = .ok (cmd, payload)
  unframed : ¬ ascii "->" <:+: message → Unknown message ∧
    ∀ env o created, Observer.onSignalingMessage env o message created = .ok (o, [])

/-- An unknown message changes nothing and calls nothing. -/
theorem Unknown.outcome {message : Bytes} (h : Unknown message) (env : Env) (o : Observer)
    (created : Created) : o.onSignalingMessage env message created = .ok (o, []) := by
  obtain ⟨cmd, payload, hsplit, hsdp, hice⟩ := h
  rw [onSignalingMessage_split, hsplit, ok_bind, Observer.onCommand, if_neg hsdp, if_neg hice]

/-- **Exactly three messages are not dispatched as meant.** -/
theorem dispatched_iff (message : Bytes) (hsize : message.length < npos) :
    Dispatched message ↔ message ≠ [] ∧ message ≠ ascii "SDP" ∧ message ≠ ascii "ICE" := by
  constructor
  · intro h
    have hbare : ∀ name, ¬ ascii "->" <:+: name → name = ascii "SDP" ∨ name = ascii "ICE" →
        message ≠ name := by
      rintro name hname hcmd rfl
      obtain ⟨cmd, payload, hsplit, hsdp, hice⟩ := (h.unframed hname).1
      rw [splitMessage_unframed hname] at hsplit
      split at hsplit
      · exact absurd hsplit (by simp)
      · obtain ⟨rfl, -⟩ := Prod.mk.inj (Except.ok.inj hsplit)
        exact hcmd.elim hsdp hice
    refine ⟨?_, hbare _ (by decide) (.inl rfl), hbare _ (by decide) (.inr rfl)⟩
    rintro rfl
    obtain ⟨cmd, payload, hsplit⟩ := h.splits
    rw [splitMessage_unframed (by decide), if_pos rfl] at hsplit
    exact absurd hsplit (by simp)
  · rintro ⟨hnil, hsdp, hice⟩
    have hframed : ∀ cmd payload, message = cmd ++ ascii "->" ++ payload →
        ¬ ascii "->" <:+: cmd → splitMessage message = .ok (cmd, payload) := by
      rintro cmd payload rfl hcmd
      exact splitMessage_framed hcmd hsize
    have hunframed : ¬ ascii "->" <:+: message →
        splitMessage message = .ok (message, message.drop 1) := by
      intro hno
      rw [splitMessage_unframed hno, if_neg hnil]
    refine ⟨?_, hframed, fun hno => ?_⟩
    · by_cases hno : ascii "->" <:+: message
      · cases hcut : message.dropInfix? (ascii "->") with
        | none => exact absurd hno (dropInfix?_none_iff.mp hcut)
        | some x =>
          exact ⟨x.1, x.2, hframed x.1 x.2 (dropInfix?_iff.mp hcut).1
            (not_infix_of_dropInfix? (by decide) hcut)⟩
      · exact ⟨message, message.drop 1, hunframed hno⟩
    · have hunknown : Unknown message :=
        ⟨message, message.drop 1, hunframed hno, hsdp, hice⟩
      exact ⟨hunknown, hunknown.outcome⟩

/-- A message with two arrows, and one with none. -/
theorem dispatched_sample :
    Dispatched (ascii "SDP->a->b") ∧ Dispatched (ascii "BYE") :=
  ⟨(dispatched_iff (ascii "SDP->a->b") (by decide)).mpr (by decide),
    (dispatched_iff (ascii "BYE") (by decide)).mpr (by decide)⟩

/-- The empty message raises, and `ICE` alone leaves a payload behind in a new observer. -/
theorem not_dispatched_empty :
    ¬ Dispatched [] ∧ splitMessage [] = .error .outOfRange ∧
      ¬ Dispatched (ascii "ICE") ∧
      Observer.onSignalingMessage deafEnv .new (ascii "ICE") ⟨none, none⟩
        = .ok ({ Observer.new with remoteIceCandidateMsg := ascii "CE" }, []) := by
  have hempty : splitMessage [] = .error .outOfRange := by
    rw [splitMessage_unframed (by decide), if_pos rfl]
  have hice : Observer.onSignalingMessage deafEnv .new (ascii "ICE") ⟨none, none⟩
      = .ok ({ Observer.new with remoteIceCandidateMsg := ascii "CE" }, []) := by
    rw [onSignalingMessage_split, splitMessage_unframed (by decide)]
    rfl
  refine ⟨?_, hempty, ?_, hice⟩
  · intro h
    obtain ⟨cmd, payload, hsplit⟩ := h.splits
    rw [hempty] at hsplit
    exact absurd hsplit (by simp)
  · intro h
    have hsame := (h.unframed (by decide)).2 deafEnv .new ⟨none, none⟩
    rw [hice] at hsame
    exact absurd hsame (by decide)

/-! ## 3. The two candidate loops

`onSignalingMessage` walks over the payload, `OnSuccess` over the payload it finds waiting. -/

/-- `outcome` is what one call of `addIceCandidate` for each string gives, in order: it is cut
short only by a call that raises. -/
def OneCallEach (env : Env) (o : Observer) (strings : List Bytes)
    (outcome : Except Raise (List Call)) : Prop :=
  outcome = Observer.addEach (o.addIceCandidate env) strings ∧
    ((∀ s ∈ strings, ∃ calls, o.addIceCandidate env s = .ok calls) →
      ∃ calls, outcome = .ok calls ∧ added calls = strings)

theorem oneCallEach_addCandidates (env : Env) (o : Observer) {text : Bytes}
    (hsize : text.length < 2 ^ 31) :
    OneCallEach env o (pieces Observer.separator text) (o.addCandidates env text) := by
  refine ⟨Observer.addCandidates_eq env o hsize, fun hall => ?_⟩
  obtain ⟨calls, hcalls⟩ := (Observer.addEach_returns_iff _ _).mpr hall
  rw [← Observer.addCandidates_eq env o hsize] at hcalls
  exact ⟨calls, hcalls, added_addCandidates hsize hcalls⟩

/-- The calls of a candidate message. -/
theorem onSignalingMessage_loop (env : Env) {o : Observer} (hpc : o.peerConnection.isSome)
    (payload : Bytes) (created : Created) :
    (o.onSignalingMessage env (ascii "ICE" ++ ascii "->" ++ payload) created).map Prod.snd
      = o.addCandidates env payload := by
  obtain ⟨pc, hpc⟩ := Option.isSome_iff_exists.mp hpc
  rw [Observer.onSignalingMessage_framed env o payload created (by decide) (by decide),
    Observer.onCommand, if_neg (by decide), if_pos rfl, hpc]
  dsimp only
  cases o.addCandidates env payload <;> rfl

/-- The calls of `OnSuccess` behind the two it makes for the answer. -/
theorem onSuccess_loop (env : Env) {o : Observer} (hpc : o.peerConnection.isSome)
    (hne : o.remoteIceCandidateMsg ≠ []) (type sdp : Bytes) :
    (o.onSuccess env type sdp).map (fun r => r.2.drop 2)
      = o.addCandidates env o.remoteIceCandidateMsg := by
  obtain ⟨pc, hpc⟩ := Option.isSome_iff_exists.mp hpc
  have hsame : ∀ message, (o.sendSignalingMessage message).addCandidates env
      o.remoteIceCandidateMsg = o.addCandidates env o.remoteIceCandidateMsg := fun _ => rfl
  have hwaiting : ∀ message, (o.sendSignalingMessage message).remoteIceCandidateMsg
      = o.remoteIceCandidateMsg := fun _ => rfl
  rw [Observer.onSuccess, hpc]
  simp only [hwaiting, if_neg hne, hsame]
  cases o.addCandidates env o.remoteIceCandidateMsg <;> rfl

/-- A string that does not end in the separator's symbol does not reach into the separator. -/
theorem not_infix_separator {s : Bytes} (hin : ¬ Observer.separator <:+: s) (hend : ¬ [35] <:+ s) :
    ¬ Observer.separator <:+: s ++ Observer.separator.dropLast := by
  have hsep : Observer.separator = List.replicate 6 35 := by decide
  rw [hsep] at hin ⊢
  refine not_infix_dropLast_replicate hin fun hlast => hend ?_
  obtain ⟨t, rfl⟩ := List.getLast?_eq_some_iff.mp hlast
  exact List.suffix_append t [35]

/-- **Both loops pass the same strings to `addIceCandidate`, and cutting inverts joining.** -/
theorem candidate_loops (payload : Bytes) (hne : payload ≠ []) (hsize : payload.length < 2 ^ 31) :
    ∃ strings : List Bytes,
      (∀ env o created, o.peerConnection.isSome →
        OneCallEach env o strings ((o.onSignalingMessage env
          (ascii "ICE" ++ ascii "->" ++ payload) created).map Prod.snd)) ∧
      (∀ env o type sdp, o.peerConnection.isSome → o.remoteIceCandidateMsg = payload →
        OneCallEach env o strings ((o.onSuccess env type sdp).map fun r => r.2.drop 2)) ∧
      Observer.separator.intercalate strings = payload ∧
      (∀ s ∈ strings, ¬ Observer.separator <:+: s) ∧
      ∀ list : List Bytes, Observer.separator.intercalate list = payload →
        (∀ s ∈ list, ¬ Observer.separator <:+: s ∧ ¬ [35] <:+ s) → strings = list := by
  refine ⟨pieces Observer.separator payload, ?_, ?_, ?_, ?_, ?_⟩
  · intro env o created hpc
    rw [onSignalingMessage_loop env hpc]
    exact oneCallEach_addCandidates env o hsize
  · rintro env o type sdp hpc rfl
    rw [onSuccess_loop env hpc hne]
    exact oneCallEach_addCandidates env o hsize
  · exact intercalate_pieces Observer.separator_ne_nil payload
  · exact not_infix_of_mem_pieces Observer.separator_ne_nil payload
  · rintro list rfl hlist
    refine pieces_intercalate Observer.separator_ne_nil ?_
      fun s hs => not_infix_separator (hlist s hs).1 (hlist s hs).2
    rintro rfl
    exact hne rfl

/-- Seven symbols between two candidates: the seventh belongs to the second one. -/
theorem candidate_loops_overlap :
    (Observer.onSignalingMessage deafEnv { Observer.new with peerConnection := some 1 }
        (ascii "ICE" ++ ascii "->" ++ ascii "a#######b") ⟨none, none⟩).map Prod.snd
      = .ok [.addIceCandidate (ascii "a"), .addIceCandidate (ascii "#b")] := by
  obtain ⟨strings, hloop, -, -, -, hinv⟩ :=
    candidate_loops (ascii "a#######b") (by decide) (by decide)
  have hstrings : strings = [ascii "a", ascii "#b"] := hinv _ (by decide) (by decide)
  rw [(hloop deafEnv { Observer.new with peerConnection := some 1 } ⟨none, none⟩ rfl).1, hstrings]
  rfl

end Reflector.Signaling
