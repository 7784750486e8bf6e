/-
# Receiving a request (`server.cpp`, `platform_socket.cpp`)

The main loop reads until `Socket::read` gives 0 or less, stores a NUL behind what it got, and
parses.  It reads into the one buffer the server has, over whatever an earlier request or reply
left there.

How the bytes arrive is a SCHEDULE: what each `select` finds, in order.  The whole effect of
the read loop is that the bytes of the leading data arrivals stand at the start of the buffer
(`readLoop_eq`): a time-out between two segments ends the request as surely as the end of the
connection does.
-/
import Reflector.Http.Lines

namespace Reflector.Http

open Base

/-! ## 1. Reading -/

/-- `HTTP_RW_BUFFER_SIZE`. -/
def rwBufferSize : ℕ := 32 * 1024

/-- What `select` finds when a read is made: bytes (none of them when the peer has closed), no
bytes in time, or a failure. -/
inductive Arrival
  | data (segment : Bytes)
  | timeout
  | error
  deriving DecidableEq, Repr

/-- `Socket::read(buffer, size)`: the result, the bytes stored, and what is still to arrive.  A
segment longer than the space asked for stays readable. -/
def socketRead (size : ℕ) : List Arrival → ℤ × Bytes × List Arrival
  | [] => (0, [], [])
  | .timeout :: rest => (0, [], rest)
  | .error :: rest => (-1, [], rest)
  | .data segment :: rest =>
    (min size segment.length, segment.take size,
      if segment.length ≤ size then rest else .data (segment.drop size) :: rest)

/-- The read loop.  Every turn stores at least one byte, so `rwBufferSize + 1` turns are
enough. -/
def readLoop : ℕ → Bytes → ℕ → List Arrival → Bytes × ℕ
  | 0, buffer, totalBytes, _ => (buffer, totalBytes)
  | n + 1, buffer, totalBytes, arrivals =>
    match socketRead (rwBufferSize - totalBytes) arrivals with
    | (bytes, segment, arrivals) =>
      if bytes > 0 then
        readLoop n (store buffer totalBytes segment) (totalBytes + bytes.toNat) arrivals
      else (buffer, totalBytes)

/-- `httpRwBuffer[totalBytes] = '\0'`. -/
def terminate (buffer : Bytes) (totalBytes : ℕ) : Except Raise Bytes :=
  if totalBytes < rwBufferSize then .ok (store buffer totalBytes [0]) else .error .outOfBounds

/-- The first half of an iteration: read, terminate, parse.  The buffer comes back with the
answer, since the request points into it. -/
def readRequest (buffer : Bytes) (arrivals : List Arrival) :
    Except Raise (Bytes × Bool × HttpReq) := do
  let (buffer, totalBytes) := readLoop (rwBufferSize + 1) buffer 0 arrivals
  let buffer ← terminate buffer totalBytes
  let (parsingDone, httpReq) ← parseHttpMessage buffer totalBytes .fresh
  .ok (buffer, parsingDone, httpReq)

/-! ## 2. What was received -/

/-- The bytes that arrive before the first read that brings none. -/
def received : List Arrival → Bytes
  | .data segment :: rest => if segment = [] then [] else segment ++ received rest
  | _ => []

/-- A turn that finds bytes and has room for some of them. -/
theorem readLoop_data (n : ℕ) {buffer segment : Bytes} {totalBytes : ℕ} {rest : List Arrival}
    (hseg : segment ≠ []) (hroom : totalBytes < rwBufferSize) :
    readLoop (n + 1) buffer totalBytes (.data segment :: rest)
      = readLoop n (store buffer totalBytes (segment.take (rwBufferSize - totalBytes)))
          (totalBytes + min (rwBufferSize - totalBytes) segment.length)
          (if segment.length ≤ rwBufferSize - totalBytes then rest
            else .data (segment.drop (rwBufferSize - totalBytes)) :: rest) := by
  have hpos : 0 < segment.length := List.length_pos_iff.mpr hseg
  have hgt : (min (rwBufferSize - totalBytes : ℕ) segment.length : ℤ) > 0 := by omega
  have hmin : (min (rwBufferSize - totalBytes : ℕ) segment.length : ℤ).toNat
      = min (rwBufferSize - totalBytes) segment.length := by omega
  rw [readLoop]
  refine (if_pos hgt).trans ?_
  rw [← hmin]

/-- **The read loop stores what was received**, as far as the buffer goes. -/
theorem readLoop_eq : ∀ (n : ℕ) {buffer : Bytes} {totalBytes : ℕ} (arrivals : List Arrival),
    buffer.length = rwBufferSize → totalBytes ≤ rwBufferSize → rwBufferSize - totalBytes < n →
    readLoop n buffer totalBytes arrivals
      = (store buffer totalBytes ((received arrivals).take (rwBufferSize - totalBytes)),
          min rwBufferSize (totalBytes + (received arrivals).length)) := by
  intro n
  induction n with
  | zero =>
    intro _ _ _ _ _ hn
    exact absurd hn (by omega)
  | succ n ih =>
    intro buffer totalBytes arrivals hbuf htot hn
    have hnone : store buffer totalBytes [] = buffer := by simp [store]
    have hmin : min rwBufferSize totalBytes = totalBytes := Nat.min_eq_right htot
    cases arrivals with
    | nil => simp [readLoop, socketRead, received, hnone, hmin]
    | cons a rest =>
      cases a with
      | timeout => simp [readLoop, socketRead, received, hnone, hmin]
      | error => simp [readLoop, socketRead, received, hnone, hmin]
      | data segment =>
        by_cases hseg : segment = []
        · simp [readLoop, socketRead, received, hseg, hnone, hmin]
        rw [received, if_neg hseg]
        rcases Nat.lt_or_eq_of_le htot with hroom | hfull
        · rw [readLoop_data n hseg hroom]
          by_cases hfits : segment.length ≤ rwBufferSize - totalBytes
          · -- the whole segment, and on with the rest
            have htake : segment.take (rwBufferSize - totalBytes) = segment :=
              List.take_of_length_le hfits
            have hlen : (store buffer totalBytes segment).length = rwBufferSize := by
              rw [length_store (by omega), hbuf]
            have hpos : 0 < segment.length := List.length_pos_iff.mpr hseg
            rw [if_pos hfits, htake, Nat.min_eq_right hfits,
              ih rest hlen (by omega) (by omega), store_store (by omega),
              List.take_append, htake, Nat.sub_sub, List.length_append, Nat.add_assoc]
          · -- what fits of the segment, and nothing after it
            have hlen : (store buffer totalBytes
                (segment.take (rwBufferSize - totalBytes))).length = rwBufferSize := by
              rw [length_store (by rw [List.length_take]; omega), hbuf]
            rw [if_neg hfits, Nat.min_eq_left (by omega), Nat.add_sub_cancel' htot,
              ih _ hlen (Nat.le_refl _) (by omega),
              List.take_append_of_le_length (by omega)]
            simp only [Nat.sub_self, List.take_zero, Prod.mk.injEq]
            refine ⟨by simp [store], ?_⟩
            rw [List.length_append]
            omega
        · -- a full buffer asks for nothing, and gets nothing
          subst hfull
          simp [readLoop, socketRead, hnone]

/-- With room for the terminator, the buffer starts with what was received, and a NUL. -/
theorem readRequest_eq {buffer : Bytes} (arrivals : List Arrival)
    (hbuf : buffer.length = rwBufferSize) (hfits : (received arrivals).length < rwBufferSize) :
    readRequest buffer arrivals = (parseHttpMessage
        (received arrivals ++ 0 :: buffer.drop ((received arrivals).length + 1))
        (received arrivals).length .fresh).map fun answer =>
      (received arrivals ++ 0 :: buffer.drop ((received arrivals).length + 1), answer) := by
  have hread := readLoop_eq (rwBufferSize + 1) arrivals hbuf (Nat.zero_le _) (by omega)
  rw [Nat.sub_zero, Nat.zero_add, List.take_of_length_le (Nat.le_of_lt hfits),
    Nat.min_eq_right (Nat.le_of_lt hfits)] at hread
  have hterm : store (store buffer 0 (received arrivals)) (received arrivals).length [0]
      = received arrivals ++ 0 :: buffer.drop ((received arrivals).length + 1) := by
    have hjoin : store (store buffer 0 (received arrivals)) (0 + (received arrivals).length) [0]
        = store buffer 0 (received arrivals ++ [0]) := store_store (by omega)
    rw [Nat.zero_add] at hjoin
    rw [hjoin]
    simp [store]
  simp only [readRequest, hread, terminate, if_pos hfits, hterm, ok_bind]
  cases parseHttpMessage (received arrivals ++ 0 :: buffer.drop ((received arrivals).length + 1))
    (received arrivals).length .fresh <;> rfl

/-- The buffer keeps its size, whatever arrives. -/
theorem length_readRequest {buffer buffer' : Bytes} {arrivals : List Arrival} {parsingDone : Bool}
    {httpReq : HttpReq} (hbuf : buffer.length = rwBufferSize)
    (h : readRequest buffer arrivals = .ok (buffer', parsingDone, httpReq)) :
    buffer'.length = rwBufferSize := by
  have hread := readLoop_eq (rwBufferSize + 1) arrivals hbuf (Nat.zero_le _) (by omega)
  have hstored : (store buffer 0 ((received arrivals).take (rwBufferSize - 0))).length
      = rwBufferSize := by
    rw [length_store (by rw [List.length_take]; omega), hbuf]
  simp only [readRequest, hread, bind_eq_ok] at h
  obtain ⟨buffer₁, hterm, answer, -, h⟩ := h
  obtain ⟨rfl, -⟩ := Prod.mk.inj (Except.ok.inj h)
  unfold terminate at hterm
  split at hterm
  · rename_i hlt
    obtain rfl := Except.ok.inj hterm
    rw [length_store (by rw [hstored, List.length_singleton]; omega), hstored]
  · exact absurd hterm (by simp)

end Reflector.Http
