/-
# The shared buffer

Every request is read into the one buffer the server has, over whatever the last request or
reply left in it.  Two questions about that buffer are answered here.

WHICH INDICES ARE USED.  `touched` lists every index of the buffer that an iteration writes or
reads: the stores of the reads, the terminating NUL, the byte at the scan position, the
look-ahead behind a CR, and the bytes of each line.  `readLoop_untouched` and
`parseLoop_congr` tie that list to the model of the loops: a byte that is not listed is neither
changed nor used.  The reads leave room for nothing behind them, so the NUL lands outside
exactly when the buffer is filled to its last byte (`within_buffer_iff`).

WHAT OLD BYTES CAN DO.  Nothing, as long as the terminator fits (`same_outcome`): two iterations
with the same arrivals and different old buffers raise alike or give the same request, with the
same C string at its body.
-/
import Reflector.Http.Blank
import Reflector.Http.Receive

namespace Reflector.Http

open Base

/-! ## 1. The indices an iteration uses -/

/-- The indices the read loop stores to, and `totalBytes` behind it; `none` when `n` turns do
not end it. -/
def readIndices : ℕ → ℕ → List Arrival → Option (List ℕ × ℕ)
  | 0, _, _ => none
  | n + 1, totalBytes, arrivals =>
    match socketRead (rwBufferSize - totalBytes) arrivals with
    | (bytes, segment, arrivals) =>
      if bytes > 0 then
        (readIndices n (totalBytes + bytes.toNat) arrivals).map fun x =>
          (List.range' totalBytes segment.length ++ x.1, x.2)
      else some ([], totalBytes)

/-- The indices used for a line: `line.assign`, and on line 0 the split at blanks and the
copies of the first three words. -/
def lineIndices (buffer : Bytes) (lineStart lineEnd lineNo : ℕ) : List ℕ :=
  List.range' lineStart (lineEnd - lineStart) ++
    if lineNo = 0 then
      List.range' lineStart (lineEnd - lineStart) ++
        match splitString buffer lineStart lineEnd (ascii " ") [] with
        | .ok (_, descList) =>
          (descList.take 3).flatMap fun desc => List.range' desc.start desc.length
        | .error _ => []
    else []

/-- The indices `parseLoop` reads, turn by turn. -/
def parseIndices (buffer : Bytes) (len : ℕ) : ℕ → ℕ → ℕ → ℕ → HttpReq → List ℕ
  | 0, _, _, _, _ => []
  | n + 1, i, lineStart, lineNo, req =>
    if i < len then
      i :: if buffer[i]? = some 13 then
        (i + 1) :: if buffer[i + 1]? = some 10 then
          if i - lineStart > 0 then
            lineIndices buffer lineStart i lineNo ++
              match onLine buffer lineStart i lineNo req with
              | .ok req => parseIndices buffer len n (i + 2) (i + 2) (lineNo + 1) req
              | .error _ => []
          else []
        else parseIndices buffer len n (i + 1) lineStart lineNo req
      else parseIndices buffer len n (i + 1) lineStart lineNo req
    else []

/-- **Every index of the buffer that an iteration writes or reads**, in order: the reads, the
terminator, the parser. -/
def touched (buffer : Bytes) (arrivals : List Arrival) : Option (List ℕ) :=
  (readIndices (rwBufferSize + 1) 0 arrivals).map fun x =>
    let buffer := store (readLoop (rwBufferSize + 1) buffer 0 arrivals).1 x.2 [0]
    x.1 ++ x.2 :: parseIndices buffer x.2 x.2 0 0 0 HttpReq.fresh.reset

/-! ## 2. The list says what the loops do -/

/-- A read with a positive result stores that many bytes. -/
theorem toNat_socketRead {size : ℕ} {arrivals : List Arrival}
    (h : (socketRead size arrivals).1 > 0) :
    (socketRead size arrivals).1.toNat = (socketRead size arrivals).2.1.length := by
  match arrivals with
  | [] => simp [socketRead] at h
  | .timeout :: _ => simp [socketRead] at h
  | .error :: _ => simp [socketRead] at h
  | .data segment :: _ =>
    simp only [socketRead, List.length_take]
    omega

/-- A read stores no more than it was asked for. -/
theorem length_socketRead_le (size : ℕ) (arrivals : List Arrival) :
    (socketRead size arrivals).2.1.length ≤ size := by
  match arrivals with
  | [] => simp [socketRead]
  | .timeout :: _ => simp [socketRead]
  | .error :: _ => simp [socketRead]
  | .data segment :: _ =>
    simp only [socketRead, List.length_take]
    omega

/-- The read loop changes no byte outside the list, and ends at the same `totalBytes`. -/
theorem readLoop_untouched : ∀ (n : ℕ) {buffer : Bytes} {totalBytes total : ℕ}
    {arrivals : List Arrival} {indices : List ℕ},
    readIndices n totalBytes arrivals = some (indices, total) → totalBytes ≤ buffer.length →
    (readLoop n buffer totalBytes arrivals).2 = total ∧
      ∀ j, j ∉ indices → (readLoop n buffer totalBytes arrivals).1[j]? = buffer[j]? := by
  intro n
  induction n with
  | zero =>
    intro _ _ _ _ _ h _
    simp [readIndices] at h
  | succ n ih =>
    intro buffer totalBytes total arrivals indices h htot
    simp only [readIndices] at h
    simp only [readLoop]
    split at h
    · rename_i hpos
      obtain ⟨⟨rest, total'⟩, hrest, he⟩ := Option.map_eq_some_iff.mp h
      obtain ⟨rfl, rfl⟩ := Prod.mk.inj he
      have hroom : totalBytes + (socketRead (rwBufferSize - totalBytes) arrivals).1.toNat
          ≤ (store buffer totalBytes
            (socketRead (rwBufferSize - totalBytes) arrivals).2.1).length := by
        rw [toNat_socketRead hpos]
        exact le_length_store htot
      obtain ⟨htotal, hsame⟩ := ih hrest hroom
      rw [if_pos hpos]
      refine ⟨htotal, fun j hj => ?_⟩
      obtain ⟨hseg, htail⟩ := not_or.mp (fun hmem => hj (List.mem_append.mpr hmem))
      rw [hsame j htail]
      refine getElem?_store htot ?_
      simpa [List.mem_range'_1] using hseg
    · rename_i hpos
      obtain ⟨rfl, rfl⟩ := Prod.mk.inj (Option.some.inj h)
      rw [if_neg hpos]
      exact ⟨rfl, fun _ _ => rfl⟩

/-- A line only depends on its own bytes. -/
theorem onLine_congr {buffer buffer' : Bytes} {a b : ℕ} (hab : a ≤ b) (hb : b ≤ buffer.length)
    (hb' : b ≤ buffer'.length) (h : ∀ j, a ≤ j → j < b → buffer[j]? = buffer'[j]?) (lineNo : ℕ)
    (req : HttpReq) : onLine buffer a b lineNo req = onLine buffer' a b lineNo req := by
  have hslice : slice buffer a b = slice buffer' a b := by
    refine List.ext_getElem? fun k => ?_
    simp only [slice, List.getElem?_take, List.getElem?_drop]
    split
    · exact h (a + k) (by omega) (by omega)
    · rfl
  rw [onLine_eq hab hb, onLine_eq hab hb', hslice]

/-- **The parser uses no byte outside the list.** -/
theorem parseLoop_congr {buffer buffer' : Bytes} {len : ℕ} : ∀ (n i lineStart lineNo : ℕ)
    (req : HttpReq), (∀ j ∈ parseIndices buffer len n i lineStart lineNo req,
      buffer[j]? = buffer'[j]?) →
    parseLoop buffer len n i lineStart lineNo req
      = parseLoop buffer' len n i lineStart lineNo req := by
  intro n
  induction n with
  | zero =>
    intro _ _ _ _ _
    rfl
  | succ n ih =>
    intro i lineStart lineNo req h
    rw [parseLoop, parseLoop]
    by_cases hi : i < len
    swap
    · rw [if_neg hi, if_neg hi]
    rw [parseIndices, if_pos hi] at h
    have hhere : buffer[i]? = buffer'[i]? := h i List.mem_cons_self
    replace h := fun j hj => h j (List.mem_cons_of_mem _ hj)
    rw [if_pos hi, if_pos hi, ← hhere]
    cases hc : buffer[i]? with
    | none => rfl
    | some c =>
      by_cases hcr : c = 13
      · subst hcr
        rw [if_pos hc] at h
        have hnext : buffer[i + 1]? = buffer'[i + 1]? := h (i + 1) List.mem_cons_self
        replace h := fun j hj => h j (List.mem_cons_of_mem _ hj)
        simp only [← hnext]
        cases hd : buffer[i + 1]? with
        | none => rfl
        | some d =>
          by_cases hlf : d = 10
          · subst hlf
            rw [if_pos hd] at h
            simp only [and_self, if_true]
            by_cases hline : i - lineStart > 0
            · rw [if_pos hline] at h
              rw [if_pos hline, if_pos hline]
              have hbuf : i < buffer.length := (List.getElem?_eq_some_iff.mp hc).1
              have hbuf' : i < buffer'.length :=
                (List.getElem?_eq_some_iff.mp (hhere ▸ hc)).1
              have hsame : onLine buffer lineStart i lineNo req
                  = onLine buffer' lineStart i lineNo req := by
                refine onLine_congr (by omega) (by omega) (by omega) (fun j hj hj' => ?_) _ _
                refine h j (List.mem_append_left _ (List.mem_append_left _ ?_))
                rw [List.mem_range'_1]
                omega
              rw [← hsame]
              cases hreq : onLine buffer lineStart i lineNo req with
              | error e => rfl
              | ok req' =>
                rw [hreq] at h
                exact ih _ _ _ _ fun j hj => h j (List.mem_append_right _ hj)
            · rw [if_neg hline, if_neg hline]
          · rw [if_neg (by simpa [hd] using hlf)] at h
            simp only [hlf, if_true, and_false, if_false]
            exact ih _ _ _ _ h
      · rw [if_neg (by simpa [hc] using hcr)] at h
        simp only [hcr, false_and, if_false]
        exact ih _ _ _ _ h

/-! ## 3. The buffer is left behind only by the terminator -/

/-- The read loop ends, and stores inside the buffer only: each read asks for the room left. -/
theorem readIndices_ends : ∀ (n : ℕ) {totalBytes : ℕ} (arrivals : List Arrival),
    totalBytes ≤ rwBufferSize → rwBufferSize - totalBytes < n →
    ∃ indices total, readIndices n totalBytes arrivals = some (indices, total) ∧
      ∀ j ∈ indices, j < rwBufferSize := by
  intro n
  induction n with
  | zero =>
    intro _ _ _ hn
    exact absurd hn (by omega)
  | succ n ih =>
    intro totalBytes arrivals htot hn
    simp only [readIndices]
    by_cases hpos : (socketRead (rwBufferSize - totalBytes) arrivals).1 > 0
    · have hlen := toNat_socketRead hpos
      have hle := length_socketRead_le (rwBufferSize - totalBytes) arrivals
      have htot' : totalBytes + (socketRead (rwBufferSize - totalBytes) arrivals).1.toNat
          ≤ rwBufferSize := by omega
      obtain ⟨indices, total, hrest, hlt⟩ :=
        ih (socketRead (rwBufferSize - totalBytes) arrivals).2.2 htot' (by omega)
      rw [if_pos hpos, hrest]
      refine ⟨_, _, rfl, fun j hj => ?_⟩
      rcases List.mem_append.mp hj with hj | hj
      · have hroom : totalBytes + (socketRead (rwBufferSize - totalBytes) arrivals).2.1.length
            ≤ rwBufferSize := by omega
        exact Nat.lt_of_lt_of_le (List.mem_range'_1.mp hj).2 hroom
      · exact hlt j hj
    · rw [if_neg hpos]
      exact ⟨[], totalBytes, rfl, by simp⟩

/-- A line is read inside the line. -/
theorem lineIndices_lt {buffer : Bytes} {a b lineNo j : ℕ} (hab : a ≤ b) (hb : b ≤ buffer.length)
    (hj : j ∈ lineIndices buffer a b lineNo) : j < b := by
  have hrange : ∀ {j}, j ∈ List.range' a (b - a) → j < b := by
    intro j hj
    rw [List.mem_range'_1] at hj
    omega
  unfold lineIndices at hj
  rcases List.mem_append.mp hj with hj | hj
  · exact hrange hj
  split at hj
  swap
  · simp at hj
  rcases List.mem_append.mp hj with hj | hj
  · exact hrange hj
  -- the words of line 0 are cut inside it
  obtain ⟨ds, hsplit, -, hds⟩ := splitString_tokens (ascii " ") [] hab hb
  rw [hsplit] at hj
  obtain ⟨d, hd, hj⟩ := List.mem_flatMap.mp hj
  have hle := (hds d (List.mem_of_mem_take hd)).2
  rw [List.mem_range'_1] at hj
  omega

/-- The parser reads inside the text, or the byte behind it. -/
theorem parseIndices_le {buffer : Bytes} {len : ℕ} : ∀ (n i lineStart lineNo : ℕ) (req : HttpReq),
    ∀ j ∈ parseIndices buffer len n i lineStart lineNo req, j ≤ len := by
  intro n
  induction n with
  | zero =>
    intro _ _ _ _ _ hj
    simp [parseIndices] at hj
  | succ n ih =>
    intro i lineStart lineNo req j hj
    rw [parseIndices] at hj
    split at hj
    swap
    · simp at hj
    rename_i hi
    rcases List.mem_cons.mp hj with rfl | hj
    · omega
    split at hj
    swap
    · exact ih _ _ _ _ j hj
    rename_i hcr
    have hbuf : i < buffer.length := (List.getElem?_eq_some_iff.mp hcr).1
    rcases List.mem_cons.mp hj with rfl | hj
    · omega
    split at hj
    swap
    · exact ih _ _ _ _ j hj
    split at hj
    swap
    · simp at hj
    rename_i hline
    rcases List.mem_append.mp hj with hj | hj
    · have := lineIndices_lt (by omega) (by omega) hj
      omega
    · split at hj
      · exact ih _ _ _ _ j hj
      · simp at hj

/-- What an iteration uses: the stores of the reads, the place of the terminator, and nothing
behind that place. -/
theorem touched_eq (buffer : Bytes) (arrivals : List Arrival) :
    ∃ stores loads, touched buffer arrivals
        = some (stores ++ min rwBufferSize (received arrivals).length :: loads) ∧
      (∀ j ∈ stores, j < rwBufferSize) ∧
      ∀ j ∈ loads, j ≤ min rwBufferSize (received arrivals).length := by
  obtain ⟨stores, total, hstores, hlt⟩ :=
    readIndices_ends (rwBufferSize + 1) arrivals (Nat.zero_le _) (by omega)
  -- on a buffer of the right size the loop is known to end there
  have htotal : total = min rwBufferSize (received arrivals).length := by
    have hbuf : (List.replicate rwBufferSize (0 : UInt8)).length = rwBufferSize :=
      List.length_replicate
    have hread := readLoop_eq (rwBufferSize + 1) arrivals hbuf (Nat.zero_le _) (by omega)
    rw [← (readLoop_untouched _ hstores (Nat.zero_le _)).1, hread, Nat.zero_add]
  subst htotal
  refine ⟨stores, _, congrArg (Option.map _) hstores, hlt, fun j hj => ?_⟩
  exact parseIndices_le _ _ _ _ _ j hj

/-- **When the receive path stays inside its buffer.**  For every stream and every way it is cut,
the read loop ends, and every index written or read is inside exactly when fewer bytes than the
buffer holds are received: the NUL needs the last one. -/
theorem within_buffer_iff (buffer : Bytes) (arrivals : List Arrival) :
    (∃ indices, touched buffer arrivals = some indices ∧ ∀ i ∈ indices, i < rwBufferSize) ↔
      (received arrivals).length < rwBufferSize := by
  obtain ⟨stores, loads, htouched, hstores, hloads⟩ := touched_eq buffer arrivals
  rw [htouched]
  constructor
  · rintro ⟨indices, hindices, hall⟩
    obtain rfl := Option.some.inj hindices
    have hterm := hall (min rwBufferSize (received arrivals).length) (by simp)
    omega
  · intro hfits
    refine ⟨_, rfl, fun i hi => ?_⟩
    rcases List.mem_append.mp hi with hi | hi
    · exact hstores i hi
    · rcases List.mem_cons.mp hi with rfl | hi
      · omega
      · have := hloads i hi
        omega

/-- A stream of exactly `HTTP_RW_BUFFER_SIZE` bytes: the NUL goes one byte too far. -/
theorem terminator_outside :
    ¬ ∀ (buffer : Bytes) (arrivals : List Arrival), buffer.length = rwBufferSize →
      ∃ indices, touched buffer arrivals = some indices ∧ ∀ i ∈ indices, i < rwBufferSize := by
  intro h
  obtain ⟨indices, htouched, hall⟩ := h (List.replicate rwBufferSize 0)
    [.data (List.replicate rwBufferSize 97)] List.length_replicate
  obtain ⟨stores, loads, hlist, -, -⟩ := touched_eq (List.replicate rwBufferSize 0)
    [.data (List.replicate rwBufferSize 97)]
  have hfull : (received [.data (List.replicate rwBufferSize 97)]).length = rwBufferSize := by
    have hpos : rwBufferSize ≠ 0 := by decide
    have hne : List.replicate rwBufferSize (97 : UInt8) ≠ [] := by
      rw [Ne, List.replicate_eq_nil_iff]
      exact hpos
    rw [received, if_neg hne, received, List.append_nil, List.length_replicate]
    simp
  rw [hlist, Option.some.injEq] at htouched
  have hterm := hall rwBufferSize (by rw [← htouched, hfull]; simp)
  exact Nat.lt_irrefl _ hterm

/-! ## 4. Old bytes -/

/-- What the rest of the iteration sees of a request: the answer, its fields, and the C string
at its body. -/
def outcome : Bytes × Bool × HttpReq → Bool × HttpReq × Option Bytes
  | (buffer, parsingDone, httpReq) =>
    (parsingDone, httpReq, httpReq.data.map fun data => cstr (buffer.drop data))

/-- The outcome is a function of what was received. -/
theorem readRequest_outcome {buffer : Bytes} (arrivals : List Arrival)
    (hbuf : buffer.length = rwBufferSize) (hfits : (received arrivals).length < rwBufferSize) :
    (readRequest buffer arrivals).map outcome
      = (parseHttpMessage (received arrivals ++ [0]) (received arrivals).length .fresh).map fun x =>
          (x.1, x.2, x.2.data.map fun data => cstr ((received arrivals).drop data)) := by
  have hstale : parseHttpMessage
      (received arrivals ++ 0 :: buffer.drop ((received arrivals).length + 1))
      (received arrivals).length .fresh
        = parseHttpMessage (received arrivals ++ [0]) (received arrivals).length .fresh := by
    rw [parseHttpMessage_eq, parseHttpMessage_eq]
  rw [readRequest_eq arrivals hbuf hfits, hstale]
  cases hparse : parseHttpMessage (received arrivals ++ [0]) (received arrivals).length .fresh with
  | error e => rfl
  | ok x =>
    obtain ⟨done, req⟩ := x
    simp only [Except.map, outcome, Except.ok.injEq, Prod.mk.injEq, true_and]
    cases hdata : req.data with
    | none => rfl
    | some off =>
      -- the C string at the body ends at the terminator, before any old byte
      have hoff := data_le hparse hdata
      rw [Option.map_some, Option.map_some, List.drop_append_of_le_length hoff,
        cstr_append_nul']

/-- **Requests do not leak into each other.**  With the same arrivals, and room for the
terminator, the old contents of the buffer make no difference: both iterations raise alike, or
give the same answer, the same fields, the same body offset and the same C string there. -/
theorem same_outcome {buffer₁ buffer₂ : Bytes} (arrivals : List Arrival)
    (h₁ : buffer₁.length = rwBufferSize) (h₂ : buffer₂.length = rwBufferSize)
    (hfits : (received arrivals).length < rwBufferSize) :
    (readRequest buffer₁ arrivals).map outcome = (readRequest buffer₂ arrivals).map outcome := by
  rw [readRequest_outcome arrivals h₁ hfits, readRequest_outcome arrivals h₂ hfits]

/-- A message read over a clean buffer and over one that is full of an old request. -/
theorem same_outcome_message :
    (received [.data (ascii "POST /message HTTP/1.1\x0d\x0a\x0d\x0aICE"), .timeout]).length
        < rwBufferSize ∧
      (readRequest (List.replicate rwBufferSize 0)
          [.data (ascii "POST /message HTTP/1.1\x0d\x0a\x0d\x0aICE"), .timeout]).map outcome
        = (readRequest (List.replicate rwBufferSize 65)
          [.data (ascii "POST /message HTTP/1.1\x0d\x0a\x0d\x0aICE"), .timeout]).map outcome := by
  have hfits : (received [.data (ascii "POST /message HTTP/1.1\x0d\x0a\x0d\x0aICE"),
      .timeout]).length < rwBufferSize := by
    decide
  exact ⟨hfits, same_outcome _ List.length_replicate List.length_replicate hfits⟩

end Reflector.Http
