/-
# What `splitString` returns

`Lines.lean` reads `splitString` as a function of texts: it returns the tokens of its range.
Here the descriptors themselves are the subject, and so is the arithmetic.  `splitString`
counts in `uint32_t`, with two indices that it subtracts from each other; `Word.splitString`
is the function in these types, with the loop as it stands in `http.cpp`.

* `Word.splitString_toNat`: no index wraps, so that plain numbers compute the same, for every
  range and every list;
* `splitLoop_scan`: the loop is a scan for maximal runs, and the code behind the loop closes the
  last one;
* `splitString_maximalRuns`: the list has the maximal runs of bytes that are no delimiters,
  from left to right, and nothing of what the caller's list held before;
* `Word.splitString_nested`: the range may come from the list that is passed, as in `parseUrl`.
-/
import Reflector.Base.Runs
import Reflector.Http.Lines

namespace Reflector.Http

open Base

/-! ## 1. The function in the types of the source -/

namespace Word

structure StringDesc where
  start : UInt32
  length : UInt32
  deriving DecidableEq, Repr

/-- The descriptor in plain numbers. -/
def StringDesc.toNat (d : StringDesc) : Http.StringDesc := ⟨d.start.toNat, d.length.toNat⟩

theorem toNat_succ {i stop : UInt32} (h : i < stop) : (i + 1).toNat = i.toNat + 1 := by
  have h₁ := UInt32.lt_iff_toNat_lt.mp h
  have h₂ := stop.toNat_lt
  rw [UInt32.toNat_add, UInt32.toNat_one]
  exact Nat.mod_eq_of_lt (by omega)

theorem toNat_sub {i s : UInt32} (h : s ≤ i) : (i - s).toNat = i.toNat - s.toNat :=
  UInt32.toNat_sub_of_le _ _ h

/-- The `while (i < end)` loop. -/
def splitLoop (str ptrn : Bytes) (stop i s : UInt32) (list : List StringDesc) :
    Except Raise (UInt32 × UInt32 × List StringDesc) :=
  if _h : i < stop then
    match str[i.toNat]? with
    | none => .error .outOfBounds
    | some c =>
      if ptrn.contains c then
        splitLoop str ptrn stop (i + 1) (i + 1) (if i - s > 0 then list ++ [⟨s, i - s⟩] else list)
      else splitLoop str ptrn stop (i + 1) s list
  else .ok (i, s, list)
termination_by stop.toNat - i.toNat
decreasing_by
  all_goals
    have h₁ := UInt32.lt_iff_toNat_lt.mp _h
    have h₂ := toNat_succ _h
    omega

def splitString (str : Bytes) (start stop : UInt32) (ptrn : Bytes) (list : List StringDesc) :
    Except Raise (ℕ × List StringDesc) := do
  let list := if list.length > 0 then [] else list
  let (i, s, list) ← splitLoop str ptrn stop start start list
  let list := if i - s > 0 then list ++ [⟨s, i - s⟩] else list
  .ok (list.length, list)

/-! ## 2. No index wraps -/

/-- Closing a piece is the same in both arithmetics, since the piece began before it ends. -/
theorem flush_toNat {i s : UInt32} (h : s ≤ i) (list : List StringDesc) :
    (if i - s > 0 then list ++ [⟨s, i - s⟩] else list).map StringDesc.toNat
      = flush i.toNat s.toNat (list.map StringDesc.toNat) := by
  have hsub := toNat_sub h
  have hpos : i - s > 0 ↔ i.toNat - s.toNat > 0 := by
    rw [gt_iff_lt, UInt32.lt_iff_toNat_lt, hsub]
    rfl
  unfold flush
  by_cases hgt : i - s > 0
  · rw [if_pos hgt, if_pos (hpos.mp hgt), List.map_append]
    simp only [List.map_cons, List.map_nil, StringDesc.toNat, hsub]
  · rw [if_neg hgt, if_neg (fun h => hgt (hpos.mpr h))]

/-- **The loop on words is the loop on numbers**, and it keeps its indices in order. -/
theorem splitLoop_toNat (str ptrn : Bytes) (stop : UInt32) : ∀ (n : ℕ) (i s : UInt32)
    (list : List StringDesc), s ≤ i → stop.toNat - i.toNat = n →
    (∃ e, splitLoop str ptrn stop i s list = .error e ∧
        Http.splitLoop str ptrn n i.toNat s.toNat (list.map StringDesc.toNat) = .error e) ∨
      ∃ i' s' list', s' ≤ i' ∧ splitLoop str ptrn stop i s list = .ok (i', s', list') ∧
        Http.splitLoop str ptrn n i.toNat s.toNat (list.map StringDesc.toNat)
          = .ok (i'.toNat, s'.toNat, list'.map StringDesc.toNat)
  | 0, i, s, list, hs, hn => by
    have hi : ¬ i < stop := by
      rw [UInt32.lt_iff_toNat_lt]
      omega
    exact .inr ⟨i, s, list, hs, by rw [splitLoop, dif_neg hi], rfl⟩
  | n + 1, i, s, list, hs, hn => by
    have hi : i < stop := by
      rw [UInt32.lt_iff_toNat_lt]
      omega
    have hsucc := toNat_succ hi
    have hle : s ≤ i + 1 := by
      rw [UInt32.le_iff_toNat_le] at hs ⊢
      omega
    rw [splitLoop, dif_pos hi, Http.splitLoop]
    cases str[i.toNat]? with
    | none => exact .inl ⟨.outOfBounds, rfl, rfl⟩
    | some c =>
      dsimp only
      by_cases hc : ptrn.contains c
      · have ih := splitLoop_toNat str ptrn stop n (i + 1) (i + 1)
          (if i - s > 0 then list ++ [⟨s, i - s⟩] else list) (UInt32.le_refl _) (by omega)
        rw [flush_toNat hs, hsucc] at ih
        rw [if_pos hc, if_pos hc]
        exact ih
      · have ih := splitLoop_toNat str ptrn stop n (i + 1) s list hle (by omega)
        rw [hsucc] at ih
        rw [if_neg hc, if_neg hc]
        exact ih

/-- **No index wraps**: on the same input, `splitString` does in words what it does in
numbers. -/
theorem splitString_toNat (str : Bytes) (start stop : UInt32) (ptrn : Bytes)
    (list : List StringDesc) :
    (splitString str start stop ptrn list).map (fun r => (r.1, r.2.map StringDesc.toNat))
      = Http.splitString str start.toNat stop.toNat ptrn (list.map StringDesc.toNat) := by
  have hclear : (if (list.map StringDesc.toNat).length > 0 then [] else list.map StringDesc.toNat)
      = (if list.length > 0 then [] else list).map StringDesc.toNat := by
    rw [List.length_map]
    split <;> rfl
  unfold splitString Http.splitString
  dsimp only
  rw [hclear]
  rcases splitLoop_toNat str ptrn stop _ start start (if list.length > 0 then [] else list)
      (UInt32.le_refl _) rfl with ⟨e, h₁, h₂⟩ | ⟨i, s, list', hs, h₁, h₂⟩
  · rw [h₁, h₂]
    rfl
  · rw [h₁, h₂]
    have hflush := flush_toNat hs list'
    unfold flush at hflush
    simp only [ok_bind, Except.map]
    rw [← hflush, List.length_map]

end Word

/-! ## 3. The loop is a scan for maximal runs -/

/-- At `j` there is a byte, and it is no delimiter. -/
def NonDelim (str ptrn : Bytes) (j : ℕ) : Prop := ∃ c, str[j]? = some c ∧ ptrn.contains c = false

/-- Where a descriptor begins and where it ends. -/
def StringDesc.span (d : StringDesc) : ℕ × ℕ := (d.start, d.start + d.length)

theorem not_nonDelim {str ptrn : Bytes} {j : ℕ} {c : UInt8} (hj : str[j]? = some c)
    (hc : ptrn.contains c = true) : ¬ NonDelim str ptrn j := by
  rintro ⟨c', hj', hc'⟩
  obtain rfl : c = c' := Option.some_inj.mp (hj.symm.trans hj')
  rw [hc] at hc'
  exact absurd hc' (by decide)

theorem flush_span {i s : ℕ} (h : s ≤ i) (list : List StringDesc) :
    (flush i s list).map StringDesc.span = closeRun s i (list.map StringDesc.span) := by
  unfold flush closeRun
  by_cases hs : s < i
  · have hi : s + (i - s) = i := by omega
    rw [if_pos (by omega), if_pos hs, List.map_append]
    simp only [List.map_cons, List.map_nil, StringDesc.span, hi]
  · rw [if_neg (by omega), if_neg hs]

/-- **The invariant of the loop.**  One round extends the open piece or closes it; when no byte
is left, the piece that is still open is for the code behind the loop. -/
theorem splitLoop_scan (str ptrn : Bytes) (start : ℕ) : ∀ (n i s : ℕ) (list : List StringDesc),
    i + n ≤ str.length → Scan (NonDelim str ptrn) start s i (list.map StringDesc.span) →
    ∃ s' list', splitLoop str ptrn n i s list = .ok (i + n, s', list') ∧
      Scan (NonDelim str ptrn) start s' (i + n) (list'.map StringDesc.span)
  | 0, i, s, list, _, h => ⟨s, list, rfl, h⟩
  | n + 1, i, s, list, hi, h => by
    obtain ⟨c, hc⟩ : ∃ c, str[i]? = some c :=
      ⟨str[i], List.getElem?_eq_getElem (by omega)⟩
    rw [splitLoop, hc, show i + (n + 1) = i + 1 + n by omega]
    dsimp only
    split
    · rename_i hd
      have hcut := h.cut (not_nonDelim hc hd)
      rw [← flush_span h.le] at hcut
      exact splitLoop_scan str ptrn start n (i + 1) (i + 1) (flush i s list) (by omega) hcut
    · rename_i hd
      have hext := h.extend ⟨c, hc, by simpa using hd⟩
      exact splitLoop_scan str ptrn start n (i + 1) s list (by omega) hext

/-- The list that is returned has the runs of the range. -/
theorem splitString_runsOf {str : Bytes} {start stop : ℕ} (ptrn : Bytes)
    (list : List StringDesc) (h : start ≤ stop) (hstop : stop ≤ str.length) :
    ∃ ds, splitString str start stop ptrn list = .ok (ds.length, ds) ∧
      RunsOf (NonDelim str ptrn) start stop (ds.map StringDesc.span) := by
  obtain ⟨s, list', hl, hscan⟩ :=
    splitLoop_scan str ptrn start (stop - start) start start [] (by omega) (Scan.start _ start)
  rw [show start + (stop - start) = stop by omega] at hl hscan
  refine ⟨flush stop s list', splitString_of_loop list hl, ?_⟩
  rw [flush_span hscan.le]
  exact hscan.runsOf

/-- Delimiters in front, behind and twice in the middle, and a list that is not empty. -/
example : splitString (ascii " GET  /a b ") 0 11 (ascii " ") [⟨3, 4⟩]
    = .ok (3, [⟨1, 3⟩, ⟨6, 2⟩, ⟨9, 1⟩]) := by
  rfl

/-- In words, too, the list has the runs of the range. -/
theorem Word.splitString_runsOf {str : Bytes} {start stop : UInt32} (ptrn : Bytes)
    (list : List Word.StringDesc) (h : start ≤ stop) (hstop : stop.toNat ≤ str.length) :
    ∃ ds, Word.splitString str start stop ptrn list = .ok (ds.length, ds) ∧
      RunsOf (NonDelim str ptrn) start.toNat stop.toNat
        ((ds.map Word.StringDesc.toNat).map StringDesc.span) := by
  obtain ⟨ds, hds, hruns⟩ := Http.splitString_runsOf ptrn (list.map Word.StringDesc.toNat)
    (UInt32.le_iff_toNat_le.mp h) hstop
  rw [← Word.splitString_toNat] at hds
  obtain ⟨⟨n, es⟩, hes, heq⟩ := map_eq_ok.mp hds
  obtain ⟨rfl, rfl⟩ : n = ds.length ∧ es.map Word.StringDesc.toNat = ds := by
    simpa [eq_comm] using heq
  rw [List.length_map] at hes
  exact ⟨es, hes, hruns⟩

/-! ## 4. The maximal runs of a range -/

/-- **What a list of descriptors is meant to be**: the maximal runs of the bytes of
`str[start, stop)` that are no delimiters, in order. -/
structure MaximalRuns (str ptrn : Bytes) (start stop : ℕ) (ds : List StringDesc) : Prop where
  /-- The list has the maximal runs and nothing else. -/
  mem_iff : ∀ d, d ∈ ds ↔ IsRun (NonDelim str ptrn) start stop d.start (d.start + d.length)
  /-- Each ends before any later one begins. -/
  ordered : ds.Pairwise fun d e => d.start + d.length < e.start
  length_pos : ∀ d ∈ ds, 1 ≤ d.length
  inside : ∀ d ∈ ds, start ≤ d.start ∧ d.start + d.length ≤ stop
  free : ∀ d ∈ ds, ∀ c ∈ copyString str d, ptrn.contains c = false
  /-- Between consecutive descriptors there is something, and it is all delimiters. -/
  separated : ds.IsChain fun d e => d.start + d.length < e.start ∧
    ∀ c ∈ slice str (d.start + d.length) e.start, ptrn.contains c = true
  /-- Every other byte is in one entry of the list, and in one only. -/
  covered : ∀ j c, start ≤ j → j < stop → str[j]? = some c → ptrn.contains c = false →
    ∃! k : ℕ, ∃ d : StringDesc, ds[k]? = some d ∧ d.start ≤ j ∧ j < d.start + d.length

/-- A byte of a slice stands somewhere in the text. -/
theorem mem_slice {str : Bytes} {a b : ℕ} {c : UInt8} (h : c ∈ slice str a b) :
    ∃ j, a ≤ j ∧ j < b ∧ str[j]? = some c := by
  obtain ⟨k, hk⟩ := List.mem_iff_getElem?.mp h
  rw [slice, List.getElem?_take, List.getElem?_drop] at hk
  split at hk
  · rename_i hlt
    exact ⟨a + k, by omega, by omega, hk⟩
  · exact absurd hk (by simp)

theorem StringDesc.span_injective : Function.Injective StringDesc.span := by
  rintro ⟨a, n⟩ ⟨b, m⟩ h
  obtain ⟨rfl, h₂⟩ := Prod.mk.inj h
  obtain rfl : n = m := Nat.add_left_cancel h₂
  rfl

theorem MaximalRuns.of_runsOf {str ptrn : Bytes} {start stop : ℕ} {ds : List StringDesc}
    (h : RunsOf (NonDelim str ptrn) start stop (ds.map StringDesc.span)) :
    MaximalRuns str ptrn start stop ds := by
  have hmem : ∀ d, d ∈ ds ↔ IsRun (NonDelim str ptrn) start stop d.start (d.start + d.length) :=
    fun d => (List.mem_map_of_injective StringDesc.span_injective).symm.trans (h.mem_iff _ _)
  refine ⟨hmem, List.pairwise_map.mp h.ordered, ?_, ?_, ?_, ?_, ?_⟩
  · intro d hd
    have := ((hmem d).mp hd).lt
    omega
  · intro d hd
    exact ⟨((hmem d).mp hd).le_start, ((hmem d).mp hd).stop_le⟩
  · intro d hd c hc
    rw [copyString_eq_slice] at hc
    obtain ⟨j, hj₁, hj₂, hj⟩ := mem_slice hc
    obtain ⟨c', hj', hc'⟩ := ((hmem d).mp hd).all j hj₁ hj₂
    rwa [Option.some_inj.mp (hj.symm.trans hj')]
  · refine (List.isChain_map _).mp h.isChain |>.imp ?_
    rintro d e ⟨hlt, hgap⟩
    refine ⟨hlt, fun c hc => ?_⟩
    obtain ⟨j, hj₁, hj₂, hj⟩ := mem_slice hc
    have hnot : ¬ NonDelim str ptrn j := hgap j hj₁ hj₂
    by_contra hfree
    exact hnot ⟨c, hj, by simpa using hfree⟩
  · intro j c hj₁ hj₂ hj hc
    obtain ⟨k, ⟨x, hx, hx₁, hx₂⟩, huniq⟩ := h.existsUnique hj₁ hj₂ ⟨c, hj, hc⟩
    rw [List.getElem?_map, Option.map_eq_some_iff] at hx
    obtain ⟨d, hd, rfl⟩ := hx
    refine ⟨k, ⟨d, hd, hx₁, hx₂⟩, ?_⟩
    rintro m ⟨e, he, he₁, he₂⟩
    refine huniq m ⟨e.span, ?_, he₁, he₂⟩
    rw [List.getElem?_map, he]
    rfl

theorem MaximalRuns.runsOf {str ptrn : Bytes} {start stop : ℕ} {ds : List StringDesc}
    (h : MaximalRuns str ptrn start stop ds) :
    RunsOf (NonDelim str ptrn) start stop (ds.map StringDesc.span) := by
  refine ⟨List.pairwise_map.mpr h.ordered, fun a b => ?_⟩
  rw [List.mem_map]
  constructor
  · rintro ⟨d, hd, hab⟩
    obtain ⟨rfl, rfl⟩ := Prod.mk.inj hab
    exact (h.mem_iff d).mp hd
  · intro hrun
    have hb : a + (b - a) = b := by
      have := hrun.lt
      omega
    refine ⟨⟨a, b - a⟩, (h.mem_iff _).mpr ?_, by rw [StringDesc.span, hb]⟩
    dsimp only
    rwa [hb]

/-- **Only one list is meant.** -/
theorem MaximalRuns.unique {str ptrn : Bytes} {start stop : ℕ} {ds es : List StringDesc}
    (h₁ : MaximalRuns str ptrn start stop ds) (h₂ : MaximalRuns str ptrn start stop es) :
    ds = es :=
  List.map_injective_iff.mpr StringDesc.span_injective (h₁.runsOf.unique h₂.runsOf)

/-- **`splitString` returns the maximal runs of its range**, and their number, whatever the list
held before. -/
theorem splitString_maximalRuns (str ptrn : Bytes) (start stop : UInt32)
    (list : List Word.StringDesc) (h : start ≤ stop) (hstop : stop.toNat ≤ str.length) :
    ∃ ds, Word.splitString str start stop ptrn list = .ok (ds.length, ds) ∧
      MaximalRuns str ptrn start.toNat stop.toNat (ds.map Word.StringDesc.toNat) := by
  obtain ⟨ds, hds, hruns⟩ := Word.splitString_runsOf ptrn list h hstop
  exact ⟨ds, hds, .of_runsOf hruns⟩

theorem splitString_maximalRuns_blanks :
    ∃ ds, Word.splitString (ascii " GET  /a b ") 1 11 (ascii " ") [⟨3, 4⟩]
        = .ok (ds.length, ds) ∧
      MaximalRuns (ascii " GET  /a b ") (ascii " ") 1 11 (ds.map Word.StringDesc.toNat) :=
  splitString_maximalRuns (ascii " GET  /a b ") (ascii " ") 1 11 [⟨3, 4⟩] (by decide) (by decide)

/-- **The range may come from the list itself.**  `parseUrl` passes the list it takes the range
from: the range is read before the call empties the list, its end does not wrap, and the text
reaches that far. -/
theorem Word.splitString_nested {str ptrn : Bytes} {start stop : UInt32}
    {list ds : List Word.StringDesc} {count : ℕ} {d : Word.StringDesc} (h : start ≤ stop)
    (hstop : stop.toNat ≤ str.length)
    (hds : Word.splitString str start stop ptrn list = .ok (count, ds)) (hd : d ∈ ds)
    (ptrn' : Bytes) :
    ∃ es, Word.splitString str d.start (d.start + d.length) ptrn' ds = .ok (es.length, es) ∧
      MaximalRuns str ptrn' d.start.toNat (d.start.toNat + d.length.toNat)
        (es.map Word.StringDesc.toNat) := by
  obtain ⟨ds', hds', hruns⟩ := Word.splitString_runsOf ptrn list h hstop
  obtain ⟨-, rfl⟩ : ds'.length = count ∧ ds' = ds := by
    rw [hds'] at hds
    simpa using hds
  have hend : d.start.toNat + d.length.toNat ≤ stop.toNat :=
    (hruns.isRun (List.mem_map_of_mem (List.mem_map_of_mem hd))).stop_le
  have hsum : (d.start + d.length).toNat = d.start.toNat + d.length.toNat := by
    have hlt := stop.toNat_lt
    rw [UInt32.toNat_add]
    exact Nat.mod_eq_of_lt (by omega)
  have hle : d.start ≤ d.start + d.length := by
    rw [UInt32.le_iff_toNat_le, hsum]
    exact Nat.le_add_right _ _
  have hlen : (d.start + d.length).toNat ≤ str.length := by omega
  obtain ⟨es, hes, hruns'⟩ := Word.splitString_runsOf ptrn' ds' hle hlen
  rw [hsum] at hruns'
  exact ⟨es, hes, .of_runsOf hruns'⟩

end Reflector.Http
