/-
# The request target

`parseUrl` takes the command out of the request target in two cuts: the LAST `/` segment of the
whole target, and the FIRST `?` piece of that segment.  Empty pieces are dropped at both cuts,
and the first cut is made before the query is split off.  This file follows the two cuts:

* `urlOf_cmd`: the command, as a function of the target;
* `returns_iff`: the second cut may find no piece at all, and then the parser raises.  That
  happens exactly for a last segment made of question marks, as in `GET /? HTTP/1.1`; no other
  request line and no header line raises;
* `command_of_path_iff`: a query can reach into the first cut.  The command is that of the path
  exactly when the path ends in a segment and every `/` of the query is at its very end, apart
  from queries that happen to name the same command.
-/
import Reflector.Http.Blank

namespace Reflector.Http

open Base

/-! ## 1. The two cuts -/

/-- The last `/` segment of a target, empty when it has none. -/
def lastSegment (target : Bytes) : Bytes := lastToken (ascii "/").contains (cstr target)

/-- The first `?` piece of a segment, empty when it has none. -/
def firstPiece (segment : Bytes) : Bytes := firstToken (ascii "?").contains segment

/-- **The command of a target.** -/
theorem urlOf_cmd (target : Bytes) (url : HttpReqUrl) :
    (urlOf target url).map HttpReqUrl.cmd =
      if lastSegment target = [] then .ok url.cmd
      else if firstPiece (lastSegment target) = [] then .error .outOfRange
      else .ok (firstPiece (lastSegment target)) := by
  have hlast : (tokens (ascii "/").contains (cstr target)).getLast?
      = if lastSegment target = [] then none else some (lastSegment target) := getLast?_tokens _
  have hhead : (tokens (ascii "?").contains (lastSegment target)).head?
      = if firstPiece (lastSegment target) = [] then none
        else some (firstPiece (lastSegment target)) := head?_tokens _
  unfold urlOf
  rw [hlast]
  by_cases hseg : lastSegment target = []
  · simp only [if_pos hseg]
    rfl
  · simp only [if_neg hseg]
    by_cases hpiece : firstPiece (lastSegment target) = []
    · rw [if_pos hpiece, List.head?_eq_none_iff] at hhead
      rw [hhead, if_pos hpiece]
      rfl
    · rw [if_neg hpiece, List.head?_eq_some_iff] at hhead
      obtain ⟨rest, hrest⟩ := hhead
      rw [hrest, if_neg hpiece]
      -- the command is the first piece, whether a query follows it or not
      cases rest <;> rfl

/-! ## 2. When the parser raises -/

/-- The request target of line 0: its second blank-separated word, empty when there is none. -/
def targetOf (line : Bytes) : Bytes :=
  firstToken (ascii " ").contains (afterToken (ascii " ").contains line)

theorem getElem?_words (line : Bytes) :
    (tokens (ascii " ").contains line)[1]? = if targetOf line = [] then none
      else some (targetOf line) := by
  by_cases hfirst : firstToken (ascii " ").contains line = []
  · -- a line of blanks has no word at all
    have hblank := (firstToken_eq_nil_iff line).mp hfirst
    have htarget : targetOf line = [] := by
      have hdrop : line.dropWhile (ascii " ").contains = [] := List.dropWhile_eq_nil_iff.mpr hblank
      simp [targetOf, afterToken, hdrop, firstToken]
    rw [(tokens_eq_nil_iff line).mpr hblank, if_pos htarget]
    rfl
  · rw [tokens_eq_cons hfirst, List.getElem?_cons_succ, ← List.head?_eq_getElem?, head?_tokens]
    rfl

/-- The last segment is there, and it is made of question marks only. -/
def OnlyMarks (target : Bytes) : Prop :=
  lastSegment target ≠ [] ∧ ∀ b ∈ lastSegment target, b = 63

/-- The text has no first line, or one whose target does not end in question marks only. -/
def Answerable (text : Bytes) : Prop :=
  ∀ line rest, text.dropInfix? crlf = some (line, rest) → ¬ OnlyMarks (targetOf line)

theorem mark_iff (b : UInt8) : (ascii "?").contains b = true ↔ b = 63 := by
  simp [ascii]

theorem urlOf_ok_iff (target : Bytes) (url : HttpReqUrl) :
    (∃ url', urlOf target url = .ok url') ↔ ¬ OnlyMarks target := by
  have hcmd := urlOf_cmd target url
  have hmarks : firstPiece (lastSegment target) = [] ↔ ∀ b ∈ lastSegment target, b = 63 := by
    rw [firstPiece, firstToken_eq_nil_iff]
    simp only [mark_iff]
  have hok : (∃ url', urlOf target url = .ok url') ↔
      ∃ cmd, (urlOf target url).map HttpReqUrl.cmd = .ok cmd := by
    cases urlOf target url <;> simp [Except.map]
  rw [hok, hcmd, OnlyMarks, ← hmarks]
  by_cases hseg : lastSegment target = []
  · simp [hseg]
  · by_cases hpiece : firstPiece (lastSegment target) = [] <;> simp [hseg, hpiece]

/-- Header lines never raise, however many there are. -/
theorem parseText_ok (text : Bytes) : ∀ {lineNo : ℕ} (req : HttpReq), lineNo ≠ 0 →
    ∃ found, parseText text lineNo req = .ok found := by
  induction text using pieces_induction crlf_ne_nil with
  | hlast text h =>
    intro lineNo req hno
    exact ⟨_, parseText_none (dropInfix?_none_iff.mpr h) lineNo req⟩
  | hcut text line rest hcut ih =>
    intro lineNo req hno
    by_cases hline : line = []
    · subst hline
      exact ⟨_, parseText_blank hcut lineNo req⟩
    · obtain ⟨found, hfound⟩ := ih (applyHeader req line) (Nat.succ_ne_zero lineNo)
      refine ⟨found, ?_⟩
      rw [parseText_line hcut hline, lineOf, if_neg hno, headerLine_eq, ok_bind]
      exact hfound

theorem requestOf_ok_iff (line : Bytes) (req : HttpReq) :
    (∃ req', requestOf line req = .ok req') ↔ ¬ OnlyMarks (targetOf line) := by
  have hmap : ∀ (x : Except Raise HttpReqUrl) (f : HttpReqUrl → HttpReq),
      (∃ req', x.map f = .ok req') ↔ ∃ url, x = .ok url := by
    intro x f
    cases x <;> simp [Except.map]
  rw [requestOf_eq, hmap, getElem?_words]
  by_cases htarget : targetOf line = []
  · simp [htarget, OnlyMarks, lastSegment, lastToken]
  · rw [if_neg htarget]
    exact urlOf_ok_iff (targetOf line) req.url

/-- **When the parser returns.**  Every index, every `at` and every `substr` is in range exactly
when the target of the first line does not end in a segment of question marks only. -/
theorem returns_iff (text stale : Bytes) (req : HttpReq) :
    (∃ answer, parseHttpMessage (text ++ 0 :: stale) text.length req = .ok answer) ↔
      Answerable text := by
  have hmap : (∃ answer, parseHttpMessage (text ++ 0 :: stale) text.length req = .ok answer) ↔
      ∃ found, parseText text 0 req.reset = .ok found := by
    rw [parseHttpMessage_eq]
    cases parseText text 0 req.reset <;> simp [Except.map]
  rw [hmap, Answerable]
  cases hcut : text.dropInfix? crlf with
  | none => simp [parseText_none hcut]
  | some cut =>
    obtain ⟨line, rest⟩ := cut
    simp only [Option.some.injEq, Prod.mk.injEq, and_imp]
    by_cases hline : line = []
    · subst hline
      simp [parseText_blank hcut, OnlyMarks, lastSegment, lastToken, targetOf, afterToken,
        firstToken]
    · -- line 0 decides: what comes behind it are header lines
      have hline₀ : (∃ found, parseText text 0 req.reset = .ok found) ↔
          ∃ req', requestOf line req.reset = .ok req' := by
        rw [parseText_line hcut hline, lineOf, if_pos rfl]
        cases requestOf line req.reset with
        | error e => simp
        | ok req' => simpa using parseText_ok rest req' (by omega)
      rw [hline₀, requestOf_ok_iff]
      constructor
      · rintro h _ _ rfl rfl
        exact h
      · intro h
        exact h line rest rfl rfl

/-- A browser asking for the landing page with an empty query ends the server. -/
theorem raises_on_empty_query :
    ¬ ∀ (text stale : Bytes) (req : HttpReq),
      ∃ answer, parseHttpMessage (text ++ 0 :: stale) text.length req = .ok answer := by
  intro h
  obtain ⟨answer, hanswer⟩ := h (ascii "GET /? HTTP/1.1\x0d\x0a\x0d\x0a") [] .fresh
  have hraise : parseHttpMessage (ascii "GET /? HTTP/1.1\x0d\x0a\x0d\x0a" ++ 0 :: [])
      (ascii "GET /? HTTP/1.1\x0d\x0a\x0d\x0a").length .fresh = .error .outOfRange := by
    decide
  rw [hraise] at hanswer
  exact absurd hanswer (by simp)

/-! ## 3. Path and query -/

theorem not_slash : (fun b => !(ascii "/").contains b) = fun b : UInt8 => b != 47 := by
  funext b
  by_cases hb : b = 47 <;> simp [ascii, hb]

/-- The path ends in a segment, and every `/` of the query is at its very end. -/
def PathDecides (path query : Bytes) : Prop :=
  path.rtakeWhile (· != 47) ≠ [] ∧ ∀ b ∈ query.dropWhile (· != 47), b = 47

/-- The command that `parseUrl` leaves in an empty `HttpReqUrl_t`. -/
theorem parseUrl_cmd_iff (target cmd : Bytes) :
    (∃ r, parseUrl target ⟨[], []⟩ = .ok r ∧ r.2.cmd = cmd) ↔
      if lastSegment target = [] then cmd = []
      else cmd ≠ [] ∧ firstPiece (lastSegment target) = cmd := by
  have hurl := urlOf_cmd target ⟨[], []⟩
  rw [← parseUrl_eq] at hurl
  have hmap : (∃ r, parseUrl target ⟨[], []⟩ = .ok r ∧ r.2.cmd = cmd) ↔
      ((parseUrl target ⟨[], []⟩).map Prod.snd).map HttpReqUrl.cmd = .ok cmd := by
    cases parseUrl target ⟨[], []⟩ <;> simp [Except.map]
  rw [hmap, hurl]
  by_cases hseg : lastSegment target = []
  · simp [hseg, eq_comm]
  · by_cases hpiece : firstPiece (lastSegment target) = []
    · simp only [if_neg hseg, hpiece]
      simp [eq_comm]
    · simp only [if_neg hseg, if_neg hpiece, Except.ok.injEq]
      constructor
      · rintro rfl
        exact ⟨hpiece, rfl⟩
      · exact And.right

/-- The last segment of path and query: the end of the path joined with the start of the query,
unless the query has a later segment of its own. -/
theorem lastSegment_query {path query : Bytes} (hpath : 0 ∉ path) (hquery : 0 ∉ query) :
    lastSegment (path ++ ascii "?" ++ query) =
      if lastToken (ascii "/").contains (query.dropWhile (· != 47)) = []
      then path.rtakeWhile (· != 47) ++ ascii "?" ++ query.takeWhile (· != 47)
      else lastToken (ascii "/").contains (query.dropWhile (· != 47)) := by
  have h0 : 0 ∉ path ++ ascii "?" ++ query := by
    simp [hpath, hquery, ascii]
  have hw : ∀ b ∈ path.rtakeWhile (· != 47) ++ ascii "?", (ascii "/").contains b = false := by
    intro b hb
    rcases List.mem_append.mp hb with hb | hb
    · have := List.mem_rtakeWhile_imp hb
      simpa [ascii] using this
    · have : b = 63 := by simpa [ascii] using hb
      subst this
      rfl
  rw [lastSegment, cstr_eq_self h0, List.append_assoc,
    lastToken_append_of_mem path (a := 63) (by simp [ascii]) (by rfl), ← List.append_assoc]
  simp only [not_slash]
  rw [lastToken_word_append hw]
  simp only [not_slash]

/-- A path without `?` has its last segment for a command. -/
theorem parseUrl_path_iff {path : Bytes} (hmark : 63 ∉ path) (cmd : Bytes) :
    (∃ r, parseUrl path ⟨[], []⟩ = .ok r ∧ r.2.cmd = cmd) ↔ lastSegment path = cmd := by
  have hpiece : firstPiece (lastSegment path) = lastSegment path := by
    refine firstToken_of_forall fun b hb => ?_
    have hb' : b ∈ path := (cstr_isPrefix path).subset (lastToken_subset _ hb)
    have hne : b ≠ 63 := fun e => hmark (e ▸ hb')
    simp [ascii, hne]
  rw [parseUrl_cmd_iff, hpiece]
  by_cases hseg : lastSegment path = []
  · simp [hseg, eq_comm]
  · rw [if_neg hseg]
    constructor
    · exact And.right
    · rintro rfl
      exact ⟨hseg, rfl⟩

/-- Where the path decides, the end of the path is the first piece of the joined segment. -/
theorem firstPiece_of_pathDecides {path query : Bytes} (hpath : 0 ∉ path) (hmark : 63 ∉ path)
    (hquery : 0 ∉ query) (h : PathDecides path query) :
    lastSegment (path ++ ascii "?" ++ query) ≠ [] ∧
      firstPiece (lastSegment (path ++ ascii "?" ++ query)) = lastSegment path ∧
      lastSegment path ≠ [] := by
  obtain ⟨hend, hlater⟩ := h
  have hnone : lastToken (ascii "/").contains (query.dropWhile (· != 47)) = [] := by
    rw [lastToken_eq_nil_iff]
    intro b hb
    rw [hlater b hb]
    rfl
  have hseg : lastSegment path = path.rtakeWhile (· != 47) := by
    rw [lastSegment, cstr_eq_self hpath]
    have hend' : path.rtakeWhile (fun b => !(ascii "/").contains b) ≠ [] := by
      rw [not_slash]
      exact hend
    rw [lastToken_eq_rtakeWhile hend', not_slash]
  rw [lastSegment_query hpath hquery, if_pos hnone, hseg]
  refine ⟨by simp [hend], ?_, hend⟩
  rw [List.append_assoc]
  refine firstToken_word_append hend (fun b hb => ?_) (d := 63) rfl _
  have hne : b ≠ 63 := fun e => hmark (e ▸ (List.rtakeWhile_suffix _ _).subset hb)
  simp [ascii, hne]

/-- Elsewhere the query has the last segment to itself. -/
theorem lastSegment_of_not_pathDecides {path query : Bytes} (hpath : 0 ∉ path)
    (hquery : 0 ∉ query) (h : ¬ PathDecides path query) :
    lastSegment (path ++ ascii "?" ++ query) = lastSegment (ascii "?" ++ query) ∧
      lastSegment (ascii "?" ++ query) ≠ [] := by
  have hbare := lastSegment_query (List.not_mem_nil : (0 : UInt8) ∉ []) hquery
  rw [List.nil_append] at hbare
  rw [lastSegment_query hpath hquery, hbare]
  by_cases hlater : lastToken (ascii "/").contains (query.dropWhile (· != 47)) = []
  · have hend : path.rtakeWhile (· != 47) = [] := by
      by_contra hend
      refine h ⟨hend, fun b hb => ?_⟩
      have := (lastToken_eq_nil_iff _).mp hlater b hb
      simpa [ascii] using this
    rw [if_pos hlater, if_pos hlater, hend]
    exact ⟨rfl, by simp [ascii]⟩
  · rw [if_neg hlater, if_neg hlater]
    exact ⟨rfl, hlater⟩

/-- **When the command depends on the path alone.**  The query leaves the command as it is
exactly when the path ends in a segment and every `/` of the query is at its very end, or when
the first `?` piece of the query's own last segment happens to be the path's command. -/
theorem command_of_path_iff {path query : Bytes} (hpath : Avoids [0, 32, 13, 10, 63] path)
    (hquery : Avoids [0, 32, 13, 10] query) :
    (∃ r r', parseUrl (path ++ ascii "?" ++ query) ⟨[], []⟩ = .ok r ∧
        parseUrl path ⟨[], []⟩ = .ok r' ∧ r.2.cmd = r'.2.cmd) ↔
      PathDecides path query ∨
        (lastSegment path ≠ [] ∧
          firstPiece (lastSegment (ascii "?" ++ query)) = lastSegment path) := by
  have hpath₀ : 0 ∉ path := hpath.notMem (by simp)
  have hmark : 63 ∉ path := hpath.notMem (by simp)
  have hquery₀ : 0 ∉ query := hquery.notMem (by simp)
  have hboth : (∃ r r', parseUrl (path ++ ascii "?" ++ query) ⟨[], []⟩ = .ok r ∧
        parseUrl path ⟨[], []⟩ = .ok r' ∧ r.2.cmd = r'.2.cmd) ↔
      ∃ r, parseUrl (path ++ ascii "?" ++ query) ⟨[], []⟩ = .ok r ∧ r.2.cmd = lastSegment path := by
    constructor
    · rintro ⟨r, r', hr, hr', he⟩
      exact ⟨r, hr, he.trans ((parseUrl_path_iff hmark _).mp ⟨r', hr', rfl⟩).symm⟩
    · rintro ⟨r, hr, he⟩
      obtain ⟨r', hr', he'⟩ := (parseUrl_path_iff hmark _).mpr rfl
      exact ⟨r, r', hr, hr', he.trans he'.symm⟩
  rw [hboth, parseUrl_cmd_iff]
  by_cases hdec : PathDecides path query
  · obtain ⟨hseg, hpiece, hne⟩ := firstPiece_of_pathDecides hpath₀ hmark hquery₀ hdec
    rw [if_neg hseg]
    exact ⟨fun _ => .inl hdec, fun _ => ⟨hne, hpiece⟩⟩
  · obtain ⟨hseg, hne⟩ := lastSegment_of_not_pathDecides hpath₀ hquery₀ hdec
    rw [hseg, if_neg hne]
    simp only [hdec, false_or]

/-- `/wait?id=7/` keeps its command: the `/` at the very end makes no segment. -/
theorem command_of_path_wait :
    ∃ r r', parseUrl (ascii "/wait" ++ ascii "?" ++ ascii "id=7/") ⟨[], []⟩ = .ok r ∧
      parseUrl (ascii "/wait") ⟨[], []⟩ = .ok r' ∧ r.2.cmd = r'.2.cmd :=
  (command_of_path_iff (by decide) (by decide)).mpr (.inl ⟨by decide, by decide +kernel⟩)

/-- `/wait?id=/signIn` is dispatched as `signIn`. -/
theorem command_from_query :
    ¬ ∀ path query : Bytes, Avoids [0, 32, 13, 10, 63] path → Avoids [0, 32, 13, 10] query →
      ∃ r r', parseUrl (path ++ ascii "?" ++ query) ⟨[], []⟩ = .ok r ∧
        parseUrl path ⟨[], []⟩ = .ok r' ∧ r.2.cmd = r'.2.cmd := by
  intro h
  obtain ⟨r, r', hr, hr', he⟩ := h (ascii "/wait") (ascii "id=/signIn") (by decide) (by decide)
  have hquery : parseUrl (ascii "/wait" ++ ascii "?" ++ ascii "id=/signIn") ⟨[], []⟩
      = .ok (0, ⟨ascii "signIn", []⟩) := by
    decide
  have hpath : parseUrl (ascii "/wait") ⟨[], []⟩ = .ok (0, ⟨ascii "wait", []⟩) := by
    decide
  rw [hquery] at hr
  rw [hpath] at hr'
  obtain rfl := Except.ok.inj hr
  obtain rfl := Except.ok.inj hr'
  exact absurd he (by decide)

end Reflector.Http
