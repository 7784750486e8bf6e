/-
# Documents without comments

The reader takes comments, which are no JSON, and hangs them on the values they stand at, and the
writer writes them out again.  `Json` has no room for them, so it is all of a `Json::Value` only
where there are none.

A document has none if there is neither a slash nor a single quote in it outside of its strings
(`uncommented`).  Every JSON text is such a document (`uncommented_text`), and in such a document
the reader meets no token that is a comment, and gives none to a value (`readValue_bare`).  What
is left to throw for is the nesting and the size (`parse_uncommented`).
-/
import Reflector.Jsoncpp.Complete

namespace Reflector.Jsoncpp

open Base Base.Grammar Signaling

/-! ## 1. Where a comment can begin -/

/-- Outside of the strings of a document, inside of one, and there behind a backslash. -/
inductive Place
  | outside | inside | escaped
  deriving DecidableEq, Repr

def uncommentedFrom : Place → Bytes → Bool
  | _, [] => true
  | .outside, c :: rest =>
    if c = 0x22 then uncommentedFrom .inside rest
    else c ≠ 0x27 && c ≠ 0x2F && uncommentedFrom .outside rest
  | .inside, c :: rest =>
    uncommentedFrom (if c = 0x22 then .outside else if c = 0x5C then .escaped else .inside) rest
  | .escaped, _ :: rest => uncommentedFrom .inside rest

abbrev uncommented (document : Bytes) : Bool := uncommentedFrom .outside document

/-- A string is passed over. -/
theorem uncommentedFrom_inside (t : Bytes) :
    uncommentedFrom .inside t = uncommented (readString t).2 := by
  fun_induction readString t with
  | case1 => rfl
  | case2 => rfl
  | case3 c rest ih =>
    rw [← ih]
    simp [uncommentedFrom]
  | case4 rest => simp [uncommentedFrom]
  | case5 c rest h h' ih =>
    rw [← ih]
    simp [uncommentedFrom, h, h']

/-- Bytes that neither open a string nor begin a comment. -/
def Harmless (s : Bytes) : Prop := ∀ b ∈ s, b ≠ 0x22 ∧ b ≠ 0x27 ∧ b ≠ 0x2F

instance (s : Bytes) : Decidable (Harmless s) := List.decidableBAll _ s

theorem uncommented_append {s : Bytes} (hs : Harmless s) (rest : Bytes) :
    uncommented (s ++ rest) = uncommented rest := by
  induction s with
  | nil => rfl
  | cons b s ih =>
    obtain ⟨⟨hquote, hsingle, hslash⟩, hs⟩ := List.forall_mem_cons.mp hs
    simpa [uncommentedFrom, hquote, hsingle, hslash] using ih hs

theorem uncommented_cons {c : UInt8} (h : Harmless [c]) (rest : Bytes) :
    uncommented (c :: rest) = uncommented rest :=
  uncommented_append h rest

/-! ## 2. JSON has no comments -/

theorem harmless_space {w : Bytes} (hw : JsonSpace w) : Harmless w := by
  intro b hb
  rcases hw b hb with rfl | rfl | rfl | rfl <;> decide

theorem harmless_digits {d : Bytes} (hd : ∀ b ∈ d, isDigit b = true) : Harmless d := by
  intro b hb
  have hdigit := hd b hb
  refine ⟨?_, ?_, ?_⟩ <;> rintro rfl <;> exact absurd hdigit (by decide)

theorem Harmless.append {s t : Bytes} (hs : Harmless s) (ht : Harmless t) : Harmless (s ++ t) :=
  fun b hb => (List.mem_append.mp hb).elim (hs b) (ht b)

theorem harmless_number {t : Bytes} (h : NumberText t) : Harmless t := by
  obtain ⟨i, f, e, ⟨digits, hi, -, hall, -⟩, hf, he, rfl⟩ := h
  have hdigits : Harmless digits := harmless_digits fun b hb => by simpa [isDigit] using hall b hb
  refine (Harmless.append ?_ ?_).append ?_
  · rcases hi with rfl | rfl
    · exact hdigits
    · exact Harmless.append (s := [0x2D]) (by decide) hdigits
  · rcases hf with rfl | ⟨d, hd, rfl⟩
    · exact (by decide)
    · exact Harmless.append (s := [0x2E]) (by decide) (harmless_digits hd.2)
  · rcases he with rfl | ⟨m, sign, d, hm, hsign, hd, rfl⟩
    · exact (by decide)
    · have hmark : Harmless [m] := by rcases hm with rfl | rfl <;> decide
      have hplus : Harmless sign := by rcases hsign with rfl | rfl | rfl <;> decide
      exact (hmark.append hplus).append (harmless_digits hd.2)

theorem uncommented_string {t : Bytes} {s : List ℕ} (h : StringText utf8 t s) (rest : Bytes) :
    uncommented (t ++ rest) = uncommented rest := by
  obtain ⟨chars, hchars, rfl⟩ := h
  have hassoc : 0x22 :: chars ++ [0x22] ++ rest = 0x22 :: (chars ++ 0x22 :: rest) := by simp
  rw [hassoc, uncommented, uncommentedFrom, if_pos rfl, uncommentedFrom_inside,
    readString_chars hchars, readString_quote]

section

variable {P : Bytes → Value → Prop}
  (hP : ∀ t v, P t v → ∀ rest, uncommented (t ++ rest) = uncommented rest)
include hP

theorem uncommented_elements {ts : Bytes} {vs : List Value} (h : Elements P ts vs) (rest : Bytes) :
    uncommented (ts ++ rest) = uncommented rest := by
  induction h with
  | last hw ht hw' =>
    rw [List.append_assoc, List.append_assoc, uncommented_append (harmless_space hw),
      hP _ _ ht, uncommented_append (harmless_space hw')]
  | @more w t w' ts v vs hw ht hw' _ ih =>
    have hassoc : w ++ t ++ w' ++ 0x2C :: ts ++ rest
        = w ++ (t ++ (w' ++ 0x2C :: (ts ++ rest))) := by simp
    rw [hassoc, uncommented_append (harmless_space hw), hP _ _ ht,
      uncommented_append (harmless_space hw'), uncommented_cons (by decide), ih]

theorem uncommented_member {t : Bytes} {m : List ℕ × Value} (h : Member utf8 P t m)
    (rest : Bytes) : uncommented (t ++ rest) = uncommented rest := by
  obtain @⟨w₁, k, w₂, w₃, t, w₄, name, v, h₁, hk, h₂, h₃, ht, h₄⟩ := h
  have hassoc : w₁ ++ k ++ w₂ ++ 0x3A :: (w₃ ++ t ++ w₄) ++ rest
      = w₁ ++ (k ++ (w₂ ++ 0x3A :: (w₃ ++ (t ++ (w₄ ++ rest))))) := by simp
  rw [hassoc, uncommented_append (harmless_space h₁), uncommented_string hk,
    uncommented_append (harmless_space h₂), uncommented_cons (by decide),
    uncommented_append (harmless_space h₃), hP _ _ ht, uncommented_append (harmless_space h₄)]

theorem uncommented_members {ts : Bytes} {ms : List (List ℕ × Value)} (h : Members utf8 P ts ms)
    (rest : Bytes) : uncommented (ts ++ rest) = uncommented rest := by
  induction h with
  | last ht => exact uncommented_member hP ht rest
  | more ht _ ih =>
    rw [List.append_assoc, uncommented_member hP ht, List.cons_append, uncommented_cons (by decide),
      ih]

theorem uncommented_node {t : Bytes} {v : Value} (h : Node utf8 P t v) (rest : Bytes) :
    uncommented (t ++ rest) = uncommented rest := by
  cases h with
  | null | true | false => exact uncommented_append (by decide) rest
  | num ht => exact uncommented_append (harmless_number ht) rest
  | str ht => exact uncommented_string ht rest
  | emptyArr hw | emptyObj hw =>
    rw [List.append_assoc, List.cons_append, uncommented_cons (by decide),
      uncommented_append (harmless_space hw), List.singleton_append, uncommented_cons (by decide)]
  | arr hts =>
    rw [List.append_assoc, List.cons_append, uncommented_cons (by decide),
      uncommented_elements hP hts, List.singleton_append, uncommented_cons (by decide)]
  | obj hts =>
    rw [List.append_assoc, List.cons_append, uncommented_cons (by decide),
      uncommented_members hP hts, List.singleton_append, uncommented_cons (by decide)]

end

/-- **In a JSON text no comment begins.** -/
theorem uncommented_text : ∀ {d : ℕ} {t : Bytes} {v : Value}, Text utf8 d t v → ∀ rest,
    uncommented (t ++ rest) = uncommented rest := by
  intro d
  induction d with
  | zero => exact fun h => uncommented_node (fun _ _ => False.elim) h
  | succ d ih => exact fun h => uncommented_node (fun _ _ => ih) h

/-! ## 3. What the reader meets -/

/-- No comment is to come, and none is kept. -/
structure OurReader.Bare (r : OurReader) : Prop where
  current : uncommented r.current = true
  before : r.commentsBefore = []

/-- Anything but `Json::LogicError`. -/
abbrev NoLogicError : Fault → Prop := fun e => e ≠ .logicError

theorem uncommented_tail {c : UInt8} (hc : c ≠ 0x22) {rest : Bytes}
    (h : uncommented (c :: rest) = true) : uncommented rest = true := by
  rw [uncommented, uncommentedFrom, if_neg hc, Bool.and_eq_true] at h
  exact h.2

/-- What is left behind bytes that are no quotes. -/
theorem uncommented_dropWhile {p : UInt8 → Bool} (hp : p 0x22 = false) : ∀ {s : Bytes},
    uncommented s = true → uncommented (s.dropWhile p) = true
  | [], _ => rfl
  | c :: s, h => by
    rw [List.dropWhile_cons]
    split
    case isTrue hc =>
      have hne : c ≠ 0x22 := by
        rintro rfl
        exact absurd (hp.symm.trans hc) (by simp)
      exact uncommented_dropWhile hp (uncommented_tail hne h)
    case isFalse => exact h

theorem uncommented_readNumber {current : Bytes} (h : uncommented current = true) :
    uncommented (readNumber current) = true := by
  have hdigits : ∀ {s : Bytes}, uncommented s = true → uncommented (skipDigits s) = true :=
    uncommented_dropWhile (by decide)
  have hfraction : ∀ {s : Bytes}, uncommented s = true → uncommented (skipFraction s) = true := by
    intro s hs
    cases s with
    | nil => rfl
    | cons c s =>
      rw [skipFraction]
      split
      case isTrue hc => exact hdigits (uncommented_tail (by rw [hc]; decide) hs)
      case isFalse => exact hs
  have hsign : ∀ {s : Bytes}, uncommented s = true → uncommented (skipSign s) = true := by
    intro s hs
    cases s with
    | nil => rfl
    | cons c s =>
      rw [skipSign]
      split
      case isTrue hc => exact uncommented_tail (by rcases hc with rfl | rfl <;> decide) hs
      case isFalse => exact hs
  have hexponent : ∀ {s : Bytes}, uncommented s = true → uncommented (skipExponent s) = true := by
    intro s hs
    cases s with
    | nil => rfl
    | cons c s =>
      rw [skipExponent]
      split
      case isTrue hc =>
        exact hdigits (hsign (uncommented_tail (by rcases hc with rfl | rfl <;> decide) hs))
      case isFalse => exact hs
  exact hexponent (hfraction (hdigits h))

theorem uncommented_matchPattern {pattern current rest : Bytes} {ok : Bool}
    (hmatch : matchPattern pattern current = (ok, rest)) (hpattern : Harmless pattern)
    (h : uncommented current = true) : uncommented rest = true := by
  unfold matchPattern at hmatch
  split at hmatch
  case isTrue hprefix =>
    obtain ⟨s, rfl⟩ := hprefix
    obtain ⟨-, rfl⟩ := Prod.mk.inj hmatch
    rw [List.drop_left]
    rwa [uncommented_append hpattern] at h
  case isFalse =>
    obtain ⟨-, rfl⟩ := Prod.mk.inj hmatch
    exact h

theorem uncommented_scanToken {c : UInt8} {rest : Bytes} (h : uncommented (c :: rest) = true) :
    (scanToken c rest).1 ≠ .comment ∧ uncommented (scanToken c rest).2 = true := by
  have htail : c ≠ 0x22 → uncommented rest = true := fun hc => uncommented_tail hc h
  unfold scanToken
  split
  case h_5 =>
    have hstring : uncommented (readString rest).2 = true := by
      rwa [uncommented, uncommentedFrom, if_pos rfl, uncommentedFrom_inside] at h
    split
    all_goals
      rename_i hread
      rw [hread] at hstring
      exact ⟨by simp, hstring⟩
  case h_6 =>
    have hrest := htail (by decide)
    split
    case isTrue hhead =>
      obtain ⟨s, rfl⟩ := List.head?_eq_some_iff.mp hhead
      exact ⟨by simp, uncommented_tail (by decide) hrest⟩
    case isFalse => exact ⟨by simp, uncommented_readNumber hrest⟩
  case h_7 | h_8 | h_9 =>
    dsimp only
    split
    all_goals
      rename_i hmatch
      exact ⟨by simp, uncommented_matchPattern hmatch (by decide) (htail (by decide))⟩
  case h_13 =>
    have hrest := htail ‹c = 0x22 → False›
    split
    · exact ⟨by simp, uncommented_readNumber hrest⟩
    · exact ⟨by simp, hrest⟩
  all_goals exact ⟨by simp, htail (by decide)⟩

theorem readToken_bare {r : OurReader} (h : r.Bare) :
    Ends NoLogicError (fun x => x.1.type ≠ .comment ∧ x.2.Bare) r.readToken := by
  have hspaces : uncommented (skipSpaces r.current) = true :=
    uncommented_dropWhile (by decide) h.current
  unfold OurReader.readToken
  split
  case h_1 => exact ⟨by simp, rfl, h.before⟩
  case h_2 c rest heq =>
    rw [heq] at hspaces
    split
    case isTrue hc =>
      -- the document would not be without comments
      rcases hc with rfl | rfl <;> simp [uncommentedFrom] at hspaces
    case isFalse =>
      obtain ⟨htype, hrest⟩ := uncommented_scanToken hspaces
      exact ⟨htype, hrest, h.before⟩

theorem skipCommentTokens_bare {r : OurReader} (h : r.Bare) :
    Ends NoLogicError (fun x => x.1.type ≠ .comment ∧ x.2.Bare) r.skipCommentTokens := by
  refine (readToken_bare h).bind fun ⟨token, r'⟩ ⟨htype, hr'⟩ => ?_
  dsimp only at htype ⊢
  rw [if_neg htype]
  exact ⟨htype, hr'⟩

theorem recoverLoop_bare (type : TokenType) : ∀ (n : ℕ) {r : OurReader}, r.Bare →
    Ends NoLogicError OurReader.Bare (OurReader.recoverLoop type n r) := by
  intro n
  induction n with
  | zero => exact fun _ => by simp [OurReader.recoverLoop]
  | succ n ih =>
    intro r h
    refine (readToken_bare h).bind fun ⟨skip, r'⟩ ⟨_, hr'⟩ => ?_
    dsimp only
    split
    · exact hr'
    · exact ih hr'

/-- The reader comes out of it without a comment. -/
def Stays {α : Type} (x : Except Fault (Option α × OurReader)) : Prop :=
  Ends NoLogicError (fun x => x.2.Bare) x

theorem recoverFromError_stays {α : Type} {r : OurReader} (h : r.Bare) (type : TokenType) :
    Stays (r.recoverFromError (α := α) type) :=
  (recoverLoop_bare type _ h).bind fun _ h => h

theorem decodeString_noLogicError (text : Bytes) :
    Ends NoLogicError (fun _ => True) (decodeString text) := by
  by_cases hlen : 2 ≤ text.length
  · exact (decodeString_ends hlen).mono (fun _ => False.elim) fun _ _ => trivial
  · rw [decodeString, if_pos (by omega)]
    simp

theorem decodeNumber_noLogicError (sscanf : Bytes → Option (Bytes × ℚ)) (text : Bytes) :
    Ends NoLogicError (fun _ => True) (decodeNumber sscanf text) := by
  cases text with
  | nil => simp [decodeNumber, deref, bind, Except.bind]
  | cons c rest =>
    rw [decodeNumber_eq sscanf (List.cons_ne_nil c rest)]
    trivial

section

variable {f : ValueReader} (hf : ∀ {r : OurReader}, r.Bare → Stays (f r))
include hf

theorem readMember_stays {r : OurReader} (h : r.Bare) : Stays (r.readMember f) := by
  refine (readToken_bare h).bind fun ⟨colon, r₁⟩ ⟨_, h₁⟩ => ?_
  dsimp only
  split
  · exact recoverFromError_stays h₁ _
  · refine (hf h₁).bind fun ⟨value, r₂⟩ h₂ => ?_
    cases value with
    | none => exact recoverFromError_stays h₂ _
    | some value =>
      refine (readToken_bare h₂).bind fun ⟨comma, r₃⟩ ⟨htype, h₃⟩ => ?_
      dsimp only
      split
      · exact recoverFromError_stays h₃ _
      · rw [OurReader.finalizeToken, if_neg htype]
        exact h₃

theorem readMembers_stays : ∀ (n : ℕ) (name : Bytes) (members : List (Bytes × Json))
    {r : OurReader}, r.Bare → Stays (OurReader.readMembers f n name members r) := by
  intro n
  induction n with
  | zero => exact fun _ _ _ _ => by simp [Stays, OurReader.readMembers]
  | succ n ih =>
    intro name members r h
    refine (skipCommentTokens_bare h).bind fun x hx => ?_
    obtain ⟨tokenName, r₁⟩ := x
    obtain ⟨-, h₁⟩ := hx
    dsimp only
    split
    · exact h₁
    split
    · refine (decodeString_noLogicError tokenName.text).bind fun o _ => ?_
      cases o with
      | none => exact recoverFromError_stays h₁ _
      | some name' =>
        dsimp only
        split
        · simp
        · refine (readMember_stays hf h₁).bind fun x h₂ => ?_
          obtain ⟨value, r₂⟩ := x
          rcases value with _ | ⟨value, _ | _⟩
          · exact h₂
          · exact ih _ _ h₂
          · exact h₂
    · exact recoverFromError_stays h₁ _

theorem readElements_stays : ∀ (n : ℕ) (values : List Json) {r : OurReader}, r.Bare →
    Stays (OurReader.readElements f n values r) := by
  intro n
  induction n with
  | zero => exact fun _ _ _ => by simp [Stays, OurReader.readElements]
  | succ n ih =>
    intro values r h
    refine (hf h).bind fun x h₁ => ?_
    obtain ⟨value, r₁⟩ := x
    cases value with
    | none => exact recoverFromError_stays h₁ _
    | some value =>
      refine (skipCommentTokens_bare h₁).bind fun x hx => ?_
      obtain ⟨currentToken, r₂⟩ := x
      obtain ⟨-, h₂⟩ := hx
      dsimp only
      split
      · exact h₂
      split
      · exact ih _ h₂
      · exact recoverFromError_stays h₂ _

theorem valueOf_stays (sscanf : Bytes → Option (Bytes × ℚ)) (token : Token) {r : OurReader}
    (h : r.Bare) : Stays (r.valueOf f sscanf token) := by
  have hread : ∀ {x : Option Json × OurReader}, x.2.Bare → (OurReader.valueRead x).2.Bare :=
    fun h => ⟨h.current, h.before⟩
  unfold OurReader.valueOf
  split
  case h_1 => exact (readMembers_stays hf _ [] [] h).bind fun _ h => hread h
  case h_2 =>
    have hspaces : uncommented (skipSpaces r.current) = true :=
      uncommented_dropWhile (by decide) h.current
    have harray : Stays (r.readArray f) := by
      unfold OurReader.readArray
      dsimp only
      split
      case isTrue hhead =>
        obtain ⟨rest, heq⟩ := List.head?_eq_some_iff.mp hhead
        rw [heq] at hspaces ⊢
        exact ⟨uncommented_tail (by decide) hspaces, h.before⟩
      case isFalse => exact readElements_stays hf _ _ ⟨hspaces, h.before⟩
    exact harray.bind fun _ h => hread h
  case h_3 => exact (decodeNumber_noLogicError sscanf token.text).bind fun _ _ => hread h
  case h_4 => exact (decodeString_noLogicError token.text).bind fun _ _ => hread h
  case h_8 => exact h
  all_goals exact hread h

end

theorem giveComments_bare {r : OurReader} (h : r.Bare) : r.giveComments = .ok r := by
  rw [OurReader.giveComments, if_pos h.before]

/-- **No comment is met, and none is given to a value.** -/
theorem readValue_bare (sscanf : Bytes → Option (Bytes × ℚ)) : ∀ (room : ℕ) {r : OurReader},
    r.Bare → Stays (readValue sscanf room r) := by
  intro room
  induction room with
  | zero => exact fun _ => by simp [Stays, readValue]
  | succ room ih =>
    intro r h
    refine (skipCommentTokens_bare h).bind fun x hx => ?_
    obtain ⟨token, r₁⟩ := x
    obtain ⟨-, h₁⟩ := hx
    dsimp only
    rw [giveComments_bare h₁]
    exact valueOf_stays ih sscanf token h₁

/-- **What the reader throws on a document without comments for** is its nesting or its size. -/
theorem parse_uncommented (sscanf : Bytes → Option (Bytes × ℚ)) {document : Bytes}
    (h : uncommented document = true) :
    Ends (fun e => e = .runtimeError ∧
      (stackLimit ≤ opens document ∨ 2 ^ 30 ≤ document.length)) (fun _ => True)
      (parse sscanf document) := by
  have hquiet : Ends NoLogicError (fun _ => True) (parse sscanf document) := by
    have hbare : (OurReader.mk document none []).Bare := ⟨h, rfl⟩
    refine (readValue_bare sscanf stackLimit hbare).bind fun ⟨value, r₁⟩ h₁ => ?_
    refine (skipCommentTokens_bare h₁).bind fun ⟨_, r₂⟩ ⟨_, h₂⟩ => ?_
    dsimp only
    rw [giveComments_bare h₂]
    trivial
  cases hparse : parse sscanf document with
  | ok => trivial
  | error e =>
    rcases (parse_ends sscanf document).of_error hparse with ⟨rfl, -⟩ | hsize
    · exact absurd rfl (hquiet.of_error hparse)
    · exact hsize

end Reflector.Jsoncpp
