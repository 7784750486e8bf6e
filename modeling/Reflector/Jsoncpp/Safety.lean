/-
# What the reader does with any document

The reader is handed whatever a client sends.  For every document (`readValue_ends`, and
`parse_ends` for the whole of it):

* it ends.  The loops are given turns enough, as each turn leaves less of the document, and the
  recursion ends at the stack limit;
* it stays inside: no load at the end of the document or of a token is reached;
* it throws for two reasons only.  `Json::LogicError` comes out of `setComment`, and takes a
  single quote, which the token switch takes for the start of a comment.  `Json::RuntimeError`
  takes as many opening brackets as the stack has room for values, or a name of `2 ^ 30` bytes.

One relation carries all of it: `Onward`, from the state before a call to the state after.
-/
import Reflector.Base.Outcome
import Reflector.Jsoncpp.Reader

namespace Reflector.Jsoncpp

open Base Signaling

/-! ## 1. Scanning leaves a suffix -/

theorem skipSpaces_suffix (current : Bytes) : skipSpaces current <:+ current :=
  List.dropWhile_suffix _

theorem skipDigits_suffix (current : Bytes) : skipDigits current <:+ current :=
  List.dropWhile_suffix _

theorem matchPattern_suffix {pattern current rest : Bytes} {ok : Bool}
    (h : matchPattern pattern current = (ok, rest)) : rest <:+ current := by
  unfold matchPattern at h
  split at h
  · obtain ⟨-, rfl⟩ := Prod.mk.inj h
    exact List.drop_suffix _ _
  · obtain ⟨-, rfl⟩ := Prod.mk.inj h
    exact List.suffix_refl _

theorem skipFraction_suffix (current : Bytes) : skipFraction current <:+ current := by
  unfold skipFraction
  split
  · exact List.suffix_refl _
  · split
    · exact (skipDigits_suffix _).trans (List.suffix_cons _ _)
    · exact List.suffix_refl _

theorem skipSign_suffix (current : Bytes) : skipSign current <:+ current := by
  unfold skipSign
  split
  · exact List.suffix_refl _
  · split
    · exact List.suffix_cons _ _
    · exact List.suffix_refl _

theorem skipExponent_suffix (current : Bytes) : skipExponent current <:+ current := by
  unfold skipExponent
  split
  · exact List.suffix_refl _
  · split
    · exact (skipDigits_suffix _).trans ((skipSign_suffix _).trans (List.suffix_cons _ _))
    · exact List.suffix_refl _

theorem readNumber_suffix (current : Bytes) : readNumber current <:+ current :=
  (skipExponent_suffix _).trans ((skipFraction_suffix _).trans (skipDigits_suffix _))

/-- What a string leaves; a closing quote is behind it if there is one. -/
theorem readString_suffix : ∀ current : Bytes, (readString current).2 <:+ current ∧
    ((readString current).1 = true → (readString current).2.length < current.length) := by
  intro current
  fun_induction readString current with
  | case1 => simp
  | case2 => simp
  | case3 c rest ih =>
    refine ⟨ih.1.trans ((List.suffix_cons _ _).trans (List.suffix_cons _ _)), fun h => ?_⟩
    have := ih.2 h
    simp only [List.length_cons]
    omega
  | case4 rest => exact ⟨List.suffix_cons _ _, fun _ => by simp⟩
  | case5 c rest _ _ ih =>
    refine ⟨ih.1.trans (List.suffix_cons _ _), fun h => ?_⟩
    have := ih.2 h
    simp only [List.length_cons]
    omega

theorem scanToken_suffix (c : UInt8) (rest : Bytes) : (scanToken c rest).2 <:+ rest := by
  unfold scanToken
  split
  case h_5 =>
    have h := (readString_suffix rest).1
    split <;> simp_all
  case h_6 =>
    split
    · exact List.tail_suffix _
    · exact readNumber_suffix _
  case h_7 | h_8 | h_9 =>
    dsimp only
    split
    · exact matchPattern_suffix ‹_›
    · exact matchPattern_suffix ‹_›
  case h_13 =>
    split
    · exact readNumber_suffix _
    · exact List.suffix_refl _
  all_goals exact List.suffix_refl _

theorem readCStyleComment_suffix : ∀ current : Bytes, (readCStyleComment current).2 <:+ current
  | [] => List.suffix_refl _
  | [_] => List.nil_suffix
  | c :: next :: rest => by
    rw [readCStyleComment]
    split
    · exact (List.suffix_cons _ _).trans (List.suffix_cons _ _)
    · exact (readCStyleComment_suffix (next :: rest)).trans (List.suffix_cons _ _)

theorem readCppStyleComment_suffix : ∀ current : Bytes, readCppStyleComment current <:+ current
  | [] => List.suffix_refl _
  | c :: rest => by
    rw [readCppStyleComment]
    split
    · exact List.suffix_cons _ _
    · split
      · split
        · exact (List.tail_suffix _).trans (List.suffix_cons _ _)
        · exact List.suffix_cons _ _
      · exact (readCppStyleComment_suffix rest).trans (List.suffix_cons _ _)

theorem scanComment_suffix (c : UInt8) (rest : Bytes) : (scanComment c rest).2 <:+ rest := by
  unfold scanComment
  split
  · exact readCStyleComment_suffix _
  · split
    · exact readCppStyleComment_suffix _
    · exact List.suffix_refl _

/-! ## 2. Decoding stays inside the token -/

theorem length_codePointToUTF8_le (cp : ℕ) : (codePointToUTF8 cp).length ≤ 4 := by
  unfold codePointToUTF8
  repeat' split
  all_goals simp

/-- Nothing is thrown. -/
abbrev Nothing : Fault → Prop := fun _ => False

theorem deref_ends {current : Bytes} (h : current ≠ []) :
    Ends Nothing (fun x => current = x.1 :: x.2) (deref current) := by
  cases current with
  | nil => exact absurd rfl h
  | cons b rest => exact rfl

theorem hexLoop_ends : ∀ (n unicode : ℕ) (current : Bytes), n ≤ current.length →
    Ends Nothing (fun o => ∀ x, o = some x → x.2.length + n = current.length)
      (hexLoop n unicode current) := by
  intro n
  induction n with
  | zero =>
    rintro unicode current - x hx
    obtain rfl := Option.some.inj hx
    rfl
  | succ n ih =>
    intro unicode current hn
    refine (deref_ends (List.ne_nil_of_length_pos (by omega))).bind fun ⟨c, rest⟩ hcut => ?_
    dsimp only at hcut ⊢
    rw [hcut, List.length_cons] at hn ⊢
    cases hexDigit c with
    | none => exact fun x hx => absurd hx (by simp)
    | some d => exact (ih _ rest (by omega)).weaken fun o ho x hx => by have := ho x hx; omega

theorem decodeUnicodeEscapeSequence_ends (current : Bytes) :
    Ends Nothing (fun o => ∀ x, o = some x → x.2.length + 4 = current.length)
      (decodeUnicodeEscapeSequence current) := by
  unfold decodeUnicodeEscapeSequence
  split
  · exact fun x hx => absurd hx (by simp)
  · exact hexLoop_ends 4 0 current (by omega)

theorem decodeUnicodeCodePoint_ends (current : Bytes) :
    Ends Nothing (fun o => ∀ x, o = some x → x.2.length + 4 ≤ current.length)
      (decodeUnicodeCodePoint current) := by
  have hnone : ∀ x : ℕ × Bytes, none = some x → x.2.length + 4 ≤ current.length :=
    fun x hx => absurd hx (by simp)
  refine (decodeUnicodeEscapeSequence_ends current).bind fun o ho => ?_
  cases o with
  | none => exact hnone
  | some x =>
    obtain ⟨unicode, rest⟩ := x
    have hlen : rest.length + 4 = current.length := ho _ rfl
    dsimp only
    split
    · split
      · exact hnone
      · -- six more characters are there: the two that are loaded here, and four
        refine (deref_ends (List.ne_nil_of_length_pos (by omega))).bind fun ⟨b, rest₁⟩ h₁ => ?_
        dsimp only at h₁ ⊢
        have hlen₁ := congrArg List.length h₁
        rw [List.length_cons] at hlen₁
        split
        · refine (deref_ends (List.ne_nil_of_length_pos (by omega))).bind fun ⟨u, rest₂⟩ h₂ => ?_
          dsimp only at h₂ ⊢
          have hlen₂ := congrArg List.length h₂
          rw [List.length_cons] at hlen₂
          split
          · refine (decodeUnicodeEscapeSequence_ends rest₂).bind fun o ho => ?_
            cases o with
            | none => exact hnone
            | some y =>
              intro x hx
              obtain rfl := Option.some.inj hx
              have := ho _ rfl
              dsimp only at this ⊢
              omega
          · exact hnone
        · exact hnone
    · intro x hx
      obtain rfl := Option.some.inj hx
      dsimp only
      omega

/-- A decoded string is no longer than its text. -/
theorem decodeStringLoop_ends : ∀ (n : ℕ) (decoded current : Bytes), current.length < n →
    Ends Nothing (fun o => ∀ s, o = some s → s.length ≤ decoded.length + current.length)
      (decodeStringLoop n decoded current) := by
  intro n
  induction n with
  | zero => exact fun _ _ h => absurd h (by omega)
  | succ n ih =>
    intro decoded current hn
    have hnone : ∀ s : Bytes, none = some s → s.length ≤ decoded.length + current.length :=
      fun x hx => absurd hx (by simp)
    have hdone : ∀ s : Bytes, some decoded = some s →
        s.length ≤ decoded.length + current.length := by
      intro s hs
      obtain rfl := Option.some.inj hs
      omega
    -- what a turn adds is no longer than what it takes
    have hturn : ∀ (more rest : Bytes), more.length + rest.length ≤ current.length →
        rest.length < n →
        Ends Nothing (fun o => ∀ s, o = some s → s.length ≤ decoded.length + current.length)
          (decodeStringLoop n (decoded ++ more) rest) := by
      intro more rest hmore hrest
      refine (ih _ rest hrest).weaken fun o ho s hs => ?_
      have := ho s hs
      rw [List.length_append] at this
      omega
    cases current with
    | nil => exact hdone
    | cons c current =>
      rw [List.length_cons] at hn
      unfold decodeStringLoop
      dsimp only
      split
      · exact hdone
      · split
        · cases current with
          | nil => exact hnone
          | cons escape current =>
            rw [List.length_cons] at hn
            dsimp only
            split
            · exact hturn _ _ (by simp only [List.length_cons, List.length_nil]; omega) (by omega)
            · split
              · refine (decodeUnicodeCodePoint_ends current).bind fun o ho => ?_
                cases o with
                | none => exact hnone
                | some x =>
                  have := ho x rfl
                  have := length_codePointToUTF8_le x.1
                  exact hturn _ _ (by simp only [List.length_cons]; omega) (by omega)
              · exact hnone
        · exact hturn _ _ (by simp; omega) (by omega)

theorem decodeString_ends {text : Bytes} (h : 2 ≤ text.length) :
    Ends Nothing (fun o => ∀ s, o = some s → s.length ≤ text.length) (decodeString text) := by
  rw [decodeString, if_neg (by omega)]
  refine (decodeStringLoop_ends _ [] _ (by omega)).weaken fun o ho s hs => ?_
  have := ho s hs
  simp only [List.length_nil, List.length_dropLast, List.length_drop] at this
  omega

theorem decodeNumber_ends (sscanf : Bytes → Option (Bytes × ℚ)) {text : Bytes} (h : text ≠ []) :
    Ends Nothing (fun _ => True) (decodeNumber sscanf text) := by
  refine (deref_ends h).bind fun x _ => ?_
  dsimp only
  split <;> exact trivial

/-! ## 3. From state to state -/

/-- A single quote is still to come, or a comment that does not begin with a slash is kept. -/
def OurReader.Quoted (r : OurReader) : Prop :=
  0x27 ∈ r.current ∨ ∃ c, r.commentsBefore.head? = some c ∧ c ≠ 0x2F

/-- From one state of the reader to a later one. -/
structure Onward (r r' : OurReader) : Prop where
  suffix : r'.current <:+ r.current
  quoted : r'.Quoted → r.Quoted

theorem Onward.refl (r : OurReader) : Onward r r := ⟨List.suffix_refl _, id⟩

theorem Onward.trans {r r' r'' : OurReader} (h : Onward r r') (h' : Onward r' r'') :
    Onward r r'' :=
  ⟨h'.suffix.trans h.suffix, fun hq => h.quoted (h'.quoted hq)⟩

theorem Onward.length_le {r r' : OurReader} (h : Onward r r') :
    r'.current.length ≤ r.current.length :=
  h.suffix.length_le

/-- Only the text has moved on. -/
theorem onward_current {r : OurReader} {current : Bytes} (h : current <:+ r.current) :
    Onward r { r with current := current } :=
  ⟨h, fun hq => hq.imp_left (h.subset ·)⟩

/-- `lastValueEnd_` is not looked at. -/
theorem Onward.valueRead {r : OurReader} {x : Option Json × OurReader} (h : Onward r x.2) :
    Onward r (OurReader.valueRead x).2 :=
  ⟨h.suffix, h.quoted⟩

/-- What `setComment` throws. -/
def Scolds (r : OurReader) (e : Fault) : Prop := e = .logicError ∧ r.Quoted

theorem Scolds.of_onward {r r' : OurReader} (h : Onward r r') {e : Fault} (he : Scolds r' e) :
    Scolds r e :=
  ⟨he.1, h.quoted he.2⟩

/-- A comment that begins with a slash is taken. -/
theorem setComment_slash {comment : Bytes} (h : comment.head? = some 0x2F) :
    setComment comment = .ok () := by
  obtain ⟨c, rest, rfl⟩ := List.exists_cons_of_ne_nil (l := comment) (by rintro rfl; simp at h)
  obtain rfl : c = 0x2F := by simpa using h
  unfold setComment
  split
  case h_1 heq =>
    -- a line feed at the end is not the slash
    split at heq
    · cases rest with
      | nil => simp at *
      | cons d rest => simp at heq
    · simp at heq
  case h_2 c' rest' heq =>
    have hc : c' = 0x2F := by
      split at heq
      · cases rest with
        | nil => simp at *
        | cons d rest =>
          rw [List.dropLast_cons_cons] at heq
          exact (List.cons.inj heq).1.symm
      · exact (List.cons.inj heq).1.symm
    rw [if_pos (.inr hc)]

/-- `setComment` only ever throws the one error. -/
theorem setComment_ends (comment : Bytes) :
    Ends (fun e => e = .logicError) (fun _ => True) (setComment comment) := by
  unfold setComment
  split
  · exact rfl
  · split
    · exact trivial
    · exact rfl

theorem head?_normalizeEOL {c : UInt8} (hc : c ≠ 0x0D) (rest : Bytes) :
    (normalizeEOL (c :: rest)).head? = some c := by
  cases rest <;> simp [normalizeEOL, hc]

/-- What stands between a location and a later one. -/
@[simp] theorem between_append (text finish : Bytes) : between (text ++ finish) finish = text := by
  simp [between]

theorem between_cons {c : UInt8} {rest finish : Bytes} (h : finish <:+ rest) :
    between (c :: rest) finish = c :: between rest finish := by
  obtain ⟨text, rfl⟩ := h
  rw [← List.cons_append, between_append, between_append]

theorem length_between_le (start finish : Bytes) : (between start finish).length ≤ start.length :=
  List.length_take_le' _ _

theorem length_between {start finish : Bytes} (h : finish <:+ start) :
    (between start finish).length + finish.length = start.length := by
  obtain ⟨text, rfl⟩ := h
  rw [between_append, List.length_append]

/-- `addComment`, of a comment that begins with a slash or lies behind a quote. -/
theorem addComment_ends {r r' : OurReader} (honward : Onward r r') {comment : Bytes}
    (h : comment.head? = some 0x2F ∨ r.Quoted) (afterOnSameLine : Bool) :
    Ends (Scolds r) (fun x => Onward r x ∧ x.current = r'.current)
      (r'.addComment comment afterOnSameLine) := by
  have hhead : comment.head? = some 0x2F → (normalizeEOL comment).head? = some 0x2F := by
    intro hc
    cases comment with
    | nil => simp at hc
    | cons c rest =>
      obtain rfl : c = 0x2F := by simpa using hc
      exact head?_normalizeEOL (by decide) rest
  unfold OurReader.addComment
  split
  · rcases h with hc | hq
    · rw [setComment_slash (hhead hc)]
      exact ⟨honward, rfl⟩
    · exact (setComment_ends _).mono (fun e he => ⟨he, hq⟩) (fun _ _ => trivial) |>.bind
        fun _ _ => ⟨honward, rfl⟩
  · refine ⟨⟨honward.suffix, fun hq' => ?_⟩, rfl⟩
    rcases h with hc | hq
    · rcases hq' with hin | ⟨c, hfirst, hne⟩
      · exact honward.quoted (.inl hin)
      · -- the first comment kept is the one that was kept before, if there was one
        cases hbefore : r'.commentsBefore with
        | nil =>
          dsimp only at hfirst
          rw [hbefore, List.nil_append, hhead hc] at hfirst
          exact absurd (Option.some.inj hfirst).symm hne
        | cons b before =>
          refine honward.quoted (.inr ⟨b, by rw [hbefore]; rfl, ?_⟩)
          dsimp only at hfirst
          rw [hbefore] at hfirst
          obtain rfl : b = c := Option.some.inj hfirst
          exact hne
    · exact hq

/-- `readComment`, behind the character that led to it. -/
theorem readComment_ends {r : OurReader} {c : UInt8} {rest : Bytes} (hc : c = 0x27 ∨ c = 0x2F)
    (h : c :: rest <:+ r.current) :
    Ends (Scolds r) (fun x => Onward r x.2 ∧ x.2.current <:+ rest)
      (OurReader.readComment { r with current := rest } (c :: rest)) := by
  have hrest : rest <:+ r.current := (List.suffix_cons _ _).trans h
  cases rest with
  | nil => exact ⟨onward_current hrest, List.suffix_refl _⟩
  | cons d rest' =>
    obtain ⟨successful, rest'', hscan⟩ : ∃ successful rest'',
        scanComment d rest' = (successful, rest'') := ⟨_, _, rfl⟩
    have hsuffix : rest'' <:+ d :: rest' := by
      have := scanComment_suffix d rest'
      rw [hscan] at this
      exact this.trans (List.suffix_cons _ _)
    have honward : Onward r { r with current := rest'' } := onward_current (hsuffix.trans hrest)
    unfold OurReader.readComment
    dsimp only
    rw [hscan]
    dsimp only
    split
    · refine (addComment_ends honward ?_ _).bind fun r'' hr'' => ⟨hr''.1, ?_⟩
      · rcases hc with rfl | rfl
        · exact .inr (.inl (h.subset (by simp)))
        · exact .inl (by rw [between_cons hsuffix]; rfl)
      · rw [hr''.2]
        exact hsuffix
    · exact ⟨honward, hsuffix⟩

/-- The brackets that open a value, in what is left. -/
def opens (current : Bytes) : ℕ := current.countP fun c => c = 0x7B || c = 0x5B

theorem opens_le_of_suffix {s t : Bytes} (h : s <:+ t) : opens s ≤ opens t :=
  h.sublist.countP_le

/-- A token has been read. -/
structure Read (r : OurReader) (token : Token) (r' : OurReader) : Prop where
  onward : Onward r r'
  text : token.text.length ≤ r.current.length
  shorter : token.type ≠ .endOfStream → r'.current.length < r.current.length
  string : token.type = .string → 2 ≤ token.text.length
  number : token.type = .number → token.text ≠ []
  opens : token.type = .objectBegin ∨ token.type = .arrayBegin →
    opens r'.current < opens r.current

/-- What the type of a scanned token says about its text. -/
theorem scanToken_type (c : UInt8) (rest : Bytes) :
    ((scanToken c rest).1 = .string → (scanToken c rest).2.length < rest.length) ∧
      ((scanToken c rest).1 = .objectBegin ∨ (scanToken c rest).1 = .arrayBegin →
        (scanToken c rest).2 = rest ∧ (c = 0x7B ∨ c = 0x5B)) := by
  unfold scanToken
  split
  case h_5 =>
    have h := (readString_suffix rest).2
    split <;> simp_all
  case h_6 => split <;> simp
  case h_7 | h_8 | h_9 =>
    dsimp only
    split <;> simp
  case h_13 => split <;> simp
  all_goals simp

theorem readToken_ends (r : OurReader) :
    Ends (Scolds r) (fun x => Read r x.1 x.2) r.readToken := by
  have hspaces := skipSpaces_suffix r.current
  unfold OurReader.readToken
  cases hcurrent : skipSpaces r.current with
  | nil =>
    exact ⟨onward_current List.nil_suffix, by simp, by simp, by simp, by simp, by simp⟩
  | cons c rest =>
    rw [hcurrent] at hspaces
    have hlen := hspaces.length_le
    have htext := fun finish => (length_between_le (c :: rest) finish).trans hlen
    rw [List.length_cons] at hlen
    dsimp only
    split
    case isTrue hc =>
      refine (readComment_ends hc hspaces).bind fun ⟨ok, r'⟩ hr' => ?_
      have hshort := hr'.2.length_le
      dsimp only at hr' hshort ⊢
      refine ⟨hr'.1, htext _, fun _ => by dsimp only; omega, ?_, ?_, ?_⟩ <;> cases ok <;> simp
    case isFalse =>
      have hsuffix := scanToken_suffix c rest
      have htype := scanToken_type c rest
      have hshort := hsuffix.length_le
      refine ⟨onward_current (hsuffix.trans ((List.suffix_cons _ _).trans hspaces)),
        htext _, fun _ => by dsimp only; omega, fun hs => ?_, fun _ => ?_, fun ho => ?_⟩
      · have hlt := htype.1 hs
        have := length_between (hsuffix.trans (List.suffix_cons c rest))
        rw [List.length_cons] at this
        dsimp only
        omega
      · dsimp only
        rw [between_cons hsuffix]
        exact List.cons_ne_nil _ _
      · obtain ⟨hrest, hbracket⟩ := htype.2 ho
        refine Nat.lt_of_lt_of_le ?_ (opens_le_of_suffix hspaces)
        dsimp only
        rw [hrest]
        rcases hbracket with rfl | rfl <;> simp [Jsoncpp.opens]

/-! ## 4. Loops -/

/-- The same, seen from an earlier state. -/
theorem Read.behind {r r' r'' : OurReader} {token : Token} (h : Onward r r')
    (hread : Read r' token r'') : Read r token r'' where
  onward := h.trans hread.onward
  text := hread.text.trans h.length_le
  shorter ht := (hread.shorter ht).trans_le h.length_le
  string := hread.string
  number := hread.number
  opens ht := (hread.opens ht).trans_le (opens_le_of_suffix h.suffix)

theorem skipCommentTokens_ends (r : OurReader) :
    Ends (Scolds r) (fun x => Read r x.1 x.2) r.skipCommentTokens := by
  refine Ends.loop _ (Onward r) (fun r' => r'.current.length) ?_ _ r (.refl r) (Nat.lt_succ_self _)
  intro n r' hr' hn again
  refine ((readToken_ends r').mono (fun _ => Scolds.of_onward hr') fun _ => id).bind
    fun ⟨token, r''⟩ hread => ?_
  dsimp only at hread ⊢
  split
  case isTrue hcomment =>
    have := hread.shorter (by rw [hcomment]; decide)
    exact again r'' (hr'.trans hread.onward) (by omega)
  case isFalse => exact hread.behind hr'

/-- What every recovery comes to: a refusal, further on. -/
theorem recoverFromError_ends {α : Type} (r : OurReader) (skipUntilToken : TokenType) :
    Ends (Scolds r) (fun x : Option α × OurReader => x.1 = none ∧ Onward r x.2)
      (r.recoverFromError skipUntilToken) := by
  have hloop : Ends (Scolds r) (Onward r)
      (OurReader.recoverLoop skipUntilToken (r.current.length + 1) r) := by
    refine Ends.loop _ (Onward r) (fun r' => r'.current.length) ?_ _ r (.refl r)
      (Nat.lt_succ_self _)
    intro n r' hr' hn again
    refine ((readToken_ends r').mono (fun _ => Scolds.of_onward hr') fun _ => id).bind
      fun ⟨skip, r''⟩ hread => ?_
    dsimp only at hread ⊢
    split
    case isTrue => exact hr'.trans hread.onward
    case isFalse hgo =>
      have := hread.shorter fun h => hgo (.inr h)
      exact again r'' (hr'.trans hread.onward) (by omega)
  exact hloop.bind fun r' hr' => ⟨rfl, hr'⟩

theorem giveComments_ends (r : OurReader) :
    Ends (Scolds r) (fun r' => Onward r r' ∧ r'.current = r.current) r.giveComments := by
  unfold OurReader.giveComments
  split
  case isTrue => exact ⟨.refl r, rfl⟩
  case isFalse hne =>
    have honward : Onward r { r with commentsBefore := [] } :=
      ⟨List.suffix_refl _, fun hq => hq.elim .inl fun ⟨c, hc, _⟩ => absurd hc (by simp)⟩
    obtain ⟨c, before, hbefore⟩ := List.exists_cons_of_ne_nil hne
    by_cases hc : c = 0x2F
    · rw [setComment_slash (by rw [hbefore, hc]; rfl)]
      exact ⟨honward, rfl⟩
    · have hq : r.Quoted := .inr ⟨c, by rw [hbefore]; rfl, hc⟩
      exact ((setComment_ends _).mono (fun e he => ⟨he, hq⟩) fun _ => id).bind
        fun _ _ => ⟨honward, rfl⟩

/-! ## 5. Values -/

/-- Why the reader throws, with room for this many values on the stack. -/
def Cause (room : ℕ) (r : OurReader) (e : Fault) : Prop :=
  Scolds r e ∨ e = .runtimeError ∧ (room ≤ opens r.current ∨ 2 ^ 30 ≤ r.current.length)

theorem Cause.of_onward {room : ℕ} {r r' : OurReader} (h : Onward r r') {e : Fault}
    (he : Cause room r' e) : Cause room r e := by
  refine he.imp (Scolds.of_onward h) fun ⟨he, hwhy⟩ => ⟨he, hwhy.imp (fun hr => ?_) fun hl => ?_⟩
  · exact hr.trans (opens_le_of_suffix h.suffix)
  · exact hl.trans h.length_le

/-- Behind an opening bracket there is one room less, and one bracket less. -/
theorem Cause.of_opens {room : ℕ} {r r' : OurReader} (h : Onward r r')
    (ho : opens r'.current < opens r.current) {e : Fault} (he : Cause room r' e) :
    Cause (room + 1) r e := by
  refine he.imp (Scolds.of_onward h) fun ⟨he, hwhy⟩ => ⟨he, hwhy.imp (fun hr => ?_) fun hl => ?_⟩
  · omega
  · exact hl.trans h.length_le

/-- Something has been read: further on if it was not refused. -/
def Advanced {α : Type} (r : OurReader) (x : Option α × OurReader) : Prop :=
  Onward r x.2 ∧ (x.1.isSome → x.2.current.length < r.current.length)

theorem Advanced.behind {α : Type} {r r' : OurReader} (h : Onward r r') {x : Option α × OurReader}
    (hx : Advanced r' x) : Advanced r x :=
  ⟨h.trans hx.1, fun hs => (hx.2 hs).trans_le h.length_le⟩

section

variable {room : ℕ} {f : ValueReader} (hf : ∀ r, Ends (Cause room r) (Advanced r) (f r))

/-- A refusal, from a later state. -/
theorem refused {α : Type} {r r' : OurReader} (h : Onward r r') (skipUntilToken : TokenType) :
    Ends (Cause room r) (Advanced r) (r'.recoverFromError skipUntilToken :
      Except Fault (Option α × OurReader)) :=
  (recoverFromError_ends r' skipUntilToken).mono (fun _ he => .inl (he.of_onward h))
    fun x ⟨hnone, hx⟩ => ⟨h.trans hx, fun hs => by rw [hnone] at hs; exact absurd hs (by simp)⟩

include hf

theorem readMember_ends (r : OurReader) :
    Ends (Cause room r) (Advanced r) (r.readMember f) := by
  refine ((readToken_ends r).mono (fun _ => .inl) fun _ => id).bind fun ⟨colon, r₁⟩ h₁ => ?_
  dsimp only at h₁ ⊢
  split
  case isTrue => exact refused h₁.onward _
  case isFalse hcolon =>
    have hcolon : colon.type = .memberSeparator := not_not.mp hcolon
    have hshort := h₁.shorter (by rw [hcolon]; decide)
    refine ((hf r₁).mono (fun _ => Cause.of_onward h₁.onward) fun _ => id).bind
      fun ⟨value, r₂⟩ h₂ => ?_
    have honward : Onward r r₂ := h₁.onward.trans h₂.1
    cases value with
    | none => exact refused honward _
    | some value =>
      dsimp only
      refine ((readToken_ends r₂).mono (fun _ he => .inl (he.of_onward honward)) fun _ => id).bind
        fun ⟨comma, r₃⟩ h₃ => ?_
      dsimp only at h₃ ⊢
      have honward₃ := honward.trans h₃.onward
      have hle := h₃.onward.length_le
      have hle₂ := h₂.1.length_le
      dsimp only at hle₂
      split
      case isTrue => exact refused honward₃ _
      case isFalse =>
        have hcomma : Ends (Scolds r₃) (fun x => Onward r₃ x.2) (r₃.finalizeToken comma) := by
          unfold OurReader.finalizeToken
          split
          · exact (skipCommentTokens_ends r₃).weaken fun _ h => h.onward
          · exact Onward.refl r₃
        refine (hcomma.mono (fun _ he => .inl (he.of_onward honward₃)) fun _ => id).bind
          fun ⟨comma', r₄⟩ h₄ => ⟨honward₃.trans h₄, fun _ => ?_⟩
        have := h₄.length_le
        dsimp only at this ⊢
        omega

theorem readObject_ends (r : OurReader) :
    Ends (Cause room r) (fun x => Onward r x.2) (r.readObject f) := by
  refine Ends.loop (σ := Bytes × List (Bytes × Json) × OurReader)
    (fun n s => OurReader.readMembers f n s.1 s.2.1 s.2.2)
    (fun s => Onward r s.2.2) (fun s => s.2.2.current.length) ?_ _ ([], [], r) (.refl r)
    (Nat.lt_succ_self _)
  rintro n ⟨name, members, r₀⟩ (h₀ : Onward r r₀) hn again
  dsimp only at hn
  show Ends _ _ (OurReader.readMembers f (n + 1) name members r₀)
  refine ((skipCommentTokens_ends r₀).mono (fun _ he => .inl (he.of_onward h₀)) fun _ => id).bind
    fun ⟨tokenName, r₁⟩ h₁ => ?_
  dsimp only at h₁ ⊢
  have honward : Onward r r₁ := h₀.trans h₁.onward
  have hrefused : ∀ r', Onward r r' → Ends (Cause room r) (fun x => Onward r x.2)
      (r'.recoverFromError .objectEnd : Except Fault (Option Json × OurReader)) :=
    fun r' h => (refused h _).weaken fun _ hx => hx.1
  split
  case isTrue => exact honward
  split
  case isFalse => exact hrefused _ honward
  case isTrue hstring =>
    have hshort := h₁.shorter (by rw [hstring]; decide)
    have htwo := h₁.string hstring
    refine ((decodeString_ends htwo).mono (fun _ => False.elim) fun _ => id).bind fun o ho => ?_
    cases o with
    | none => exact hrefused _ honward
    | some name' =>
      dsimp only
      split
      case isTrue hlong =>
        -- the name is no longer than the text it was decoded from
        have hname := ho _ rfl
        have htext := h₁.text
        have hle := h₀.length_le
        exact .inr ⟨rfl, .inr (by omega)⟩
      case isFalse =>
        refine ((readMember_ends hf r₁).mono (fun _ => Cause.of_onward honward) fun _ => id).bind
          fun ⟨value, r₂⟩ h₂ => ?_
        have honward₂ := honward.trans h₂.1
        have hle := h₂.1.length_le
        dsimp only at hle
        match value with
        | none => exact honward₂
        | some (value, true) => exact honward₂
        | some (value, false) => exact again (_, _, r₂) honward₂ (by dsimp only; omega)

theorem readArray_ends (r : OurReader) :
    Ends (Cause room r) (fun x => Onward r x.2) (r.readArray f) := by
  have hspaces : Onward r { r with current := skipSpaces r.current } :=
    onward_current (skipSpaces_suffix _)
  unfold OurReader.readArray
  dsimp only
  split
  case isTrue => exact onward_current ((List.tail_suffix _).trans (skipSpaces_suffix _))
  case isFalse =>
    refine Ends.loop (σ := List Json × OurReader)
      (fun n s => OurReader.readElements f n s.1 s.2)
      (fun s => Onward r s.2) (fun s => s.2.current.length) ?_ _ ([], _) hspaces
      (Nat.lt_succ_self _)
    rintro n ⟨values, r₀⟩ (h₀ : Onward r r₀) hn again
    dsimp only at hn
    show Ends _ _ (OurReader.readElements f (n + 1) values r₀)
    refine ((hf r₀).mono (fun _ => Cause.of_onward h₀) fun _ => id).bind fun ⟨value, r₁⟩ h₁ => ?_
    have honward : Onward r r₁ := h₀.trans h₁.1
    have hrefused : ∀ r', Onward r r' → Ends (Cause room r) (fun x => Onward r x.2)
        (r'.recoverFromError .arrayEnd : Except Fault (Option Json × OurReader)) :=
      fun r' h => (refused h _).weaken fun _ hx => hx.1
    cases value with
    | none => exact hrefused _ honward
    | some value =>
      have hshort := h₁.2 rfl
      refine ((skipCommentTokens_ends r₁).mono (fun _ he => .inl (he.of_onward honward))
        fun _ => id).bind fun ⟨currentToken, r₂⟩ h₂ => ?_
      dsimp only at h₂ hshort ⊢
      have honward₂ := honward.trans h₂.onward
      have hle := h₂.onward.length_le
      split
      · exact honward₂
      · split
        · exact again (_, r₂) honward₂ (by dsimp only; omega)
        · exact hrefused _ honward₂

end

/-- **Reading a value ends, inside the document, and throws for two reasons only.** -/
theorem readValue_ends (sscanf : Bytes → Option (Bytes × ℚ)) : ∀ (room : ℕ) (r : OurReader),
    Ends (Cause room r) (Advanced r) (readValue sscanf room r) := by
  intro room
  induction room with
  | zero => exact fun r => .inr ⟨rfl, .inl (Nat.zero_le _)⟩
  | succ room ih =>
    intro r
    refine ((skipCommentTokens_ends r).mono (fun _ => .inl) fun _ => id).bind
      fun ⟨token, r₁⟩ h₁ => ?_
    dsimp only at h₁ ⊢
    refine ((giveComments_ends r₁).mono (fun _ he => .inl (he.of_onward h₁.onward))
      fun _ => id).bind fun r₂ ⟨h₂, hcurrent⟩ => ?_
    have honward : Onward r r₂ := h₁.onward.trans h₂
    have hshort : token.type ≠ .endOfStream → r₂.current.length < r.current.length := by
      rw [hcurrent]
      exact h₁.shorter
    -- what a token makes a value of by itself
    have hscalar : token.type ≠ .endOfStream → ∀ value : Option Json,
        Advanced r (OurReader.valueRead (value, r₂)) :=
      fun ht value => ⟨honward.valueRead, fun _ => hshort ht⟩
    have hdecoded : token.type ≠ .endOfStream → ∀ {α : Type} {p : α → Prop} {x : Except Fault α}
        (g : α → Option Json), Ends Nothing p x →
        Ends (Cause (room + 1) r) (Advanced r)
          (x >>= fun a => .ok (OurReader.valueRead (g a, r₂))) :=
      fun ht _ _ _ g hx => (hx.mono (fun _ => False.elim) fun _ => id).bind
        fun a _ => hscalar ht (g a)
    have hnested : (token.type = .objectBegin ∨ token.type = .arrayBegin) →
        ∀ {x : Except Fault (Option Json × OurReader)},
        Ends (Cause room r₂) (fun x => Onward r₂ x.2) x →
        Ends (Cause (room + 1) r) (Advanced r) (x >>= fun a => .ok (OurReader.valueRead a)) := by
      intro ht x hx
      have hopens := h₁.opens ht
      rw [← hcurrent] at hopens
      refine (hx.mono (fun _ => Cause.of_opens honward hopens) fun _ => id).bind
        fun a ha => ⟨(honward.trans ha).valueRead, fun _ => ?_⟩
      exact ha.length_le.trans_lt (hshort (by rcases ht with ht | ht <;> rw [ht] <;> decide))
    unfold OurReader.valueOf
    split
    case h_1 ht => exact hnested (.inl ht) (readObject_ends ih r₂)
    case h_2 ht => exact hnested (.inr ht) (readArray_ends ih r₂)
    case h_3 ht =>
      exact hdecoded (by rw [ht]; decide) _ (decodeNumber_ends sscanf (h₁.number ht))
    case h_4 ht =>
      exact hdecoded (by rw [ht]; decide) _ (decodeString_ends (h₁.string ht))
    case h_5 ht => exact hscalar (by rw [ht]; decide) _
    case h_6 ht => exact hscalar (by rw [ht]; decide) _
    case h_7 ht => exact hscalar (by rw [ht]; decide) _
    case h_8 => exact ⟨honward, fun hs => absurd hs (by simp)⟩

/-- Before the first token no comment is kept. -/
theorem quoted_start {document : Bytes} :
    (OurReader.mk document none []).Quoted ↔ 0x27 ∈ document := by
  simp [OurReader.Quoted]

/-- Why the reader throws on a document. -/
def Throws (document : Bytes) (e : Fault) : Prop :=
  e = .logicError ∧ 0x27 ∈ document ∨
    e = .runtimeError ∧ (stackLimit ≤ opens document ∨ 2 ^ 30 ≤ document.length)

/-- **Every document is read to an end**, without a load outside it; what is thrown is
`Json::LogicError`, for a single quote, or `Json::RuntimeError`, for its nesting or its size. -/
theorem parse_ends (sscanf : Bytes → Option (Bytes × ℚ)) (document : Bytes) :
    Ends (Throws document) (fun _ => True) (parse sscanf document) := by
  have hcause : ∀ e, Cause stackLimit ⟨document, none, []⟩ e → Throws document e :=
    fun e he => he.imp_left fun ⟨he, hq⟩ => ⟨he, quoted_start.mp hq⟩
  refine ((readValue_ends sscanf stackLimit _).mono hcause fun _ => id).bind
    fun ⟨value, r₁⟩ h₁ => ?_
  refine ((skipCommentTokens_ends r₁).mono (fun e he => hcause e (.inl (he.of_onward h₁.1)))
    fun _ => id).bind fun ⟨token, r₂⟩ h₂ => ?_
  dsimp only at h₁ h₂ ⊢
  exact ((giveComments_ends r₂).mono
    (fun e he => hcause e (.inl (he.of_onward (h₁.1.trans h₂.onward)))) fun _ => id).bind
    fun _ _ => trivial

end Reflector.Jsoncpp
