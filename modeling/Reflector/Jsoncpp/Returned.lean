/-
# What the reader returns, and what becomes of it when it is written

Whatever the document, what `parse` returns has the shape of a `Json::Value` that could have been
built by hand (`parse_shaped`): its integers fit in 64 bits, signed or not, its members are in the
order of their names, each name once, and no value lies inside of a thousand others.

So a value that was read can be written, and the text is read as the same value
(`parse_writeString_parse`).  What that takes is that its strings are UTF-8: the reader lets any
byte through, and the writer puts U+FFFD in the place of what it cannot decode.  The documents are
those without comments, as a `Json` has none: nor has what is written.
-/
import Reflector.Jsoncpp.Uncommented
import Reflector.Jsoncpp.Writer

namespace Reflector.Jsoncpp

open Base Base.Grammar Signaling

/-! ## 1. One level -/

/-- One level of a value the reader returns: integers of 64 bits, and members in order. -/
def Shape (Q : Json → Prop) : Json → Prop
  | .int i => -2 ^ 63 ≤ i ∧ i < 2 ^ 64
  | .arr values => ∀ value ∈ values, Q value
  | .obj members => InOrder (members.map Prod.fst) ∧ ∀ m ∈ members, Q m.2
  | _ => True

/-- Whatever has been read has this property. -/
def Gives {α : Type} (Q : α → Prop) (x : Option α × OurReader) : Prop := ∀ a, x.1 = some a → Q a

/-- Anything may be thrown. -/
abbrev Anything : Fault → Prop := fun _ => True

/-- What is not looked at may do anything. -/
theorem ends_anything {α : Type} (x : Except Fault α) : Ends Anything (fun _ => True) x := by
  cases x <;> exact trivial

theorem gives_none {α : Type} {Q : α → Prop} (r : OurReader) : Gives Q (none, r) :=
  fun _ h => absurd h (by simp)

theorem recoverFromError_gives {α : Type} (Q : α → Prop) (r : OurReader) (type : TokenType) :
    Ends Anything (Gives Q) (r.recoverFromError type) :=
  (recoverFromError_ends r type).mono (fun _ _ => trivial) fun x hx a ha => by
    rw [hx.1] at ha
    exact absurd ha (by simp)

theorem ofNumber_shape (sscanf : Bytes → Option (Bytes × ℚ)) {Q : Json → Prop} {text : Bytes}
    {j : Json} (h : ofNumber sscanf text = some j) : Shape Q j := by
  rw [ofNumber] at h
  split at h
  case h_1 z hz =>
    obtain rfl := Option.some.inj h
    have hfits : -2 ^ 63 ≤ z ∧ z < 2 ^ 64 := of_decide_eq_true (Option.filter_eq_some_iff.mp hz).2
    exact hfits
  case h_2 =>
    obtain ⟨d, -, rfl⟩ := Option.map_eq_some_iff.mp h
    trivial

theorem decodeNumber_shape (sscanf : Bytes → Option (Bytes × ℚ)) {Q : Json → Prop} (text : Bytes) :
    Ends Anything (fun o => ∀ j, o = some j → Shape Q j) (decodeNumber sscanf text) := by
  cases text with
  | nil => exact trivial
  | cons c rest =>
    rw [decodeNumber_eq sscanf (List.cons_ne_nil c rest)]
    exact fun j hj => ofNumber_shape sscanf hj

section

variable {f : ValueReader} {Q : Json → Prop} (hf : ∀ r, Ends Anything (Gives Q) (f r))
include hf

theorem readMember_gives (r : OurReader) :
    Ends Anything (Gives fun x => Q x.1) (r.readMember f) := by
  refine (ends_anything r.readToken).bind fun ⟨colon, r₁⟩ _ => ?_
  dsimp only
  split
  case isTrue => exact recoverFromError_gives _ _ _
  case isFalse =>
    refine (hf r₁).bind fun ⟨value, r₂⟩ hvalue => ?_
    cases value with
    | none => exact recoverFromError_gives _ _ _
    | some value =>
      refine (ends_anything r₂.readToken).bind fun ⟨comma, r₃⟩ _ => ?_
      dsimp only
      split
      case isTrue => exact recoverFromError_gives _ _ _
      case isFalse =>
        refine (ends_anything (r₃.finalizeToken comma)).bind fun ⟨comma', r₄⟩ _ x hx => ?_
        obtain rfl := Option.some.inj hx
        exact hvalue value rfl

theorem readMembers_gives : ∀ (n : ℕ) (name : Bytes) (members : List (Bytes × Json))
    (r : OurReader), Shape Q (.obj members) →
    Ends Anything (Gives (Shape Q)) (OurReader.readMembers f n name members r) := by
  intro n
  induction n with
  | zero => exact fun _ _ _ _ => trivial
  | succ n ih =>
    intro name members r hmembers
    refine (ends_anything r.skipCommentTokens).bind fun ⟨tokenName, r₁⟩ _ => ?_
    dsimp only
    split
    case isTrue =>
      intro j hj
      obtain rfl := Option.some.inj hj
      exact hmembers
    split
    case isFalse => exact recoverFromError_gives _ _ _
    case isTrue =>
      refine (ends_anything (decodeString tokenName.text)).bind fun o _ => ?_
      cases o with
      | none => exact recoverFromError_gives _ _ _
      | some name' =>
        dsimp only
        split
        case isTrue => trivial
        case isFalse =>
          refine (readMember_gives hf r₁).bind fun ⟨value, r₂⟩ hvalue => ?_
          have hset : ∀ value, Q value → Shape Q (.obj (setMember name' value members)) := by
            refine fun value hq => ⟨inOrder_setMember _ _ hmembers.1, fun m hm => ?_⟩
            rcases mem_setMember hm with rfl | hm
            · exact hq
            · exact hmembers.2 m hm
          match value with
          | none => exact gives_none r₂
          | some (value, true) =>
            intro j hj
            obtain rfl := Option.some.inj hj
            exact hset value (hvalue _ rfl)
          | some (value, false) => exact ih _ _ _ (hset value (hvalue _ rfl))

theorem readElements_gives : ∀ (n : ℕ) (values : List Json) (r : OurReader),
    Shape Q (.arr values) →
    Ends Anything (Gives (Shape Q)) (OurReader.readElements f n values r) := by
  intro n
  induction n with
  | zero => exact fun _ _ _ => trivial
  | succ n ih =>
    intro values r hvalues
    refine (hf r).bind fun ⟨value, r₁⟩ hvalue => ?_
    cases value with
    | none => exact recoverFromError_gives _ _ _
    | some value =>
      have happend : Shape Q (.arr (values ++ [value])) := by
        intro v hv
        rcases List.mem_append.mp hv with hv | hv
        · exact hvalues v hv
        · rw [List.mem_singleton.mp hv]
          exact hvalue value rfl
      refine (ends_anything r₁.skipCommentTokens).bind fun ⟨currentToken, r₂⟩ _ => ?_
      dsimp only
      split
      case isTrue =>
        intro j hj
        obtain rfl := Option.some.inj hj
        exact happend
      split
      case isTrue => exact ih _ _ happend
      case isFalse => exact recoverFromError_gives _ _ _

theorem valueOf_gives (sscanf : Bytes → Option (Bytes × ℚ)) (token : Token) (r : OurReader) :
    Ends Anything (Gives (Shape Q)) (r.valueOf f sscanf token) := by
  have hread : ∀ {x : Option Json × OurReader}, Gives (Shape Q) x →
      Gives (Shape Q) (OurReader.valueRead x) := fun h => h
  unfold OurReader.valueOf
  split
  case h_1 =>
    exact (readMembers_gives hf _ [] [] r ⟨List.Pairwise.nil, by simp⟩).bind fun _ h => hread h
  case h_2 =>
    have harray : Ends Anything (Gives (Shape Q)) (r.readArray f) := by
      unfold OurReader.readArray
      dsimp only
      split
      · intro j hj
        obtain rfl := Option.some.inj hj
        exact fun _ h => absurd h (by simp)
      · exact readElements_gives hf _ _ _ fun _ h => absurd h (by simp)
    exact harray.bind fun _ h => hread h
  case h_3 => exact (decodeNumber_shape sscanf token.text).bind fun _ h => h
  case h_4 =>
    refine (ends_anything (decodeString token.text)).bind fun o _ j hj => ?_
    obtain ⟨s, -, rfl⟩ := Option.map_eq_some_iff.mp hj
    trivial
  case h_8 => exact gives_none r
  all_goals
    intro j hj
    obtain rfl := Option.some.inj hj
    trivial

end

/-! ## 2. All levels -/

/-- A value the reader can have returned: its integers have 64 bits, and its members are in
order. -/
def Shaped : ℕ → Json → Prop :=
  Throughout
    (fun
      | .int i => -2 ^ 63 ≤ i ∧ i < 2 ^ 64
      | _ => True)
    InOrder

theorem shaped_zero {j : Json} (h : Shape (fun _ => False) j) : Shaped 0 j := by
  cases j with
  | arr values => exact List.eq_nil_iff_forall_not_mem.mpr h
  | obj members => exact List.eq_nil_iff_forall_not_mem.mpr h.2
  | int => exact h
  | null | bool | real | str => trivial

theorem shaped_succ {d : ℕ} {j : Json} (h : Shape (Shaped d) j) : Shaped (d + 1) j := by
  cases j with
  | arr | obj | int => exact h
  | null | bool | real | str => trivial

theorem readValue_gives (sscanf : Bytes → Option (Bytes × ℚ)) : ∀ (room : ℕ) (r : OurReader),
    Ends Anything (Gives (Shaped room)) (readValue sscanf (room + 1) r) := by
  have hturn : ∀ (room : ℕ) {Q : Json → Prop},
      (∀ r, Ends Anything (Gives Q) (readValue sscanf room r)) →
      ∀ r, Ends Anything (Gives (Shape Q)) (readValue sscanf (room + 1) r) := by
    intro room Q hf r
    refine (ends_anything r.skipCommentTokens).bind fun ⟨token, r₁⟩ _ => ?_
    exact (ends_anything r₁.giveComments).bind fun r₂ _ => valueOf_gives hf sscanf token r₂
  intro room
  induction room with
  | zero =>
    -- no value fits inside of the last one
    have hnone : ∀ r, Ends Anything (Gives fun _ => False) (readValue sscanf 0 r) :=
      fun _ => trivial
    exact fun r => (hturn 0 hnone r).weaken fun x hx j hj => shaped_zero (hx j hj)
  | succ room ih =>
    exact fun r => (hturn (room + 1) ih r).weaken fun x hx j hj => shaped_succ (hx j hj)

/-- **What the reader returns** has its members in order and its integers in 64 bits, and no value
of it lies inside of a thousand others. -/
theorem parse_shaped (sscanf : Bytes → Option (Bytes × ℚ)) (document : Bytes) :
    Ends Anything (fun o => ∀ j, o = some j → Shaped (stackLimit - 1) j)
      (parse sscanf document) := by
  refine (readValue_gives sscanf (stackLimit - 1) ⟨document, none, []⟩).bind
    fun ⟨value, r₁⟩ hvalue => ?_
  refine (ends_anything r₁.skipCommentTokens).bind fun ⟨token, r₂⟩ _ => ?_
  exact (ends_anything r₂.giveComments).bind fun _ _ => hvalue

/-- **What becomes of a document**, whatever it is: the reader returns a value that could have been
built by hand, or none, or throws, for a quote in the document, its nesting or its size. -/
theorem parse_outcome (sscanf : Bytes → Option (Bytes × ℚ)) (document : Bytes) :
    Ends (Throws document) (fun o => ∀ j, o = some j → Shaped (stackLimit - 1) j)
      (parse sscanf document) :=
  ((parse_ends sscanf document).and (parse_shaped sscanf document)).weaken fun _ h => h.2

/-! ## 3. Reading, writing and reading again -/

/-- The strings are UTF-8, and the doubles are what `sscanf` makes of their texts. -/
def Legible (sscanf : Bytes → Option (Bytes × ℚ)) : ℕ → Json → Prop :=
  Throughout
    (fun
      | .real text q => NumberText text ∧ ofNumber sscanf text = some (.real text q)
      | .str s => Utf8 s
      | _ => True)
    (fun names => ∀ name ∈ names, Utf8 name)

theorem lasting_of_shaped {sscanf : Bytes → Option (Bytes × ℚ)} : ∀ {d : ℕ} {j : Json},
    Shaped d j → Legible sscanf d j → Lasting sscanf d j := by
  intro d
  induction d with
  | zero =>
    intro j hshaped hlegible
    cases j with
    | arr | obj | int => exact hshaped
    | null | bool => trivial
    | real | str => exact hlegible
  | succ d ih =>
    intro j hshaped hlegible
    cases j with
    | arr => exact fun value hvalue => ih (hshaped value hvalue) (hlegible value hvalue)
    | obj =>
      exact ⟨⟨hshaped.1, hlegible.1⟩, fun m hm => ih (hshaped.2 m hm) (hlegible.2 m hm)⟩
    | int => exact hshaped
    | null | bool => trivial
    | real | str => exact hlegible

/-- A document in which no comment begins, so that the values read from it have none. -/
def Uncommented : Type := { document : Bytes // uncommented document = true }

/-- **Reading, writing and reading again gives the same value**, of any document without comments;
and there are none in what is written. -/
theorem parse_writeString_parse {sscanf : Bytes → Option (Bytes × ℚ)} (document : Uncommented)
    {j : Json} (hread : parse sscanf document.1 = .ok (some j))
    (hlegible : Legible sscanf (stackLimit - 1) j) (hlen : (writeString j).length < 2 ^ 30) :
    ∃ written : Uncommented, written.1 = writeString j ∧
      parse sscanf written.1 = .ok (some j) := by
  have hshaped := (parse_shaped sscanf document.1).of_ok hread j rfl
  have hlasting := lasting_of_shaped hshaped hlegible
  have hplain : uncommented (writeString j) = true := by
    obtain ⟨w, t, heq, hw, ht⟩ := writeString_means hlasting.writable
    have htext := uncommented_text ht []
    rw [List.append_nil] at htext
    rw [heq, uncommented_append (harmless_space hw), htext]
    rfl
  exact ⟨⟨writeString j, hplain⟩, rfl, parse_writeString (by decide) hlasting hlen⟩

/-- Whether the document was read as an array of this string and these two. -/
def isSample (s : Bytes) : Except Fault (Option Json) → Bool
  | .ok (some (.arr [.str s', .int i, .bool true])) => s' = s ∧ i = -1
  | _ => false

theorem eq_of_isSample {s : Bytes} {x : Except Fault (Option Json)} (h : isSample s x = true) :
    x = .ok (some (.arr [.str s, .int (-1), .bool true])) := by
  unfold isSample at h
  split at h
  · obtain ⟨rfl, rfl⟩ := of_decide_eq_true h
    rfl
  · exact absurd h (by simp)

/-- Of UTF-8 the writer keeps every character, and what looks like a comment inside of a string. -/
theorem parse_writeString_parse_sample : ∃ written : Uncommented,
    written.1 = writeString (.arr [.str (ascii "/" ++ utf8 0xE9), .int (-1), .bool true]) ∧
      parse (fun _ => none) written.1
        = .ok (some (.arr [.str (ascii "/" ++ utf8 0xE9), .int (-1), .bool true])) := by
  have hlegible : Legible (fun _ => none) (stackLimit - 1)
      (.arr [.str (ascii "/" ++ utf8 0xE9), .int (-1), .bool true]) := by
    intro value hvalue
    rcases List.mem_cons.mp hvalue with rfl | hvalue
    · exact ⟨[0x2F, 0xE9], by decide, by decide⟩
    rcases List.mem_cons.mp hvalue with rfl | hvalue
    · trivial
    · rw [List.mem_singleton.mp hvalue]
      trivial
  have hread : parse (fun _ => none) (ascii "[\"/\\u00e9\", -1, true]")
      = .ok (some (.arr [.str (ascii "/" ++ utf8 0xE9), .int (-1), .bool true])) :=
    eq_of_isSample (by decide +kernel)
  exact parse_writeString_parse ⟨ascii "[\"/\\u00e9\", -1, true]", by decide⟩ hread hlegible
    (by decide +kernel)

end Reflector.Jsoncpp
