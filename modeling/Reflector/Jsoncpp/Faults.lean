/-
# Documents that throw

The two reasons of `parse_ends` are real.

* More than a thousand values one inside the other.  Of the JSON documents the reader takes
  exactly those it has room for (`parse_document`).  What is opened need not be closed, and need
  not be JSON further on (`parse_deep`): a thousand and one bytes are enough, `[` each.
* A comment that begins with a single quote, in front of the value (`parse_quote`).  `readToken`
  has no case of its own for the quote when `allowSingleQuotes_` is off: it falls through to
  the slash, `readComment` looks at the character behind it only, and `Value::setComment` then
  refuses the comment it is given.  Two bytes are enough: a quote and a slash.
-/
import Reflector.Jsoncpp.Complete

namespace Reflector.Jsoncpp

open Base Base.Grammar Signaling

/-! ## 1. Nesting -/

/-- What opens a value inside of another: an array, or an object with the name of its first
member. -/
inductive Opening : Bytes → Prop
  | array : Opening [0x5B]
  | object {w k w' : Bytes} {name : List ℕ} (hw : JsonSpace w) (hk : StringText utf8 k name)
      (hw' : JsonSpace w') : Opening (0x7B :: w ++ k ++ w' ++ [0x3A])

/-- That many openings, with white space in front of each, and anything behind the last. -/
inductive Nested : ℕ → Bytes → Prop
  | behind (rest : Bytes) : Nested 0 rest
  | opening {n : ℕ} {w o t : Bytes} (hw : JsonSpace w) (ho : Opening o) (ht : Nested n t) :
      Nested (n + 1) (w ++ o ++ t)

theorem Opening.head {o : Bytes} (h : Opening o) :
    ∃ c o', o = c :: o' ∧ isBlank c = false ∧ c ≠ 0x5D := by
  cases h with
  | array => exact ⟨0x5B, [], rfl, by decide⟩
  | object => exact ⟨0x7B, _, rfl, by decide⟩

/-- The white space in front of the first opening can be left out. -/
theorem Nested.skipSpaces {n : ℕ} {t : Bytes} (h : Nested (n + 1) t) :
    Nested (n + 1) (skipSpaces t) ∧ (Jsoncpp.skipSpaces t).head? ≠ some 0x5D := by
  cases h with
  | @opening _ w o t hw ho ht =>
    obtain ⟨c, o', rfl, hblank, hne⟩ := ho.head
    rw [List.append_assoc, List.cons_append, skipSpaces_append hw hblank, ← List.cons_append]
    exact ⟨.opening (w := []) jsonSpace_nil ho ht, by simpa using hne⟩

section

variable (sscanf : Bytes → Option (Bytes × ℚ))

/-- The name of a member is read, or is too long. -/
theorem readMembers_name {f : ValueReader} {w k rest : Bytes} {name : List ℕ} (hw : JsonSpace w)
    (hk : StringText utf8 k name) (n : ℕ) (before : Bytes) (members : List (Bytes × Json))
    (last : Option Bytes) {e : Fault}
    (hmember : OurReader.readMember f ⟨rest, last, []⟩ = .error e) :
    OurReader.readMembers f (n + 1) before members ⟨w ++ k ++ rest, last, []⟩ = .error e ∨
      OurReader.readMembers f (n + 1) before members ⟨w ++ k ++ rest, last, []⟩
        = .error .runtimeError := by
  have hdecode := decodeString_text hk
  have htoken := skipCommentTokens_name hw hk rest last
  rw [OurReader.readMembers, htoken]
  dsimp only [bind, Except.bind]
  rw [if_neg (by simp), if_pos rfl, hdecode]
  dsimp only
  split
  · exact .inr rfl
  · rw [hmember]
    exact .inl rfl

/-- **Too many values one inside the other.** -/
theorem readValue_nested : ∀ {room n : ℕ} {t : Bytes}, room < n → Nested n t →
    ∀ last, readValue sscanf room ⟨t, last, []⟩ = .error .runtimeError := by
  intro room
  induction room with
  | zero => exact fun _ _ _ => rfl
  | succ room ih =>
    intro n t hn h last
    obtain ⟨n, rfl⟩ := Nat.exists_eq_add_of_lt (Nat.lt_of_le_of_lt (Nat.zero_le _) hn)
    rw [zero_add] at h
    cases h with
    | @opening _ w o t hw ho ht =>
      cases ho with
      | array =>
        obtain ⟨n, rfl⟩ := Nat.exists_eq_add_of_lt (by omega : 0 < n)
        rw [zero_add] at ht
        have hread := ih (by omega) ht.skipSpaces.1 last
        rw [List.append_assoc, List.singleton_append,
          readValue_of_token hw (by decide) (scanToken_arrayBegin _) (by decide) last]
        dsimp only [OurReader.valueOf]
        rw [OurReader.readArray]
        dsimp only
        rw [if_neg ht.skipSpaces.2, OurReader.readElements, hread]
        rfl
      | @object w₁ k w₂ name hw₁ hk hw₂ =>
        have hread := ih (by omega) ht last
        have hmember : OurReader.readMember (readValue sscanf room) ⟨w₂ ++ 0x3A :: t, last, []⟩
            = .error .runtimeError := by
          rw [OurReader.readMember, readToken_scan hw₂ (by decide) (scanToken_colon t) last []]
          dsimp only [bind, Except.bind]
          rw [if_neg (by decide), hread]
        have hmembers := readMembers_name hw₁ hk ((w₁ ++ k ++ (w₂ ++ 0x3A :: t)).length) [] [] last
          hmember
        rw [or_self] at hmembers
        have hassoc : w ++ (0x7B :: w₁ ++ k ++ w₂ ++ [0x3A]) ++ t
            = w ++ 0x7B :: (w₁ ++ k ++ (w₂ ++ 0x3A :: t)) := by simp
        rw [hassoc, readValue_of_token hw (by decide) (scanToken_objectBegin _) (by decide) last]
        dsimp only [OurReader.valueOf, OurReader.readObject]
        rw [hmembers]
        rfl

/-- **A document that opens more than a thousand values throws**, whatever follows. -/
theorem parse_deep {n : ℕ} (hn : stackLimit < n) {document : Bytes} (h : Nested n document) :
    parse sscanf document = .error .runtimeError := by
  rw [parse, readValue_nested sscanf hn h none]
  rfl

end

/-! ## 2. JSON that is nested too deep -/

section

variable {sscanf : Bytes → Option (Bytes × ℚ)}

/-- Any JSON text. -/
def AnyText (t : Bytes) (v : Value) : Prop := ∃ d, Text utf8 d t v

theorem AnyText.starts {t : Bytes} {v : Value} (h : AnyText t v) : Starts t :=
  h.elim fun _ h => h.starts

/-- `f` throws on this text, wherever it stands. -/
def Refuses (f : ValueReader) (t : Bytes) : Prop :=
  ∀ w rest last, JsonSpace w → Stops rest → (w ++ t ++ rest).length < 2 ^ 30 →
    f ⟨w ++ t ++ rest, last, []⟩ = .error .runtimeError

/-- A `sscanf` that goes by what a number is worth: `double` is the double next to it. -/
def byWorth (double : Bool × ℚ → Bytes × ℚ) (t : Bytes) : Option (Bytes × ℚ) :=
  some (double (worth t))

/-- Every text has a value, if every number has; and what is no number does not matter. -/
theorem AnyText.value {double : Bool × ℚ → Bytes × ℚ}
    (hscan : ∀ t, NumberText t → sscanf t = byWorth double t) {t : Bytes} {v : Value}
    (h : AnyText t v) : ∃ j, ofValue sscanf v = some j ∧ ofValue (byWorth double) v = some j := by
  have hturn : ∀ {P : Bytes → Value → Prop} {t : Bytes} {v : Value},
      (∀ t v, P t v → ∃ j, ofValue sscanf v = some j ∧ ofValue (byWorth double) v = some j) →
      Node utf8 P t v →
      ∃ j, ofValue sscanf v = some j ∧ ofValue (byWorth double) v = some j := by
    intro P t v hP ht
    have helements : ∀ {ts vs}, Elements P ts vs →
        ∃ js, ofValues sscanf vs = some js ∧ ofValues (byWorth double) vs = some js := by
      intro ts vs hts
      induction hts with
      | last _ ht _ =>
        obtain ⟨j, hj, hj'⟩ := hP _ _ ht
        exact ⟨[j], by simp [ofValues, hj], by simp [ofValues, hj']⟩
      | more _ ht _ _ ih =>
        obtain ⟨j, hj, hj'⟩ := hP _ _ ht
        obtain ⟨js, hjs, hjs'⟩ := ih
        exact ⟨j :: js, by simp [ofValues, hj, hjs], by simp [ofValues, hj', hjs']⟩
    have hmembers : ∀ {ts ms}, Members utf8 P ts ms → ∀ before,
        ∃ members, ofMembers sscanf ms before = some members ∧
          ofMembers (byWorth double) ms before = some members := by
      intro ts ms hts
      induction hts with
      | last ht =>
        obtain @⟨_, _, _, _, _, _, name, v, _, _, _, _, ht, _⟩ := ht
        obtain ⟨j, hj, hj'⟩ := hP _ _ ht
        exact fun before => ⟨setMember (name.flatMap utf8) j before, by simp [ofMembers, hj],
          by simp [ofMembers, hj']⟩
      | more ht _ ih =>
        obtain @⟨_, _, _, _, _, _, name, v, _, _, _, _, ht, _⟩ := ht
        obtain ⟨j, hj, hj'⟩ := hP _ _ ht
        intro before
        obtain ⟨members, hms, hms'⟩ := ih (setMember (name.flatMap utf8) j before)
        exact ⟨members, by simp [ofMembers, hj, hms], by simp [ofMembers, hj', hms']⟩
    cases ht with
    | null | true | false => exact ⟨_, rfl, rfl⟩
    | num ht =>
      rw [ofValue, ofValue, ofNumber, ofNumber, hscan _ ht]
      cases (integerOf t).filter fun z => -2 ^ 63 ≤ z ∧ z < 2 ^ 64 with
      | none => exact ⟨_, rfl, rfl⟩
      | some z => exact ⟨_, rfl, rfl⟩
    | str | emptyArr | emptyObj => exact ⟨_, rfl, rfl⟩
    | arr hts =>
      obtain ⟨js, hjs, hjs'⟩ := helements hts
      exact ⟨.arr js, by rw [ofValue, hjs]; rfl, by rw [ofValue, hjs']; rfl⟩
    | obj hts =>
      obtain ⟨members, hms, hms'⟩ := hmembers hts []
      exact ⟨.obj members, by rw [ofValue, hms]; rfl, by rw [ofValue, hms']; rfl⟩
  obtain ⟨d, h⟩ := h
  induction d generalizing t v with
  | zero => exact hturn (fun _ _ => False.elim) h
  | succ d ih => exact hturn (fun _ _ => ih) h

variable {f : ValueReader} {room : ℕ}
  (hvalue : ∀ t v, AnyText t v → ∃ j, ofValue sscanf v = some j)
  (hshallow : ∀ t v j, AnyText t v → v.depth < room → ofValue sscanf v = some j → Reads f t j)
  (hdeep : ∀ t v, AnyText t v → room ≤ v.depth → Refuses f t)

section

include hdeep


theorem readMember_deep {w₂ w₃ t w₄ : Bytes} {v : Value} (h₂ : JsonSpace w₂) (h₃ : JsonSpace w₃)
    (ht : AnyText t v) (h₄ : JsonSpace w₄) (hdepth : room ≤ v.depth) {closer : UInt8}
    (hcloser : closer = 0x7D ∨ closer = 0x2C) (rest : Bytes) (last : Option Bytes)
    (hlen : (w₂ ++ 0x3A :: (w₃ ++ t ++ w₄) ++ closer :: rest).length < 2 ^ 30) :
    OurReader.readMember f ⟨w₂ ++ 0x3A :: (w₃ ++ t ++ w₄) ++ closer :: rest, last, []⟩
      = .error .runtimeError := by
  have hread := hdeep t v ht hdepth
  have hassoc : w₂ ++ 0x3A :: (w₃ ++ t ++ w₄) ++ closer :: rest
      = w₂ ++ 0x3A :: (w₃ ++ t ++ (w₄ ++ closer :: rest)) := by simp
  rw [hassoc, OurReader.readMember,
    readToken_scan h₂ (by decide) (scanToken_colon (w₃ ++ t ++ (w₄ ++ closer :: rest))) last []]
  dsimp only [bind, Except.bind]
  rw [if_neg (by decide), hread w₃ _ last h₃
    (stops_append h₄ (stops_cons (by rcases hcloser with rfl | rfl <;> simp)))
    (by simp only [List.length_append, List.length_cons] at hlen ⊢; omega)]

/-- A turn of the loop of `readObject` whose value is too deep. -/
theorem readMembers_turn_deep {t : Bytes} {name : List ℕ} {v : Value}
    (h : Member utf8 AnyText t (name, v)) (hdepth : room ≤ v.depth) {closer : UInt8}
    (hcloser : closer = 0x7D ∨ closer = 0x2C) (rest : Bytes) (last : Option Bytes)
    (hlen : (t ++ closer :: rest).length < 2 ^ 30) (n : ℕ) (before : Bytes)
    (members : List (Bytes × Json)) :
    OurReader.readMembers f (n + 1) before members ⟨t ++ closer :: rest, last, []⟩
      = .error .runtimeError := by
  obtain @⟨w₁, k, w₂, w₃, t, w₄, _, _, h₁, hk, h₂, h₃, ht, h₄⟩ := h
  have hmember := readMember_deep hdeep h₂ h₃ ht h₄ hdepth hcloser rest last
    (by simp only [List.length_append, List.length_cons] at hlen ⊢; omega)
  have hname := readMembers_name h₁ hk n before members last hmember
  rw [or_self] at hname
  have hassoc : w₁ ++ k ++ w₂ ++ 0x3A :: (w₃ ++ t ++ w₄) ++ closer :: rest
      = w₁ ++ k ++ (w₂ ++ 0x3A :: (w₃ ++ t ++ w₄) ++ closer :: rest) := by simp
  rw [hassoc]
  exact hname

end

section

include hvalue hshallow hdeep

theorem readElements_deep {ts : Bytes} {vs : List Value} (h : Elements AnyText ts vs) :
    ∀ (n : ℕ) (values : List Json) (rest : Bytes) (last : Option Bytes), room < depths vs →
      ts.length < n → (ts ++ 0x5D :: rest).length < 2 ^ 30 →
      OurReader.readElements f n values ⟨ts ++ 0x5D :: rest, last, []⟩ = .error .runtimeError := by
  induction h with
  | @last w t w' v hw ht hw' =>
    intro n values rest last hover hn hlen
    obtain ⟨n, rfl⟩ := Nat.exists_eq_add_of_lt (Nat.lt_of_le_of_lt (Nat.zero_le _) hn)
    have hread := hdeep t v ht (by simp only [depths] at hover; omega)
    rw [zero_add, List.append_assoc, OurReader.readElements, hread w (w' ++ 0x5D :: rest) last hw
      (stops_append hw' (stops_cons (.inr (.inr (.inl rfl))))) (by simpa using hlen)]
    rfl
  | @more w t w' ts v vs hw ht hw' _ ih =>
    intro n values rest last hover hn hlen
    obtain ⟨n, rfl⟩ := Nat.exists_eq_add_of_lt (Nat.lt_of_le_of_lt (Nat.zero_le _) hn)
    simp only [List.length_append, List.length_cons] at hn hlen
    have hstops : Stops (w' ++ 0x2C :: (ts ++ 0x5D :: rest)) :=
      stops_append hw' (stops_cons (.inr (.inl rfl)))
    have hsize : (w ++ t ++ (w' ++ 0x2C :: (ts ++ 0x5D :: rest))).length < 2 ^ 30 := by
      simp
      omega
    have hassoc : w ++ t ++ w' ++ 0x2C :: ts ++ 0x5D :: rest
        = w ++ t ++ (w' ++ 0x2C :: (ts ++ 0x5D :: rest)) := by simp
    rw [zero_add, hassoc, OurReader.readElements]
    by_cases hdepth : v.depth < room
    · -- this element is read, and a later one is too deep
      obtain ⟨j, hj⟩ := hvalue t v ht
      rw [hshallow t v j ht hdepth hj w _ last hw hstops hsize]
      dsimp only [bind, Except.bind]
      rw [skipCommentTokens_scan hw' (by decide) (scanToken_comma (ts ++ 0x5D :: rest)) (by decide)]
      dsimp only
      rw [if_neg (by decide), if_pos rfl]
      exact ih n _ rest _ (by simp only [depths] at hover; omega) (by omega)
        (by simp only [List.length_append, List.length_cons]; omega)
    · rw [hdeep t v ht (by omega) w _ last hw hstops hsize]
      rfl

theorem readMembers_deep {ts : Bytes} {ms : List (List ℕ × Value)}
    (h : Members utf8 AnyText ts ms) :
    ∀ (n : ℕ) (before : Bytes) (members : List (Bytes × Json)) (rest : Bytes)
      (last : Option Bytes), room < memberDepths ms → ts.length < n →
      (ts ++ 0x7D :: rest).length < 2 ^ 30 →
      OurReader.readMembers f n before members ⟨ts ++ 0x7D :: rest, last, []⟩
        = .error .runtimeError := by
  induction h with
  | @last t m ht =>
    intro n before members rest last hover hn hlen
    obtain ⟨name, v⟩ := m
    obtain ⟨n, rfl⟩ := Nat.exists_eq_add_of_lt (Nat.lt_of_le_of_lt (Nat.zero_le _) hn)
    exact readMembers_turn_deep hdeep ht (by simp only [memberDepths] at hover; omega) (.inl rfl)
      rest last hlen _ before members
  | @more t ts m ms ht _ ih =>
    intro n before members rest last hover hn hlen
    obtain ⟨name, v⟩ := m
    obtain ⟨n, rfl⟩ := Nat.exists_eq_add_of_lt (Nat.lt_of_le_of_lt (Nat.zero_le _) hn)
    simp only [List.length_append, List.length_cons] at hn hlen
    have hlen' : (t ++ 0x2C :: (ts ++ 0x7D :: rest)).length < 2 ^ 30 := by
      simp only [List.length_append, List.length_cons]
      omega
    have hassoc : t ++ 0x2C :: ts ++ 0x7D :: rest = t ++ 0x2C :: (ts ++ 0x7D :: rest) := by simp
    rw [hassoc]
    by_cases hdepth : v.depth < room
    · -- this member is read, and a later one is too deep
      obtain ⟨j, hj⟩ : ∃ j, ofValue sscanf v = some j := by
        obtain ⟨_, _, _, _, ht, _⟩ := ht
        exact hvalue _ v ht
      have hreads : ∀ t, AnyText t v → Reads f t j := fun t ht => hshallow t v j ht hdepth hj
      obtain ⟨last', hturn⟩ := readMembers_turn (ht.mono hreads) (.inr rfl) (ts ++ 0x7D :: rest)
        last hlen' (0 + n) before members
      rw [hturn, if_neg (by decide)]
      exact ih _ _ _ rest last' (by simp only [memberDepths] at hover; omega) (by omega)
        (by simp only [List.length_append, List.length_cons]; omega)
    · exact readMembers_turn_deep hdeep ht (by omega) (.inr rfl) (ts ++ 0x7D :: rest) last hlen' _
        before members

end

end

/-- **A JSON text is read as what it means if there is room for its values, and throws if there is
not.** -/
theorem readValue_deep {sscanf : Bytes → Option (Bytes × ℚ)} {double : Bool × ℚ → Bytes × ℚ}
    (hscan : ∀ t, NumberText t → sscanf t = byWorth double t) :
    ∀ {room : ℕ} {t : Bytes} {v : Value},
    AnyText t v → room ≤ v.depth → Refuses (readValue sscanf room) t := by
  intro room
  induction room with
  | zero => exact fun _ _ _ _ _ _ _ _ => rfl
  | succ room ih =>
    intro t v h hdepth w rest last hw hrest hlen
    have hvalue : ∀ t v, AnyText t v → ∃ j, ofValue sscanf v = some j := fun _ _ h =>
      (h.value hscan).imp fun _ hj => hj.1
    have hshallow : ∀ t v j, AnyText t v → v.depth < room → ofValue sscanf v = some j →
        Reads (readValue sscanf room) t j :=
      fun t v j h hd hj => h.elim fun _ h => readValue_text h.at_depth hj hd
    have hnode : Node utf8 AnyText t v := by
      obtain ⟨d, h⟩ := h
      cases d with
      | zero => exact Node.mono h fun _ _ => False.elim
      | succ d => exact Node.mono h fun _ _ h => ⟨d, h⟩
    have hsize := hlen
    simp only [List.length_append] at hsize
    cases hnode with
    | @arr ts vs hts =>
      -- the elements are read where the white space in front of them ends
      obtain ⟨ts', hts', hskip, hhead, hle⟩ := elements_skipSpaces
        (fun _ _ => AnyText.starts) hts rest
      have hread := readElements_deep hvalue hshallow (fun _ _ => ih) hts'
        ((ts' ++ 0x5D :: rest).length + 1) [] rest last hdepth
        (by simp only [List.length_append]; omega)
        (by simp only [List.length_append, List.length_cons] at hsize ⊢; omega)
      have hassoc : w ++ (0x5B :: ts ++ [0x5D]) ++ rest
          = w ++ 0x5B :: (ts ++ 0x5D :: rest) := by simp
      rw [hassoc, readValue_of_token hw (by decide) (scanToken_arrayBegin _) (by decide) last]
      dsimp only [OurReader.valueOf, OurReader.readArray]
      rw [hskip, if_neg hhead, hread]
      rfl
    | @obj ts ms hts =>
      have hread := readMembers_deep hvalue hshallow (fun _ _ => ih) hts
        ((ts ++ 0x7D :: rest).length + 1) [] [] rest last hdepth
        (by simp only [List.length_append]; omega)
        (by simp only [List.length_append, List.length_cons] at hsize ⊢; omega)
      have hassoc : w ++ (0x7B :: ts ++ [0x7D]) ++ rest
          = w ++ 0x7B :: (ts ++ 0x7D :: rest) := by simp
      rw [hassoc, readValue_of_token hw (by decide) (scanToken_objectBegin _) (by decide) last]
      dsimp only [OurReader.valueOf, OurReader.readObject]
      rw [hread]
      rfl
    | null | true | false | num | str | emptyArr | emptyObj =>
      simp [Value.depth, depths, memberDepths] at hdepth

/-- **Of the JSON documents, the reader takes those it has room for**, and gives what they mean,
their numbers by what they are worth; on every other one it throws. -/
theorem parse_document {sscanf : Bytes → Option (Bytes × ℚ)} {double : Bool × ℚ → Bytes × ℚ}
    (hscan : ∀ t, NumberText t → sscanf t = byWorth double t) {w t w' : Bytes} {v : Value}
    (hw : JsonSpace w) (ht : AnyText t v) (hw' : JsonSpace w')
    (hlen : (w ++ t ++ w').length < 2 ^ 30) :
    parse sscanf (w ++ t ++ w')
      = if v.depth < stackLimit then .ok (ofValue (byWorth double) v)
        else .error .runtimeError := by
  split
  case isTrue hroom =>
    obtain ⟨j, hj, hj'⟩ := ht.value hscan
    obtain ⟨d, ht⟩ := ht
    rw [hj', parse_text hroom ht.at_depth hj hw hw' hlen]
  case isFalse hroom =>
    rw [parse, readValue_deep hscan ht (Nat.le_of_not_lt hroom) w w' none hw
      (fun c hc => .inl (isBlank_of_space hw' c (List.mem_of_mem_head? hc))) hlen]
    rfl

/-- The doubles next to one and a half, and to the first integer that does not fit in 64 bits. -/
def sampleDouble (x : Bool × ℚ) : Bytes × ℚ :=
  if x = (false, 3 / 2) then (ascii "1.5", 3 / 2)
  else if x = (false, 2 ^ 64) then (ascii "1.8446744073709552e+19", 2 ^ 64)
  else (ascii "0.0", 0)

/-- An integer, and two numbers that are read as doubles. -/
theorem parse_document_sample :
    parse (byWorth sampleDouble) ([0x20] ++ ascii "[-7,1.5,18446744073709551616]" ++ [])
      = .ok (some (.arr [.int (-7), .real (ascii "1.5") (3 / 2),
          .real (ascii "1.8446744073709552e+19") (2 ^ 64)])) := by
  have hint : JsonInt (ascii "-7") ∧ JsonInt (ascii "1") ∧ JsonInt (ascii "18446744073709551616") :=
    ⟨⟨ascii "7", .inr rfl, by decide, by decide +kernel, by decide⟩,
      ⟨ascii "1", .inl rfl, by decide, by decide +kernel, by decide⟩,
      ⟨ascii "18446744073709551616", .inl rfl, by decide, by decide +kernel, by decide⟩⟩
  have hfraction : Fraction (ascii ".5") :=
    .inr ⟨ascii "5", ⟨by decide, by decide +kernel⟩, rfl⟩
  have hseven : NumberText (ascii "-7") := ⟨_, [], [], hint.1, .inl rfl, .inl rfl, rfl⟩
  have hhalf : NumberText (ascii "1.5") :=
    ⟨ascii "1", ascii ".5", [], hint.2.1, hfraction, .inl rfl, rfl⟩
  have hlarge : NumberText (ascii "18446744073709551616") :=
    ⟨_, [], [], hint.2.2, .inl rfl, .inl rfl, rfl⟩
  have hmember : ∀ {t}, NumberText t → Text utf8 0 t (.num t) := fun h => Node.num h
  have helements := Elements.more jsonSpace_nil (hmember hseven) jsonSpace_nil
    (Elements.more jsonSpace_nil (hmember hhalf) jsonSpace_nil
      (Elements.last jsonSpace_nil (hmember hlarge) jsonSpace_nil))
  have ht : AnyText (ascii "[-7,1.5,18446744073709551616]")
      (.arr [.num (ascii "-7"), .num (ascii "1.5"), .num (ascii "18446744073709551616")]) :=
    ⟨1, Node.arr helements⟩
  have hvalue₁ : ofNumber (byWorth sampleDouble) (ascii "-7") = some (.int (-7)) := rfl
  have hvalue₂ : ofNumber (byWorth sampleDouble) (ascii "1.5")
      = some (.real (ascii "1.5") (3 / 2)) := by
    have hworth : worth (ascii "1.5") = (false, 3 / 2) := by decide +kernel
    have hnone : integerOf (ascii "1.5") = none := by decide
    rw [ofNumber, hnone, byWorth, hworth, sampleDouble, if_pos rfl]
    rfl
  have hvalue₃ : ofNumber (byWorth sampleDouble) (ascii "18446744073709551616")
      = some (.real (ascii "1.8446744073709552e+19") (2 ^ 64)) := by
    have hinteger : integerOf (ascii "18446744073709551616") = some (2 ^ 64) := by decide +kernel
    have hworth : worth (ascii "18446744073709551616") = (false, 2 ^ 64) :=
      (worth_of_integerOf hinteger).trans (by decide +kernel)
    have hover : (integerOf (ascii "18446744073709551616")).filter
        (fun z => -2 ^ 63 ≤ z ∧ z < 2 ^ 64) = none := by
      rw [hinteger]
      decide
    rw [ofNumber, hover, byWorth, hworth, sampleDouble, if_neg (by decide +kernel), if_pos rfl]
    rfl
  have hw : JsonSpace [0x20] := by decide
  have hscan : ∀ t, NumberText t → byWorth sampleDouble t = byWorth sampleDouble t :=
    fun _ _ => rfl
  have hparse := parse_document hscan hw ht jsonSpace_nil (by decide)
  rw [hparse, if_pos (by decide), ofValue, ofValues, ofValues, ofValues, ofValues, ofValue, ofValue,
    ofValue, hvalue₁, hvalue₂, hvalue₃]
  rfl

/-! ## 3. The single quote -/

/-- Before any value a comment is kept whatever it begins with. -/
structure Keeps (r : OurReader) : Prop where
  first : r.lastValueEnd = none
  quote : r.commentsBefore.head? = some 0x27

theorem Keeps.move {r : OurReader} (h : Keeps r) (current : Bytes) :
    Keeps { r with current := current } :=
  ⟨h.first, h.quote⟩

theorem addComment_keeps {r : OurReader} (h : Keeps r) (comment : Bytes) :
    Ends Nothing Keeps (r.addComment comment false) := by
  refine ⟨h.first, ?_⟩
  obtain ⟨before, hbefore⟩ := List.head?_eq_some_iff.mp h.quote
  dsimp only
  rw [hbefore]
  rfl

theorem readComment_keeps {r : OurReader} (h : Keeps r) (commentBegin : Bytes) :
    Ends Nothing (fun x => Keeps x.2) (r.readComment commentBegin) := by
  unfold OurReader.readComment
  split
  case h_1 => exact h
  case h_2 c rest _ =>
    dsimp only
    split
    case isTrue =>
      rw [h.first]
      dsimp only
      rw [Bool.false_and]
      have hr : Keeps ⟨(scanComment c rest).2, none, r.commentsBefore⟩ := ⟨rfl, h.quote⟩
      exact (addComment_keeps hr _).bind fun _ hr' => hr'
    case isFalse => exact h.move _

theorem readToken_keeps {r : OurReader} (h : Keeps r) :
    Ends Nothing (fun x => Keeps x.2) r.readToken := by
  unfold OurReader.readToken
  split
  case h_1 => exact h.move _
  case h_2 c rest _ =>
    split
    case isTrue => exact (readComment_keeps (h.move _) _).bind fun ⟨_, _⟩ hr => hr
    case isFalse => exact h.move _

theorem skipCommentTokensLoop_keeps : ∀ (n : ℕ) (r : OurReader), Keeps r → r.current.length < n →
    Ends Nothing (fun x => Keeps x.2) (r.skipCommentTokensLoop n) := by
  refine Ends.loop (fun n r => OurReader.skipCommentTokensLoop n r) Keeps
    (fun r => r.current.length) ?_
  intro n r h hn again
  refine ((readToken_keeps h).and (readToken_ends r)).bind fun ⟨token, r'⟩ ⟨hr', hread⟩ => ?_
  dsimp only at hr' hread ⊢
  split
  case isTrue hcomment =>
    have := hread.shorter (by rw [hcomment]; decide)
    exact again r' hr' (by omega)
  case isFalse => exact hr'

/-- **A document throws whose first token is a comment that begins with a single quote**,
whatever follows. -/
theorem parse_quote (sscanf : Bytes → Option (Bytes × ℚ)) {w rest : Bytes} {c : UInt8}
    (hw : JsonSpace w) (hcomment : (scanComment c rest).1 = true) :
    parse sscanf (w ++ 0x27 :: c :: rest) = .error .logicError := by
  obtain ⟨finish, hscan⟩ : ∃ finish, scanComment c rest = (true, finish) :=
    ⟨(scanComment c rest).2, Prod.ext hcomment rfl⟩
  have hsuffix : finish <:+ c :: rest := by
    have := scanComment_suffix c rest
    rw [hscan] at this
    exact this.trans (List.suffix_cons _ _)
  have hread : OurReader.readToken ⟨w ++ 0x27 :: c :: rest, none, []⟩
      = .ok (⟨.comment, between (0x27 :: c :: rest) finish⟩,
          ⟨finish, none, normalizeEOL (between (0x27 :: c :: rest) finish)⟩) := by
    unfold OurReader.readToken
    dsimp only
    rw [skipSpaces_append hw (by decide)]
    dsimp only
    rw [if_pos (.inl rfl)]
    unfold OurReader.readComment
    dsimp only
    rw [hscan]
    rfl
  have hkeeps : Keeps ⟨finish, none, normalizeEOL (between (0x27 :: c :: rest) finish)⟩ :=
    ⟨rfl, by rw [between_cons hsuffix]; exact head?_normalizeEOL (by decide) _⟩
  have hlen : finish.length < (w ++ 0x27 :: c :: rest).length := by
    have := hsuffix.length_le
    simp only [List.length_append, List.length_cons] at this ⊢
    omega
  obtain ⟨⟨token, r⟩, hloop, hr⟩ := (skipCommentTokensLoop_keeps _ _ hkeeps hlen).returns
  have hskip : OurReader.skipCommentTokens ⟨w ++ 0x27 :: c :: rest, none, []⟩ = .ok (token, r) := by
    rw [OurReader.skipCommentTokens, OurReader.skipCommentTokensLoop, hread]
    exact hloop
  have hgive : r.giveComments = .error .logicError := by
    obtain ⟨before, hbefore⟩ := List.head?_eq_some_iff.mp hr.quote
    rw [OurReader.giveComments, if_neg (by rw [hbefore]; simp), hbefore]
    -- the comment is refused with its last line feed or without it
    have hrefuse : setComment (0x27 :: before) = .error .logicError := by
      unfold setComment
      split
      case h_1 => rfl
      case h_2 c' rest' heq =>
        have hc : c' = 0x27 := by
          split at heq
          · cases before with
            | nil => simp at heq
            | cons d before =>
              rw [List.dropLast_cons_cons] at heq
              exact (List.cons.inj heq).1.symm
          · exact (List.cons.inj heq).1.symm
        rw [if_neg (by rw [hc]; decide)]
    rw [hrefuse]
    rfl
  rw [parse, stackLimit, readValue, hskip]
  dsimp only [bind, Except.bind]
  rw [hgive]

end Reflector.Jsoncpp
