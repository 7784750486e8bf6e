/-
# The two files the server sends (`sendReplyFavicon`, `sendReplyPage`)

Neither of them arrives as it is on disk.

* THE ICON is read in blocks of 4096 bytes with `fread(buffer, 4096, 1, file)`, and the result is
  taken for a number of bytes.  It is a number of items, so of every whole block one byte is kept
  and of the rest of the file nothing (`freadLoop_eq`).  The loop stays inside its allocation,
  and no file is ever sent whole.
* THE LANDING PAGE is the format of an `snprintf`: the server's address, its port and the log
  level go where the page has `%s`, `%d` and `%d`.  Its other percent signs are read as
  conversions too (the page has several, in its style sheet), and the buffer allows for 68
  characters in place of the six of the placeholders.  The page is what its author wrote exactly
  when it has no other percent sign and the three values fit (`page_filled_iff`).
-/
import Reflector.Base.Fill
import Reflector.Http.Complete

namespace Reflector.Http

open Base

/-! ## 1. The icon -/

/-- The loop ends, inside its allocation, with the file in `fileContent`. -/
def ReadWhole (content : Bytes) : Prop :=
  freadLoop content.length content.length content [] = .ok content

/-- The response is a header with the size of the file, and the file. -/
def ServedWhole (content mime outBuffer : Bytes) : Prop :=
  (sendReplyFavicon ⟨some content, some content.length⟩ mime outBuffer).map
      (fun reply => reply.writes.flatten)
    = .ok (headerBlock (fileLines mime (decimal content.length)) ++ content)

/-- **One byte of each block**, and never one too many. -/
theorem freadLoop_eq {size : ℕ} : ∀ (n : ℕ) (file fileContent : Bytes), file.length ≤ n →
    fileContent.length + file.length / 4096 ≤ size →
    ∃ result, freadLoop size n file fileContent = .ok result ∧
      result.length = fileContent.length + file.length / 4096 := by
  intro n
  induction n with
  | zero =>
    intro file fileContent hn _
    exact ⟨fileContent, rfl, by omega⟩
  | succ n ih =>
    intro file fileContent hn hsize
    rw [freadLoop]
    by_cases hblock : 4096 ≤ file.length
    · have hdrop : (file.drop 4096).length = file.length - 4096 := List.length_drop
      have htake : ((file.take 4096).take 1).length = 1 := by
        simp only [List.length_take]
        omega
      rw [if_pos hblock, if_pos (by omega)]
      obtain ⟨result, hloop, hlen⟩ := ih (file.drop 4096)
        (fileContent ++ (file.take 4096).take 1) (by omega) (by rw [List.length_append]; omega)
      refine ⟨result, hloop, ?_⟩
      rw [hlen, List.length_append]
      omega
    · rw [if_neg hblock]
      exact ⟨fileContent, rfl, by omega⟩

theorem length_writeCstr_snprintf_le (buf : Bytes) (n : ℕ) (text : Bytes) :
    (writeCstr (snprintf buf n text)).length ≤ text.length := by
  have h₁ : (cstr (text.take (n - 1))).length ≤ (text.take (n - 1)).length :=
    (cstr_isPrefix _).length_le
  have h₂ := List.length_take_le' (n - 1) text
  rw [writeCstr, cstr_snprintf, socketWrite]
  split
  · rw [List.take_length]
    omega
  · exact Nat.zero_le _

/-- What is announced and sent for the bytes that were kept is shorter than it should be. -/
theorem length_kept_lt {n : ℕ} (hn : 0 < n) :
    (signedDecimal (n / 4096 : ℕ)).length + n / 4096 < (decimal n).length + n := by
  have hle := length_signedDecimal_le (n / 4096)
  have hmono := length_decimal_mono (Nat.div_le_self n 4096)
  by_cases hblock : n < 4096
  · have hzero : (signedDecimal (0 : ℕ)).length = 1 := by decide
    have hpos := List.length_pos_iff.mpr (decimal_ne_nil n)
    rw [Nat.div_eq_of_lt hblock, hzero]
    omega
  · omega

/-- **No file is sent whole**, whatever its size: the loop keeps one byte of each block of 4096,
and the response is shorter than the file and its header. -/
theorem icon_never_whole {content : Bytes} (hne : content ≠ []) (mime outBuffer : Bytes) :
    (∃ fileContent, freadLoop content.length content.length content [] = .ok fileContent ∧
      fileContent.length = content.length / 4096) ∧
    ¬ ReadWhole content ∧ ¬ ServedWhole content mime outBuffer := by
  have hpos := List.length_pos_iff.mpr hne
  obtain ⟨fileContent, hloop, hlen⟩ := freadLoop_eq content.length content []
    (Nat.le_refl content.length) (by simpa using Nat.div_le_self _ _)
  rw [List.length_nil, Nat.zero_add] at hlen
  refine ⟨⟨fileContent, hloop, hlen⟩, fun hread => ?_, fun hserved => ?_⟩
  · rw [ReadWhole, hloop] at hread
    obtain rfl := Except.ok.inj hread
    omega
  · have hsize : ¬ ((content.length : ℤ) ≤ 0) := by omega
    simp only [ServedWhole, sendReplyFavicon, if_neg hsize, Int.toNat_natCast, hloop, ok_bind,
      format_fileHeader, Except.map, Except.ok.injEq, List.flatten_cons, List.flatten_nil,
      List.append_nil] at hserved
    have hheader := length_writeCstr_snprintf_le outBuffer (1024 - 1)
      (headerBlock (fileLines mime (signedDecimal fileContent.length)))
    have hbody : (socketWrite fileContent fileContent.length).length ≤ fileContent.length := by
      rw [socketWrite]
      split <;> simp
    have hkept := length_kept_lt hpos
    rw [← hlen] at hkept
    have htotal := congrArg List.length hserved
    rw [List.length_append, List.length_append, length_fileLines] at htotal
    rw [length_fileLines] at hheader
    omega

/-- Two blocks: two bytes are kept. -/
theorem icon_never_whole_two_blocks :
    (∃ fileContent, freadLoop 8192 8192 (List.replicate 8192 1) [] = .ok fileContent ∧
      fileContent.length = 2) ∧
    ¬ ReadWhole (List.replicate 8192 1) ∧
      ¬ ServedWhole (List.replicate 8192 1) iconMime (List.replicate 32768 0) := by
  have hlen : (List.replicate 8192 (1 : UInt8)).length = 8192 := List.length_replicate
  have h := icon_never_whole (List.ne_nil_of_length_pos (by rw [hlen]; decide)) iconMime
    (List.replicate 32768 0)
  rwa [hlen] at h

/-- Of a file of one byte nothing is kept, and an empty body is announced. -/
theorem one_byte_icon_lost : ¬ (ReadWhole [71] ∧
    ServedWhole [71] iconMime (List.replicate 32768 0)) := by
  rintro ⟨hread, -⟩
  rw [ReadWhole] at hread
  exact absurd hread (by decide)

/-! ## 2. The landing page -/

/-- A page with its three placeholders and four stretches of other text. -/
def pageOf (a b c d : Bytes) : Bytes :=
  a ++ ascii "%s" ++ (b ++ ascii "%d" ++ (c ++ ascii "%d" ++ d))

/-- The page as its author means it to arrive. -/
def Config.filled (cfg : Config) (a b c d : Bytes) : Bytes :=
  a ++ cfg.serverIp ++ (b ++ decimal cfg.httpsPort.toNat ++ (c ++ signedDecimal cfg.log ++ d))

/-- The body that `sendReplyPage` writes behind its header is the page as it is meant. -/
def ServedFilled (cfg : Config) (a b c d outBuffer : Bytes) : Prop :=
  ∃ header, (sendReplyPage cfg (some (pageOf a b c d)) landingMime outBuffer).map Reply.writes
    = .ok [header, cfg.filled a b c d]

section

variable {cfg : Config} {a b c d : Bytes}

theorem template_page (ha : NoPlaceholder a) (hb : NoPlaceholder b) (hc : NoPlaceholder c)
    (hd : NoPlaceholder d) (hip : (0 : UInt8) ∉ cfg.serverIp) :
    Template (pageOf a b c d) cfg.args (cfg.filled a b c d) := by
  have hport : decimal cfg.httpsPort.toNat = signedDecimal cfg.httpsPort.toNat := by
    have := cfg.httpsPort.toNat_lt
    exact (signedDecimal_of_lt (by omega)).symm
  rw [Config.args, cstr_eq_self hip, Config.filled, hport]
  exact .fill a (.str cfg.serverIp) ha (.fill b (.int cfg.httpsPort.toNat) hb
    (.fill c (.int cfg.log) hc (.lit d hd)))

theorem percents_page : percents (pageOf a b c d)
    = percents a + percents b + percents c + percents d + 3 := by
  have hstr : percents (ascii "%s") = 1 := rfl
  have hint : percents (ascii "%d") = 1 := rfl
  simp only [pageOf, percents_append, hstr, hint]
  omega

theorem length_page : (pageOf a b c d).length = a.length + b.length + c.length + d.length + 6 := by
  simp [pageOf, ascii]
  omega

theorem length_filled :
    (cfg.filled a b c d).length = a.length + b.length + c.length + d.length +
      (cfg.serverIp.length + (decimal cfg.httpsPort.toNat).length +
        (signedDecimal cfg.log).length) := by
  simp only [Config.filled, List.length_append]
  omega

theorem zero_notMem_page : (0 : UInt8) ∉ pageOf a b c d ↔
    ((0 : UInt8) ∉ a ∧ (0 : UInt8) ∉ b ∧ (0 : UInt8) ∉ c ∧ (0 : UInt8) ∉ d) := by
  simp [pageOf, ascii]

theorem zero_notMem_filled : (0 : UInt8) ∉ cfg.filled a b c d ↔
    (0 : UInt8) ∉ pageOf a b c d ∧ (0 : UInt8) ∉ cfg.serverIp := by
  have hport : (0 : UInt8) ∉ decimal cfg.httpsPort.toNat := notMem_decimal rfl _
  have hlog : (0 : UInt8) ∉ signedDecimal cfg.log := notMem_signedDecimal rfl (by decide) _
  rw [zero_notMem_page]
  simp only [Config.filled, List.mem_append, not_or]
  tauto

/-- The body is what is left of the formatted page in its buffer. -/
theorem servedFilled_iff {outBuffer : Bytes} : ServedFilled cfg a b c d outBuffer ↔
    (pageOf a b c d).length + 64 < 2 ^ 31 ∧ ∃ text,
      sprintf (cstr (pageOf a b c d)) cfg.args = some text ∧
      pageText (pageOf a b c d) text = cfg.filled a b c d := by
  constructor
  · rintro ⟨header, hwrites⟩
    obtain ⟨hsize, text, ht, heq⟩ := sendReplyPage_inv hwrites
    obtain ⟨-, hbody⟩ : header = _ ∧ cfg.filled a b c d = pageText (pageOf a b c d) text := by
      simpa using heq
    exact ⟨hsize, text, ht, hbody.symm⟩
  · rintro ⟨hsize, text, ht, hbody⟩
    exact ⟨_, by rw [sendReplyPage_writes outBuffer hsize ht, hbody]⟩

end

/-- **The landing page arrives as it is meant exactly when the placeholders are its only percent
signs, there is no NUL in it or in the address, and address, port and log level have at most 68
characters together.** -/
theorem page_filled_iff (cfg : Config) {a b c d : Bytes} (outBuffer : Bytes)
    (ha : NoPlaceholder a) (hb : NoPlaceholder b) (hc : NoPlaceholder c) (hd : NoPlaceholder d) :
    ServedFilled cfg a b c d outBuffer ↔
      ((37 : UInt8) ∉ a ∧ (37 : UInt8) ∉ b ∧ (37 : UInt8) ∉ c ∧ (37 : UInt8) ∉ d) ∧
      ((0 : UInt8) ∉ pageOf a b c d ∧ (0 : UInt8) ∉ cfg.serverIp) ∧
      cfg.serverIp.length + (decimal cfg.httpsPort.toNat).length + (signedDecimal cfg.log).length
        ≤ 68 ∧
      (pageOf a b c d).length + 64 < 2 ^ 31 := by
  have hpercents : ((37 : UInt8) ∉ a ∧ (37 : UInt8) ∉ b ∧ (37 : UInt8) ∉ c ∧ (37 : UInt8) ∉ d) ↔
      percents (pageOf a b c d) = cfg.args.length := by
    rw [percents_page, show cfg.args.length = 3 from rfl, ← percents_eq_zero, ← percents_eq_zero,
      ← percents_eq_zero, ← percents_eq_zero]
    omega
  rw [hpercents, ← zero_notMem_filled, servedFilled_iff]
  constructor
  · rintro ⟨hsize, text, ht, hbody⟩
    have h0 : (0 : UInt8) ∉ cfg.filled a b c d := by
      rw [← hbody]
      exact zero_notMem_cstr _
    have hfit : (cfg.filled a b c d).length ≤ (pageOf a b c d).length + 62 := by
      rw [← hbody]
      exact length_pageText_le _ text
    have hpre : cfg.filled a b c d <+: text := by
      rw [← hbody]
      exact (cstr_isPrefix _).trans (List.take_prefix _ text)
    obtain ⟨hpage, hip⟩ := zero_notMem_filled.mp h0
    rw [cstr_eq_self hpage] at ht
    rw [length_filled, length_page] at hfit
    refine ⟨(template_page ha hb hc hd hip).percents_of_isPrefix ?_ ht hpre, h0, by omega, hsize⟩
    intro arg harg
    exact ⟨cfg.log, by simpa [Config.args] using harg.symm⟩
  · rintro ⟨hp, h0, hfit, hsize⟩
    obtain ⟨hpage, hip⟩ := zero_notMem_filled.mp h0
    refine ⟨hsize, cfg.filled a b c d, ?_, ?_⟩
    · rw [cstr_eq_self hpage]
      exact (template_page ha hb hc hd hip).sprintf hp
    · rw [pageText, List.take_of_length_le, cstr_eq_self h0]
      rw [length_filled, length_page]
      omega

/-- The script's part of the page has no percent sign but the placeholders'. -/
theorem page_filled_script : ServedFilled ⟨ascii "127.0.0.1", 443, 0⟩ (ascii "ip = '")
    (ascii "', port = ") (ascii ", log = ") (ascii ";") [] :=
  (page_filled_iff _ [] (by decide) (by decide) (by decide) (by decide)).mpr (by decide +kernel)

/-- A doubled percent sign becomes one, and the one in the style sheet's `90%;` is lost. -/
theorem page_percent_lost :
    ¬ ServedFilled ⟨ascii "127.0.0.1", 443, 0⟩ (ascii "100%% ") [] [] [] [] ∧
      ¬ ServedFilled ⟨ascii "127.0.0.1", 443, 0⟩ (ascii "width: 90%;") [] [] [] [] := by
  -- what is written instead
  have hlost : ∀ a text : Bytes, ∀ cfg : Config,
      sprintf (cstr (pageOf a [] [] [])) cfg.args = some text →
      pageText (pageOf a [] [] []) text ≠ cfg.filled a [] [] [] →
      ¬ ServedFilled cfg a [] [] [] [] := by
    intro a text cfg ht hne hserved
    obtain ⟨-, text', ht', hbody⟩ := servedFilled_iff.mp hserved
    obtain rfl := Option.some.inj (ht.symm.trans ht')
    exact hne hbody
  exact ⟨hlost _ (ascii "100% 127.0.0.14430") _ (by decide +kernel) (by decide +kernel),
    hlost _ (ascii "width: 90;127.0.0.14430") _ (by decide +kernel) (by decide +kernel)⟩

end Reflector.Http
