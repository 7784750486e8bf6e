/-
# The command line (`main`)

`main` starts with the option letters `i`, `p` and `c`, each with a value.  What it accepts is a
list of such pairs, attached or apart, up to the end, a `--` or the first argument that is no
option (`CommandLine`); of a letter given twice the last value stands (`Settings.of`).  Anything
else prints the usage and exits, and `optarg` is never null where it is read (`readOptions_eq`).

An address is not optional, whatever the default says: the assertion of `TcpSocket::create` holds
only of one that is not empty, and of a port that is not zero as 16 bits (`listening_iff`).
-/
import Reflector.Server.Getopt
import Reflector.Http.Reply

namespace Reflector

open Base Getopt

/-! ## 1. The loop -/

/-- `g_serverIp`, `g_httpsPort` and `g_certificate`. -/
structure Settings where
  serverIp : Bytes := []
  httpsPort : UInt16 := 4433
  certificate : Bytes := ascii "server.pem"
  deriving DecidableEq, Repr

/-- What the options come to. -/
inductive Parsed
  /-- `printUsage()` and `exit(1)`. -/
  | usage
  | raised (r : Raise)
  | set (settings : Settings)
  deriving DecidableEq, Repr

def optionLetters : Bytes := ascii "i:p:c:"

/-- The `switch` in the loop. -/
def Settings.onOption (settings : Settings) (opt : ℤ) (optarg : Option Bytes) : Parsed :=
  if opt = 105 then
    match optarg with
    | none => .raised .nullPointer
    | some v => .set { settings with serverIp := v }
  else if opt = 112 then
    match optarg with
    | none => .raised .nullPointer
    | some v => .set { settings with httpsPort := UInt16.ofInt (atoi v) }
  else if opt = 99 then
    match optarg with
    | none => .raised .nullPointer
    | some v => .set { settings with certificate := v }
  else .usage

def optionsLoop (argv : List Bytes) : ℕ → Scanner → Settings → Option Parsed
  | 0, _, _ => none
  | n + 1, s, settings =>
    let (opt, s) := getopt argv optionLetters s
    if opt = -1 then some (.set settings)
    else
      match settings.onOption opt s.optarg with
      | .set settings => optionsLoop argv n s settings
      | parsed => some parsed

/-- The options of `main`; `n` is the turns the loop may take. -/
def readOptions (argv : List Bytes) (n : ℕ) : Option Parsed :=
  if argv.length < 3 then some .usage else optionsLoop argv n Scanner.start {}

/-- `g_log`, from `ENABLE_LOG`. -/
def logLevel : Option Bytes → ℤ
  | none => 0
  | some env => if 0 < atoi env then atoi env else 0

/-- What the landing page reads of it. -/
def Settings.config (settings : Settings) (env : Option Bytes) : Http.Config :=
  { serverIp := settings.serverIp, httpsPort := settings.httpsPort, log := logLevel env }

/-- How far `main` comes before its loop. -/
inductive Start
  | usage
  | raised (r : Raise)
  /-- OpenSSL does not take the certificate file, `exit(1)`. -/
  | noCertificate
  /-- `assert(m_handle == 0 && !m_ip.empty() && m_port != 0)` in `TcpSocket::create`. -/
  | aborted
  | listening (cfg : Http.Config)
  deriving DecidableEq, Repr

/-- `main` up to its loop.  What `create`, `bind` and `listen` return is not looked at. -/
def mainStart (loads : Bytes → Bool) (env : Option Bytes) (argv : List Bytes) (n : ℕ) :
    Option Start :=
  (readOptions argv n).map fun
    | .usage => .usage
    | .raised r => .raised r
    | .set settings =>
      if loads settings.certificate = false then .noCertificate
      else if settings.serverIp = [] ∨ settings.httpsPort = 0 then .aborted
      else .listening (settings.config env)

/-! ## 2. What is accepted -/

inductive Setting
  | serverIp
  | httpsPort
  | certificate
  deriving DecidableEq, Repr

def Setting.letter : Setting → UInt8
  | .serverIp => 105
  | .httpsPort => 112
  | .certificate => 99

/-- An option with its value, attached to the letter or the next argument. -/
structure Given where
  setting : Setting
  value : Bytes
  attached : Bool
  /-- What is attached is seen. -/
  seen : attached = true → value ≠ []

def Given.arguments (g : Given) : List Bytes :=
  if g.attached then [45 :: g.setting.letter :: g.value] else [[45, g.setting.letter], g.value]

def Settings.take (settings : Settings) (g : Given) : Settings :=
  match g.setting with
  | .serverIp => { settings with serverIp := g.value }
  | .httpsPort => { settings with httpsPort := UInt16.ofInt (atoi g.value) }
  | .certificate => { settings with certificate := g.value }

/-- The value a letter was given last. -/
def lastOf (given : List Given) (setting : Setting) : Option Bytes :=
  ((given.filter fun g => g.setting = setting).getLast?).map Given.value

/-- What the options set. -/
def Settings.of (given : List Given) : Settings :=
  { serverIp := (lastOf given .serverIp).getD []
    httpsPort := ((lastOf given .httpsPort).map fun v => UInt16.ofInt (atoi v)).getD 4433
    certificate := (lastOf given .certificate).getD (ascii "server.pem") }

/-- No option is read from here on. -/
def Closed : List Bytes → Prop
  | [] => True
  | arg :: _ => arg.head? ≠ some 45 ∨ arg = [45] ∨ arg = [45, 45]

/-- The arguments give these options. -/
def Says (args : List Bytes) (given : List Given) : Prop :=
  ∃ rest, args = given.flatMap Given.arguments ++ rest ∧ Closed rest

def CommandLine (argv : List Bytes) (given : List Given) : Prop :=
  3 ≤ argv.length ∧ Says (argv.drop 1) given

/-! ## 3. The loop reads the scan -/

variable {argv args : List Bytes} {given : List Given} {settings : Settings}

/-- The `switch`, over all that `getopt` gives. -/
def settle : Settings → List (ℤ × Option Bytes) → Parsed
  | settings, [] => .set settings
  | settings, (opt, optarg) :: found =>
    match settings.onOption opt optarg with
    | .set settings => settle settings found
    | parsed => parsed

theorem optionsLoop_eq : ∀ {n : ℕ} {s : Scanner} {settings : Settings}
    {found : List (ℤ × Option Bytes)}, getopts argv optionLetters n s = some found →
    optionsLoop argv n s settings = some (settle settings found) := by
  intro n
  induction n with
  | zero =>
    intro s settings found h
    cases h
  | succ n ih =>
    intro s settings found h
    rw [getopts] at h
    rw [optionsLoop]
    generalize getopt argv optionLetters s = call at h ⊢
    obtain ⟨opt, s'⟩ := call
    simp only at h ⊢
    by_cases hopt : opt = -1
    · rw [if_pos hopt] at h ⊢
      obtain rfl := Option.some.inj h
      rfl
    · rw [if_neg hopt] at h ⊢
      obtain ⟨found', hfound', rfl⟩ := Option.map_eq_some_iff.mp h
      rw [settle]
      cases settings.onOption opt s'.optarg with
      | usage => rfl
      | raised r => rfl
      | set settings' => exact ih hfound'

theorem onOption_letter (g : Given) :
    settings.onOption (charCode g.setting.letter) (some g.value) = .set (settings.take g) := by
  unfold Settings.take
  cases g.setting with
  | serverIp => rfl
  | httpsPort => rfl
  | certificate => rfl

/-! ## 4. The letters -/

theorem kind_letter (setting : Setting) (place : Bytes) :
    kind optionLetters setting.letter place = .required := by
  cases setting with
  | serverIp => rfl
  | httpsPort => rfl
  | certificate => rfl

/-- Any other letter is unknown, and a last minus is none. -/
theorem kind_other {c : UInt8} {place : Bytes} (h : ∀ setting : Setting, c ≠ setting.letter)
    (hminus : c = 45 → place ≠ []) : kind optionLetters c place = .unknown := by
  have hi := h .serverIp
  have hp := h .httpsPort
  have hc := h .certificate
  by_cases hcolon : c = 58
  · subst hcolon
    rfl
  · have hnone : strchr optionLetters c = none := by
      refine strchr_eq_none fun hmem => ?_
      have hmem : c ∈ ([105, 58, 112, 58, 99, 58] : Bytes) := hmem
      simp only [List.mem_cons, List.not_mem_nil, or_false] at hmem
      grind [Setting.letter]
    have hstop : ¬ (c = 45 ∧ place = []) := fun ⟨hc, hplace⟩ => hminus hc hplace
    simp only [kind, hnone, if_neg hstop]

/-! ## 5. What is accepted, and nothing else -/

/-- An argument that begins like an option and is not a lone minus. -/
theorem option_arg {arg : Bytes} (h : ¬ Closed (arg :: args)) :
    ∃ c place, arg = 45 :: c :: place ∧ (c = 45 → place ≠ []) := by
  simp only [Closed, not_or] at h
  obtain ⟨hhead, hminus, hminuses⟩ := h
  cases arg with
  | nil => simp at hhead
  | cons b arg =>
    obtain rfl : b = 45 := by simpa using hhead
    cases arg with
    | nil => exact absurd rfl hminus
    | cons c place => exact ⟨c, place, rfl, fun hc hplace => hminuses (by rw [hc, hplace])⟩

/-- Such an argument is read letter by letter. -/
theorem scan_option {c : UInt8} {place : Bytes} (h : c = 45 → place ≠ []) :
    scan false optionLetters ((45 :: c :: place) :: args) =
      follow false optionLetters (cluster optionLetters (c :: place)) args := by
  have hnon : ¬ NonOption optionLetters (45 :: c :: place) := by simp [NonOption]
  have hdash : (45 :: c :: place : Bytes) ≠ [45, 45] := by
    intro heq
    obtain ⟨-, hc, hplace⟩ : True ∧ c = 45 ∧ place = [] := by simpa using heq
    exact h hc hplace
  rw [scan_cons, if_neg hnon, if_neg hdash]
  rfl

theorem scan_closed (h : Closed args) : scan false optionLetters args = [] := by
  cases args with
  | nil => rfl
  | cons arg args =>
    obtain hhead | rfl | rfl := h
    · have hnon : NonOption optionLetters arg := Or.inl hhead
      rw [scan_cons, if_pos hnon]
      rfl
    · rfl
    · rfl

/-- One option of the command line. -/
theorem scan_given (g : Given) :
    scan false optionLetters (g.arguments ++ args) =
      (charCode g.setting.letter, some g.value) :: scan false optionLetters args := by
  have hletter : g.setting.letter ≠ 45 := by
    cases g.setting with
    | serverIp => decide
    | httpsPort => decide
    | certificate => decide
  unfold Given.arguments
  split
  · rename_i hattached
    rw [List.cons_append, List.nil_append, scan_option fun h => absurd h hletter, cluster,
      kind_letter]
    simp only [if_neg (g.seen hattached)]
    rfl
  · rw [List.cons_append, List.cons_append, List.nil_append,
      scan_option fun h => absurd h hletter, cluster, kind_letter, if_pos rfl]
    rfl

theorem settle_of_says (h : Says args given) (settings : Settings) :
    settle settings (scan false optionLetters args) =
      .set (given.foldl Settings.take settings) := by
  obtain ⟨rest, rfl, hrest⟩ := h
  induction given generalizing settings with
  | nil =>
    rw [List.flatMap_nil, List.nil_append, scan_closed hrest]
    rfl
  | cons g given ih =>
    rw [List.flatMap_cons, List.append_assoc, scan_given, settle, onOption_letter]
    exact ih (settings.take g)

/-- One more value of a letter. -/
theorem lastOf_concat (g : Given) (setting : Setting) :
    lastOf (given ++ [g]) setting =
      if g.setting = setting then some g.value else lastOf given setting := by
  rw [lastOf, List.filter_append]
  split
  · rename_i h
    simp [h]
  · rename_i h
    simp [h, lastOf]

theorem foldl_take : given.foldl Settings.take {} = Settings.of given := by
  induction given using List.reverseRecOn with
  | nil => rfl
  | append_singleton given g ih =>
    rw [List.foldl_append, ih, List.foldl_cons, List.foldl_nil, Settings.take]
    simp only [Settings.of, lastOf_concat]
    cases g.setting with
    | serverIp => rfl
    | httpsPort => rfl
    | certificate => rfl

theorem Says.cons (g : Given) (h : Says args given) : Says (g.arguments ++ args) (g :: given) := by
  obtain ⟨rest, rfl, hrest⟩ := h
  exact ⟨rest, by rw [List.flatMap_cons, List.append_assoc], hrest⟩

/-- The arguments give options or the usage is printed. -/
theorem says_or_usage (n : ℕ) : ∀ args : List Bytes, args.length ≤ n → ∀ settings,
    (∃ given, Says args given) ∨
      settle settings (scan false optionLetters args) = .usage := by
  induction n with
  | zero =>
    intro args hlen settings
    obtain rfl := List.length_eq_zero_iff.mp (Nat.le_zero.mp hlen)
    exact Or.inl ⟨[], [], rfl, trivial⟩
  | succ n ih =>
    intro args hlen settings
    by_cases hclosed : Closed args
    · exact Or.inl ⟨[], args, rfl, hclosed⟩
    cases args with
    | nil => exact absurd trivial hclosed
    | cons arg args =>
      rw [List.length_cons] at hlen
      obtain ⟨c, place, rfl, hminus⟩ := option_arg hclosed
      -- an option of `main`, and what follows it
      have hgiven : ∀ (g : Given) (args : List Bytes), args.length ≤ n →
          (∃ given, Says (g.arguments ++ args) given) ∨
            settle settings (scan false optionLetters (g.arguments ++ args)) = .usage := by
        intro g args hlen
        rw [scan_given, settle, onOption_letter]
        obtain ⟨given, hgiven⟩ | husage := ih args hlen (settings.take g)
        · exact Or.inl ⟨g :: given, hgiven.cons g⟩
        · exact Or.inr husage
      by_cases hletter : ∃ setting : Setting, c = setting.letter
      · obtain ⟨setting, rfl⟩ := hletter
        by_cases hplace : place = []
        · subst hplace
          cases args with
          | nil =>
            -- the value is missing
            rw [scan_option hminus, cluster, kind_letter, if_pos rfl]
            exact Or.inr rfl
          | cons v args =>
            exact hgiven ⟨setting, v, false, by simp⟩ args (by rw [List.length_cons] at hlen; omega)
        · exact hgiven ⟨setting, place, true, fun _ => hplace⟩ args (by omega)
      · rw [scan_option hminus, cluster,
          kind_other (fun setting h => hletter ⟨setting, h⟩) hminus, follow_cons]
        exact Or.inr rfl

theorem readOptions_eq {n : ℕ} (hn : cost (argv.drop 1) < n) :
    (∀ given, CommandLine argv given → readOptions argv n = some (.set (Settings.of given))) ∧
    ((¬ ∃ given, CommandLine argv given) → readOptions argv n = some .usage) := by
  have hloop : optionsLoop argv n Scanner.start {} =
      some (settle {} (scan false optionLetters (argv.drop 1))) :=
    optionsLoop_eq (getopts_eq (by decide) hn)
  refine ⟨fun given ⟨hlen, hsays⟩ => ?_, fun hnot => ?_⟩
  · rw [readOptions, if_neg (by omega), hloop, settle_of_says hsays, foldl_take]
  · by_cases hlen : argv.length < 3
    · rw [readOptions, if_pos hlen]
    · rw [readOptions, if_neg hlen, hloop]
      obtain ⟨given, hsays⟩ | husage := says_or_usage _ (argv.drop 1) le_rfl {}
      · exact absurd ⟨given, by omega, hsays⟩ hnot
      · rw [husage]

/-- **When the server comes to listen, and with what**, in the turns the loop needs; and it reads
no null `optarg` on the way. -/
theorem listening_iff (loads : Bytes → Bool) (env : Option Bytes) {n : ℕ}
    (hn : cost (argv.drop 1) < n) :
    (∀ cfg, mainStart loads env argv n = some (.listening cfg) ↔
      ∃ given ip, CommandLine argv given ∧ cfg = (Settings.of given).config env ∧
        lastOf given .serverIp = some ip ∧ ip ≠ [] ∧ cfg.httpsPort ≠ 0 ∧
        loads (Settings.of given).certificate = true) ∧
    ∃ stop, mainStart loads env argv n = some stop ∧ ∀ r, stop ≠ .raised r := by
  obtain ⟨hset, husage⟩ := readOptions_eq hn
  by_cases hline : ∃ given, CommandLine argv given
  · obtain ⟨given, hgiven⟩ := hline
    have hstart : mainStart loads env argv n = some
        (if loads (Settings.of given).certificate = false then .noCertificate
        else if (Settings.of given).serverIp = [] ∨ (Settings.of given).httpsPort = 0 then .aborted
        else .listening ((Settings.of given).config env)) := by
      rw [mainStart, hset given hgiven, Option.map_some]
    -- two readings of one command line set the same
    have hunique : ∀ given', CommandLine argv given' → Settings.of given' = Settings.of given := by
      intro given' hgiven'
      have heq := (hset given hgiven).symm.trans (hset given' hgiven')
      exact (Parsed.set.inj (Option.some.inj heq)).symm
    refine ⟨fun cfg => ⟨fun h => ?_, ?_⟩, _, hstart, fun r => ?_⟩
    · rw [hstart] at h
      split at h
      · cases h
      rename_i hloads
      split at h
      · cases h
      rename_i hcreate
      obtain rfl := Start.listening.inj (Option.some.inj h)
      simp only [not_or] at hcreate
      obtain ⟨hip, hport⟩ := hcreate
      cases hlast : lastOf given .serverIp with
      | none =>
        rw [Settings.of, hlast] at hip
        exact absurd rfl hip
      | some ip =>
        refine ⟨given, ip, hgiven, rfl, hlast, ?_, hport, by simpa using hloads⟩
        rw [Settings.of, hlast] at hip
        exact hip
    · rintro ⟨given', ip, hgiven', rfl, hlast, hip, hport, hloads⟩
      have hserver : (Settings.of given').serverIp = ip := by
        rw [Settings.of, hlast]
        rfl
      have hport : (Settings.of given').httpsPort ≠ 0 := hport
      rw [hunique given' hgiven'] at hport hloads hserver ⊢
      rw [hstart, if_neg (by simp [hloads]), if_neg (by simp [hserver, hip, hport])]
    · split
      · simp
      · split
        · simp
        · simp
  · have hstart : mainStart loads env argv n = some .usage := by
      rw [mainStart, husage hline, Option.map_some]
    refine ⟨fun cfg => ⟨fun h => ?_, ?_⟩, _, hstart, by simp⟩
    · rw [hstart] at h
      cases h
    · rintro ⟨given, -, hgiven, -⟩
      exact absurd ⟨given, hgiven⟩ hline

/-- The second port stands, and the file behind the options is not read. -/
def sampleArgv : List Bytes :=
  [ascii "server.exe", ascii "-p", ascii "80", ascii "-i10.0.0.1", ascii "-p8443",
    ascii "index.html", ascii "-x"]

def sampleGiven : List Given :=
  [⟨.httpsPort, ascii "80", false, by decide⟩, ⟨.serverIp, ascii "10.0.0.1", true, by decide⟩,
    ⟨.httpsPort, ascii "8443", true, by decide⟩]

theorem listening_sample : mainStart (fun _ => true) (some (ascii "2")) sampleArgv 64 =
    some (.listening { serverIp := ascii "10.0.0.1", httpsPort := 8443, log := 2 }) :=
  ((listening_iff (fun _ => true) (some (ascii "2")) (by decide)).1 _).mpr
    ⟨sampleGiven, ascii "10.0.0.1",
      ⟨by decide, [ascii "index.html", ascii "-x"], by decide, Or.inl (by decide)⟩,
      by decide, by decide, by decide, by decide, rfl⟩

end Reflector
