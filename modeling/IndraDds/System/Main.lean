import IndraDds.Publisher.Trace
import IndraDds.Stress.Arguments
import IndraDds.Stress.Menu
import IndraDds.Subscriber.Bookkeeping
import IndraDds.Vendor.FastSub

/-!
# The program

`main` reads its arguments and loads a configuration, makes the one module of the executive, which
asks the menu for a pattern and initialises it, and runs the loop. This is where the pieces meet:
the tests of the other modules are started here, with the configuration that is read here.

The JSON library is not part of the repository. What `main` asks of it is a parameter: parsing a
text, and reading the value under a key, with a default for a key that is not there. Both may throw;
`load_config` catches what parsing throws and takes an empty configuration, while what a value of
the wrong type throws leaves `main`.

The program is the one built for Fast DDS. A step of it is a call of `test_patterns` while the menu
asks, and a pass of the loop of the chosen test from then on.
-/

namespace IndraDds

open Transition

/-! ## The configuration -/

/-- What `main` uses of the JSON library: `json::parse`, `json::object()`, and the `value` of a
string, a number and a truth value. -/
structure JsonLibrary (J : Type) where
  parse : List Char → Except String J
  object : J
  valueString : J → Token → Token → Except String Token
  valueInt : J → Token → ℤ → Except String ℤ
  valueBool : J → Token → Bool → Except String Bool

variable {J : Type}

/-- `load_config`, with the text of the file, if it can be opened. -/
def loadConfig (lib : JsonLibrary J) (configFile : Option (List Char)) : J :=
  match configFile with
  | none => lib.object
  | some text =>
    match lib.parse text with
    | .ok config => config
    | .error _ => lib.object

/-- The `test_config` that `main` fills in. -/
structure Settings where
  name : Token
  testMode : ℤ
  messageCount : ℤ
  testCount : ℤ
  logFile : Token
  manualMode : Bool
  loanMode : Bool
  listenerNumber : ℤ
deriving DecidableEq, Repr

def defaultConfigPath : Token := "/workspaces/testdds/config/default.json".toList

def defaultLogFilePath : Token := "/workspaces/testdds/logs/default.log".toList

/-- The fields in the order in which `main` reads them. -/
def readSettings (lib : JsonLibrary J) (config : J) (logFile : Token) : Except String Settings := do
  let name ← lib.valueString config "name".toList "Default test".toList
  let mode ← lib.valueInt config "mode".toList 0
  let messageCount ← lib.valueInt config "messageCount".toList 100
  let test ← lib.valueInt config "test".toList 25
  let manualProcess ← lib.valueBool config "manual_process".toList true
  let loan ← lib.valueBool config "loan".toList false
  let numListeners ← lib.valueInt config "listeners".toList 0
  return {
    name := name
    testMode := mode
    messageCount := messageCount
    testCount := test
    logFile := logFile
    manualMode := manualProcess
    loanMode := loan
    listenerNumber := numListeners }

/-- What the constructor of `cl_dds` makes of it for the tests. -/
def Settings.mainTestConfig (s : Settings) : MainTestConfig where
  messageCount := s.messageCount
  testCount := s.testCount
  loanMode := s.loanMode
  listenerNumber := if s.manualMode then 1 else s.listenerNumber

/-! ## The program -/

/-- The surroundings of a process: the library, the files that can be opened, the arguments, what
the console offers, the indeterminate value of `reset`, and the two subscribers that
`DDSFactory` creates. -/
structure Surroundings (J : Type) where
  json : JsonLibrary J
  files : Token → Option (List Char)
  argv : List Token
  input : List Char
  reset : Bool
  isub : FastSub
  isubcontrol : FastSubControl

/-- `main` up to the executive. -/
def Surroundings.settings (e : Surroundings J) : Except String Settings :=
  let args := parseArgs e.argv
  let configPath := (args "config".toList).getD defaultConfigPath
  let logFilePath := (args "logFile".toList).getD defaultLogFilePath
  readSettings e.json (loadConfig e.json (e.files configPath)) logFilePath

/-- The subscriber test with the Fast DDS implementations of its interfaces. -/
abbrev FastSubProgram := SubTest FastSub FastSubControl

/-- Where the process is: an exception has left `main`, the menu asks, or the loop runs. -/
inductive Program where
  | terminated (what : String)
  | choosing (settings : Settings) (menu : Menu)
  | publishing (o : Outcome PubTest)
  | subscribing (o : Outcome FastSubProgram)

/-- A character that an uninitialised `input` holds, or what a pass of the loop meets. -/
inductive ProgramLabel where
  | testPatterns (stale : Char)
  | pubCycle (io : PubAnswers)
  | subCycle (m : SubMove FastSub FastSubControl)

namespace Program

/-- `cl_dds::init` once `test_patterns` has returned. The loop calls through the pattern. -/
def enter (e : Surroundings J) (s : Settings) (m : Menu) : Program :=
  match m.call, m.pPattern with
  | .testPatterns _, _ => choosing s m
  | .returned _, some .pubTest1To1 => publishing (PubTest.start s.mainTestConfig e.reset)
  | .returned _, some .subTest1To1 =>
    subscribing (SubTest.start s.mainTestConfig e.isub e.isubcontrol)
  | .returned _, none => terminated "call through a null p_pattern"

def start (e : Surroundings J) : Program :=
  match e.settings with
  | .ok s => choosing s (Menu.start s.testMode e.input)
  | .error what => terminated what

def step (e : Surroundings J) : Program → ProgramLabel → Program
  | choosing s m, .testPatterns stale => enter e s (testPatterns .FastDDS m stale)
  | publishing o, .pubCycle io => publishing (PubTest.pass o io)
  | subscribing o, .subCycle m => subscribing (SubTest.step o m)
  | p, _ => p

/-- The process has come to the loop, and runs it. -/
def InLoop : Program → Prop
  | publishing (.ret _) => True
  | subscribing (.ret _) => True
  | _ => False

end Program

/-! ## What the menu comes to -/

/-- A call with `mode` comes to `number`: it is called with it, or it asks the console, and the
first number there is this one. -/
def ComesTo (number mode : ℤ) (text : List Char) : Prop :=
  mode = number ∨ mode ≤ 0 ∧ firstNumber text = some number

theorem selectable_iff_comesTo {mode : ℤ} {text : List Char} :
    Selectable mode text ↔
      ComesTo TestMode.OneToOnePub mode text ∨ ComesTo TestMode.OneToOneSub mode text := by
  rw [Selectable, ComesTo, ComesTo]
  tauto

theorem comesTo_digitOf {number mode : ℤ} (hpos : 0 < number) (hmode : mode ≤ 0) {c : Char}
    {rest : List Char} (h : ComesTo number mode (c :: rest)) : ComesTo number (digitOf c) rest := by
  have hfirst : firstNumber (c :: rest) = some number :=
    (h.resolve_left (by omega)).2
  rw [firstNumber_cons] at hfirst
  by_cases hdigit : digitOf c = 0
  · rw [if_neg (not_not.mpr hdigit)] at hfirst
    exact .inr ⟨by omega, hfirst⟩
  · rw [if_pos hdigit, Option.some.injEq] at hfirst
    exact .inl hfirst

/-- What a call selects comes to the same number. -/
theorem comesTo_selectNumber {number mode : ℤ} (hpos : 0 < number) {k : Console} (stale : Char)
    (h : ComesTo number mode k.text) :
    ComesTo number (selectNumber mode k stale).1 (selectNumber mode k stale).2.text := by
  rw [selectNumber]
  split_ifs with hmode
  · rcases k.extract_cases stale with ⟨hnone, -, -⟩ | ⟨c, rest, hread, -, hfirst⟩
    · rw [ComesTo, hnone] at h
      exact absurd (h.resolve_left (by omega)).2 (by simp)
    · have htext : ComesTo number mode (c :: rest) := by
        rw [ComesTo, ← hfirst]
        exact h
      rw [hread]
      exact comesTo_digitOf hpos hmode htext
  · exact h

/-- The menu is on its way to this number, or has come to it. -/
def Menu.HeadsFor (number : ℤ) (m : Menu) : Prop :=
  match m.call with
  | .testPatterns mode => ComesTo number mode m.console.text
  | .returned number' => number' = number

theorem headsFor_step {number : ℤ} (hpos : 0 < number) (library : DDSLibrary) (m : Menu)
    (stale : Char) (h : m.HeadsFor number) : (testPatterns library m stale).HeadsFor number := by
  rcases hcall : m.call with mode | number'
  · rw [Menu.HeadsFor, hcall] at h
    have hcomes := comesTo_selectNumber hpos stale h
    obtain ⟨selected, console, hsel, hcases⟩ := testPatterns_cases library hcall stale
    rw [← hsel] at hcomes
    rcases hcases with ⟨hn, hstep⟩ | ⟨hn, hstep⟩ | ⟨-, -, hstep⟩
    · rw [hstep]
      exact hcomes.resolve_right (by rw [hn, TestMode.OneToOnePub]; omega)
    · rw [hstep]
      exact hcomes.resolve_right (by rw [hn, TestMode.OneToOneSub]; omega)
    · rw [hstep]
      exact hcomes
  · rw [testPatterns_returned hcall]
    exact h

theorem headsFor_run {number mode : ℤ} {input : List Char} (hpos : 0 < number)
    (h : ComesTo number mode input) (library : DDSLibrary) (stales : List Char) :
    (run (testPatterns library) (.start mode input) stales).HeadsFor number := by
  have h0 : (Menu.start mode input).HeadsFor number := h
  exact run_invariant h0 (headsFor_step hpos library) stales

/-- What the menu has come to, and the pattern it has created. -/
theorem returned_of_comesTo {number mode : ℤ} {input : List Char} (hpos : 0 < number)
    (h : ComesTo number mode input) {stales : List Char} {number' : ℤ}
    (hcall : (run (testPatterns .FastDDS) (.start mode input) stales).call = .returned number') :
    number' = number ∧
      (number = TestMode.OneToOnePub ∧ (run (testPatterns .FastDDS) (.start mode input)
          stales).pPattern = some .pubTest1To1 ∨
        number = TestMode.OneToOneSub ∧ (run (testPatterns .FastDDS) (.start mode input)
          stales).pPattern = some .subTest1To1) := by
  have hheads := headsFor_run hpos h .FastDDS stales
  have hchosen : (run (testPatterns .FastDDS) (.start mode input) stales).Chosen .FastDDS :=
    chosen_run mode input stales
  rw [Menu.HeadsFor, hcall] at hheads
  rw [Menu.Chosen, hcall] at hchosen
  obtain rfl : number' = number := hheads
  exact ⟨rfl, hchosen⟩

/-! ## Runs of the program -/

namespace Program

variable {e : Surroundings J} {s : Settings}

theorem start_of_ok (h : e.settings = .ok s) :
    start e = choosing s (Menu.start s.testMode e.input) := by
  rw [start, h]

theorem run_terminated (what : String) (stales : List Char) :
    run (step e) (terminated what) (stales.map .testPatterns) = terminated what := by
  induction stales with
  | nil => rfl
  | cons c stales ih => exact ih

theorem run_publishing (o : Outcome PubTest) (ios : List PubAnswers) :
    run (step e) (publishing o) (ios.map .pubCycle) = publishing (run PubTest.pass o ios) := by
  induction ios generalizing o with
  | nil => rfl
  | cons io ios ih => exact ih (PubTest.pass o io)

/-- While the menu asks, the program is its menu; a menu that has returned is not called again. -/
theorem step_enter (e : Surroundings J) (s : Settings) (m : Menu) (stale : Char) :
    step e (enter e s m) (.testPatterns stale) = enter e s (testPatterns .FastDDS m stale) := by
  rcases hcall : m.call with mode | number
  · have henter : enter e s m = choosing s m := by
      rw [enter, hcall]
    rw [henter, step]
  · rw [testPatterns_returned hcall, enter, hcall]
    rcases m.pPattern with _ | kind | kind <;> rfl

theorem run_choosing (h : e.settings = .ok s) (stales : List Char) :
    run (step e) (start e) (stales.map .testPatterns)
      = enter e s (run (testPatterns .FastDDS) (.start s.testMode e.input) stales) := by
  induction stales using List.reverseRecOn with
  | nil => exact start_of_ok h
  | append_singleton stales c ih =>
    rw [List.map_append, List.map_singleton, run_concat, ih, run_concat, step_enter]

/-- The menu has returned to an initialised publisher test. -/
theorem run_choosing_pub (h : e.settings = .ok s)
    (hpub : ComesTo TestMode.OneToOnePub s.testMode e.input) {stales : List Char}
    (hlen : e.input.length < stales.length) :
    run (step e) (start e) (stales.map .testPatterns)
      = publishing (PubTest.start s.mainTestConfig e.reset) := by
  have hselects := selects_start.mpr (selectable_iff_comesTo.mpr (.inl hpub))
  obtain ⟨number, hcall⟩ := returns_of_selects .FastDDS hselects hlen
  obtain ⟨-, ⟨-, hpattern⟩ | ⟨habsurd, -⟩⟩ := returned_of_comesTo Int.one_pos hpub hcall
  · rw [run_choosing h, enter, hcall, hpattern]
  · exact absurd habsurd (by decide)

theorem run_choosing_sub (h : e.settings = .ok s)
    (hsub : ComesTo TestMode.OneToOneSub s.testMode e.input) {stales : List Char}
    (hlen : e.input.length < stales.length) :
    run (step e) (start e) (stales.map .testPatterns)
      = subscribing (SubTest.start s.mainTestConfig e.isub e.isubcontrol) := by
  have hselects := selects_start.mpr (selectable_iff_comesTo.mpr (.inr hsub))
  obtain ⟨number, hcall⟩ := returns_of_selects .FastDDS hselects hlen
  obtain ⟨-, ⟨habsurd, -⟩ | ⟨-, hpattern⟩⟩ := returned_of_comesTo (by decide) hsub hcall
  · exact absurd habsurd (by decide)
  · rw [run_choosing h, enter, hcall, hpattern]

theorem inLoop_start_pub_iff (config : MainTestConfig) (reset : Bool) :
    (publishing (PubTest.start config reset)).InLoop ↔ 0 ≤ config.messageCount := by
  rcases lt_or_ge config.messageCount 0 with hneg | hnonneg
  · rw [PubTest.start_of_neg hneg]
    exact iff_of_false not_false (not_le.mpr hneg)
  · rw [PubTest.start_of_nonneg hnonneg]
    exact iff_of_true trivial hnonneg

/-- **When the program comes to its loop**, whatever uninitialised characters hold: the
configuration can be read, the mode or the console names one of the two tests, and a publisher's
count is not negative. -/
theorem inLoop_iff (e : Surroundings J) :
    (∃ n, ∀ stales : List Char, n ≤ stales.length →
        (run (step e) (start e) (stales.map .testPatterns)).InLoop) ↔
      ∃ s, e.settings = .ok s ∧
        (ComesTo TestMode.OneToOnePub s.testMode e.input ∧ 0 ≤ s.messageCount ∨
          ComesTo TestMode.OneToOneSub s.testMode e.input) := by
  constructor
  · rintro ⟨n, hn⟩
    have hloop := hn (List.replicate (n + e.input.length + 1) 'x') (by
      rw [List.length_replicate]
      omega)
    rcases hload : e.settings with what | s
    · rw [start, hload] at hloop
      simp only [run_terminated] at hloop
      exact hloop.elim
    · refine ⟨s, rfl, ?_⟩
      have hlen : e.input.length
          < (List.replicate (n + e.input.length + 1) 'x').length := by
        rw [List.length_replicate]
        omega
      have hdigits : ∀ c ∈ List.replicate (n + e.input.length + 1) 'x', digitOf c = 0 :=
        fun c hc ↦ by
          rw [List.eq_of_mem_replicate hc]
          rfl
      generalize List.replicate (n + e.input.length + 1) 'x' = stales at hloop hlen hdigits
      -- a menu that still asks is not in the loop
      have hselectable : Selectable s.testMode e.input := by
        rw [run_choosing hload] at hloop
        rcases hcall : (run (testPatterns .FastDDS) (.start s.testMode e.input) stales).call
          with mode | number
        · rw [enter, hcall] at hloop
          exact hloop.elim
        · exact selects_start.mp
            ((selects_run .FastDDS hdigits).mp (selects_returned hcall))
      rcases selectable_iff_comesTo.mp hselectable with hpub | hsub
      · rw [run_choosing_pub hload hpub hlen, inLoop_start_pub_iff] at hloop
        exact .inl ⟨hpub, hloop⟩
      · exact .inr hsub
  · rintro ⟨s, hload, hcomes⟩
    refine ⟨e.input.length + 1, fun stales hlen ↦ ?_⟩
    rcases hcomes with ⟨hpub, hcount⟩ | hsub
    · rw [run_choosing_pub hload hpub hlen, inLoop_start_pub_iff]
      exact hcount
    · rw [run_choosing_sub hload hsub hlen]
      trivial

end Program

end IndraDds
