import IndraDds.Foundation.Transition
import Mathlib.Data.Int.Notation
import Mathlib.Order.Basic
import Mathlib.Tactic.Common

/-!
# Choosing the test pattern

`cl_dds::test_patterns` creates the pattern for the number it is called with, reads a number from
the console when it is called with none, and calls itself with a number it has no case for. A run
is the sequence of its calls, one step a call, so a recursion that does not end is a run that never
returns.

`std::cin >> input` skips blanks and takes one character. When there is none it sets the fail flag
of the stream and leaves `input` as it was, which here is uninitialised; every later read fails at
once. What an uninitialised `char` holds is the label of the step: a statement about all schedules
is a statement about every such value.
-/

namespace IndraDds

open Transition

/-! ## The console -/

/-- `std::cin`: the characters not read yet, up to the end of the file. -/
structure Console where
  input : List Char
  failed : Bool := false
deriving DecidableEq, Repr

/-- `std::isspace` in the classic locale. -/
def isSpace (c : Char) : Bool := c.toNat = 32 ∨ 9 ≤ c.toNat ∧ c.toNat ≤ 13

/-- `std::cin >> input`, where `input` holds `stale` before. -/
def Console.extract (k : Console) (stale : Char) : Char × Console :=
  if k.failed then (stale, k)
  else
    match k.input.dropWhile isSpace with
    | [] => (stale, { input := [], failed := true })
    | c :: rest => (c, { input := rest })

/-! ## `test_patterns` -/

/-- `enum class DDS_Library`. -/
inductive DDSLibrary where
  | FastDDS
  | CycloneDDS
  | OpenDDS
  | RtiDDS
deriving DecidableEq, Repr

/-- The two classes derived from `pattern_base`. -/
inductive PatternKind where
  | pubTest1To1
  | subTest1To1
deriving DecidableEq, Repr

namespace TestMode

def OneToOnePub : ℤ := 1

def OneToOneSub : ℤ := 2

end TestMode

/-- Where the calls of `test_patterns` stand: the innermost one is about to run, or all of them
have returned, the innermost with the given `number`. -/
inductive MenuCall where
  | testPatterns (mode : ℤ)
  | returned (number : ℤ)
deriving DecidableEq, Repr

structure Menu where
  call : MenuCall
  console : Console
  pPattern : Option PatternKind := none
deriving DecidableEq, Repr

/-- `input - '0'` for a digit, and the default command for any other character. -/
def digitOf (input : Char) : ℤ := if input.isDigit then (input.toNat : ℤ) - 48 else 0

/-- The `number` a call selects, and the console it leaves. -/
def selectNumber (mode : ℤ) (k : Console) (stale : Char) : ℤ × Console :=
  if mode ≤ 0 then (digitOf (k.extract stale).1, (k.extract stale).2) else (mode, k)

/-- The inner `switch`: it has no case for `RtiDDS`. -/
def createPattern (library : DDSLibrary) (kind : PatternKind) (p : Option PatternKind) :
    Option PatternKind :=
  match library with
  | .FastDDS => some kind
  | .CycloneDDS => some kind
  | .OpenDDS => some kind
  | .RtiDDS => p

/-- One call of `test_patterns`. -/
def testPatterns (library : DDSLibrary) (m : Menu) (stale : Char) : Menu :=
  match m.call with
  | .returned _ => m
  | .testPatterns mode =>
    let number := (selectNumber mode m.console stale).1
    let console := (selectNumber mode m.console stale).2
    if number = TestMode.OneToOnePub then
      { call := .returned number, console := console,
        pPattern := createPattern library .pubTest1To1 m.pPattern }
    else if number = TestMode.OneToOneSub then
      { call := .returned number, console := console,
        pPattern := createPattern library .subTest1To1 m.pPattern }
    else { m with call := .testPatterns number, console := console }

/-- The call that `cl_dds::init` makes. -/
def Menu.start (mode : ℤ) (input : List Char) : Menu :=
  { call := .testPatterns mode, console := { input := input } }

/-! ## What is asked of it -/

/-- If the call recurses, it has taken a character from the console. -/
def Progresses (library : DDSLibrary) (m : Menu) (stale : Char) : Prop :=
  ∀ mode, (testPatterns library m stale).call = .testPatterns mode →
    (testPatterns library m stale).console.input.length < m.console.input.length

/-- Control is back with the caller, and a selection of 1 or 2 has set the pattern. -/
def Menu.Done (m : Menu) : Prop :=
  ∃ number, m.call = .returned number
    ∧ (number = TestMode.OneToOnePub → m.pPattern = some .pubTest1To1)
    ∧ (number = TestMode.OneToOneSub → m.pPattern = some .subTest1To1)

/-- Whatever uninitialised characters hold, every recursive call has consumed input, and after
enough calls the selection is done. -/
def SelectionProgresses (library : DDSLibrary) (mode : ℤ) (input : List Char) : Prop :=
  (∀ stales, Along (testPatterns library) (Progresses library) (.start mode input) stales)
    ∧ ∃ n, ∀ stales, n ≤ stales.length →
      (run (testPatterns library) (.start mode input) stales).Done

/-! ## What the console offers -/

/-- The characters reads can still get. -/
def Console.text (k : Console) : List Char := if k.failed then [] else k.input

/-- The first number other than 0 that the characters hold, read one digit at a time. -/
def firstNumber (text : List Char) : Option ℤ := (text.map digitOf).find? fun d ↦ d ≠ 0

/-- A call with `mode` comes to 1 or 2: it is one of them, or it asks the console and the first
number there is one of them. -/
def Selectable (mode : ℤ) (text : List Char) : Prop :=
  mode = TestMode.OneToOnePub ∨ mode = TestMode.OneToOneSub
    ∨ mode ≤ 0 ∧ (firstNumber text = some TestMode.OneToOnePub
      ∨ firstNumber text = some TestMode.OneToOneSub)

theorem digitOf_nonneg (c : Char) : 0 ≤ digitOf c := by
  rw [digitOf]
  split_ifs with h
  · have hlow : 48 ≤ c.toNat := by
      simp only [Char.isDigit, Bool.and_eq_true, decide_eq_true_eq] at h
      exact h.1
    omega
  · exact Int.le_refl 0

theorem digitOf_eq_zero_of_isSpace {c : Char} (h : isSpace c = true) : digitOf c = 0 := by
  rw [digitOf, if_neg]
  intro hd
  have hlow : 48 ≤ c.toNat := by
    simp only [Char.isDigit, Bool.and_eq_true, decide_eq_true_eq] at hd
    exact hd.1
  simp only [isSpace, decide_eq_true_eq] at h
  omega

@[simp] theorem firstNumber_nil : firstNumber [] = none := rfl

theorem firstNumber_cons (c : Char) (text : List Char) :
    firstNumber (c :: text) = if digitOf c ≠ 0 then some (digitOf c) else firstNumber text := by
  rw [firstNumber, List.map_cons, List.find?_cons]
  by_cases h : digitOf c = 0 <;> simp [h, firstNumber]

theorem firstNumber_dropWhile (text : List Char) :
    firstNumber (text.dropWhile isSpace) = firstNumber text := by
  induction text with
  | nil => rfl
  | cons c text ih =>
    rw [List.dropWhile_cons]
    split_ifs with h
    · rw [ih, firstNumber_cons, if_neg (by simp [digitOf_eq_zero_of_isSpace h])]
    · rfl

/-- A read finds nothing, and nothing is left to find, or it takes the first character that is no
blank. -/
theorem Console.extract_cases (k : Console) (stale : Char) :
    (firstNumber k.text = none ∧ (k.extract stale).1 = stale ∧ (k.extract stale).2.text = [])
      ∨ ∃ c rest, k.extract stale = (c, { input := rest }) ∧ rest.length < k.input.length
        ∧ firstNumber k.text = firstNumber (c :: rest) := by
  by_cases hfail : k.failed = true
  · left
    have htext : k.text = [] := if_pos hfail
    rw [extract, if_pos hfail]
    exact ⟨by rw [htext, firstNumber_nil], rfl, htext⟩
  · have htext : k.text = k.input := if_neg hfail
    rw [extract, if_neg hfail, htext, ← firstNumber_dropWhile]
    rcases hdrop : k.input.dropWhile isSpace with _ | ⟨c, rest⟩
    · exact .inl ⟨rfl, rfl, rfl⟩
    · have hlen := (List.dropWhile_suffix (l := k.input) isSpace).length_le
      rw [hdrop, List.length_cons] at hlen
      exact .inr ⟨c, rest, rfl, by omega, rfl⟩

/-- A call that asks the console passes on what it was asked to find. -/
theorem selectable_digitOf {mode : ℤ} (h : mode ≤ 0) (c : Char) (rest : List Char) :
    Selectable (digitOf c) rest ↔ Selectable mode (c :: rest) := by
  have hpos := digitOf_nonneg c
  simp only [Selectable, firstNumber_cons, TestMode.OneToOnePub, TestMode.OneToOneSub]
  by_cases hd : digitOf c = 0
  · have hpub : mode ≠ 1 := by omega
    have hsub : mode ≠ 2 := by omega
    simp [hd, hpub, hsub, h]
  · simp only [hd, ne_eq, not_false_eq_true, if_true, Option.some.injEq]
    omega

/-! ## One call -/

/-- What a call selects is as good as what it was called with. Without a character to read this
takes an uninitialised one that is no digit. -/
theorem selectable_selectNumber {mode : ℤ} {k : Console} (stale : Char)
    (h : Selectable mode k.text ∨ digitOf stale = 0) :
    Selectable (selectNumber mode k stale).1 (selectNumber mode k stale).2.text
      ↔ Selectable mode k.text := by
  rw [selectNumber]
  split_ifs with hmode
  · rcases k.extract_cases stale with ⟨hnone, hstale, htext⟩ | ⟨c, rest, hread, -, hfirst⟩
    · have hnot : ¬Selectable mode k.text := by
        simp only [Selectable, hnone, TestMode.OneToOnePub, TestMode.OneToOneSub]
        simp
        omega
      have hzero : digitOf stale = 0 := h.resolve_left hnot
      rw [htext, hstale, hzero]
      exact iff_of_false (by simp [Selectable, TestMode.OneToOnePub, TestMode.OneToOneSub]) hnot
    · have htext : Selectable mode k.text ↔ Selectable mode (c :: rest) := by
        rw [Selectable, Selectable, hfirst]
      rw [hread, htext]
      exact selectable_digitOf hmode c rest
  · exact Iff.rfl

/-- A call returns with 1 or 2 and the pattern created for it, or calls itself. -/
theorem testPatterns_cases (library : DDSLibrary) {m : Menu} {mode : ℤ}
    (h : m.call = .testPatterns mode) (stale : Char) :
    ∃ number console, (number, console) = selectNumber mode m.console stale
      ∧ ((number = TestMode.OneToOnePub ∧ testPatterns library m stale
            = ⟨.returned number, console, createPattern library .pubTest1To1 m.pPattern⟩)
        ∨ (number = TestMode.OneToOneSub ∧ testPatterns library m stale
            = ⟨.returned number, console, createPattern library .subTest1To1 m.pPattern⟩)
        ∨ (number ≠ TestMode.OneToOnePub ∧ number ≠ TestMode.OneToOneSub
          ∧ testPatterns library m stale = ⟨.testPatterns number, console, m.pPattern⟩)) := by
  refine ⟨_, _, rfl, ?_⟩
  rw [testPatterns, h]
  by_cases hpub : (selectNumber mode m.console stale).1 = TestMode.OneToOnePub
  · exact .inl ⟨hpub, if_pos hpub⟩
  · by_cases hsub : (selectNumber mode m.console stale).1 = TestMode.OneToOneSub
    · exact .inr (.inl ⟨hsub, (if_neg hpub).trans (if_pos hsub)⟩)
    · exact .inr (.inr ⟨hpub, hsub, (if_neg hpub).trans (if_neg hsub)⟩)

/-- The call about to run comes to 1 or 2. -/
def Menu.Selects (m : Menu) : Prop :=
  ∀ mode, m.call = .testPatterns mode → Selectable mode m.console.text

theorem selects_returned {m : Menu} {number : ℤ} (h : m.call = .returned number) : m.Selects := by
  intro mode hcall
  rw [h] at hcall
  exact absurd hcall (by simp)

theorem selects_testPatterns {m : Menu} {mode : ℤ} (h : m.call = .testPatterns mode) :
    m.Selects ↔ Selectable mode m.console.text := by
  refine ⟨fun hm ↦ hm mode h, fun hs mode' hcall ↦ ?_⟩
  rw [h, MenuCall.testPatterns.injEq] at hcall
  rwa [← hcall]

variable {library : DDSLibrary}

theorem testPatterns_returned {m : Menu} {number : ℤ} (h : m.call = .returned number)
    (stale : Char) : testPatterns library m stale = m := by
  rw [testPatterns, h]

/-- **One call** leaves it as it is whether 1 or 2 will come of the selection. -/
theorem selects_step {m : Menu} {stale : Char} (h : m.Selects ∨ digitOf stale = 0) :
    (testPatterns library m stale).Selects ↔ m.Selects := by
  rcases hcall : m.call with mode | number
  · rw [selects_testPatterns hcall] at h ⊢
    obtain ⟨number, console, hsel, hcases⟩ := testPatterns_cases library hcall stale
    have hiff := selectable_selectNumber stale h
    rw [← hsel] at hiff
    rcases hcases with ⟨hn, hstep⟩ | ⟨hn, hstep⟩ | ⟨-, -, hstep⟩
    · rw [← hiff, hstep]
      exact iff_of_true (selects_returned rfl) (.inl hn)
    · rw [← hiff, hstep]
      exact iff_of_true (selects_returned rfl) (.inr (.inl hn))
    · rw [hstep, selects_testPatterns rfl]
      exact hiff
  · rw [testPatterns_returned hcall]

/-- Where 1 or 2 will come of the selection, a call that recurses has read a character. -/
theorem progresses_of_selects {m : Menu} (h : m.Selects) (stale : Char) :
    Progresses library m stale := by
  intro mode' hnext
  rcases hcall : m.call with mode | number
  · rw [selects_testPatterns hcall] at h
    obtain ⟨number, console, hsel, hcases⟩ := testPatterns_cases library hcall stale
    rcases hcases with ⟨-, hstep⟩ | ⟨-, hstep⟩ | ⟨hpub, hsub, hstep⟩
    · rw [hstep] at hnext
      exact absurd hnext (by simp)
    · rw [hstep] at hnext
      exact absurd hnext (by simp)
    · rw [hstep]
      rw [selectNumber] at hsel
      split_ifs at hsel with hmode
      · rcases m.console.extract_cases stale with ⟨hnone, -, -⟩ | ⟨c, rest, hread, hlen, -⟩
        · rcases h with h | h | h
          · exact absurd h (by rw [TestMode.OneToOnePub]; omega)
          · exact absurd h (by rw [TestMode.OneToOneSub]; omega)
          · simp [hnone] at h
        · rw [hread, Prod.mk.injEq] at hsel
          rw [hsel.2]
          exact hlen
      · rw [Prod.mk.injEq] at hsel
        rw [hsel.1] at hpub hsub
        exact absurd (h.resolve_left hpub) (by rintro (h | h); exacts [hsub h, hmode h.1])
  · rw [testPatterns_returned hcall, hcall] at hnext
    exact absurd hnext (by simp)

/-! ## The whole selection -/

/-- What returned is 1 or 2, with its pattern created. -/
def Menu.Chosen (library : DDSLibrary) (m : Menu) : Prop :=
  match m.call with
  | .testPatterns _ => m.pPattern = none
  | .returned number =>
    number = TestMode.OneToOnePub ∧ m.pPattern = createPattern library .pubTest1To1 none
      ∨ number = TestMode.OneToOneSub ∧ m.pPattern = createPattern library .subTest1To1 none

theorem chosen_step (m : Menu) (stale : Char) (h : m.Chosen library) :
    (testPatterns library m stale).Chosen library := by
  rcases hcall : m.call with mode | number
  · have hnone : m.pPattern = none := by
      rw [Menu.Chosen, hcall] at h
      exact h
    obtain ⟨number, console, -, hcases⟩ := testPatterns_cases library hcall stale
    rw [hnone] at hcases
    rcases hcases with ⟨hn, hstep⟩ | ⟨hn, hstep⟩ | ⟨-, -, hstep⟩
    · rw [hstep]
      exact .inl ⟨hn, rfl⟩
    · rw [hstep]
      exact .inr ⟨hn, rfl⟩
    · rw [hstep]
      rfl
  · rw [testPatterns_returned hcall]
    exact h

theorem chosen_run (mode : ℤ) (input : List Char) (stales : List Char) :
    (run (testPatterns library) (.start mode input) stales).Chosen library := by
  have h0 : (Menu.start mode input).Chosen library := rfl
  exact run_invariant h0 chosen_step stales

theorem createPattern_of_ne {p : Option PatternKind} (h : library ≠ .RtiDDS) (kind : PatternKind) :
    createPattern library kind p = some kind := by
  cases library with
  | FastDDS => rfl
  | CycloneDDS => rfl
  | OpenDDS => rfl
  | RtiDDS => exact absurd rfl h

/-- Once the calls have returned the selection is done, but for the library without patterns. -/
theorem done_iff {m : Menu} {number : ℤ} (h : m.Chosen library)
    (hcall : m.call = .returned number) :
    m.Done ↔ library ≠ .RtiDDS := by
  rw [Menu.Chosen, hcall] at h
  constructor
  · rintro ⟨n, hn, hpub, hsub⟩ rfl
    rw [hcall, MenuCall.returned.injEq] at hn
    subst hn
    rcases h with ⟨h1, hp⟩ | ⟨h2, hp⟩
    · exact absurd ((hpub h1).symm.trans hp) (by decide)
    · exact absurd ((hsub h2).symm.trans hp) (by decide)
  · intro hlib
    rw [createPattern_of_ne hlib, createPattern_of_ne hlib] at h
    refine ⟨number, hcall, fun h1 ↦ ?_, fun h2 ↦ ?_⟩
    · exact (h.resolve_right (by rintro ⟨h2, -⟩; rw [h1] at h2; exact absurd h2 (by decide))).2
    · exact (h.resolve_left (by rintro ⟨h1, -⟩; rw [h2] at h1; exact absurd h1 (by decide))).2

/-- Characters that are no digits come to nothing, so what is selected was there to select. -/
theorem selects_run (library : DDSLibrary) {m : Menu} {stales : List Char}
    (h : ∀ c ∈ stales, digitOf c = 0) :
    (run (testPatterns library) m stales).Selects ↔ m.Selects := by
  induction stales generalizing m with
  | nil => exact Iff.rfl
  | cons c stales ih =>
    rw [run_cons, ih fun c' hc' ↦ h c' (List.mem_cons_of_mem _ hc'),
      selects_step (.inr (h c List.mem_cons_self))]

theorem selects_start {mode : ℤ} {input : List Char} :
    (Menu.start mode input).Selects ↔ Selectable mode input :=
  selects_testPatterns rfl

theorem progresses_run (library : DDSLibrary) {m : Menu} (h : m.Selects) (stales : List Char) :
    Along (testPatterns library) (Progresses library) m stales :=
  along_of_invariant (I := Menu.Selects)
    (fun _ c hm ↦ ⟨progresses_of_selects hm c, (selects_step (.inl hm)).mpr hm⟩) h stales

/-- Where 1 or 2 will come of the selection, it comes with the last character at the latest. -/
theorem returns_of_selects (library : DDSLibrary) {m : Menu} (h : m.Selects) {stales : List Char}
    (hlen : m.console.input.length < stales.length) :
    ∃ number, (run (testPatterns library) m stales).call = .returned number := by
  apply Along.finished (D := fun m : Menu ↦ ∃ number, m.call = .returned number)
    (μ := fun m ↦ m.console.input.length) _ _ hlen
  · rintro m c ⟨number, hcall⟩
    rw [testPatterns_returned hcall]
    exact ⟨number, hcall⟩
  · refine along_iff.mpr fun pre c post hls ↦ ?_
    have hstep := along_iff.mp (progresses_run library h stales) pre c post hls
    rcases hcall : (testPatterns library (run (testPatterns library) m pre) c).call
      with mode | number
    · exact .inr (hstep mode hcall)
    · exact .inl ⟨number, rfl⟩

/-- **When a selection makes progress**: exactly when 1 or 2 comes of it. A larger number recurses
without reading, and so does every call once the console is at its end. -/
theorem selectionProgresses_iff (library : DDSLibrary) (mode : ℤ) (input : List Char) :
    SelectionProgresses library mode input ↔ library ≠ .RtiDDS ∧ Selectable mode input := by
  constructor
  · rintro ⟨-, n, hn⟩
    have hdone := hn (List.replicate n 'x') (Nat.le_of_eq List.length_replicate.symm)
    obtain ⟨number, hcall, -⟩ := id hdone
    refine ⟨(done_iff (chosen_run mode input _) hcall).mp hdone, ?_⟩
    have hdigits : ∀ c ∈ List.replicate n 'x', digitOf c = 0 := fun c hc ↦ by
      rw [List.eq_of_mem_replicate hc]
      rfl
    exact selects_start.mp ((selects_run library hdigits).mp (selects_returned hcall))
  · rintro ⟨hlib, hsel⟩
    have hstart : (Menu.start mode input).Selects := selects_start.mpr hsel
    refine ⟨progresses_run library hstart, input.length + 1, fun stales hlen ↦ ?_⟩
    obtain ⟨number, hcall⟩ := returns_of_selects library hstart hlen
    exact (done_iff (chosen_run mode input stales) hcall).mpr hlib

/-- The menu offers `3) PUB 1:MANY`, and whoever types 3 leaves the program in a recursion that
reads nothing. -/
theorem offered_three_recurses : ¬SelectionProgresses .FastDDS 0 ['3', '1'] := by
  rintro ⟨hprogress, -⟩
  have hsecond := (hprogress ['x', 'x']).2.1 3 rfl
  exact absurd hsecond (by decide)

end IndraDds
