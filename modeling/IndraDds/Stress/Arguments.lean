import Mathlib.Data.List.Range
import Mathlib.Logic.Function.Basic

/-!
# Command-line arguments

`parse_args` walks `argv` by index and pairs every token beginning with `--` with the token after
it, whatever that token looks like. The index moves by one or by two, so a position alone does not
say whether a token is read as a key, as a value or as neither.

A C++ string is the list of its characters, and the returned `unordered_map` is the partial
function from keys to values it represents. The loop also records each index of `argv` it reads.

The index loop is first brought to a recursion on the tokens that are left, `scan`; what a command
line means is then an induction on the items it was rendered from.
-/

namespace IndraDds

abbrev Token := List Char

/-- The map `parse_args` returns. -/
abbrev Args := Token → Option Token

def dashes : Token := ['-', '-']

/-! ## The loop -/

/-- `key.rfind("--", 0) == 0`. -/
def startsWithDashes (key : Token) : Bool := dashes.isPrefixOf key

/-- The loop of `parse_args` from index `i` on, with the indices of `argv` read so far. -/
def parseArgsLoop (argv : List Token) (i : ℕ) (args : Args) (reads : List ℕ) : Args × List ℕ :=
  if i < argv.length then
    let key := argv.getD i []
    if startsWithDashes key ∧ i + 1 < argv.length then
      let value := argv.getD (i + 1) []
      -- `++i` in the body, then the loop's own
      parseArgsLoop argv (i + 2) (Function.update args (key.drop 2) (some value))
        (reads ++ [i, i + 1])
    else parseArgsLoop argv (i + 1) args (reads ++ [i])
  else (args, reads)
termination_by argv.length - i

def parseArgs (argv : List Token) : Args := (parseArgsLoop argv 1 (fun _ ↦ none) []).1

/-- The indices of `argv` that `parse_args` reads, in order. -/
def argvReads (argv : List Token) : List ℕ := (parseArgsLoop argv 1 (fun _ ↦ none) []).2

/-! ## The tokens that are left -/

/-- `parse_args` on the tokens it has not seen yet. -/
def scan : List Token → Args → Args
  | [], args => args
  | [_], args => args
  | key :: value :: rest, args =>
    if startsWithDashes key then scan rest (Function.update args (key.drop 2) (some value))
    else scan (value :: rest) args

@[simp] theorem scan_nil (args : Args) : scan [] args = args := rfl

@[simp] theorem scan_singleton (t : Token) (args : Args) : scan [t] args = args := rfl

theorem scan_key {key : Token} (h : startsWithDashes key = true) (value : Token)
    (rest : List Token) (args : Args) :
    scan (key :: value :: rest) args
      = scan rest (Function.update args (key.drop 2) (some value)) := by
  rw [scan, if_pos h]

theorem scan_stray {t : Token} (h : startsWithDashes t = false) (rest : List Token)
    (args : Args) : scan (t :: rest) args = scan rest args := by
  cases rest with
  | nil => rfl
  | cons v rest => rw [scan, if_neg (by rw [h]; exact Bool.false_ne_true)]

/-- With the tokens `seen` behind it, the loop scans the others and reads each of their indices
once, in order. -/
theorem parseArgsLoop_append (seen left : List Token) (args : Args) (reads : List ℕ) :
    parseArgsLoop (seen ++ left) seen.length args reads
      = (scan left args, reads ++ List.range' seen.length left.length) := by
  -- the recursion of `scan`, with the tokens it consumed moved over to `seen`
  induction left, args using scan.induct generalizing seen reads with
  | case1 args => rw [parseArgsLoop, if_neg (by simp)]; simp
  | case2 t args =>
    -- the last token is read, and is no key even if it begins with `--`
    rw [parseArgsLoop, if_pos (by simp), if_neg (by simp), parseArgsLoop, if_neg (by simp)]
    rfl
  | case3 key value rest args hkey ih =>
    have hget : (seen ++ key :: value :: rest).getD seen.length [] = key := by simp
    have hnext : (seen ++ key :: value :: rest).getD (seen.length + 1) [] = value := by simp
    have hmove : seen ++ key :: value :: rest = seen ++ [key, value] ++ rest := by simp
    have hlen : (seen ++ [key, value]).length = seen.length + 2 := by simp
    rw [parseArgsLoop, if_pos (by simp), hget, hnext, if_pos ⟨hkey, by simp⟩, hmove, ← hlen, ih,
      scan_key hkey]
    simp [List.range'_succ]
  | case4 t value rest args hstray ih =>
    have hget : (seen ++ t :: value :: rest).getD seen.length [] = t := by simp
    have hmove : seen ++ t :: value :: rest = seen ++ [t] ++ value :: rest := by simp
    have hlen : (seen ++ [t]).length = seen.length + 1 := by simp
    rw [parseArgsLoop, if_pos (by simp), hget, if_neg (fun h ↦ hstray h.1), hmove, ← hlen, ih,
      scan_stray (Bool.eq_false_iff.mpr hstray)]
    simp [List.range'_succ]

theorem parseArgs_cons (program : Token) (left : List Token) :
    parseArgs (program :: left) = scan left fun _ ↦ none := by
  rw [parseArgs]
  exact congrArg Prod.fst (parseArgsLoop_append [program] left _ _)

-- a value may look like a key
example : parseArgs ["a.out".toList, "run".toList, "--config".toList, "--x".toList, "y".toList]
    "config".toList = some "--x".toList := by
  rw [parseArgs_cons]
  decide

/-- Every index of `argv` but that of the program name is read, once and in order. -/
theorem argvReads_eq (argv : List Token) : argvReads argv = List.range' 1 (argv.length - 1) := by
  cases argv with
  | nil => rw [argvReads, parseArgsLoop, if_neg (by simp)]; rfl
  | cons program left =>
    rw [argvReads]
    exact congrArg Prod.snd (parseArgsLoop_append [program] left _ _)

theorem argvReads_bounds {argv : List Token} {i : ℕ} (h : i ∈ argvReads argv) :
    1 ≤ i ∧ i < argv.length := by
  rw [argvReads_eq, List.mem_range'_1] at h
  omega

/-! ## Command lines -/

/-- What a command line is rendered from: a key with its value, or a token that is no key. -/
inductive ArgItem where
  | pair (key value : Token)
  | stray (token : Token) (plain : startsWithDashes token = false)

namespace ArgItem

def tokens : ArgItem → List Token
  | pair key value => [dashes ++ key, value]
  | stray token _ => [token]

def assignment : ArgItem → Option (Token × Token)
  | pair key value => some (key, value)
  | stray _ _ => none

/-- The command line of a list of items, less the program name. -/
def render (items : List ArgItem) : List Token := items.flatMap tokens

/-- The map that gives each key its last value. -/
def lastValues (items : List ArgItem) : Args := fun key ↦
  (((items.filterMap assignment).filter fun a ↦ a.1 = key).getLast?).map Prod.snd

end ArgItem

open ArgItem

theorem startsWithDashes_append (key : Token) : startsWithDashes (dashes ++ key) = true :=
  List.isPrefixOf_iff_prefix.mpr (List.prefix_append _ _)

/-- The entries of `args`, with those of `last` written over them. -/
def Args.overriddenBy (args last : Args) : Args := fun key ↦ (last key).or (args key)

theorem lastValues_stray (token : Token) (plain : startsWithDashes token = false)
    (items : List ArgItem) : lastValues (stray token plain :: items) = lastValues items := rfl

theorem lastValues_pair (key value : Token) (items : List ArgItem) :
    lastValues (pair key value :: items)
      = Args.overriddenBy (Function.update (fun _ ↦ none) key (some value)) (lastValues items) := by
  funext k
  simp only [lastValues, Args.overriddenBy, List.filterMap_cons, assignment]
  by_cases h : key = k
  · rw [List.filter_cons_of_pos (by simpa using h), List.getLast?_cons, ← h,
      Function.update_self]
    generalize ((items.filterMap assignment).filter fun a ↦ a.1 = key).getLast? = last
    cases last <;> rfl
  · rw [List.filter_cons_of_neg (by simpa using h), Function.update_of_ne (Ne.symm h),
      Option.or_none]

/-- Rendered items are scanned one item at a time: whatever a value looks like, the next token
read as a key is the first one of the next item. -/
theorem scan_render (items : List ArgItem) (rest : List Token) (args : Args) :
    scan (render items ++ rest) args = scan rest (args.overriddenBy (lastValues items)) := by
  induction items generalizing args with
  | nil => rfl
  | cons item items ih =>
    cases item with
    | stray token plain =>
      rw [lastValues_stray, ← ih]
      exact scan_stray plain _ _
    | pair key value =>
      calc scan (render (pair key value :: items) ++ rest) args
          = scan (render items ++ rest) (Function.update args key (some value)) :=
            scan_key (startsWithDashes_append key) value _ args
        _ = scan rest (args.overriddenBy (lastValues (pair key value :: items))) := by
            rw [ih, lastValues_pair]
            congr 1
            funext k
            by_cases h : k = key <;> simp [Args.overriddenBy, h]

/-- **`parse_args` undoes rendering**, with or without a lone key at the end, and reads no index
but those of the arguments. -/
theorem parseArgs_render (program : Token) (items : List ArgItem) (lone : Token) :
    parseArgs (program :: render items) = lastValues items
      ∧ parseArgs (program :: render items ++ [dashes ++ lone]) = lastValues items
      ∧ ∀ argv, ∀ i ∈ argvReads argv, 1 ≤ i ∧ i < argv.length := by
  have hnone : Args.overriddenBy (fun _ ↦ none) (lastValues items) = lastValues items :=
    funext fun k ↦ Option.or_none
  refine ⟨?_, ?_, fun argv i hi ↦ argvReads_bounds hi⟩
  · have h := scan_render items [] fun _ ↦ none
    rw [List.append_nil] at h
    rw [parseArgs_cons, h, hnone, scan_nil]
  · rw [List.cons_append, parseArgs_cons, scan_render, hnone, scan_singleton]

end IndraDds
