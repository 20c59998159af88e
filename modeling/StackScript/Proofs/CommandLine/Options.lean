import Mathlib.Algebra.Ring.Parity
import StackScript.CommandLine
import StackScript.Proofs.Lexis.Reading

/-!
# The options of a run

A list of options is read in pairs. It is accepted if every place holds what belongs
there: a flag at an even place, a number below two to the sixty-fourth behind it. Each
limit is then set by the last pair for its flag. Any other list is refused with the
message of the leftmost place where something is wrong.
-/

namespace StackScript.CommandLine

/-! ## Flags and values -/

namespace Flag

/-- The limit that a flag sets. -/
def get (limits : Limits) : Flag → ℕ
  | .maxCallDepth => limits.maxCallDepth
  | .maxHeapCells => limits.maxHeapCells
  | .maxStringBytes => limits.maxStringBytes

@[simp]
theorem get_set_self (flag : Flag) (limits : Limits) (n : ℕ) :
    flag.get (flag.set limits n) = n := by
  cases flag <;> rfl

/-- Setting one limit leaves the others. -/
theorem get_set_of_ne {flag other : Flag} (different : other ≠ flag) (limits : Limits) (n : ℕ) :
    other.get (flag.set limits n) = other.get limits := by
  cases flag <;> cases other <;> simp_all [get, set]

theorem set_comm {flag other : Flag} (different : other ≠ flag) (limits : Limits) (n m : ℕ) :
    other.set (flag.set limits n) m = flag.set (other.set limits m) n := by
  cases flag <;> cases other <;> simp_all [set]

theorem limits_ext {first second : Limits}
    (same : ∀ flag : Flag, flag.get first = flag.get second) : first = second := by
  obtain ⟨depth, cells, bytes⟩ := first
  obtain ⟨otherDepth, otherCells, otherBytes⟩ := second
  obtain rfl : depth = otherDepth := same .maxCallDepth
  obtain rfl : cells = otherCells := same .maxHeapCells
  obtain rfl : bytes = otherBytes := same .maxStringBytes
  rfl

theorem text_injective : Function.Injective text := by
  intro first second same
  cases first <;> cases second <;> simp_all [text]

theorem ofText?_eq_some_iff {argument : String} {flag : Flag} :
    ofText? argument = some flag ↔ flag.text = argument := by
  constructor
  · intro found
    simpa using List.find?_some found
  · rintro rfl
    cases flag <;> decide

theorem ofText?_eq_none_iff {argument : String} :
    ofText? argument = none ↔ ∀ flag : Flag, flag.text ≠ argument := by
  simp only [Option.eq_none_iff_forall_ne_some, ne_eq, ofText?_eq_some_iff]

end Flag

/-- The value of an option spells this number: decimal digits, after a plus sign if
there is one, below two to the sixty-fourth. -/
def IsLimit (value : String) (n : ℕ) : Prop :=
  ∃ digits, (value.toList = digits ∨ value.toList = '+' :: digits) ∧ digits ≠ [] ∧
    (∀ c ∈ digits, c.isDigit = true) ∧ Token.natOfDigits digits = n ∧ n < 2 ^ 64

theorem limitOfText?_eq_some_iff {value : String} {n : ℕ} :
    limitOfText? value = some n ↔ IsLimit value n := by
  have read (digits : List Char) :
      (if Token.isDigits digits && Token.natOfDigits digits < UInt64.size then
          some (Token.natOfDigits digits) else none) = some n ↔
        digits ≠ [] ∧ (∀ c ∈ digits, c.isDigit = true) ∧ Token.natOfDigits digits = n ∧
          n < 2 ^ 64 := by
    simp only [Option.ite_none_right_eq_some, Bool.and_eq_true, Token.isDigits_iff,
      decide_eq_true_eq, Option.some.injEq]
    constructor
    · rintro ⟨⟨⟨notEmpty, digit⟩, small⟩, rfl⟩
      exact ⟨notEmpty, digit, rfl, small⟩
    · rintro ⟨notEmpty, digit, rfl, small⟩
      exact ⟨⟨⟨notEmpty, digit⟩, small⟩, rfl⟩
  rw [limitOfText?, IsLimit]
  split
  · rename_i signed
    rw [read]
    constructor
    · intro digits
      exact ⟨_, .inr signed, digits⟩
    · rintro ⟨digits, rfl | same, notEmpty, digit, value⟩
      · have sign := digit '+' (by rw [signed]; exact List.mem_cons_self)
        cases sign
      · obtain rfl := (List.cons.inj (signed.symm.trans same)).2
        exact ⟨notEmpty, digit, value⟩
  · rename_i unsigned
    rw [read]
    constructor
    · intro digits
      exact ⟨_, .inl rfl, digits⟩
    · rintro ⟨digits, rfl | signed, spelled⟩
      · exact spelled
      · exact absurd signed (unsigned digits)

theorem limitOfText?_eq_none_iff {value : String} :
    limitOfText? value = none ↔ ∀ n, ¬ IsLimit value n := by
  simp only [Option.eq_none_iff_forall_ne_some, ne_eq, limitOfText?_eq_some_iff]

theorem IsLimit.unique {value : String} {n m : ℕ} (first : IsLimit value n)
    (second : IsLimit value m) : n = m := by
  rw [← limitOfText?_eq_some_iff] at first second
  exact Option.some.inj (first.symm.trans second)

/-! ## Accepted lists -/

/-- The list has an even length, flags at the even places and numbers at the odd ones. -/
structure WellFormed (arguments : List String) : Prop where
  even : Even arguments.length
  flag : ∀ k argument, arguments[2 * k]? = some argument → ∃ flag : Flag, flag.text = argument
  value : ∀ k value, arguments[2 * k + 1]? = some value → ∃ n, IsLimit value n

/-- The last pair for this flag has a value that spells this number. -/
def LastSets (arguments : List String) (flag : Flag) (n : ℕ) : Prop :=
  ∃ k value, arguments[2 * k]? = some flag.text ∧ arguments[2 * k + 1]? = some value ∧
    IsLimit value n ∧ ∀ j, k < j → arguments[2 * j]? ≠ some flag.text

/-- Every limit is what the last pair for its flag sets, and is as before if there is no
such pair. -/
def SetBy (limits : Limits) (arguments : List String) (final : Limits) : Prop :=
  ∀ flag : Flag, LastSets arguments flag (flag.get final) ∨
    (∀ k, arguments[2 * k]? ≠ some flag.text) ∧ flag.get final = flag.get limits

variable {limits final : Limits} {flag : Flag} {argument value : String} {n : ℕ}
  {arguments rest : List String} {message : String}

theorem wellFormed_nil : WellFormed [] :=
  ⟨Even.zero, by simp, by simp⟩

/-- A pair in front of a well-formed list. -/
theorem WellFormed.cons_cons (limit : IsLimit value n) (wellFormed : WellFormed rest) :
    WellFormed (flag.text :: value :: rest) where
  even := by
    rw [List.length_cons, List.length_cons]
    exact wellFormed.even.add even_two
  flag
    | 0, _, here => ⟨flag, Option.some.inj here⟩
    | k + 1, argument, here => wellFormed.flag k argument here
  value
    | 0, _, here => ⟨n, Option.some.inj here ▸ limit⟩
    | k + 1, value, here => wellFormed.value k value here

theorem LastSets.cons_cons {first second : String} (last : LastSets rest flag n) :
    LastSets (first :: second :: rest) flag n := by
  obtain ⟨k, value, named, valued, limit, noLater⟩ := last
  refine ⟨k + 1, value, named, valued, limit, ?_⟩
  rintro (_ | j) later
  · exact absurd later (Nat.not_lt_zero _)
  · exact noLater j (Nat.lt_of_succ_lt_succ later)

theorem setBy_nil (limits : Limits) : SetBy limits [] limits :=
  fun _ => .inr ⟨by simp, rfl⟩

/-- A pair in front sets its limit, unless a later pair for the flag does. -/
theorem SetBy.cons_cons (limit : IsLimit value n) (set : SetBy (flag.set limits n) rest final) :
    SetBy limits (flag.text :: value :: rest) final := by
  intro other
  rcases set other with last | ⟨absent, kept⟩
  · exact .inl last.cons_cons
  · by_cases same : other = flag
    · subst same
      rw [Flag.get_set_self] at kept
      refine .inl ⟨0, value, rfl, rfl, kept ▸ limit, ?_⟩
      rintro (_ | j) later
      · exact absurd later (Nat.lt_irrefl 0)
      · exact absent j
    · rw [Flag.get_set_of_ne same] at kept
      refine .inr ⟨?_, kept⟩
      rintro (_ | k) named
      · exact same (Flag.text_injective (Option.some.inj named)).symm
      · exact absent k named

theorem LastSets.unique {m : ℕ} (first : LastSets arguments flag n)
    (second : LastSets arguments flag m) : n = m := by
  obtain ⟨k, value, named, valued, limit, noLater⟩ := first
  obtain ⟨j, other, namedOther, valuedOther, limitOther, noLaterOther⟩ := second
  obtain rfl : k = j := by
    rcases Nat.lt_trichotomy k j with before | same | behind
    · exact absurd namedOther (noLater j before)
    · exact same
    · exact absurd named (noLaterOther k behind)
  obtain rfl := Option.some.inj (valued.symm.trans valuedOther)
  exact limit.unique limitOther

theorem LastSets.exists_named (last : LastSets arguments flag n) :
    ∃ k : ℕ, arguments[2 * k]? = some flag.text := by
  obtain ⟨k, _, named, _⟩ := last
  exact ⟨k, named⟩

/-- The options decide every limit. -/
theorem SetBy.unique {other : Limits} (first : SetBy limits arguments final)
    (second : SetBy limits arguments other) : final = other := by
  refine Flag.limits_ext fun flag => ?_
  rcases first flag with last | ⟨absent, kept⟩ <;>
    rcases second flag with lastOther | ⟨absentOther, keptOther⟩
  · exact last.unique lastOther
  · obtain ⟨k, named⟩ := last.exists_named
    exact absurd named (absentOther k)
  · obtain ⟨k, named⟩ := lastOther.exists_named
    exact absurd named (absent k)
  · exact kept.trans keptOther.symm

/-! ## Refused lists -/

/-- What is wrong at a place, with its message: no flag at an even place, a flag at the
end, or no number at an odd place behind a flag. -/
inductive ProblemAt (arguments : List String) : ℕ → String → Prop
  | unknown {k : ℕ} {argument : String} (here : arguments[2 * k]? = some argument)
      (noFlag : ∀ flag : Flag, flag.text ≠ argument) :
      ProblemAt arguments (2 * k) ("error: unknown option '" ++ argument ++ "'")
  | missingValue {k : ℕ} {flag : Flag} (here : arguments[2 * k]? = some flag.text)
      (last : arguments.length = 2 * k + 1) :
      ProblemAt arguments (2 * k) ("error: " ++ flag.text ++ " requires a value")
  | invalidValue {k : ℕ} {flag : Flag} {value : String}
      (before : arguments[2 * k]? = some flag.text) (here : arguments[2 * k + 1]? = some value)
      (noLimit : ∀ n, ¬ IsLimit value n) :
      ProblemAt arguments (2 * k + 1)
        ("error: " ++ flag.text ++ " expects a non-negative integer, got '" ++ value ++ "'")

/-- The message of the leftmost place where something is wrong. -/
def FirstProblem (arguments : List String) (message : String) : Prop :=
  ∃ i, ProblemAt arguments i message ∧ ∀ j < i, ∀ other, ¬ ProblemAt arguments j other

/-- In a well-formed list nothing is wrong. -/
theorem WellFormed.not_problemAt (wellFormed : WellFormed arguments) (i : ℕ) (message : String) :
    ¬ ProblemAt arguments i message := by
  intro problem
  cases problem with
  | unknown here noFlag =>
    obtain ⟨flag, same⟩ := wellFormed.flag _ _ here
    exact noFlag flag same
  | missingValue here last =>
    exact Nat.not_even_bit1 _ (last ▸ wellFormed.even)
  | invalidValue before here noLimit =>
    obtain ⟨n, limit⟩ := wellFormed.value _ _ here
    exact noLimit n limit

theorem WellFormed.not_firstProblem (wellFormed : WellFormed arguments) :
    ¬ FirstProblem arguments message := by
  rintro ⟨i, problem, -⟩
  exact wellFormed.not_problemAt i message problem

/-- At one place one thing is wrong. -/
theorem ProblemAt.unique {i : ℕ} {other : String} (first : ProblemAt arguments i message)
    (second : ProblemAt arguments i other) : message = other := by
  cases first with
  | @unknown k argument here noFlag =>
    generalize place : 2 * k = i at second
    cases second with
    | unknown hereOther _ =>
      rw [place, hereOther] at here
      rw [Option.some.inj here]
    | missingValue hereOther _ =>
      rw [place, hereOther] at here
      exact absurd (Option.some.inj here) (noFlag _)
    | invalidValue => omega
  | @missingValue k flag here last =>
    generalize place : 2 * k = i at second
    cases second with
    | unknown hereOther noFlag =>
      rw [place, hereOther] at here
      exact absurd (Option.some.inj here).symm (noFlag _)
    | missingValue hereOther _ =>
      rw [place, hereOther] at here
      rw [Option.some.inj here]
    | invalidValue => omega
  | @invalidValue k flag value before here _ =>
    generalize place : 2 * k + 1 = i at second
    cases second with
    | unknown | missingValue => omega
    | @invalidValue j _ _ beforeOther hereOther _ =>
      obtain rfl : k = j := by omega
      rw [Option.some.inj (before.symm.trans beforeOther),
        Option.some.inj (here.symm.trans hereOther)]

theorem FirstProblem.unique {other : String} (first : FirstProblem arguments message)
    (second : FirstProblem arguments other) : message = other := by
  obtain ⟨i, problem, noEarlier⟩ := first
  obtain ⟨j, problemOther, noEarlierOther⟩ := second
  obtain rfl : i = j := by
    rcases Nat.lt_trichotomy i j with before | same | behind
    · exact absurd problem (noEarlierOther i before message)
    · exact same
    · exact absurd problemOther (noEarlier j behind other)
  exact problem.unique problemOther

/-- A problem behind a pair stays one. -/
theorem ProblemAt.cons_cons {i : ℕ} {first second : String} (problem : ProblemAt rest i message) :
    ProblemAt (first :: second :: rest) (i + 2) message := by
  cases problem with
  | @unknown k argument here noFlag => exact .unknown (k := k + 1) here noFlag
  | @missingValue k flag here last =>
    exact .missingValue (k := k + 1) here (by rw [List.length_cons, List.length_cons, last]; rfl)
  | @invalidValue k flag value before here noLimit =>
    exact .invalidValue (k := k + 1) before here noLimit

/-- With a flag and a number in front, every problem is behind them. -/
theorem ProblemAt.of_cons_cons (limit : IsLimit value n) {i : ℕ}
    (problem : ProblemAt (flag.text :: value :: rest) i message) :
    ∃ j, i = j + 2 ∧ ProblemAt rest j message := by
  cases problem with
  | @unknown k argument here noFlag =>
    cases k with
    | zero => exact absurd (Option.some.inj here) (noFlag flag)
    | succ k => exact ⟨2 * k, rfl, .unknown here noFlag⟩
  | @missingValue k flag here last =>
    cases k with
    | zero => cases last
    | succ k => exact ⟨2 * k, rfl, .missingValue here (Nat.add_right_cancel (m := 2) last)⟩
  | @invalidValue k flag value before here noLimit =>
    cases k with
    | zero =>
      obtain rfl := Option.some.inj here
      exact absurd limit (noLimit n)
    | succ k => exact ⟨2 * k + 1, rfl, .invalidValue before here noLimit⟩

theorem FirstProblem.cons_cons (limit : IsLimit value n) (first : FirstProblem rest message) :
    FirstProblem (flag.text :: value :: rest) message := by
  obtain ⟨i, problem, noEarlier⟩ := first
  refine ⟨i + 2, problem.cons_cons, ?_⟩
  intro j earlier other found
  obtain ⟨place, rfl, behind⟩ := found.of_cons_cons limit
  exact noEarlier place (Nat.lt_of_add_lt_add_right earlier) other behind

/-- A problem at the beginning is the first. -/
theorem ProblemAt.firstProblem (problem : ProblemAt arguments 0 message) :
    FirstProblem arguments message :=
  ⟨0, problem, fun j earlier => absurd earlier (Nat.not_lt_zero j)⟩

/-- Behind a flag in front, what is no number is the first problem. -/
theorem firstProblem_of_invalidValue (noLimit : ∀ n, ¬ IsLimit value n) :
    FirstProblem (flag.text :: value :: rest)
      ("error: " ++ flag.text ++ " expects a non-negative integer, got '" ++ value ++ "'") := by
  refine ⟨1, .invalidValue (k := 0) rfl rfl noLimit, ?_⟩
  intro j earlier other found
  obtain rfl : j = 0 := Nat.lt_one_iff.mp earlier
  generalize place : 0 = i at found
  cases found with
  | @unknown k argument here noFlag =>
    obtain rfl : k = 0 := by omega
    exact noFlag flag (Option.some.inj here)
  | @missingValue k flag here last =>
    rw [List.length_cons, List.length_cons] at last
    omega
  | invalidValue => omega

/-! ## Reading -/

/-- Options are read to the limits that they set, or are refused with the message of
their first problem. -/
theorem readOptions_correct (limits : Limits) (arguments : List String) :
    match readOptions limits arguments with
    | .ok final => WellFormed arguments ∧ SetBy limits arguments final
    | .error error => FirstProblem arguments error.message := by
  fun_induction readOptions limits arguments with
  | case1 limits => exact ⟨wellFormed_nil, setBy_nil limits⟩
  | case2 limits argument unknown | case4 limits argument value rest unknown =>
    exact (ProblemAt.unknown (k := 0) rfl (Flag.ofText?_eq_none_iff.mp unknown)).firstProblem
  | case3 limits argument flag named =>
    obtain rfl := Flag.ofText?_eq_some_iff.mp named
    exact (ProblemAt.missingValue (k := 0) rfl rfl).firstProblem
  | case5 limits argument value rest flag named invalid =>
    obtain rfl := Flag.ofText?_eq_some_iff.mp named
    exact firstProblem_of_invalidValue (limitOfText?_eq_none_iff.mp invalid)
  | case6 limits argument value rest flag named n valued ih =>
    obtain rfl := Flag.ofText?_eq_some_iff.mp named
    have limit := limitOfText?_eq_some_iff.mp valued
    cases read : readOptions (flag.set limits n) rest with
    | ok final =>
      simp only [read] at ih ⊢
      obtain ⟨wellFormed, set⟩ := ih
      exact ⟨wellFormed.cons_cons limit, set.cons_cons limit⟩
    | error error =>
      simp only [read] at ih ⊢
      exact ih.cons_cons limit

/-- A list of options is accepted, with these limits, if and only if it is well-formed and
sets them. -/
theorem readOptions_eq_ok_iff :
    readOptions limits arguments = .ok final ↔
      WellFormed arguments ∧ SetBy limits arguments final := by
  have correct := readOptions_correct limits arguments
  cases read : readOptions limits arguments with
  | ok found =>
    simp only [read] at correct
    obtain ⟨wellFormed, set⟩ := correct
    constructor
    · intro same
      cases same
      exact ⟨wellFormed, set⟩
    · rintro ⟨-, setFinal⟩
      rw [set.unique setFinal]
  | error error =>
    simp only [read] at correct
    constructor
    · intro same
      cases same
    · rintro ⟨wellFormed, -⟩
      exact absurd correct wellFormed.not_firstProblem

/-- Nothing but the form of a list decides whether it is accepted. -/
theorem exists_readOptions_iff :
    (∃ final, readOptions limits arguments = .ok final) ↔ WellFormed arguments := by
  constructor
  · rintro ⟨final, read⟩
    exact (readOptions_eq_ok_iff.mp read).1
  · intro wellFormed
    have correct := readOptions_correct limits arguments
    cases read : readOptions limits arguments with
    | ok final => exact ⟨final, rfl⟩
    | error error =>
      simp only [read] at correct
      exact absurd correct wellFormed.not_firstProblem

/-- The error of a refused list says what its first problem is. -/
theorem readOptions_refuses_iff :
    (∃ error, readOptions limits arguments = .error error ∧ error.message = message) ↔
      FirstProblem arguments message := by
  have correct := readOptions_correct limits arguments
  cases read : readOptions limits arguments with
  | ok final =>
    simp only [read] at correct
    constructor
    · rintro ⟨error, same, -⟩
      cases same
    · intro first
      exact absurd first correct.1.not_firstProblem
  | error error =>
    simp only [read] at correct
    constructor
    · rintro ⟨_, same, rfl⟩
      cases same
      exact correct
    · intro first
      exact ⟨error, rfl, correct.unique first⟩

/-- The command to run a file fails with the message of the options and nothing else. -/
theorem readRun_refuses_iff (path : String) :
    readRun (path :: arguments) = .error (.saying 1 [message]) ↔
      ∃ error, readOptions .default arguments = .error error ∧ error.message = message := by
  simp only [readRun]
  cases readOptions .default arguments with
  | ok limits => simp
  | error error => simp [Report.saying]

/-- Behind whole pairs the reading goes on with the limits that they set. -/
theorem readOptions_append (even : Even arguments.length) (limits : Limits) :
    readOptions limits (arguments ++ rest) =
      (readOptions limits arguments).bind fun limits => readOptions limits rest := by
  fun_induction readOptions limits arguments with
  | case1 => rfl
  | case2 | case3 => cases Nat.not_even_one even
  | case4 limits argument value after unknown =>
    simp only [List.cons_append, readOptions, unknown, Except.bind]
  | case5 limits argument value after flag named invalid =>
    simp only [List.cons_append, readOptions, named, invalid, Except.bind]
  | case6 limits argument value after flag named n valued ih =>
    rw [List.length_cons, List.length_cons, Nat.even_add_one, Nat.even_add_one, not_not] at even
    simp only [List.cons_append, readOptions, named, valued, ih even]

/-- Neighbouring pairs for different flags may change places. -/
theorem readOptions_swap {other : Flag} {before after : List String} (different : other ≠ flag)
    (even : Even before.length) (limits : Limits) (value otherValue : String) :
    readOptions limits
        (before ++ flag.text :: value :: other.text :: otherValue :: after) = .ok final ↔
      readOptions limits
        (before ++ other.text :: otherValue :: flag.text :: value :: after) = .ok final := by
  have named (flag : Flag) : Flag.ofText? flag.text = some flag :=
    Flag.ofText?_eq_some_iff.mpr rfl
  rw [readOptions_append even, readOptions_append even]
  cases readOptions limits before with
  | error error => exact Iff.rfl
  | ok reached =>
    simp only [Except.bind, readOptions, named]
    cases limitOfText? value <;> cases limitOfText? otherValue <;>
      simp [Flag.set_comm different]

/-- A list of options is accepted if and only if it has an even length, flags at the even
places and numbers at the odd ones. Each limit is then what the last pair for its flag
sets, or the default, and neighbouring pairs for different flags may change places. Every
other list is refused with the message of its leftmost problem, and the command to run a
file then says this and fails. -/
theorem readOptions_default (arguments : List String) :
    ((∃ limits, readOptions .default arguments = .ok limits) ↔ WellFormed arguments) ∧
    (∀ limits, readOptions .default arguments = .ok limits ↔
      WellFormed arguments ∧ SetBy .default arguments limits) ∧
    (∀ before after flag other value otherValue limits, other ≠ flag → Even before.length →
      arguments = before ++ Flag.text flag :: value :: Flag.text other :: otherValue :: after →
      (readOptions .default arguments = .ok limits ↔
        readOptions .default
          (before ++ other.text :: otherValue :: flag.text :: value :: after) = .ok limits)) ∧
    (∀ message, (∃ error, readOptions .default arguments = .error error ∧
      error.message = message) ↔ FirstProblem arguments message) ∧
    ∀ path message, readRun (path :: arguments) = .error (.saying 1 [message]) ↔
      FirstProblem arguments message := by
  refine ⟨exists_readOptions_iff, fun _ => readOptions_eq_ok_iff, ?_,
    fun _ => readOptions_refuses_iff, fun path _ => ?_⟩
  · rintro before after flag other value otherValue limits different even rfl
    exact readOptions_swap different even .default value otherValue
  · rw [readRun_refuses_iff, readOptions_refuses_iff]

/-- The last of two values for one flag counts, also with a pair between them put in
front. A flag in the place of a value is no number. -/
theorem readOptions_default_of_three_pairs :
    SetBy .default ["--max-heap-cells", "7", "--max-call-depth", "+5", "--max-heap-cells", "9"]
      { Limits.default with maxCallDepth := 5, maxHeapCells := 9 } ∧
    readOptions .default
      ["--max-call-depth", "+5", "--max-heap-cells", "7", "--max-heap-cells", "9"] =
      .ok { Limits.default with maxCallDepth := 5, maxHeapCells := 9 } ∧
    FirstProblem ["--max-heap-cells", "--max-call-depth", "--max-string-bytes"]
      "error: --max-heap-cells expects a non-negative integer, got '--max-call-depth'" := by
  obtain ⟨-, accepted, swap, -⟩ := readOptions_default
    ["--max-heap-cells", "7", "--max-call-depth", "+5", "--max-heap-cells", "9"]
  obtain ⟨-, -, -, refused, -⟩ := readOptions_default
    ["--max-heap-cells", "--max-call-depth", "--max-string-bytes"]
  have read : readOptions .default
      ["--max-heap-cells", "7", "--max-call-depth", "+5", "--max-heap-cells", "9"] =
      .ok { Limits.default with maxCallDepth := 5, maxHeapCells := 9 } := by
    rfl
  refine ⟨((accepted _).mp read).2, ?_, (refused _).mp ⟨_, rfl, by decide⟩⟩
  exact (swap [] ["--max-heap-cells", "9"] .maxHeapCells .maxCallDepth "7" "+5" _ (by decide)
    Even.zero rfl).mp read

end StackScript.CommandLine
