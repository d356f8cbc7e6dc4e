import Alicerce.Adapters.EvidenceBinding

/-!
# What the evidence of a command says of it

A canonical result keeps a digest of each output and the argument vector as one JSON text, and
nothing of what ran is lost.

* `commandIdentity_injective`: the text of a command determines the executable and every argument.
* `microseconds_le`: the calendar is counted in microseconds (`daysBefore`, `monthsBefore`), and
  later times have larger counts, none of which leaves the integers a float is exact on.
* `FloatArithmetic` is what is relied on of the arithmetic of floats.  With it the duration of an
  execution is a number the serializer takes (`durationSeconds_accepted`).
* `commandEvidence_determines`: a result is built whenever its arguments have an encoding, and two
  results that agree were made of the same executable, the same arguments one by one, and the same
  bytes unless two of them collide.
-/

set_option autoImplicit false

namespace Alicerce

open Py

/-! ## Counting the days -/

/-- The days before a year. -/
def daysBefore (year : ℕ) : ℕ :=
  365 * (year - 1) + (year - 1) / 4 - (year - 1) / 100 + (year - 1) / 400

/-- The days of a year before a month. -/
def monthsBefore (year month : ℕ) : ℕ :=
  ((List.range (month - 1)).map fun m ↦ daysInMonth year (m + 1)).sum

/-- The days of a year. -/
def daysInYear (year : ℕ) : ℕ := if isLeap year then 366 else 365

theorem toordinal_eq (t : CivilTime) :
    toordinal t = daysBefore t.year + monthsBefore t.year t.month + t.day := rfl

theorem daysBefore_succ {year : ℕ} (h : 1 ≤ year) :
    daysBefore (year + 1) = daysBefore year + daysInYear year := by
  obtain ⟨k, rfl⟩ : ∃ k, year = k + 1 := ⟨year - 1, by omega⟩
  have hleap : isLeap (k + 1) = true ↔
      (k + 1) % 4 = 0 ∧ ((k + 1) % 100 ≠ 0 ∨ (k + 1) % 400 = 0) := by
    simp [isLeap]
  -- A quotient grows by one at the multiples of its divisor.
  have hdiv : ∀ n, (k + 1) / n = k / n + if (k + 1) % n = 0 then 1 else 0 := fun n ↦ by
    simp only [Nat.succ_div, Nat.dvd_iff_mod_eq_zero]
  have hle : k / 100 ≤ k / 4 := Nat.div_le_div_left (by decide) (by decide)
  simp only [daysBefore, daysInYear, Nat.add_sub_cancel, hdiv 4, hdiv 100, hdiv 400, hleap]
  have hhundred : (k + 1) % 100 = 0 → (k + 1) % 4 = 0 := fun h ↦ by omega
  have hfour : (k + 1) % 400 = 0 → (k + 1) % 100 = 0 := fun h ↦ by omega
  by_cases h₄ : (k + 1) % 4 = 0 <;> by_cases h₁ : (k + 1) % 100 = 0 <;>
    by_cases h₀ : (k + 1) % 400 = 0 <;> simp_all <;> omega

/-- A year is over before a later one begins. -/
theorem daysBefore_add_le {year year' : ℕ} (h : 1 ≤ year) (hlt : year < year') :
    daysBefore year + daysInYear year ≤ daysBefore year' := by
  induction year', hlt using Nat.le_induction with
  | base => rw [daysBefore_succ h]
  | succ year' hle ih =>
    rw [daysBefore_succ (by omega)]
    omega

theorem monthsBefore_succ {year month : ℕ} (h : 1 ≤ month) :
    monthsBefore year (month + 1) = monthsBefore year month + daysInMonth year month := by
  obtain ⟨m, rfl⟩ : ∃ m, month = m + 1 := ⟨month - 1, by omega⟩
  rw [monthsBefore, Nat.add_sub_cancel, List.range_succ, List.map_append, List.sum_append]
  simp [monthsBefore]

/-- A month is over before a later one begins. -/
theorem monthsBefore_add_le {year month month' : ℕ} (h : 1 ≤ month) (hlt : month < month') :
    monthsBefore year month + daysInMonth year month ≤ monthsBefore year month' := by
  induction month', hlt using Nat.le_induction with
  | base => rw [monthsBefore_succ h]
  | succ month' hle ih =>
    rw [monthsBefore_succ (by omega)]
    omega

theorem monthsBefore_year (year : ℕ) : monthsBefore year 13 = daysInYear year := by
  simp only [monthsBefore, daysInYear, daysInMonth, List.range_succ, List.range_zero]
  cases isLeap year <;> rfl

/-- The last day of a year is its last one. -/
theorem toordinal_le (t : CivilTime) : toordinal t ≤ daysBefore t.year + daysInYear t.year := by
  have hmonth : monthsBefore t.year t.month + daysInMonth t.year t.month ≤
      monthsBefore t.year 13 :=
    monthsBefore_add_le t.valid.month_bounds.1 (by have := t.valid.month_bounds.2; omega)
  have hday := t.valid.day_bounds.2
  rw [monthsBefore_year] at hmonth
  rw [toordinal_eq]
  omega

theorem toordinal_lt_of_year {t t' : CivilTime} (h : t.year < t'.year) :
    toordinal t < toordinal t' := by
  have hle := toordinal_le t
  have hyear := daysBefore_add_le t.valid.year_bounds.1 h
  have hday := t'.valid.day_bounds.1
  rw [toordinal_eq t']
  omega

theorem toordinal_lt_of_month {t t' : CivilTime} (hyear : t.year = t'.year)
    (h : t.month < t'.month) : toordinal t < toordinal t' := by
  have hmonth : monthsBefore t.year t.month + daysInMonth t.year t.month ≤
      monthsBefore t.year t'.month := monthsBefore_add_le t.valid.month_bounds.1 h
  have hday := t.valid.day_bounds.2
  have hday' := t'.valid.day_bounds.1
  rw [toordinal_eq, toordinal_eq, ← hyear]
  omega

theorem toordinal_of_day {t t' : CivilTime} (hyear : t.year = t'.year)
    (hmonth : t.month = t'.month) : toordinal t + t'.day = toordinal t' + t.day := by
  rw [toordinal_eq, toordinal_eq, hyear, hmonth]
  omega

/-- **A later time has a larger count.** -/
theorem microseconds_le {t t' : CivilTime} (h : t ≤ t') : microseconds t ≤ microseconds t' := by
  rcases h.lt_or_eq with hlt | rfl
  · have hfields : t.fields < t'.fields := hlt
    simp only [CivilTime.fields, List.cons_lt_cons_iff, List.not_lt_nil, and_false, or_false]
      at hfields
    have hvalid := t.valid
    have hvalid' := t'.valid
    have hhour := hvalid.hour_lt
    have hminute := hvalid.minute_lt
    have hsecond := hvalid.second_lt
    have hmicro := hvalid.microsecond_lt
    rcases hfields with hyear | ⟨hyear, hmonth | ⟨hmonth, hrest⟩⟩
    · have hday := toordinal_lt_of_year hyear
      simp only [microseconds]
      omega
    · have hday := toordinal_lt_of_month hyear hmonth
      simp only [microseconds]
      omega
    · have hday := toordinal_of_day hyear hmonth
      simp only [microseconds]
      omega
  · exact le_rfl

theorem microseconds_lt (t : CivilTime) : microseconds t < 3652060 * 86400000000 := by
  have hle := toordinal_le t
  have hyear : daysBefore t.year + daysInYear t.year ≤ daysBefore 10000 :=
    daysBefore_add_le t.valid.year_bounds.1 (by have := t.valid.year_bounds.2; omega)
  have hlast : daysBefore 10000 = 3652059 := by decide
  have hhour := t.valid.hour_lt
  have hminute := t.valid.minute_lt
  have hsecond := t.valid.second_lt
  have hmicro := t.valid.microsecond_lt
  simp only [microseconds]
  omega

/-! ## The argument vector -/

theorem canonicalTermination_injective : Function.Injective canonicalTermination := by
  intro t t' h
  cases t <;> cases t' <;> first | rfl | exact absurd h (by decide)

section
variable [Interpreter]

/-- **The canonical command determines the executable and every argument.** -/
theorem commandIdentity_injective {request request' : CommandRequest}
    (h : commandIdentity request = commandIdentity request') :
    request.executable = request'.executable ∧ request.arguments = request'.arguments := by
  have hdumps := (commandIdentity_eq request).symm
  have hdumps' := (commandIdentity_eq request').symm
  rw [h] at hdumps
  simp only [dumps, dumpsItems_str, Option.map_some, Option.some_inj] at hdumps hdumps'
  have hparts : (request.executable.value :: request.arguments).map quote =
      (request'.executable.value :: request'.arguments).map quote := by
    refine (intercalate_append_cancel (by decide) (by decide) ?_ ?_ ?_
      (List.cons.inj (hdumps.trans hdumps'.symm)).2).1
    · intro p hp p' hp' t t' _ _ heq
      obtain ⟨s, -, rfl⟩ := List.mem_map.mp hp
      obtain ⟨s', -, rfl⟩ := List.mem_map.mp hp'
      obtain ⟨rfl, ht⟩ := quote_append_cancel heq
      exact ⟨rfl, ht⟩
    all_goals
      intro p hp
      obtain ⟨s, -, rfl⟩ := List.mem_map.mp hp
      exact ⟨_, _, rfl, by decide⟩
  have hvalues := List.map_injective_iff.mpr (fun _ _ heq ↦ quote_injective heq) hparts
  rw [List.cons.injEq] at hvalues
  exact ⟨Checked.ext hvalues.1, hvalues.2⟩

/-- Writing an evidence out fails with the error of the serializer only. -/
theorem dumpEvidence_raises (value : List (Text × Json)) :
    Raises (fun e ↦ ∃ message, e = evidenceError message) (dumpEvidence value) := by
  rw [dumpEvidence]
  intro e he
  obtain ⟨e', he', rfl⟩ := translate_eq_error_iff.mp he
  have hcaught : e'.isTypeOrValueError = true := by
    rcases bind_eq_error_iff.mp he' with hdumps | ⟨t, -, hencode⟩
    · rw [jsonDumps] at hdumps
      split at hdumps
      · exact absurd hdumps (by simp)
      · rw [← Except.error.inj hdumps]; rfl
    · rw [encodeText] at hencode
      split at hencode
      · exact absurd hencode (by simp)
      · rw [← Except.error.inj hencode]; rfl
  exact ⟨_, if_pos hcaught⟩

/-! ## Durations -/

variable [StandardLibrary]

/-- What is relied on of the arithmetic of floats: a fraction of one, and the sum of a natural
number in the range of exact integers and a float, are finite and not negative when their operands
are. -/
structure FloatArithmetic : Prop where
  divide : ∀ m n : ℤ, 0 ≤ m → m < n →
    ∃ q, StandardLibrary.value (StandardLibrary.divide m n) = some q ∧ 0 ≤ q
  add : ∀ (n : ℤ) (x : Interpreter.Float) (q : ℚ), 0 ≤ n → n < 2 ^ 53 →
    StandardLibrary.value x = some q → 0 ≤ q →
      ∃ q', StandardLibrary.value (StandardLibrary.add n x) = some q' ∧ 0 ≤ q'

/-- **The duration of an execution is a number the serializer takes.** -/
theorem durationSeconds_accepted (ha : FloatArithmetic) {startedAt finishedAt : CivilTime}
    (h : startedAt ≤ finishedAt) : (durationSeconds startedAt finishedAt).Accepted := by
  have hle := microseconds_le h
  have hlt := microseconds_lt finishedAt
  obtain ⟨q, hq, hpos⟩ := ha.divide
    (((microseconds finishedAt : ℤ) - microseconds startedAt) % 1000000) 1000000
    (Int.emod_nonneg _ (by decide)) (Int.emod_lt_of_pos _ (by decide))
  exact ha.add _ _ q (by omega) (by omega) hq hpos

/-- A result whose duration is a number is refused with that error, too. -/
theorem buildCommandResult_raises {execution : ExecutionResult} {specificationBytes : Bytes}
    (hsize : specificationBytes.size ≠ 0)
    (hduration : (durationSeconds execution.startedAt execution.finishedAt).Accepted) :
    Raises (fun e ↦ ∃ message, e = evidenceError message)
      (buildCommandResult execution specificationBytes) := by
  have haccepted : (canonicalResult execution specificationBytes).Accepted :=
    canonicalResult_accepted hduration
  have hpayload := commandPayload_eq_ok_iff.mpr ⟨haccepted, rfl⟩
  rw [buildCommandResult, if_neg hsize]
  refine Raises.bind ?_ fun _ _ ↦ raises_ok _
  rw [serializeCommandResult, hpayload]
  exact dumpEvidence_raises _

/-! ## The evidence of a command -/

/-- **The command evidence determines what was run**, and it exists unless an argument has no
encoding: whatever the outputs and the exit code, the result is built and the serializer takes it,
or it is refused with the error of the serializer. -/
theorem commandEvidence_determines (hp : PrintsNumbers) (ha : FloatArithmetic)
    (r r' : ExecutionResult) (s s' : Bytes) :
    (∀ c c', buildCommandResult r s = .ok c → buildCommandResult r' s' = .ok c' → c.Agrees c' →
      r.request.executable = r'.request.executable ∧
      r.request.arguments = r'.request.arguments ∧
      r.termination = r'.termination ∧ r.exitCode = r'.exitCode ∧
      (r.stdout = r'.stdout ∨ Collision r.stdout r'.stdout) ∧
      (r.stderr = r'.stderr ∨ Collision r.stderr r'.stderr) ∧
      (s = s' ∨ Collision s s')) ∧
    (s.size ≠ 0 → (∀ n, r.exitCode = some n → CountPrintable n) →
      ((∀ t ∈ r.request.arguments, Encodable t) →
        ∃ c b, buildCommandResult r s = .ok c ∧ serializeCommandResult c = .ok b) ∧
      ((∃ t ∈ r.request.arguments, ¬Encodable t) →
        ∃ message, buildCommandResult r s = .error (evidenceError message))) := by
  constructor
  · intro c c' hc hc' hagrees
    obtain ⟨-, rfl, -⟩ := buildCommandResult_eq_ok_iff.mp hc
    obtain ⟨-, rfl, -⟩ := buildCommandResult_eq_ok_iff.mp hc'
    obtain ⟨hexecutable, harguments⟩ := commandIdentity_injective hagrees.command
    have hdigest : ∀ {b b' : Bytes}, hexdigest b = hexdigest b' → b = b' ∨ Collision b b' := by
      intro b b' heq
      by_cases hb : b = b'
      · exact .inl hb
      · exact .inr ⟨hb, sha256_eq_of_hexdigest heq⟩
    exact ⟨hexecutable, harguments, canonicalTermination_injective hagrees.termination,
      hagrees.exitCode, hdigest hagrees.stdoutSha256, hdigest hagrees.stderrSha256,
      hdigest hagrees.specificationSha256⟩
  · intro hsize hexit
    have hduration := durationSeconds_accepted ha r.ordered
    constructor
    · intro hargs
      obtain ⟨c, hc⟩ :=
        (buildCommandResult_isOk_iff hp).mpr ⟨hsize, hduration, hargs, hexit⟩
      obtain ⟨-, -, haccepted, hwritten⟩ := buildCommandResult_eq_ok_iff.mp hc
      obtain ⟨b, hb⟩ := dumpEvidence_isOk_iff.mpr hwritten
      exact ⟨c, b, hc, serializeCommandResult_eq_ok_iff.mpr ⟨haccepted, hb⟩⟩
    · rintro ⟨t, ht, hencodable⟩
      cases hbuild : buildCommandResult r s with
      | ok c =>
        have hargs := ((buildCommandResult_isOk_iff hp).mp ⟨c, hbuild⟩).2.2.1
        exact absurd (hargs t ht) hencodable
      | error e =>
        obtain ⟨message, rfl⟩ := buildCommandResult_raises hsize hduration e hbuild
        exact ⟨message, rfl⟩

end

theorem oneFloat_arithmetic : @FloatArithmetic oneFloat oneFloatLibrary := by
  let _ := oneFloat
  let _ := oneFloatLibrary
  exact ⟨fun _ _ _ _ ↦ ⟨5 / 4, rfl, by norm_num⟩, fun _ _ _ _ _ _ _ ↦ ⟨5 / 4, rfl, by norm_num⟩⟩

/-- The evidence of the tests. -/
theorem commandEvidence_determines_tests : let _ := oneFloat; let _ := oneFloatLibrary
    ∃ c b, buildCommandResult (testExecution (storeIdentity qualityLoop)) ⟨#[1]⟩ = .ok c ∧
      serializeCommandResult c = .ok b := by
  let _ := oneFloat
  let _ := oneFloatLibrary
  refine ((commandEvidence_determines oneFloat_printsNumbers oneFloat_arithmetic
    (testExecution (storeIdentity qualityLoop)) (testExecution (storeIdentity qualityLoop))
    ⟨#[1]⟩ ⟨#[1]⟩).2 (by decide) fun n hn ↦ ?_).1 ?_
  · rw [← Option.some.inj hn]
    exact (show (decimal 0).length ≤ maxStrDigits by decide)
  · exact (show ∀ t ∈ (["run", "pytest"] : List Text), Encodable t by decide)

end Alicerce
