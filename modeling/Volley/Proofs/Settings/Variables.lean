import Volley.Proofs.Latest
import Volley.Proofs.Settings.Precedence
import Volley.Proofs.Text.Blank
import Volley.Proofs.Text.Integer

namespace Volley

namespace Variables

variable {vars : Variables} {name text raw : String} {n : UInt64}

def Gives (vars : Variables) (name text : String) : Prop :=
  ∃ raw, vars name = some raw ∧ Blank.trim raw = text ∧ text ≠ ""

def Counts (vars : Variables) (name : String) (n : UInt64) : Prop :=
  ∃ raw, vars name = some raw ∧ ∃ digits,
    ((Blank.trim raw).toList = digits ∨ (Blank.trim raw).toList = '+' :: digits) ∧
      digits ≠ [] ∧ digits.all Char.isDigit = true ∧ Nat.ofDigitChars 10 digits 0 = n.toNat

/-- What the variables make of a field, if they have a say about it. -/
def Decides (vars : Variables) : (f : Service.Field) → Option f.Value → Prop
  | .targetUrl, given => ∃ url, given = some url ∧ vars.Gives targetUrl url
  | .virtualUsers, given => ∃ n, given = some n ∧ vars.Counts virtualUsers n
  | .iterations, given => ∃ n, given = some n ∧ vars.Counts iterations n
  | .durationSecs, given =>
    (∃ n, given = some n ∧ vars.Counts durationSecs n) ∨
      given = none ∧ (∃ n, vars.Counts iterations n) ∧ ∀ n, ¬ vars.Counts durationSecs n
  | .seed, given => ∃ n, given = some n ∧ vars.Counts seed n
  | _, _ => False

def IsMute (vars : Variables) : Prop :=
  (∀ url, ¬ vars.Gives targetUrl url) ∧
    ∀ name ∈ [virtualUsers, iterations, durationSecs, seed], ∀ n, ¬ vars.Counts name n

def untouched : List Service.Field :=
  [.target, .path, .toUserIds, .ttlSeconds, .expectedStatus, .thinkTimeMs, .phrases,
    .requestTimeoutMs]

theorem text?_eq_some_iff : vars.text? name = some text ↔ vars.Gives name text := by
  unfold text? Gives
  cases vars name with
  | none => simp
  | some raw =>
      simp only [Option.some.injEq, exists_eq_left']
      cases blank : Blank.isBlankText raw with
      | true =>
          have empty := Blank.trim_eq_empty_iff.2 blank
          simp only [empty, if_true, reduceCtorEq, false_iff, not_and, ne_eq, not_not]
          exact Eq.symm
      | false =>
          have given : Blank.trim raw ≠ "" := by simp [Blank.trim_eq_empty_iff, blank]
          simp only [Bool.false_eq_true, if_false, Option.some.injEq, iff_self_and]
          exact fun same => same ▸ given

theorem number?_eq_some_iff : number? raw = some n ↔ ∃ digits,
    ((Blank.trim raw).toList = digits ∨ (Blank.trim raw).toList = '+' :: digits) ∧
      digits ≠ [] ∧ digits.all Char.isDigit = true ∧ Nat.ofDigitChars 10 digits 0 = n.toNat := by
  simp only [number?, Option.map_eq_some_iff, Integer.unsigned?_eq_some_iff]
  constructor
  · rintro ⟨m, ⟨bound, digits, spelled, given, all, value⟩, rfl⟩
    refine ⟨digits, spelled, given, all, ?_⟩
    rw [value, Nat.toUInt64, UInt64.toNat_ofNat_of_lt' bound]
  · rintro ⟨digits, spelled, given, all, value⟩
    exact ⟨n.toNat, ⟨n.toNat_lt, digits, spelled, given, all, value⟩, UInt64.ofNat_toNat⟩

theorem count?_eq_some_iff : vars.count? name = some n ↔ vars.Counts name n := by
  simp only [count?, Option.bind_eq_some_iff, number?_eq_some_iff, Counts]

theorem decides_iff (vars : Variables) (f : Service.Field) (given : Option f.Value) :
    vars.Decides f given ↔
      given = vars.value? f ∧ ((vars.value? f).isSome || vars.clears f) = true := by
  cases f with
  | targetUrl =>
      simp only [Decides, ← text?_eq_some_iff, value?, clears]
      cases vars.text? targetUrl <;> simp
  | virtualUsers =>
      simp only [Decides, ← count?_eq_some_iff, value?, clears]
      cases vars.count? virtualUsers <;> simp
  | iterations =>
      simp only [Decides, ← count?_eq_some_iff, value?, clears]
      cases vars.count? iterations <;> simp
  | durationSecs =>
      simp only [Decides, ← count?_eq_some_iff, value?, clears]
      cases vars.count? durationSecs <;> cases vars.count? iterations <;> simp
  | seed =>
      simp only [Decides, ← count?_eq_some_iff, value?, clears]
      cases vars.count? seed <;> simp
  | _ => simp [Decides, value?, clears]

theorem IsMute.not_decides (mute : vars.IsMute) (f : Service.Field) (given : Option f.Value) :
    ¬ vars.Decides f given := by
  obtain ⟨noUrl, noCount⟩ := mute
  cases f with
  | targetUrl => exact fun ⟨url, _, given⟩ => noUrl url given
  | virtualUsers => exact fun ⟨n, _, counts⟩ => noCount virtualUsers (by simp) n counts
  | iterations => exact fun ⟨n, _, counts⟩ => noCount iterations (by simp) n counts
  | durationSecs =>
      rintro (⟨n, -, counts⟩ | ⟨-, ⟨n, counts⟩, -⟩)
      · exact noCount durationSecs (by simp) n counts
      · exact noCount iterations (by simp) n counts
  | seed => exact fun ⟨n, _, counts⟩ => noCount seed (by simp) n counts
  | _ => exact id

theorem not_decides_of_mem_untouched (vars : Variables) {f : Service.Field}
    (member : f ∈ untouched) (given : Option f.Value) : ¬ vars.Decides f given := by
  cases f with
  | targetUrl | virtualUsers | iterations | durationSecs | seed => exact absurd member (by decide)
  | _ => exact id

end Variables

variable {f : Service.Field} {vars : Variables}

namespace Settings

theorem get_override_of_decides {given : Option f.Value} (s : Settings)
    (decides : vars.Decides f given) : (s.override vars).serviceOrEmpty.get f = given := by
  obtain ⟨rfl, speaks⟩ := (vars.decides_iff f given).1 decides
  rw [get_override]
  cases value : vars.value? f with
  | some x => rfl
  | none =>
      rw [value, Option.isSome_none, Bool.false_or] at speaks
      rw [if_pos speaks]
      rfl

theorem get_override_of_silent (s : Settings) (silent : ∀ given, ¬ vars.Decides f given) :
    (s.override vars).serviceOrEmpty.get f = s.serviceOrEmpty.get f := by
  have mute : ((vars.value? f).isSome || vars.clears f) = false := by
    simpa [Variables.decides_iff] using silent (vars.value? f)
  obtain ⟨absent, kept⟩ := Bool.or_eq_false_iff.1 mute
  have absent : vars.value? f = none := by simpa using absent
  rw [get_override, absent, kept]
  rfl

def overrides (s : Settings) (sets : List Variables) : Settings :=
  sets.foldl (fun s vars => s.override vars) s

theorem targets_overrides (s : Settings) (sets : List Variables) :
    (s.overrides sets).targets = s.targets ∧ (s.overrides sets).logging = s.logging := by
  induction sets generalizing s with
  | nil => exact ⟨rfl, rfl⟩
  | cons vars rest ih => exact ih (s.override vars)

theorem override_override (s : Settings) (vars : Variables) :
    (s.override vars).override vars = s.override vars := by
  have service : (s.serviceOrEmpty.override vars).override vars =
      s.serviceOrEmpty.override vars := by
    refine Service.ext_get fun f => ?_
    rw [Service.get_override, Service.get_override]
    cases vars.value? f <;> cases vars.clears f <;> rfl
  exact congrArg (fun service => { s with service := some service }) service

/-- Each field is what the last set of variables that has a say about it makes of it. -/
theorem overrides_course (s : Settings) (sets : List Variables) :
    (∀ f, Latest (Variables.Decides · f) sets (s.serviceOrEmpty.get f)
      ((s.overrides sets).serviceOrEmpty.get f)) ∧
    (∀ f ∈ Variables.untouched,
      (s.overrides sets).serviceOrEmpty.get f = s.serviceOrEmpty.get f) ∧
    (s.overrides sets).targets = s.targets ∧ (s.overrides sets).logging = s.logging ∧
    ∀ vars : Variables,
      (vars.IsMute → (s.override vars).serviceOrEmpty = s.serviceOrEmpty) ∧
        (s.override vars).override vars = s.override vars := by
  have latest : ∀ f, Latest (Variables.Decides · f) sets (s.serviceOrEmpty.get f)
      ((s.overrides sets).serviceOrEmpty.get f) := by
    intro f
    refine latest_foldl (fun s : Settings => s.serviceOrEmpty.get f) ?_ ?_ s
    · exact fun vars _ s given decides => s.get_override_of_decides decides
    · exact fun vars _ s silent => s.get_override_of_silent silent
  obtain ⟨targets, logging⟩ := s.targets_overrides sets
  refine ⟨latest, fun f member => ?_, targets, logging, fun vars => ⟨fun mute => ?_, ?_⟩⟩
  · exact (latest f).eq_start fun vars _ => vars.not_decides_of_mem_untouched member
  · exact Service.ext_get fun f => s.get_override_of_silent (mute.not_decides f)
  · exact s.override_override vars

def busyVariables : List Variables := [
  ([(Variables.targetUrl, " http://a "), (Variables.iterations, "+5")].lookup ·),
  ([(Variables.durationSecs, "30"), (Variables.iterations, "-1")].lookup ·),
  ([(Variables.targetUrl, " \t"), (Variables.virtualUsers, "18446744073709551616"),
    (Variables.seed, "007 ")].lookup ·)]

def muteVariables : Variables :=
  ([(Variables.targetUrl, ""), (Variables.virtualUsers, "-3"), (Variables.iterations, "1_0"),
    (Variables.durationSecs, "18446744073709551616")].lookup ·)

def briefSettings : Settings :=
  { service := some { virtualUsers := some 2, durationSecs := some 9 } }

def busyService : Service where
  targetUrl := some "http://a"
  virtualUsers := some 2
  iterations := some 5
  durationSecs := some 30
  seed := some 7

theorem overrides_course_busy :
    (briefSettings.overrides busyVariables).service = some busyService ∧
    Latest (Variables.Decides · .durationSecs) busyVariables (some 9) (some 30) ∧
    muteVariables.IsMute ∧
    (briefSettings.override muteVariables).serviceOrEmpty = briefSettings.serviceOrEmpty := by
  have mute : muteVariables.IsMute := by
    refine ⟨fun url => ?_, fun name member n => ?_⟩
    · rw [← Variables.text?_eq_some_iff]
      have unread : muteVariables.text? Variables.targetUrl = none := by decide +kernel
      simp [unread]
    · rw [← Variables.count?_eq_some_iff]
      have unread : ∀ name ∈ [Variables.virtualUsers, Variables.iterations,
          Variables.durationSecs, Variables.seed], muteVariables.count? name = none := by
        decide +kernel
      simp [unread name member]
  obtain ⟨latest, -, -, -, single⟩ := overrides_course briefSettings busyVariables
  have service : (briefSettings.overrides busyVariables).service = some busyService := by
    decide +kernel
  have whole : (briefSettings.overrides busyVariables).serviceOrEmpty = busyService := by
    rw [serviceOrEmpty, service, Option.getD_some]
  refine ⟨service, ?_, mute, (single muteVariables).1 mute⟩
  have duration := latest .durationSecs
  rwa [whole] at duration

end Settings

end Volley
