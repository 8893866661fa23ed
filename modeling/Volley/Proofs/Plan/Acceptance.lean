import Volley.Proofs.Plan.Endpoint
import Volley.Proofs.Text.Blank
import Volley.Settings.Source

/-!
A part of the preparation stands for some of the ten conditions, and parts one after the other stand
for theirs one after the other (`Plan.Checks`).
-/

namespace Volley

namespace Plan

inductive Condition
  | target
  | address
  | path
  | timeout
  | phrases
  | recipients
  | ttl
  | users
  | policy
  | blanks
  deriving Repr, DecidableEq

namespace Condition

def ofPlan : List Condition :=
  [.target, .address, .path, .timeout, .phrases, .recipients, .ttl, .users, .policy]

/-- All conditions, as they are checked: blank recipients show when the recipe is made. -/
def order : List Condition := ofPlan ++ [.blanks]

def stage : Condition → Stage
  | .blanks => .recipe
  | _ => .plan

end Condition

end Plan

namespace Settings

open Plan (Condition)

variable {idna : Url.Idna} {s : Settings} {c d : Condition} {fault other : SetupError}

def Meets (idna : Url.Idna) (s : Settings) : Condition → Prop
  | .target => s.serviceOrEmpty.targetUrl ≠ none ∨ s.target? ≠ none
  | .address => ∃ base, Url.parse idna (Blank.trim s.address) = .ok base ∧
      (base.scheme = "http" ∨ base.scheme = "https") ∧ base.host? ≠ none
  | .path => ∀ base, Url.parse idna (Blank.trim s.address) = .ok base →
      ∃ endpoint, base.join idna s.path = .ok endpoint
  | .timeout => 0 < s.timeoutMs
  | .phrases => ∀ phrases, s.serviceOrEmpty.phrases = some phrases →
      phrases ≠ [] ∧ "" ∉ phrases
  | .recipients => s.serviceOrEmpty.toUserIds ≠ some []
  | .ttl => ∀ seconds, s.serviceOrEmpty.ttlSeconds = some seconds → 0 < seconds
  | .users => s.serviceOrEmpty.virtualUsers ≠ some 0
  | .policy => s.serviceOrEmpty.durationSecs ≠ some 0 ∧
      (s.serviceOrEmpty.iterations = some 0 → s.serviceOrEmpty.durationSecs ≠ none)
  | .blanks => ∀ ids, s.serviceOrEmpty.toUserIds = some ids → ∀ id ∈ ids, Blank.trim id ≠ ""

inductive Breach (idna : Url.Idna) (s : Settings) : Condition → SetupError → Prop
  | target : s.serviceOrEmpty.targetUrl = none → s.target? = none →
      Breach idna s .target (.unknownTarget s.targetName)
  | malformed {reason : Url.Error} : Url.parse idna (Blank.trim s.address) = .error reason →
      Breach idna s .address (.malformedTarget s.address reason)
  | scheme {base : Url} : Url.parse idna (Blank.trim s.address) = .ok base →
      ¬ (base.scheme = "http" ∨ base.scheme = "https") →
      Breach idna s .address (.targetScheme s.address)
  | host {base : Url} : Url.parse idna (Blank.trim s.address) = .ok base →
      (base.scheme = "http" ∨ base.scheme = "https") → base.host? = none →
      Breach idna s .address (.targetHost s.address)
  | path {base : Url} {reason : Url.Error} : Url.parse idna (Blank.trim s.address) = .ok base →
      base.join idna s.path = .error reason → Breach idna s .path (.endpointPath s.path reason)
  | timeout : s.timeoutMs = 0 → Breach idna s .timeout .noTimeout
  | corpus : s.serviceOrEmpty.phrases = some [] → Breach idna s .phrases .emptyCorpus
  | phrase {front rest : List String} :
      s.serviceOrEmpty.phrases = some (front ++ "" :: rest) → "" ∉ front →
      Breach idna s .phrases (.emptyPhrase front.length)
  | recipients : s.serviceOrEmpty.toUserIds = some [] → Breach idna s .recipients .noRecipients
  | ttl {seconds : Int64} : s.serviceOrEmpty.ttlSeconds = some seconds → seconds ≤ 0 →
      Breach idna s .ttl (.ttl seconds)
  | users : s.serviceOrEmpty.virtualUsers = some 0 → Breach idna s .users .noUsers
  | duration : s.serviceOrEmpty.durationSecs = some 0 → Breach idna s .policy .noDuration
  | iterations : s.serviceOrEmpty.durationSecs = none → s.serviceOrEmpty.iterations = some 0 →
      Breach idna s .policy .noIterations
  | blanks {ids : List String} {id : String} : s.serviceOrEmpty.toUserIds = some ids →
      id ∈ ids → Blank.trim id = "" → Breach idna s .blanks .blankRecipient

theorem Breach.not_meets (breach : s.Breach idna c fault) : ¬ s.Meets idna c := by
  intro met
  cases breach with
  | target unset missing => simp [Meets, unset, missing] at met
  | malformed parsed => simp [Meets, parsed] at met
  | scheme parsed offWeb =>
      obtain ⟨base, parsed', onWeb, -⟩ := met
      cases parsed.symm.trans parsed'
      exact offWeb onWeb
  | host parsed onWeb unhosted =>
      obtain ⟨base, parsed', -, hosted⟩ := met
      cases parsed.symm.trans parsed'
      exact hosted unhosted
  | path parsed failed =>
      obtain ⟨endpoint, joined⟩ := met _ parsed
      cases failed.symm.trans joined
  | timeout zero =>
      rw [Meets, zero] at met
      exact absurd met (by decide)
  | corpus set => exact (met _ set).1 rfl
  | phrase set clean => exact (met _ set).2 (by simp)
  | recipients set => exact met set
  | ttl set low => exact Int64.not_lt.2 low (met _ set)
  | users set => exact met set
  | duration set => exact met.1 set
  | iterations unset set => exact met.2 set unset
  | blanks set member blank => exact met _ set _ member blank

theorem findIdx_first_empty {front : List String} (clean : "" ∉ front) (rest : List String) :
    (front ++ "" :: rest).findIdx (· = "") = front.length := by
  have none : ¬ front.findIdx (· = "") < front.length := by
    simpa [List.findIdx_lt_length] using clean
  rw [List.findIdx_append, if_neg none]
  simp [List.findIdx_cons]

theorem Breach.unique (one : s.Breach idna c fault) (another : s.Breach idna c other) :
    fault = other := by
  cases one with
  | phrase set clean =>
      cases another with
      | corpus set' => simp [set] at set'
      | phrase set' clean' =>
          have same := Option.some.inj (set.symm.trans set')
          rw [← findIdx_first_empty clean, same, findIdx_first_empty clean']
  | _ => cases another <;> simp_all

def BreachesFirst (idna : Url.Idna) (s : Settings) (c : Condition) : Prop :=
  ∃ front rest, Condition.order = front ++ c :: rest ∧ (∀ e ∈ front, s.Meets idna e) ∧
    ¬ s.Meets idna c

theorem BreachesFirst.unique (one : s.BreachesFirst idna c) (another : s.BreachesFirst idna d) :
    c = d := by
  classical
  have found : ∀ c, s.BreachesFirst idna c →
      Condition.order.find? (fun e => decide (¬ s.Meets idna e)) = some c := by
    rintro c ⟨front, rest, split, met, unmet⟩
    exact List.find?_eq_some_iff_append.2
      ⟨decide_eq_true unmet, front, rest, split, fun e member => by simp [met e member]⟩
  exact Option.some.inj ((found c one).symm.trans (found d another))

theorem BreachesFirst.not_meets (first : s.BreachesFirst idna c) : ¬ s.Meets idna c := by
  obtain ⟨-, -, -, -, unmet⟩ := first
  exact unmet

end Settings

namespace Plan

variable {idna : Url.Idna} {s : Settings} {α β : Type} {x : Except SetupError α}
  {f : α → Except SetupError β}
  {cs ds es : List Condition} {c : Condition} {fault : SetupError} {p : Plan}

/-! ## Checks -/

/-- A computation checks conditions in their order: its value means that they are met, and its
fault is that of the first that is not. -/
inductive Checks (idna : Url.Idna) (s : Settings) {α : Type} :
    List Condition → Except SetupError α → Prop
  | passed {cs : List Condition} {a : α} : (∀ c ∈ cs, s.Meets idna c) → Checks idna s cs (.ok a)
  | failed {front rest : List Condition} {c : Condition} {fault : SetupError} :
      (∀ e ∈ front, s.Meets idna e) → s.Breach idna c fault →
        Checks idna s (front ++ c :: rest) (.error fault)

theorem Checks.bind (first : Checks idna s cs x) (parts : cs ++ ds = es)
    (after : ∀ a, x = .ok a → Checks idna s ds (f a)) : Checks idna s es (x >>= f) := by
  subst parts
  cases first with
  | failed met breach =>
      rw [List.append_assoc]
      exact .failed met breach
  | @passed _ a met =>
      have later := after a rfl
      change Checks idna s (cs ++ ds) (f a)
      generalize f a = y at later
      cases later with
      | passed met' =>
          exact .passed fun c member => (List.mem_append.1 member).elim (met c) (met' c)
      | failed met' breach =>
          rw [← List.append_assoc]
          exact .failed (fun e member => (List.mem_append.1 member).elim (met e) (met' e)) breach

theorem Checks.met {a : α} (checked : Checks idna s cs (.ok a : Except SetupError α)) :
    ∀ c ∈ cs, s.Meets idna c := by
  cases checked with
  | passed met => exact met

theorem Checks.breach (checked : Checks idna s cs (.error fault : Except SetupError α)) :
    ∃ front c rest, cs = front ++ c :: rest ∧ (∀ e ∈ front, s.Meets idna e) ∧
      s.Breach idna c fault := by
  cases checked with
  | failed met breach => exact ⟨_, _, _, rfl, met, breach⟩

-- Users and recipients are wrong as well, but the time to live comes first.
example : prepare .ascii { Settings.builtin with
    service := some { ttlSeconds := some 0, virtualUsers := some 0, toUserIds := some [" "] } } =
      .error ⟨.plan, .ttl 0⟩ := by
  rfl

end Plan

end Volley
