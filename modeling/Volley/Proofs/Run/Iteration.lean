import Volley.Proofs.Metrics
import Volley.Proofs.Push.Body
import Volley.Proofs.Push.Recipe
import Volley.Proofs.Run.Step
import Volley.Proofs.Time
import Volley.Run.Iteration

namespace Volley

variable {σ : Type} {d : Delivery} {push : Push} {reply : Reply} {limit : Nat}

namespace Delivery

def outcomeOf (d : Delivery) (push : Push) (time : Nat) (verdict : Verdict) : Outcome where
  check := d.check
  verdict := verdict
  latency := .ofMillis time
  contentId := push.contentId
  sender := push.sender

/-- How an iteration with a push can end: after how long, and with what. A limit of so many
milliseconds is kept, and a reply that comes with it still counts. -/
inductive Ends (d : Delivery) (limit : Nat) (push : Push) : Reply → Nat → Settled → Prop
  | answered {delay : Nat} {status : UInt16} {body : String} {notes : List Log.Event}
      (inTime : delay ≤ limit) :
      Ends d limit push ⟨delay, .answer status body, notes⟩ delay
        (.outcome (d.outcomeOf push delay (.answered status (status = d.expectedStatus))))
  | failed {delay : Nat} {cause : TransportError} {notes : List Log.Event}
      (inTime : delay ≤ limit) :
      Ends d limit push ⟨delay, .failure cause, notes⟩ delay
        (.outcome (d.outcomeOf push delay (.failed cause.kind cause.message)))
  | broken {delay : Nat} {message : String} {notes : List Log.Event} (inTime : delay ≤ limit) :
      Ends d limit push ⟨delay, .panic message, notes⟩ delay (.crash message)
  | late {reply : Reply} (nothing : reply.ending = .silence ∨ limit < reply.delay) :
      Ends d limit push reply limit
        (.outcome (d.outcomeOf push limit (.failed .timeout d.overdue)))

theorem ends_settle (limited : d.timeout = .ofMillis limit) (push : Push) (reply : Reply) :
    Ends d limit push reply (d.length reply) (d.settle push reply) := by
  have limit_eq : d.limit = limit := by rw [Delivery.limit, limited, Span.ceilMillis_ofMillis]
  obtain ⟨delay, ending, notes⟩ := reply
  by_cases late : ending = .silence ∨ limit < delay
  · have missed : d.inTime ⟨delay, ending, notes⟩ = false := by
      simpa [inTime, limit_eq, or_iff_not_imp_left] using late
    simp only [length, settle, missed, limit_eq, Bool.false_eq_true, if_false]
    exact .late late
  · obtain ⟨spoken, inTime⟩ := not_or.1 late
    have inTime : delay ≤ limit := Nat.le_of_not_lt inTime
    have met : d.inTime ⟨delay, ending, notes⟩ = true := by
      simp [Delivery.inTime, limit_eq, spoken, inTime]
    simp only [length, settle, met, if_true]
    cases ending with
    | answer status body => exact .answered inTime
    | failure cause => exact .failed inTime
    | panic message => exact .broken inTime
    | silence => exact absurd rfl spoken

variable {daytime : Int64} {transport : Request → StateM σ Reply} {before : Driver σ}
  {words : WordSource} {peer : σ}

theorem run_iterate (composed : d.recipe.compose daytime before.words = some (.ok push, words))
    (answered : (transport (d.request push)).run before.peer = (reply, peer)) :
    (d.iterate daytime transport).run before = some (d.settle push reply, {
      words
      peer
      requests := d.request push :: before.requests
      now := before.now + d.length reply
      metrics := match d.settle push reply with
        | .outcome o => before.metrics.map (·.recordOutcome o)
        | .crash _ => before.metrics
      events := (d.notes reply).reverse ++
        ((d.openingNotes push reply).reverse ++ before.events) }) := by
  have drawn : (Driver.draw (d.recipe.compose daytime)).run before =
      some (.ok push, { before with words }) := by
    simp only [Driver.draw, StateT.run, composed]
    rfl
  have posted : (Driver.post transport (d.request push)).run { before with words } =
      some (reply, { before with words, peer, requests := d.request push :: before.requests }) := by
    simp only [Driver.post, StateT.run] at answered ⊢
    rw [answered]
  rw [iterate, StateT.run_bind, drawn]
  simp only [StateT.run_bind, Option.bind_eq_bind, Option.bind_some, posted]
  cases d.settle push reply <;> rfl

theorem run_iterate_of_error {message : String}
    (spoiled : d.recipe.compose daytime before.words = some (.error message, words)) :
    (d.iterate daytime transport).run before = some (.crash message, { before with words }) := by
  have drawn : (Driver.draw (d.recipe.compose daytime)).run before =
      some (.error message, { before with words }) := by
    simp only [Driver.draw, StateT.run, spoiled]
    rfl
  rw [iterate, StateT.run_bind, drawn]
  rfl

theorem Ends.of_outcome {time : Nat} {o : Outcome}
    (ends : Ends d limit push reply time (.outcome o)) :
    o.contentId = push.contentId ∧ o.sender = push.sender ∧
      (o.passed = true ↔ o.status? = some d.expectedStatus) := by
  cases ends with
  | answered | failed | late => simp [outcomeOf, Outcome.passed, Outcome.status?]

/-- An iteration sends its push in one request. How it ends is told by the reply and the limit, and
an outcome raises one counter of each family that it concerns. -/
theorem iterate_course (limited : d.timeout = .ofMillis limit)
    (composed : d.recipe.compose daytime before.words = some (.ok push, words))
    (answered : (transport ⟨d.url, d.headers, push.body⟩).run before.peer = (reply, peer))
    (kept : ∀ m ∈ before.metrics, m.Ordered) :
    ∃ time settled after, (d.iterate daytime transport).run before = some (settled, after) ∧
      after.words = words ∧ after.peer = peer ∧
      after.requests = ⟨d.url, d.headers, push.body⟩ :: before.requests ∧
      Push.parse push.body = .ok push ∧
      Ends d limit push reply time settled ∧ after.now = before.now + time ∧
      (∀ message, settled = .crash message → after.metrics = before.metrics) ∧
      ∀ o, settled = .outcome o →
        o.contentId = push.contentId ∧ o.sender = push.sender ∧
        o.status?.isSome = !o.failure?.isSome ∧
        (o.passed = true ↔ o.status? = some d.expectedStatus) ∧
        (before.metrics = none → after.metrics = none) ∧
        ∀ m, before.metrics = some m →
          ∃ raised, after.metrics = some raised ∧ m.Raised o raised ∧ raised.Ordered := by
  have ends := ends_settle limited push reply
  refine ⟨d.length reply, d.settle push reply, _, run_iterate composed answered, rfl, rfl, rfl,
    push.parse_body, ends, rfl, fun message crashed => ?_, fun o settled => ?_⟩
  · rw [crashed]
  · rw [settled] at ends ⊢
    obtain ⟨contentId, sender, passes⟩ := ends.of_outcome
    refine ⟨contentId, sender, Metrics.status_or_failure o, passes, fun none_kept => ?_,
      fun m given => ?_⟩
    · rw [none_kept]
      rfl
    · have ordered := kept m given
      refine ⟨m.recordOutcome o, ?_, ordered.raised o, ordered.recordOutcome o⟩
      rw [given]
      rfl

def strictDelivery : Delivery where
  url := "http://localhost/push"
  headers := [("x-run", "1")]
  expectedStatus := 204
  timeout := .ofMillis 5
  recipe := .default
  protocol := none

def tiringPeer : Request → StateM Nat Reply := fun _ =>
  modifyGet fun answered => (⟨5 + answered, .answer 200 "", []⟩, answered + 1)

def freshDriver : Driver Nat := { words := .ofWords [], peer := 0, metrics := some .empty }

theorem iterate_course_tiring :
    ∃ (push : Push) (o : Outcome) (after : Driver Nat),
      (strictDelivery.iterate 0 tiringPeer).run freshDriver = some (.outcome o, after) ∧
      after.peer = 1 ∧ after.now = 5 ∧
      after.requests = [⟨"http://localhost/push", [("x-run", "1")], push.body⟩] ∧
      o.status? = some 200 ∧ o.passed = false ∧
      after.metrics.map (·.statuses.get "200") = some 1 := by
  obtain ⟨push, composed⟩ : ∃ push, strictDelivery.recipe.compose 0 freshDriver.words =
      some (.ok push, .ofWords []) :=
    Recipe.fits_default.compose_zeros 0
  have kept : ∀ m ∈ freshDriver.metrics, m.Ordered := by
    intro m given
    cases given
    exact Metrics.ordered_empty
  have answered : (tiringPeer (strictDelivery.request push)).run freshDriver.peer =
      (⟨5, .answer 200 "", []⟩, 1) := rfl
  obtain ⟨time, settled, after, ran, -, peer, requests, -, ends, now, -, outcome⟩ :=
    iterate_course rfl composed answered kept
  cases ends with
  | answered inTime =>
      obtain ⟨-, -, -, -, -, counted⟩ := outcome _ rfl
      obtain ⟨raised, metrics, counts, -⟩ := counted .empty rfl
      refine ⟨push, _, after, ran, peer, now, requests, rfl, rfl, ?_⟩
      rw [metrics, Option.map_some, counts.statuses]
      rfl
  | late nothing => exact absurd nothing (by decide)

end Delivery

namespace Run

theorem User.Step.iterates {setup : Setup} {s : State} {u v : User}
    (step : u.Step setup s (some push) none v) :
    ∃ reply ends after, v.phase = .calling push reply ends ∧
      reply = setup.transport ⟨u.id, u.iterations, push⟩ ∧
      (setup.delivery.iterate (s.clock.read (setup.daytime s.now)).1 fun _ => pure reply).run
        { words := u.words, peer := (), now := s.now } =
          some (setup.delivery.settle push reply, after) ∧
      after.now = ends ∧ after.words = v.words := by
  cases step with
  | call ready untold unfinished composed =>
      exact ⟨_, _, _, rfl, rfl, Delivery.run_iterate composed rfl, rfl, rfl⟩

theorem User.Step.iterates_not {setup : Setup} {s : State} {u v : User} {message : String}
    (step : u.Step setup s none none v) (ready : u.phase = .ready)
    (crashed : v.phase = .crashed message) (transport : Request → StateM Unit Reply) :
    ∃ after, (setup.delivery.iterate (s.clock.read (setup.daytime s.now)).1 transport).run
        { words := u.words, peer := (), now := s.now } = some (.crash message, after) ∧
      after.requests = [] := by
  cases step with
  | spoil _ untold unfinished spoiled =>
      cases crashed
      exact ⟨_, Delivery.run_iterate_of_error spoiled, rfl⟩
  | crash calling due settled => cases ready.symm.trans calling
  | _ => cases crashed

end Run

end Volley
