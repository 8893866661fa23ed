import Volley.Plan.Basic
import Volley.Proofs.Checked

namespace Volley

namespace Settings

def address (s : Settings) : String :=
  (s.serviceOrEmpty.targetUrl <|> s.target?.map (·.baseUrl)).getD ""

def path (s : Settings) : String :=
  (s.serviceOrEmpty.path <|> s.target?.bind (·.path)).getD defaultPath

def timeoutMs (s : Settings) : UInt64 :=
  (s.serviceOrEmpty.requestTimeoutMs <|> s.target?.bind (·.timeoutMs)).getD Plan.defaultTimeoutMs

end Settings

namespace Plan

variable {idna : Url.Idna}

theorem ensure_eq_ok {holds : Bool} {fault : SetupError} {u : Unit} :
    ensure holds fault = .ok u ↔ holds = true := by
  cases holds <;> simp [ensure]

structure Follows (p : Plan) (service : Service) : Prop where
  users : p.users = (service.virtualUsers.getD 1).toNat
  users_pos : 0 < p.users
  timeout_pos : ∃ ms : UInt64, 0 < ms ∧ p.timeout = .ofMillis ms.toNat
  ttl : p.ttl = service.ttlSeconds.getD Recipe.defaultTtl
  ttl_pos : 0 < p.ttl
  policy : policyOf service.durationSecs service.iterations = .ok p.policy
  thinkTime : p.thinkTime =
    (service.thinkTimeMs.filter (0 < ·)).map fun ms => .ofMillis ms.toNat
  seed : p.seed = service.seed

structure Completes (idna : Url.Idna) (p : Plan) (s : Settings) : Prop
    extends Follows p s.serviceOrEmpty where
  endpoint : endpointOf idna s.address s.path = .ok p.endpoint
  timeout : p.timeout = .ofMillis s.timeoutMs.toNat
  corpus : corpusOf s.serviceOrEmpty.phrases = .ok p.corpus
  recipients : p.recipients = s.serviceOrEmpty.toUserIds.getD Recipe.defaultRecipients
  recipients_nonempty : p.recipients ≠ []

theorem completes_of_ofSettings {s : Settings} {p : Plan} (planned : ofSettings idna s = .ok p) :
    p.Completes idna s := by
  simp only [ofSettings, Except.bind_eq_ok, ensure_eq_ok, decide_eq_true_eq, pure,
    Except.pure, Except.ok.injEq] at planned
  obtain ⟨_, -, endpoint, joined, _, timeout, corpus, phrases, _, nonempty, _, ttl, _, users,
    policy, made, rfl⟩ := planned
  exact {
    users := rfl
    users_pos := users
    timeout_pos := ⟨_, timeout, rfl⟩
    ttl := rfl
    ttl_pos := ttl
    policy := made
    thinkTime := rfl
    seed := rfl
    endpoint := joined
    timeout := rfl
    corpus := phrases
    recipients := rfl
    recipients_nonempty := nonempty }

end Plan

end Volley
