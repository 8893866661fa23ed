import Volley.Proofs.Plan.Basic
import Volley.Proofs.Url.Join

/-! The address is checked before the path is joined to it. What was checked then holds of the whole
unless the path names a scheme of its own that is none for the web. -/

namespace Volley

namespace Plan

variable {idna : Url.Idna} {s : Settings} {p : Plan} {address path scheme : String} {endpoint : Url}

theorem isWeb_iff : isWeb scheme = true ↔ scheme = "http" ∨ scheme = "https" := by
  simp [isWeb]

theorem kind_of_isWeb (web : isWeb scheme = true) : Url.SchemeKind.of scheme = .special := by
  rcases isWeb_iff.1 web with rfl | rfl <;> decide

theorem endpointOf_eq_ok : endpointOf idna address path = .ok endpoint ↔
    ∃ base, Url.parse idna (Blank.trim address) = .ok base ∧ isWeb base.scheme = true ∧
      base.host?.isSome = true ∧ base.join idna path = .ok endpoint := by
  unfold endpointOf
  cases Url.parse idna (Blank.trim address) with
  | error reason => simp
  | ok base =>
      simp only [Except.ok.injEq, exists_eq_left']
      cases isWeb base.scheme with
      | false => simp
      | true =>
          cases base.host? with
          | none => simp
          | some host => cases base.join idna path <;> simp

theorem host_of_join_of_web {base : Url} (hosted : base.host?.isSome = true)
    (joined : base.join idna path = .ok endpoint)
    (web : endpoint.scheme = "http" ∨ endpoint.scheme = "https") : endpoint.host? ≠ none := by
  have special := kind_of_isWeb (isWeb_iff.2 web)
  exact Option.isSome_iff_ne_none.1 (Url.host_of_join hosted joined special)

/-- The scheme of the URL to send to is the one that the path names, or else that of the address. It
is a scheme for the web, with a host, exactly if the path names no other scheme. -/
theorem endpoint_checks (planned : ofSettings idna s = .ok p) :
    (∃ base, Url.parse idna (Blank.trim s.address) = .ok base ∧
      (∀ scheme, Url.Names s.path scheme → p.endpoint.scheme = scheme) ∧
      ((∀ scheme, ¬ Url.Names s.path scheme) → p.endpoint.scheme = base.scheme)) ∧
    ((p.endpoint.scheme = "http" ∨ p.endpoint.scheme = "https") ∧ p.endpoint.host? ≠ none ↔
      ∀ scheme, Url.Names s.path scheme → scheme = "http" ∨ scheme = "https") := by
  obtain ⟨base, parsed, web, hosted, joined⟩ :=
    endpointOf_eq_ok.1 (completes_of_ofSettings planned).endpoint
  have host := host_of_join_of_web hosted joined
  have shown := Url.scheme_of_join joined
  simp only [← Url.ownScheme?_eq_some_iff]
  cases own : Url.ownScheme? s.path with
  | none =>
      rw [own, Option.getD_none] at shown
      have onWeb := isWeb_iff.1 (shown ▸ web)
      exact ⟨⟨base, parsed, nofun, fun _ => shown⟩, fun _ => nofun, fun _ => ⟨onWeb, host onWeb⟩⟩
  | some scheme =>
      rw [own, Option.getD_some] at shown
      refine ⟨⟨base, parsed, ?_, fun unnamed => (unnamed scheme rfl).elim⟩, ?_, fun onWeb => ?_⟩
      · rintro _ ⟨⟩
        exact shown
      · rintro ⟨onWeb, -⟩ _ ⟨⟩
        exact shown ▸ onWeb
      · have onWeb := shown ▸ onWeb scheme rfl
        exact ⟨onWeb, host onWeb⟩

def settingsTo (address path : String) : Settings :=
  { service := some { targetUrl := some address, path := some path } }

theorem exists_endpoint (check : Url → Bool) (s : Settings)
    (passes : ((ofSettings .ascii s).toOption.any fun p => check p.endpoint) = true) :
    ∃ p, ofSettings .ascii s = .ok p ∧ check p.endpoint = true := by
  cases planned : ofSettings .ascii s with
  | error fault => simp [planned, Except.toOption] at passes
  | ok p => exact ⟨p, rfl, by simpa [planned, Except.toOption] using passes⟩

theorem endpoint_checks_rooted :
    ∃ p, ofSettings .ascii (settingsTo "https://push.example.com/v1/" "\\v2\\./send") = .ok p ∧
      (p.endpoint.scheme = "http" ∨ p.endpoint.scheme = "https") ∧ p.endpoint.host? ≠ none := by
  obtain ⟨p, planned, -⟩ := exists_endpoint (fun _ => true)
    (settingsTo "https://push.example.com/v1/" "\\v2\\./send") (by decide +kernel)
  have relative : Url.ownScheme?
      (settingsTo "https://push.example.com/v1/" "\\v2\\./send").path = none := by
    decide +kernel
  refine ⟨p, planned, (endpoint_checks planned).2.2 fun scheme named => ?_⟩
  rw [← Url.ownScheme?_eq_some_iff, relative] at named
  cases named

/-- A path with a colon before its first slash is a URL of its own, which needs no host. -/
theorem colon_path_undoes_checks :
    ∃ p, ofSettings .ascii (settingsTo "http://localhost:8034" "push:send") = .ok p ∧
      p.endpoint.scheme = "push" ∧ p.endpoint.host? = none := by
  obtain ⟨p, planned, endpoint⟩ := exists_endpoint
    (fun endpoint => endpoint.scheme = "push" && endpoint.host?.isNone)
    (settingsTo "http://localhost:8034" "push:send") (by decide +kernel)
  exact ⟨p, planned, by simpa using endpoint⟩

end Plan

end Volley
