import Volley.Proofs.Settings.Field
import Volley.Proofs.Settings.Source

namespace Volley

variable {f : Service.Field}

namespace Variables

def value? (vars : Variables) : (f : Service.Field) → Option f.Value
  | .targetUrl => vars.text? targetUrl
  | .virtualUsers => vars.count? virtualUsers
  | .iterations => vars.count? iterations
  | .durationSecs => vars.count? durationSecs
  | .seed => vars.count? seed
  | _ => none

def clears (vars : Variables) (f : Service.Field) : Bool :=
  f = .durationSecs && (vars.count? iterations).isSome

end Variables

theorem Service.get_override (vars : Variables) (s : Service) (f : Field) :
    (s.override vars).get f = (vars.value? f <|> if vars.clears f then none else s.get f) := by
  cases f <;> rfl

theorem Settings.get_override (vars : Variables) (s : Settings) (f : Service.Field) :
    ((s.override vars).serviceOrEmpty).get f =
      (vars.value? f <|> if vars.clears f then none else s.serviceOrEmpty.get f) :=
  Service.get_override vars s.serviceOrEmpty f

theorem Settings.get_overlay (s : Settings) (o : Overlay) (f : Service.Field) :
    (s.overlay o).serviceOrEmpty.get f =
      ((o.service.getD {}).get f <|> s.serviceOrEmpty.get f) := by
  cases given : o.service with
  | none => simp [Settings.overlay, Settings.serviceOrEmpty, given, Service.get_empty]
  | some service => simp [Settings.overlay, Settings.serviceOrEmpty, given, Service.get_merge]

namespace Service.Field

open Toml.Decode

end Service.Field

namespace Settings

variable {files : Files} {path source environment : String} {base merged value : Toml}
  {names paths : List String} {layers : List Toml}

/-- The section of services, and the service in it, are tables where they are given. -/
def Sectioned (layer : Toml) : Prop :=
  ∀ keys ∈ [["services"], ["services", "push_loadtest"]],
    (layer.at? keys).all Toml.isTable = true

instance (layer : Toml) : Decidable (Sectioned layer) := by
  unfold Sectioned
  infer_instance

theorem Sectioned.open {entries : List (String × Toml)} (sectioned : Sectioned (.table entries))
    (f : Service.Field) : (Toml.table entries).Open f.keys := by
  intro value found
  have tabular := sectioned ["services"] (by simp)
  simp only [Toml.at?, found, Option.bind_some, Option.all_some] at tabular
  cases value with
  | table inner =>
      intro part given
      have tabular := sectioned ["services", "push_loadtest"] (by simp)
      simp only [Toml.at?, found, given, Option.bind_some, Option.all_some] at tabular
      cases part with
      | table fields => exact fun _ _ => trivial
      | _ => cases tabular
  | _ => cases tabular

end Settings

end Volley
