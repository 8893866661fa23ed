import Volley.Proofs.Checked
import Volley.Proofs.Toml.Merge
import Volley.Settings.Decode
import Volley.Settings.Overrides

namespace Volley

open Toml (Origin)
open Toml.Decode

namespace Toml.Decode

variable {α β : Type} {origin : Origin} {expected : String} {names : List String}
  {set : α → String → Toml → Except Error α} {start result : α}
  {entries : List (String × Toml)} {value : Toml}

theorem mismatch_ne_ok (origin : Origin) (expected : String) (value : Toml) (a : α) :
    mismatch origin expected value ≠ .ok a := by
  unfold mismatch
  cases found origin value <;> simp [bind, Except.bind]

theorem part_of_record (part : α → β) {key : String} {read : Toml → Except Error β}
    (own : ∀ a v b, set a key v = .ok b → read v = .ok (part b))
    (others : ∀ a name v b, name ≠ key → set a name v = .ok b → part b = part a)
    (sorted : Keyed.Sorted entries)
    (built : record origin expected names set start (.table entries) = .ok result) :
    match entries.lookup key with
    | none => part result = part start
    | some v => read v = .ok (part result) := by
  simp only [record] at built
  induction entries generalizing start with
  | nil =>
      cases built
      rfl
  | cons entry rest ih =>
      obtain ⟨name, v⟩ := entry
      obtain ⟨below, sorted⟩ := Keyed.sorted_cons.1 sorted
      rw [List.foldlM_cons] at built
      cases first : set start name v with
      | error e => rw [first] at built; cases built
      | ok next =>
          rw [first] at built
          have later := ih sorted built
          by_cases same : key = name
          · subst same
            have absent : rest.lookup key = none := Keyed.lookup_eq_none_of_lt below
            rw [absent] at later
            simp only [List.lookup_cons, beq_self_eq_true]
            rw [later]
            exact own _ _ _ first
          · rw [others _ _ _ _ (Ne.symm same) first] at later
            simpa only [List.lookup_cons, beq_eq_false_iff_ne.2 same] using later

end Toml.Decode

namespace Service

inductive Field
  | target
  | targetUrl
  | path
  | toUserIds
  | virtualUsers
  | iterations
  | durationSecs
  | ttlSeconds
  | expectedStatus
  | thinkTimeMs
  | seed
  | phrases
  | requestTimeoutMs
  deriving Repr, DecidableEq

namespace Field

abbrev Value : Field → Type
  | target | targetUrl | path => String
  | toUserIds | phrases => List String
  | virtualUsers | iterations | durationSecs | thinkTimeMs | seed | requestTimeoutMs => UInt64
  | ttlSeconds => Int64
  | expectedStatus => UInt16

def name : Field → String
  | target => "target"
  | targetUrl => "target_url"
  | path => "path"
  | toUserIds => "to_user_ids"
  | virtualUsers => "virtual_users"
  | iterations => "iterations"
  | durationSecs => "duration_secs"
  | ttlSeconds => "ttl_seconds"
  | expectedStatus => "expected_status"
  | thinkTimeMs => "think_time_ms"
  | seed => "seed"
  | phrases => "phrases"
  | requestTimeoutMs => "request_timeout_ms"

def all : List Field :=
  [target, targetUrl, path, toUserIds, virtualUsers, iterations, durationSecs, ttlSeconds,
    expectedStatus, thinkTimeMs, seed, phrases, requestTimeoutMs]

def keys (f : Field) : List String := ["services", "push_loadtest", f.name]

def read (origin : Origin) : (f : Field) → Toml → Except Toml.Error f.Value
  | target | targetUrl | path => text origin
  | toUserIds | phrases => texts origin
  | virtualUsers => unsigned64 origin "usize"
  | iterations | durationSecs | thinkTimeMs | seed | requestTimeoutMs => unsigned64 origin "u64"
  | ttlSeconds => signed64 origin "i64"
  | expectedStatus => unsigned16 origin "u16"

end Field

variable {f : Field} {s t : Service} {origin : Origin} {value : Toml} {name : String}
  {entries : List (String × Toml)}

def get (s : Service) : (f : Field) → Option f.Value
  | .target => s.target
  | .targetUrl => s.targetUrl
  | .path => s.path
  | .toUserIds => s.toUserIds
  | .virtualUsers => s.virtualUsers
  | .iterations => s.iterations
  | .durationSecs => s.durationSecs
  | .ttlSeconds => s.ttlSeconds
  | .expectedStatus => s.expectedStatus
  | .thinkTimeMs => s.thinkTimeMs
  | .seed => s.seed
  | .phrases => s.phrases
  | .requestTimeoutMs => s.requestTimeoutMs

def put (s : Service) : (f : Field) → Option f.Value → Service
  | .target, given => { s with target := given }
  | .targetUrl, given => { s with targetUrl := given }
  | .path, given => { s with path := given }
  | .toUserIds, given => { s with toUserIds := given }
  | .virtualUsers, given => { s with virtualUsers := given }
  | .iterations, given => { s with iterations := given }
  | .durationSecs, given => { s with durationSecs := given }
  | .ttlSeconds, given => { s with ttlSeconds := given }
  | .expectedStatus, given => { s with expectedStatus := given }
  | .thinkTimeMs, given => { s with thinkTimeMs := given }
  | .seed, given => { s with seed := given }
  | .phrases, given => { s with phrases := given }
  | .requestTimeoutMs, given => { s with requestTimeoutMs := given }

theorem get_put (s : Service) (f : Field) (given : Option f.Value) :
    (s.put f given).get f = given := by
  cases f <;> rfl

theorem get_put_of_ne {g : Field} (different : f ≠ g) (given : Option g.Value) :
    (s.put g given).get f = s.get f := by
  cases g <;> cases f <;> first | rfl | exact absurd rfl different

theorem get_empty (f : Field) : ({} : Service).get f = none := by
  cases f <;> rfl

theorem get_merge (base overlay : Service) (f : Field) :
    (base.merge overlay).get f = (overlay.get f <|> base.get f) := by
  cases f <;> rfl

theorem ext_get {s t : Service} (same : ∀ f, s.get f = t.get f) : s = t := by
  obtain ⟨target, targetUrl, path, toUserIds, virtualUsers, iterations, durationSecs, ttlSeconds,
    expectedStatus, thinkTimeMs, seed, phrases, requestTimeoutMs⟩ := s
  rw [mk.injEq]
  exact ⟨same .target, same .targetUrl, same .path, same .toUserIds, same .virtualUsers,
    same .iterations, same .durationSecs, same .ttlSeconds, same .expectedStatus,
    same .thinkTimeMs, same .seed, same .phrases, same .requestTimeoutMs⟩

theorem bind_present {ε α β : Type} (x : Except ε α) (k : Option α → β) :
    (present x >>= fun a => pure (k a)) = x.map fun a => k (some a) := by
  cases x <;> rfl

theorem set_name (origin : Origin) (s : Service) (f : Field) (value : Toml) :
    set origin s f.name value = (f.read origin value).map fun x => s.put f (some x) := by
  rw [← bind_present]
  cases f <;> rfl

theorem set_of_not_mem (unknown : name ∉ fields) :
    set origin s name value = (ignore value).map fun _ => s := by
  unfold set
  split <;> first
    | exact absurd (by decide) unknown
    | cases ignore value <;> rfl

theorem get_set_name (changed : set origin s f.name value = .ok t) :
    (f.read origin value).map some = .ok (t.get f) := by
  rw [set_name] at changed
  obtain ⟨x, read, rfl⟩ := Except.map_eq_ok.1 changed
  rw [read, get_put]
  rfl

theorem get_set_of_ne (different : name ≠ f.name) (changed : set origin s name value = .ok t) :
    t.get f = s.get f := by
  by_cases known : name ∈ fields
  · obtain ⟨g, -, rfl⟩ := List.mem_map.1 (show name ∈ Field.all.map Field.name from known)
    rw [set_name] at changed
    obtain ⟨x, -, rfl⟩ := Except.map_eq_ok.1 changed
    exact get_put_of_ne (fun same => different (by rw [same])) _
  · rw [set_of_not_mem known] at changed
    obtain ⟨-, -, rfl⟩ := Except.map_eq_ok.1 changed
    rfl

theorem get_of_ofToml (sorted : Keyed.Sorted entries)
    (built : ofToml origin (.table entries) = .ok s) (f : Field) :
    (entries.lookup f.name).mapM (f.read origin) = .ok (s.get f) := by
  have part := part_of_record (·.get f) (fun _ _ _ => get_set_name)
    (fun _ _ _ _ => get_set_of_ne) sorted built
  cases found : entries.lookup f.name with
  | none =>
      simp only [found, get_empty] at part
      rw [part]
      rfl
  | some v =>
      simp only [found] at part
      exact part

theorem section_of_ofSection {service? : Option Service} (sorted : Keyed.Sorted entries)
    (built : ofSection origin (.table entries) = .ok service?) :
    match entries.lookup "push_loadtest" with
    | none => service? = none
    | some value => (ofToml origin value).map some = .ok service? := by
  refine part_of_record id ?_ ?_ sorted built
  · intro before value after changed
    obtain ⟨service, read, made⟩ := Except.bind_eq_ok.1 changed
    rw [read]
    exact made
  · intro before name value after different changed
    split at changed
    · exact absurd rfl different
    · obtain ⟨_, -, made⟩ := Except.bind_eq_ok.1 changed
      cases made
      rfl

theorem get_of_services {service? : Option Service} (ordered : (Toml.table entries).Ordered)
    (opens : (Toml.table entries).Open f.keys)
    (built : match entries.lookup "services" with
      | none => service? = none
      | some value => ofSection origin value = .ok service?) :
    ((Toml.table entries).at? f.keys).mapM (f.read origin) =
      .ok ((service?.getD {}).get f) := by
  cases ordered with
  | table sorted each =>
      cases found : entries.lookup "services" with
      | none =>
          simp only [found] at built
          simp only [Field.keys, Toml.at?, found, built, Option.getD_none, get_empty]
          rfl
      | some value =>
          simp only [found] at built
          obtain ⟨inner, rfl⟩ := (opens value found).exists_table
          cases each _ (Keyed.mem_of_lookup found) with
          | table sorted each =>
              have service := section_of_ofSection sorted built
              cases given : inner.lookup "push_loadtest" with
              | none =>
                  simp only [given] at service
                  simp only [Field.keys, Toml.at?, found, Option.bind_some, given, service,
                    Option.getD_none, get_empty]
                  rfl
              | some part =>
                  obtain ⟨fields, rfl⟩ := (opens _ found part given).exists_table
                  simp only [given] at service
                  obtain ⟨s, read, rfl⟩ := Except.map_eq_ok.1 service
                  cases each _ (Keyed.mem_of_lookup given) with
                  | table sorted _ =>
                      have field := get_of_ofToml sorted read f
                      simpa [Field.keys, Toml.at?, found, given] using field

end Service

variable {f : Service.Field} {origin : Origin} {entries : List (String × Toml)}

theorem Settings.get_of_ofToml {s : Settings} (ordered : (Toml.table entries).Ordered)
    (opens : (Toml.table entries).Open f.keys) (built : ofToml origin (.table entries) = .ok s) :
    ((Toml.table entries).at? f.keys).mapM (f.read origin) = .ok (s.serviceOrEmpty.get f) := by
  cases ordered with
  | table sorted each =>
      refine Service.get_of_services (.table sorted each) opens ?_
      refine part_of_record Settings.service ?_ ?_ sorted built
      · intro before value after changed
        obtain ⟨service?, read, made⟩ := Except.bind_eq_ok.1 changed
        cases made
        exact read
      · intro before name value after different changed
        unfold Settings.set at changed
        split at changed
        case h_3 => exact absurd rfl different
        all_goals
          obtain ⟨_, -, made⟩ := Except.bind_eq_ok.1 changed
          cases made
          rfl

theorem Overlay.get_of_ofToml {o : Overlay} (ordered : (Toml.table entries).Ordered)
    (opens : (Toml.table entries).Open f.keys) (built : ofToml (.table entries) = .ok o) :
    ((Toml.table entries).at? f.keys).mapM (f.read .fragments) =
      .ok ((o.service.getD {}).get f) := by
  cases ordered with
  | table sorted each =>
      refine Service.get_of_services (.table sorted each) opens ?_
      refine part_of_record Overlay.service ?_ ?_ sorted built
      · intro before value after changed
        obtain ⟨service?, read, made⟩ := Except.bind_eq_ok.1 changed
        cases made
        exact read
      · intro before name value after different changed
        unfold Overlay.set at changed
        split at changed
        case h_2 => exact absurd rfl different
        all_goals
          obtain ⟨_, -, made⟩ := Except.bind_eq_ok.1 changed
          cases made
          rfl

end Volley
