import Mathlib.Data.Multiset.Filter
import Volley.Http.Post

/-! The loop over the configured fields is one induction (`Draft.foldl_carry`). -/

namespace Volley.Http

namespace Header

def isOther (h : Header) : Bool := !h.isContentType

end Header

variable {idna : Url.Idna} {url body : String} {target : Url} {configured : List Header}
  {d : Draft} {r : Request}

namespace Draft

theorem foldl_carry_error (fault : Fault) (configured : List Header) :
    configured.foldl carry (.error fault) = .error fault := by
  induction configured with
  | nil => rfl
  | cons h rest ih =>
      have spoiled : carry (.error fault) h = .error fault := by
        unfold carry
        split <;> rfl
      rw [List.foldl_cons, spoiled, ih]

theorem append_of_valid {h : Header} (valid : h.isValid = true) :
    d.append h = .ok { d with headers := d.headers ++ [h.carried] } := by
  rw [append, if_pos valid]

theorem foldl_carry (d : Draft) (configured : List Header) :
    configured.foldl carry (.ok d) =
      if (configured.filter Header.isOther).all Header.isValid then
        .ok { d with headers := d.headers ++ (configured.filter Header.isOther).map Header.carried }
      else .error (.unsendable none) := by
  induction configured generalizing d with
  | nil => simp
  | cons h rest ih =>
      rw [List.foldl_cons, carry]
      cases type : h.isContentType with
      | true =>
          rw [List.filter_cons_of_neg (by simp [Header.isOther, type]), if_pos rfl, ih]
      | false =>
          rw [List.filter_cons_of_pos (by simp [Header.isOther, type]), if_neg Bool.false_ne_true]
          change rest.foldl carry (d.append h) = _
          cases valid : h.isValid with
          | true =>
              rw [append_of_valid valid, ih, List.all_cons, valid, Bool.true_and]
              simp
          | false =>
              -- No later field mends the request.
              rw [append, if_neg (by simp [valid]), foldl_carry_error, List.all_cons, valid]
              rfl

theorem append_jsonType (d : Draft) :
    d.append jsonType = .ok { d with headers := d.headers ++ [jsonType] } := by
  have valid : jsonType.isValid = true := by decide +kernel
  have small : jsonType.carried = jsonType := by decide +kernel
  rw [append_of_valid valid, small]

theorem openTo_eq (parsed : Url.parse idna url = .ok target) (hosted : target.host? ≠ none) :
    openTo idna url = .ok ⟨(withoutUser target).1, (withoutUser target).2, ""⟩ := by
  have known : target.host?.isNone = false := Option.isNone_eq_false_iff.2
    (Option.isSome_iff_ne_none.2 hosted)
  simp [openTo, parsed, known]

theorem prepare_eq (parsed : Url.parse idna r.url = .ok target) (hosted : target.host? ≠ none) :
    prepare idna r =
      if (r.headers.filter Header.isOther).all Header.isValid then
        .ok ⟨(withoutUser target).1,
          (withoutUser target).2 ++
            jsonType :: (r.headers.filter Header.isOther).map Header.carried, r.body⟩
      else .error (.unsendable none) := by
  rw [prepare, openTo_eq parsed hosted, fill]
  change (r.headers.foldl carry (append _ jsonType)).map _ = _
  rw [append_jsonType, foldl_carry]
  split
  · simp [Except.map]
  · rfl

theorem prepare_of_fault {fault : Fault} (closed : openTo idna r.url = .error fault) :
    prepare idna r = .error fault := by
  rw [prepare, closed, fill]
  change (r.headers.foldl carry (.error fault)).map _ = _
  rw [foldl_carry_error]
  rfl

end Draft

theorem Message.make_eq (idna : Url.Idna) (r : Request) :
    make idna r.url r.headers r.body = (Draft.prepare idna r).bind Draft.message := by
  unfold make
  cases parsed : Url.parse idna r.url with
  | error reason =>
      have closed : Draft.openTo idna r.url = .error (.unsendable none) := by
        rw [Draft.openTo, parsed]
      rw [Draft.prepare_of_fault closed]
      rfl
  | ok target =>
      cases host : target.host? with
      | none =>
          have closed : Draft.openTo idna r.url = .error (.unsendable (some target)) := by
            simp [Draft.openTo, parsed, host]
          simp [Draft.prepare_of_fault closed, host, Except.bind]
      | some host =>
          rw [Draft.prepare_eq parsed (by simp [host])]
          change (if target.host?.isNone = true then _ else
            if (!(r.headers.filter Header.isOther).all Header.isValid) = true then _ else _) = _
          rw [host, if_neg (by simp)]
          cases valid : (r.headers.filter Header.isOther).all Header.isValid with
          | false => rfl
          | true =>
              rw [if_neg (by simp), if_pos rfl]
              change (if (!isSendable (withoutUser target).1) = true then _ else _) =
                if isSendable (withoutUser target).1 = true then _ else _
              cases isSendable (withoutUser target).1 <;> rfl

theorem Fault.toTransportError_toClientError (fault : Fault) :
    fault.toClientError.toTransportError = fault.toTransportError := by
  cases fault <;> rfl

theorem post_of_fault {σ : Type} (client : Client σ) {fault : Fault}
    (spoiled : Draft.prepare idna r = .error fault) (s : σ) :
    post idna client r s = (.failed r.headers fault.toClientError, s) := by
  rw [post, spoiled]
  rfl

theorem post_of_draft {σ : Type} (client : Client σ) (prepared : Draft.prepare idna r = .ok d)
    (s : σ) :
    post idna client r s = (.ofReturned r.headers (client d s).1, (client d s).2) := by
  rw [post, prepared]
  rfl

theorem refuse_eq (idna : Url.Idna) (r : Request) :
    refuse idna r =
      ⟨0, (post idna refusing r ()).1.ending, (post idna refusing r ()).1.events⟩ := by
  rw [refuse, Message.make_eq]
  cases prepared : Draft.prepare idna r with
  | error fault =>
      rw [post_of_fault refusing prepared]
      simp [Except.bind, Posted.failed, Posted.ending, Fault.toTransportError_toClientError]
  | ok d =>
      have refused : (refusing d ()).1 = .error d.refusal.toClientError := rfl
      rw [post_of_draft refusing prepared, refused]
      cases made : d.message <;>
        simp [Except.bind, Draft.refusal, made, Posted.ofReturned, Posted.failed, Posted.ending,
          Fault.toTransportError_toClientError]

theorem withoutUser_cases (url : Url) :
    (withoutUser url).2 = [] ∨ ∃ user password,
      (withoutUser url).2 = [authorization user password] := by
  unfold withoutUser
  cases url.authority with
  | none => exact .inl rfl
  | some a =>
      dsimp only
      cases unescape? a.user with
      | none => exact .inl rfl
      | some user =>
          generalize (if a.password.isEmpty then none else unescape? a.password) = password
          dsimp only
          split
          · exact .inl rfl
          · exact .inr ⟨user, password, rfl⟩

theorem filter_withoutUser (url : Url) :
    (withoutUser url).2.filter (·.1 = Header.contentType) = [] := by
  rcases withoutUser_cases url with none | ⟨user, password, one⟩
  · rw [none]
    rfl
  · rw [one]
    rfl

theorem filter_carried (configured : List Header) :
    ((configured.filter Header.isOther).map Header.carried).filter (·.1 = Header.contentType) =
      [] := by
  rw [List.filter_eq_nil_iff]
  intro h member
  obtain ⟨own, kept, rfl⟩ := List.mem_map.1 member
  have other : ¬own.1.toLower = Header.contentType := by
    simpa [Header.isOther, Header.isContentType] using List.of_mem_filter kept
  exact fun same => other (of_decide_eq_true same)

/-- A request carries the type of its body once, each configured field that does not speak of the
type once, and beside these the fields that are its own. -/
structure Draft.Carries (d : Draft) (own : List Header) (map : Multiset Header) : Prop where
  typed : d.headers.filter (·.1 = Header.contentType) = [jsonType]
  fields : (d.headers : Multiset Header) =
    own + jsonType ::ₘ (map.filter (·.isOther)).map Header.carried

theorem Draft.carries_of_prepare (parsed : Url.parse idna r.url = .ok target)
    (hosted : target.host? ≠ none) (prepared : prepare idna r = .ok d) :
    d.url = (withoutUser target).1 ∧ d.body = r.body ∧
      d.Carries (withoutUser target).2 r.headers := by
  rw [prepare_eq parsed hosted] at prepared
  split at prepared
  · cases prepared
    refine ⟨rfl, rfl, ?_, ?_⟩
    · rw [List.filter_append, filter_withoutUser, List.nil_append,
        List.filter_cons_of_pos (by simp [jsonType]), filter_carried]
    · simp
  · cases prepared

/-- Posting to a URL with a host is what the client makes of a request with the configured fields,
in whatever order these come. If one of them may not be sent, the client is not asked. -/
theorem post_carries (parsed : Url.parse idna url = .ok target) (hosted : target.host? ≠ none)
    (map : Multiset Header) (order : List Header) (ordered : (order : Multiset Header) = map)
    (body : String) :
    ((∀ h ∈ map, h.isOther → h.isValid) →
      ∃ draft : Draft, draft.url = (withoutUser target).1 ∧ draft.body = body ∧
        draft.Carries (withoutUser target).2 map ∧
        Message.make idna url order body = draft.message ∧
        ∀ {σ : Type} (client : Client σ) (s : σ), post idna client ⟨url, order, body⟩ s =
          (.ofReturned order (client draft s).1, (client draft s).2)) ∧
    ((∃ h ∈ map, h.isOther ∧ h.isValid = false) →
      Message.make idna url order body = .error (.unsendable none) ∧
      ∃ posted : Posted, posted.result = .error ⟨.request, "builder error"⟩ ∧
        ∀ {σ : Type} (client : Client σ) (s : σ),
          post idna client ⟨url, order, body⟩ s = (posted, s)) := by
  subst ordered
  have prepared := Draft.prepare_eq (r := ⟨url, order, body⟩) parsed hosted
  have made := Message.make_eq idna ⟨url, order, body⟩
  refine ⟨fun valid => ?_, fun ⟨h, member, other, invalid⟩ => ?_⟩
  · have all : (order.filter Header.isOther).all Header.isValid = true :=
      List.all_eq_true.2 fun h member =>
        valid h (List.mem_of_mem_filter member) (List.of_mem_filter member)
    obtain ⟨draft, prepared⟩ : ∃ draft, Draft.prepare idna ⟨url, order, body⟩ = .ok draft :=
      ⟨_, prepared.trans (if_pos all)⟩
    obtain ⟨place, text, carries⟩ := Draft.carries_of_prepare
      (r := ⟨url, order, body⟩) parsed hosted prepared
    rw [prepared, Except.bind] at made
    exact ⟨draft, place, text, carries, made, fun client => post_of_draft client prepared⟩
  · have spoiled : ¬(order.filter Header.isOther).all Header.isValid = true := fun all => by
      have valid := List.all_eq_true.1 all h (List.mem_filter.2 ⟨member, other⟩)
      exact Bool.false_ne_true (invalid.symm.trans valid)
    rw [if_neg spoiled] at prepared
    rw [prepared, Except.bind] at made
    exact ⟨made, .failed order (Fault.unsendable none).toClientError, rfl, fun client =>
      post_of_fault client prepared⟩

def keeping : Client (List Draft) := fun draft given => (.ok ⟨200, .ok ""⟩, draft :: given)

def rivals : List Header := [("X-Room", "1"), ("Content-TYPE", "text/plain"), ("x-room", "2")]

theorem post_carries_rivals :
    (∃ draft : Draft, draft.Carries [authorization "me" none] rivals ∧
      post .ascii keeping ⟨"http://me@push.test/v1", rivals.reverse, ""⟩ [] =
        (⟨.ok (200, ""), notes rivals.reverse⟩, [draft])) ∧
    ∃ posted : Posted, posted.result = .error ⟨.request, "builder error"⟩ ∧
      post .ascii keeping ⟨"http://me@push.test/v1", ("X Room", "3") :: rivals, ""⟩ [] =
        (posted, []) := by
  obtain ⟨target, parsed, hosted, user⟩ : ∃ target,
      Url.parse .ascii "http://me@push.test/v1" = .ok target ∧ target.host? ≠ none ∧
        (withoutUser target).2 = [authorization "me" none] := by
    refine ⟨⟨"http", some ⟨"me", "", some (.name "push.test"), none⟩, .segments ["v1"], none,
      none⟩, ?_⟩
    decide +kernel
  constructor
  · obtain ⟨draft, -, -, carries, -, posted⟩ := (post_carries parsed hosted rivals rivals.reverse
      (Multiset.coe_eq_coe.2 rivals.reverse_perm) "").1 (by decide +kernel)
    exact ⟨draft, user ▸ carries, posted keeping []⟩
  · obtain ⟨-, posted, failed, kept⟩ := (post_carries parsed hosted (("X Room", "3") :: rivals) _
      rfl "").2 ⟨("X Room", "3"), by simp, by decide +kernel⟩
    exact ⟨posted, failed, kept keeping []⟩

end Volley.Http
