import Volley.Proofs.Push.Recipe

namespace Volley

def Push.timeless (p : Push) : Push := { p with timestamp := 0, expiry := "" }

namespace Recipe

def series (r : Recipe) : List Int64 → Making (List Push)
  | [] => return []
  | now :: later => do
    let push ← r.compose now
    let pushes ← r.series later
    return push :: pushes

variable {r : Recipe} {β : Type} {view : Push → β} {times others : List Int64}
  {source rest left : WordSource} {pushes more : List Push}

theorem timestamp_of_compose {now : Int64} {push : Push}
    (composed : r.compose now source = some (.ok push, rest)) : push.timestamp = now := by
  simp only [compose, Making.bind_eq_ok, Making.lift_eq_ok] at composed
  obtain ⟨_, _, _, _, _, _, _, _, _, _, _, _, ⟨⟩⟩ := composed
  rfl

theorem series_nil :
    r.series [] source = some (.ok pushes, rest) ↔ pushes = [] ∧ source = rest := by
  change some (Except.ok ([] : List Push), source) = some (.ok pushes, rest) ↔ _
  simp [eq_comm]

theorem series_cons {now : Int64} :
    r.series (now :: times) source = some (.ok pushes, rest) ↔
      ∃ push left, r.compose now source = some (.ok push, left) ∧
        ∃ later, r.series times left = some (.ok later, rest) ∧ pushes = push :: later := by
  simp only [series, Making.bind_eq_ok]
  constructor
  · rintro ⟨push, left, composed, later, _, composedLater, ⟨⟩⟩
    exact ⟨push, left, composed, later, composedLater, rfl⟩
  · rintro ⟨push, left, composed, later, composedLater, rfl⟩
    exact ⟨push, left, composed, later, rest, composedLater, rfl⟩

theorem series_concat {now : Int64} {push : Push}
    (composed : r.series times source = some (.ok pushes, rest))
    (next : r.compose now rest = some (.ok push, left)) :
    r.series (times ++ [now]) source = some (.ok (pushes ++ [push]), left) := by
  induction times generalizing source pushes with
  | nil =>
      obtain ⟨rfl, rfl⟩ := series_nil.1 composed
      exact series_cons.2 ⟨push, left, next, [], rfl, rfl⟩
  | cons first times ih =>
      obtain ⟨earliest, between, begun, later, composedLater, rfl⟩ := series_cons.1 composed
      exact series_cons.2 ⟨earliest, between, begun, later ++ [push], ih composedLater, rfl⟩

/-- However many pushes are asked for, no draw of words from the source goes on for ever. -/
def Supplied (r : Recipe) (source : WordSource) : Prop :=
  ∀ times, ∃ made rest, r.series times source = some (made, rest)

theorem Supplied.compose (supplied : r.Supplied source) (now : Int64) :
    ∃ made left, r.compose now source = some (made, left) := by
  obtain ⟨made, rest, composed⟩ := supplied [now]
  rw [series, Making.bind_apply] at composed
  cases first : r.compose now source with
  | none => simp [first] at composed
  | some drawn => exact ⟨drawn.1, drawn.2, rfl⟩

theorem Supplied.after {now : Int64} {push : Push} (supplied : r.Supplied source)
    (composed : r.compose now source = some (.ok push, left)) : r.Supplied left := by
  intro times
  obtain ⟨made, rest, all⟩ := supplied (now :: times)
  simp only [series, Making.bind_apply, composed, Option.bind_some] at all
  cases others : r.series times left with
  | none => simp [others] at all
  | some drawn => exact ⟨drawn.1, drawn.2, rfl⟩

theorem Fits.supplied_zeros (fits : r.Fits) : r.Supplied (.ofWords []) := by
  -- Nothing is used up of words that are all zero.
  intro times
  suffices composed : ∃ pushes, r.series times (.ofWords []) = some (.ok pushes, .ofWords []) by
    obtain ⟨pushes, composed⟩ := composed
    exact ⟨.ok pushes, _, composed⟩
  induction times with
  | nil => exact ⟨[], rfl⟩
  | cons now later ih =>
      obtain ⟨push, composed⟩ := fits.compose_zeros now
      obtain ⟨pushes, others⟩ := ih
      exact ⟨push :: pushes, series_cons.2 ⟨push, _, composed, pushes, others, rfl⟩⟩

def Agree (r : Recipe) (view : Push → β) (now later : Int64) : Prop :=
  ∀ {source left : WordSource} {push : Push}, r.compose now source = some (.ok push, left) →
    ∃ other, r.compose later source = some (.ok other, left) ∧ view other = view push

theorem agree_refl (now : Int64) : r.Agree view now now :=
  fun composed => ⟨_, composed, rfl⟩

theorem agree_timeless (now later : Int64) : r.Agree Push.timeless now later := by
  intro source left push composed
  simp only [compose, Making.bind_eq_ok, Making.lift_eq_ok] at composed ⊢
  obtain ⟨phrase, _, picked, contentId, _, first, sender, _, second, kind, _, third, ⟨⟩⟩ := composed
  exact ⟨_, ⟨phrase, _, picked, contentId, _, first, sender, _, second, kind, _, third, rfl⟩, rfl⟩

theorem series_isPrefix (agree : ∀ now ∈ times, ∀ later ∈ others, r.Agree view now later)
    (first : r.series times source = some (.ok pushes, rest))
    (second : r.series others source = some (.ok more, left))
    (shorter : times.length ≤ others.length) : pushes.map view <+: more.map view := by
  -- Before each push the words at hand are the same in both series.
  induction times generalizing others source pushes more with
  | nil =>
      rw [(series_nil.1 first).1]
      exact List.nil_prefix
  | cons now times ih =>
      cases others with
      | nil => cases shorter
      | cons later others =>
          obtain ⟨push, between, composed, pushes, firstLater, rfl⟩ := series_cons.1 first
          obtain ⟨other, _, composedLater, more, secondLater, rfl⟩ := series_cons.1 second
          obtain ⟨_, same, looks⟩ := agree now (by simp) later (by simp) composed
          cases composedLater.symm.trans same
          rw [List.map_cons, List.map_cons, looks, List.prefix_cons_inj]
          exact ih (fun a inside b among => agree a (List.mem_cons_of_mem _ inside) b
            (List.mem_cons_of_mem _ among)) firstLater secondLater (Nat.le_of_succ_le_succ shorter)

theorem series_comparable (agree : ∀ now ∈ times, ∀ later ∈ others, r.Agree view now later)
    (agreeBack : ∀ later ∈ others, ∀ now ∈ times, r.Agree view later now)
    (first : r.series times source = some (.ok pushes, rest))
    (second : r.series others source = some (.ok more, left)) :
    pushes.map view <+: more.map view ∨ more.map view <+: pushes.map view := by
  rcases Nat.le_total times.length others.length with shorter | longer
  · exact .inl (series_isPrefix agree first second shorter)
  · exact .inr (series_isPrefix agreeBack second first longer)

end Recipe

end Volley
